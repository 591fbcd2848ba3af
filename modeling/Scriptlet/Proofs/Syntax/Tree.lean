import Scriptlet.Syntax.Node
/-!
# Trees

The nodes inside a tree, and trees whose places are changed. What is said of every node of a tree is
said of the node itself and of the trees directly inside it (`Node.forall_within`).
-/
namespace Scriptlet

def SuffixKind.children : SuffixKind → List Node
  | .arguments items => items
  | .index place => [place]
  | .property _ => []

def NodeKind.suffixes : NodeKind → List Suffix
  | .call _ suffixes => suffixes
  | _ => []

/-- The nodes directly inside a construct, those of its suffixes included. -/
def NodeKind.children : NodeKind → List Node
  | .statements body => body
  | .whileLoop condition body => [condition, body]
  | .conditional branches otherwise =>
    branches.flatMap (fun (condition, body) => [condition, body]) ++ otherwise.toList
  | .function _ body => [body]
  | .call callee suffixes => callee :: suffixes.flatMap (·.kind.children)
  | .assignment _ _ value => [value]
  | .propertyAssignment holder _ value => [holder, value]
  | .disjunction operands => operands
  | .conjunction operands => operands
  | .comparison left _ right => [left, right]
  | .unary _ operand => [operand]
  | .arithmetic first rest => first :: rest.map (·.2)
  | .object properties => properties.map (·.2)
  | .array items => items
  | .template parts => parts
  | .identifier _ | .number _ | .bool _ | .undefined | .text _ => []

namespace Node

/-- A node is the given tree or lies somewhere inside it. -/
inductive Within (node : Node) : Node → Prop
  | self : Within node node
  | child {child tree : Node} : child ∈ tree.kind.children → Within node child → Within node tree

theorem forall_within {P : Node → Prop} {tree : Node} :
    (∀ node, node.Within tree → P node) ↔
      P tree ∧ ∀ child ∈ tree.kind.children, ∀ node, node.Within child → P node := by
  constructor
  · intro h
    exact ⟨h tree .self, fun child hchild node hnode => h node (.child hchild hnode)⟩
  · rintro ⟨hself, hchildren⟩ node hnode
    cases hnode with
    | self => exact hself
    | child hchild hnode => exact hchildren _ hchild node hnode

end Node

section Induction

-- The step is used by every theorem of the block, if only through the others.
set_option linter.unusedSectionVars false

variable {P : Node → Prop}
  (step : ∀ tree : Node, (∀ child ∈ tree.kind.children, P child) → P tree)

include step

mutual

/-- What holds of a tree as soon as it holds of the trees directly inside it holds of all trees. -/
theorem Node.induction : ∀ tree, P tree
  | ⟨kind, p⟩ => step ⟨kind, p⟩ (NodeKind.children_induction kind)

theorem NodeKind.children_induction : ∀ kind : NodeKind, ∀ child ∈ kind.children, P child
  | .statements body => nodes_induction body
  | .whileLoop condition body => by
    simp only [NodeKind.children, List.forall_mem_cons]
    exact ⟨Node.induction condition, Node.induction body, by simp⟩
  | .conditional branches otherwise => by
    rw [NodeKind.children, List.forall_mem_append]
    exact ⟨branches_induction branches, option_induction otherwise⟩
  | .function params body => List.forall_mem_singleton.2 (Node.induction body)
  | .call callee suffixes =>
    List.forall_mem_cons.2 ⟨Node.induction callee, suffixes_induction suffixes⟩
  | .assignment mutable name value => List.forall_mem_singleton.2 (Node.induction value)
  | .propertyAssignment object name value => by
    simp only [NodeKind.children, List.forall_mem_cons]
    exact ⟨Node.induction object, Node.induction value, by simp⟩
  | .disjunction operands => nodes_induction operands
  | .conjunction operands => nodes_induction operands
  | .comparison left op right => by
    simp only [NodeKind.children, List.forall_mem_cons]
    exact ⟨Node.induction left, Node.induction right, by simp⟩
  | .unary op operand => List.forall_mem_singleton.2 (Node.induction operand)
  | .arithmetic first rest =>
    List.forall_mem_cons.2 ⟨Node.induction first, operands_induction rest⟩
  | .object properties => properties_induction properties
  | .array items => nodes_induction items
  | .template parts => nodes_induction parts
  | .identifier _ | .number _ | .bool _ | .undefined | .text _ => by simp [NodeKind.children]

theorem suffix_induction : ∀ suffix : Suffix, ∀ child ∈ suffix.kind.children, P child
  | ⟨.arguments items, _⟩ => nodes_induction items
  | ⟨.index place, _⟩ => List.forall_mem_singleton.2 (Node.induction place)
  | ⟨.property _, _⟩ => by simp [SuffixKind.children]

theorem nodes_induction : ∀ nodes : List Node, ∀ child ∈ nodes, P child
  | [] => by simp
  | node :: nodes => List.forall_mem_cons.2 ⟨Node.induction node, nodes_induction nodes⟩

theorem branches_induction : ∀ branches : List (Node × Node),
    ∀ child ∈ branches.flatMap fun (condition, body) => [condition, body], P child
  | [] => by simp
  | (condition, body) :: branches => by
    rw [List.flatMap_cons, List.forall_mem_append]
    refine ⟨?_, branches_induction branches⟩
    simp only [List.forall_mem_cons]
    exact ⟨Node.induction condition, Node.induction body, by simp⟩

theorem option_induction : ∀ otherwise : Option Node, ∀ child ∈ otherwise.toList, P child
  | none => by simp
  | some node => List.forall_mem_singleton.2 (Node.induction node)

theorem suffixes_induction : ∀ suffixes : List Suffix,
    ∀ child ∈ suffixes.flatMap (·.kind.children), P child
  | [] => by simp
  | suffix :: suffixes => by
    rw [List.flatMap_cons, List.forall_mem_append]
    exact ⟨suffix_induction suffix, suffixes_induction suffixes⟩

theorem operands_induction : ∀ operands : List (ArithmeticOperator × Node),
    ∀ child ∈ operands.map (·.2), P child
  | [] => by simp
  | (_, operand) :: operands =>
    List.forall_mem_cons.2 ⟨Node.induction operand, operands_induction operands⟩

theorem properties_induction : ∀ properties : List (String × Node),
    ∀ child ∈ properties.map (·.2), P child
  | [] => by simp
  | (_, value) :: properties =>
    List.forall_mem_cons.2 ⟨Node.induction value, properties_induction properties⟩

end

end Induction

/-! ## Changing places -/

mutual

def Node.relocate (f : Position → Position) : Node → Node
  | ⟨kind, p⟩ => ⟨kind.relocate f, f p⟩

def NodeKind.relocate (f : Position → Position) : NodeKind → NodeKind
  | .statements body => .statements (relocateNodes f body)
  | .whileLoop condition body => .whileLoop (condition.relocate f) (body.relocate f)
  | .conditional branches otherwise =>
    .conditional (relocateBranches f branches) (relocateOption f otherwise)
  | .function params body => .function params (body.relocate f)
  | .call callee suffixes => .call (callee.relocate f) (relocateSuffixes f suffixes)
  | .assignment mutable name value => .assignment mutable name (value.relocate f)
  | .propertyAssignment object name value =>
    .propertyAssignment (object.relocate f) name (value.relocate f)
  | .disjunction operands => .disjunction (relocateNodes f operands)
  | .conjunction operands => .conjunction (relocateNodes f operands)
  | .comparison left op right => .comparison (left.relocate f) op (right.relocate f)
  | .unary op operand => .unary op (operand.relocate f)
  | .arithmetic first rest => .arithmetic (first.relocate f) (relocateLabelled f rest)
  | .identifier name => .identifier name
  | .object properties => .object (relocateProperties f properties)
  | .array items => .array (relocateNodes f items)
  | .number digits => .number digits
  | .bool value => .bool value
  | .undefined => .undefined
  | .template parts => .template (relocateNodes f parts)
  | .text content => .text content

def Suffix.relocate (f : Position → Position) : Suffix → Suffix
  | ⟨kind, p⟩ => ⟨kind.relocate f, f p⟩

def SuffixKind.relocate (f : Position → Position) : SuffixKind → SuffixKind
  | .arguments items => .arguments (relocateNodes f items)
  | .index place => .index (place.relocate f)
  | .property name => .property name

def relocateNodes (f : Position → Position) : List Node → List Node
  | [] => []
  | node :: nodes => node.relocate f :: relocateNodes f nodes

def relocateBranches (f : Position → Position) : List (Node × Node) → List (Node × Node)
  | [] => []
  | (condition, body) :: branches =>
    (condition.relocate f, body.relocate f) :: relocateBranches f branches

def relocateOption (f : Position → Position) : Option Node → Option Node
  | none => none
  | some node => some (node.relocate f)

def relocateSuffixes (f : Position → Position) : List Suffix → List Suffix
  | [] => []
  | suffix :: suffixes => suffix.relocate f :: relocateSuffixes f suffixes

def relocateLabelled (f : Position → Position) :
    List (ArithmeticOperator × Node) → List (ArithmeticOperator × Node)
  | [] => []
  | (op, operand) :: operands => (op, operand.relocate f) :: relocateLabelled f operands

def relocateProperties (f : Position → Position) : List (String × Node) → List (String × Node)
  | [] => []
  | (name, value) :: properties => (name, value.relocate f) :: relocateProperties f properties

end

section Relocate

variable (f : Position → Position)

theorem relocateNodes_eq_map (nodes : List Node) :
    relocateNodes f nodes = nodes.map (·.relocate f) := by
  induction nodes with
  | nil => rfl
  | cons node nodes ih => rw [relocateNodes, ih, List.map_cons]

theorem relocateBranches_eq_map (branches : List (Node × Node)) :
    relocateBranches f branches =
      branches.map fun (condition, body) => (condition.relocate f, body.relocate f) := by
  induction branches with
  | nil => rfl
  | cons branch branches ih => rw [relocateBranches, ih, List.map_cons]

theorem relocateOption_eq_map (otherwise : Option Node) :
    relocateOption f otherwise = otherwise.map (·.relocate f) := by
  cases otherwise <;> rfl

theorem relocateSuffixes_eq_map (suffixes : List Suffix) :
    relocateSuffixes f suffixes = suffixes.map (·.relocate f) := by
  induction suffixes with
  | nil => rfl
  | cons suffix suffixes ih => rw [relocateSuffixes, ih, List.map_cons]

theorem relocateLabelled_eq_map (operands : List (ArithmeticOperator × Node)) :
    relocateLabelled f operands = operands.map fun (op, operand) => (op, operand.relocate f) := by
  induction operands with
  | nil => rfl
  | cons operand operands ih => rw [relocateLabelled, ih, List.map_cons]

theorem relocateProperties_eq_map (properties : List (String × Node)) :
    relocateProperties f properties =
      properties.map fun (name, value) => (name, value.relocate f) := by
  induction properties with
  | nil => rfl
  | cons property properties ih => rw [relocateProperties, ih, List.map_cons]

end Relocate

theorem Node.relocate_position (f : Position → Position) (node : Node) :
    (node.relocate f).position = f node.position := by
  cases node
  rfl

mutual

theorem Node.relocate_id : ∀ node : Node, node.relocate id = node
  | ⟨kind, _⟩ => by rw [Node.relocate, NodeKind.relocate_id kind, id]

theorem NodeKind.relocate_id : ∀ kind : NodeKind, kind.relocate id = kind
  | .statements body => by rw [NodeKind.relocate, relocateNodes_id body]
  | .whileLoop condition body => by
    rw [NodeKind.relocate, Node.relocate_id condition, Node.relocate_id body]
  | .conditional branches otherwise => by
    rw [NodeKind.relocate, relocateBranches_id branches, relocateOption_id otherwise]
  | .function params body => by rw [NodeKind.relocate, Node.relocate_id body]
  | .call callee suffixes => by
    rw [NodeKind.relocate, Node.relocate_id callee, relocateSuffixes_id suffixes]
  | .assignment mutable name value => by rw [NodeKind.relocate, Node.relocate_id value]
  | .propertyAssignment object name value => by
    rw [NodeKind.relocate, Node.relocate_id object, Node.relocate_id value]
  | .disjunction operands => by rw [NodeKind.relocate, relocateNodes_id operands]
  | .conjunction operands => by rw [NodeKind.relocate, relocateNodes_id operands]
  | .comparison left op right => by
    rw [NodeKind.relocate, Node.relocate_id left, Node.relocate_id right]
  | .unary op operand => by rw [NodeKind.relocate, Node.relocate_id operand]
  | .arithmetic first rest => by
    rw [NodeKind.relocate, Node.relocate_id first, relocateLabelled_id rest]
  | .object properties => by rw [NodeKind.relocate, relocateProperties_id properties]
  | .array items => by rw [NodeKind.relocate, relocateNodes_id items]
  | .template parts => by rw [NodeKind.relocate, relocateNodes_id parts]
  | .identifier _ | .number _ | .bool _ | .undefined | .text _ => by rw [NodeKind.relocate]

theorem Suffix.relocate_id : ∀ suffix : Suffix, suffix.relocate id = suffix
  | ⟨.arguments items, _⟩ => by
    rw [Suffix.relocate, SuffixKind.relocate, relocateNodes_id items, id]
  | ⟨.index place, _⟩ => by rw [Suffix.relocate, SuffixKind.relocate, Node.relocate_id place, id]
  | ⟨.property _, _⟩ => by rw [Suffix.relocate, SuffixKind.relocate, id]

theorem relocateNodes_id : ∀ nodes : List Node, relocateNodes id nodes = nodes
  | [] => rfl
  | node :: nodes => by rw [relocateNodes, Node.relocate_id node, relocateNodes_id nodes]

theorem relocateBranches_id : ∀ branches : List (Node × Node),
    relocateBranches id branches = branches
  | [] => rfl
  | (condition, body) :: branches => by
    rw [relocateBranches, Node.relocate_id condition, Node.relocate_id body,
      relocateBranches_id branches]

theorem relocateOption_id : ∀ otherwise : Option Node, relocateOption id otherwise = otherwise
  | none => rfl
  | some node => by rw [relocateOption, Node.relocate_id node]

theorem relocateSuffixes_id : ∀ suffixes : List Suffix, relocateSuffixes id suffixes = suffixes
  | [] => rfl
  | suffix :: suffixes => by
    rw [relocateSuffixes, Suffix.relocate_id suffix, relocateSuffixes_id suffixes]

theorem relocateLabelled_id : ∀ operands : List (ArithmeticOperator × Node),
    relocateLabelled id operands = operands
  | [] => rfl
  | (_, operand) :: operands => by
    rw [relocateLabelled, Node.relocate_id operand, relocateLabelled_id operands]

theorem relocateProperties_id : ∀ properties : List (String × Node),
    relocateProperties id properties = properties
  | [] => rfl
  | (_, value) :: properties => by
    rw [relocateProperties, Node.relocate_id value, relocateProperties_id properties]

end

end Scriptlet
