import Scriptlet.Proofs.Eval.Course
/-!
# What an evaluation visits

An evaluation gets to the nodes of its tree and to those of the bodies of functions, which come
from the same tree or were in the store before. So what all these nodes have in common is a property
of every node that is evaluated. Main statements: the functions that an evaluation leaves behind
have no other bodies (`Eval.evaluate_bodiesIn`), and it does not matter what would be done at other
nodes (`Eval.evaluateBy_eq`).
-/
namespace Scriptlet

def Node.All (P : Node → Prop) (tree : Node) : Prop :=
  ∀ node : Node, node.Within tree → P node

def Function.BodyIn (P : Node → Prop) (f : Function) : Prop :=
  ∀ outer body, f.code = .closure outer body → body.All P

/-- The nodes of all bodies in a store have a property, also those of the function that a
reference to nothing stands for. -/
def Store.BodiesIn (P : Node → Prop) (s : Store) : Prop :=
  ∀ ref, (s.function ref).BodyIn P

section Bodies

variable {P : Node → Prop} {s t : Store}

theorem Builtin.function_bodyIn (b : Builtin) : b.function.BodyIn P := by
  rintro outer body ⟨⟩

theorem Store.BodiesIn.congr (h : s.BodiesIn P) (hfunctions : t.functions = s.functions) :
    t.BodiesIn P := by
  intro ref
  rw [function, hfunctions]
  exact h ref

theorem Store.BodiesIn.addFunction (h : s.BodiesIn P) {f : Function} (hf : f.BodyIn P) :
    (s.addFunction f).2.BodiesIn P := by
  intro ref
  rw [function_addFunction]
  split
  · exact hf
  · exact h ref

end Bodies

/-- A state in which all bodies of functions consist of nodes with a property. -/
structure Visit (P : Node → Prop) where
  state : State
  bodies : state.store.BodiesIn P

namespace Visit

variable {α : Type} {P : Node → Prop}

def comparison (P : Node → Prop) : Comparison where
  World := Visit P
  state := Visit.state
  Mate w s := s = w.state
  Later _ _ := True
  Knows _ _ := True
  Reads _ := True
  Evaluates _ node := node.All P
  Calls _ _ f := f.BodyIn P
  rename := id

variable {w : Visit P} {rel : Visit P → α → α → Prop}

theorem pair (w : Visit P) (v : Value) : (comparison P).Pair w v v :=
  ⟨v.rename_id.symm, fun _ _ => trivial⟩

theorem isSelf : (comparison P).IsSelf :=
  ⟨rfl, id⟩

theorem matches_self {m : Eval α} (hm : ∀ t, (m w.state).final? = some t → t.store.BodiesIn P)
    (hrel : ∀ w' a, rel w' a a) : (comparison P).Matches w rel m m := by
  rintro s rfl
  change (comparison P).Ends w rel (m w.state) (m w.state)
  generalize m w.state = x at hm
  cases x with
  | value a t =>
    let w' : Visit P := ⟨t, hm t rfl⟩
    have hlater : (comparison P).Later w w' := trivial
    have hmate : (comparison P).Mate w' t := rfl
    exact .value hlater hmate (hrel w' a)
  | failure fault t =>
    let w' : Visit P := ⟨t, hm t rfl⟩
    have hlater : (comparison P).Later w w' := trivial
    have hmate : (comparison P).Mate w' t := rfl
    exact .failure fault hlater hmate
  | timeout => exact .timeout

theorem matches_of_functions {m : Eval α}
    (hm : ∀ t, (m w.state).final? = some t → t.store.functions = w.state.store.functions)
    (hrel : ∀ w' a, rel w' a a) : (comparison P).Matches w rel m m :=
  matches_self (fun t ht => w.bodies.congr (hm t ht)) hrel

theorem addFunction_matches_self {f : Function} (hf : f.BodyIn P) :
    (comparison P).Matches w (comparison P).FunctionPair (Eval.add (·.addFunction f))
      (Eval.add (·.addFunction f)) := by
  refine matches_self (fun t ht => ?_) fun _ _ => ⟨rfl, trivial⟩
  cases ht
  exact w.bodies.addFunction hf

theorem assignOrDeclare_functions {e : FrameRef} {mutable : Bool} {name : String} {v : Value}
    {p : Position} {s t : State}
    (h : (Eval.assignOrDeclare e mutable name v p s).final? = some t) :
    t.store.functions = s.store.functions := by
  rw [Eval.assignOrDeclare_eq] at h
  split at h
  · cases htarget : s.store.target e name with
    | ok owner =>
      rw [htarget] at h
      cases h
      exact Store.functions_write s.store name v owner
    | error reason =>
      rw [htarget] at h
      cases reason <;> (cases h; rfl)
  · cases h
    rfl

def simulation (P : Node → Prop) : Simulation where
  toComparison := comparison P
  later_refl _ := trivial
  later_trans _ _ := trivial
  knows_later _ _ := trivial
  evaluates_later _ hnode := hnode
  calls_later _ hf := hf
  evaluates_child hnode hchild node hwithin := hnode node (.child hchild hwithin)
  reads_identifier _ := trivial
  reads_builtin _ _ _ := trivial
  counts := by
    rintro w s rfl
    exact ⟨rfl, rfl⟩
  lookup := by
    rintro w s e name rfl - -
    simp only [comparison, Value.rename_id, Option.map_id', true_and]
    exact fun _ _ _ _ => trivial
  property := by
    rintro w s ref name rfl -
    simp only [comparison, Value.rename_id, Option.map_id', true_and]
    exact fun _ _ _ _ => trivial
  array := by
    rintro w s ref rfl -
    simp only [comparison, Value.rename_id, Array.map_id', true_and]
    exact fun _ _ _ _ => trivial
  function := by
    rintro w s ref rfl -
    exact ⟨(Function.rename_id _).symm, w.bodies ref⟩
  compare := by
    rintro w s a b a' b' op p rfl ha hb
    rw [isSelf.eq_of_pair ha, isSelf.eq_of_pair hb]
    rfl
  display := by
    rintro w s v v' rfl hv
    rw [isSelf.eq_of_pair hv]
    rfl
  assign := by
    intro w e mutable name value p v v' _ _ hv
    rw [isSelf.eq_of_pair hv]
    exact matches_of_functions (fun t ht => assignOrDeclare_functions ht) pair
  setProperty := by
    intro w ref v v' name _ hv
    rw [isSelf.eq_of_pair hv]
    exact matches_of_functions (fun t ht => by cases ht; rfl) fun _ _ => trivial
  pushItem := by
    intro w ref v v' _ hv
    rw [isSelf.eq_of_pair hv]
    exact matches_of_functions (fun t ht => by cases ht; rfl) fun _ _ => trivial
  print text := matches_of_functions (fun t ht => by cases ht; rfl) fun _ _ => trivial
  addArray := by
    intro w values values' hvalues
    rw [isSelf.eq_of_pair hvalues]
    exact matches_of_functions (fun t ht => by cases ht; rfl) fun _ _ => ⟨rfl, trivial⟩
  addObject := by
    intro w entries entries' hentries
    rw [isSelf.eq_of_pair hentries]
    exact matches_of_functions (fun t ht => by cases ht; rfl) fun _ _ => ⟨rfl, trivial⟩
  addClosure := by
    rintro w e params body p - hnode
    refine addFunction_matches_self ?_
    -- The body is a part of the node that makes the function.
    rintro _ _ ⟨⟩ node hwithin
    exact hnode node (.child (by simp [NodeKind.children]) hwithin)
  addPush := addFunction_matches_self Builtin.push.function_bodyIn
  addMethod := by
    rintro w s ref v v' rfl - hv
    rw [isSelf.eq_of_pair hv]
    exact addFunction_matches_self (w.bodies ref)
  refuse := by
    intro w callee f values values' line column _ _ hvalues
    rw [isSelf.eq_of_pair hvalues]
    simp only [comparison, Value.rename_id]
    exact matches_of_functions (fun t ht => by cases ht; rfl) fun _ _ => trivial
  enter := by
    rintro w s callee f values values' line column p rfl hf - hvalues
    rw [isSelf.eq_of_pair hvalues]
    simp only [comparison, Value.rename_id, Function.rename_id]
    have hfunctions := w.state.functions_called callee f values line column p
    refine ⟨⟨_, w.bodies.congr hfunctions⟩, rfl, rfl, trivial, hf, ?_⟩
    rintro w' -
    refine ⟨⟨w'.state.left, w'.bodies⟩, trivial, rfl, ?_, fun _ _ _ _ => trivial⟩
    rintro s rfl
    rfl

end Visit

namespace Eval

/-- Evaluates as `evaluate` does, with one step of evaluation given by other means. -/
def evaluateBy (step : (Function → FrameRef → Position → Eval Value) →
      (Node → FrameRef → Eval Value) → Nat → Node → FrameRef → Eval Value) (settings : Settings) :
    Nat → Node → FrameRef → Eval Value
  | 0, _, _ => timeout
  | n + 1, node, frame =>
    let evaluate := evaluateBy step settings n
    step (invoke settings evaluate) evaluate n node frame

section Visits

variable {P : Node → Prop} {settings : Settings} {node : Node} {s : State}

/-- An evaluation that ends leaves bodies behind whose nodes have the property, if all nodes that it
could begin with have it. -/
theorem evaluate_bodiesIn (hnode : node.All P) (hs : s.store.BodiesIn P) {n : Nat} {e : FrameRef}
    {t : State} (h : (evaluate settings n node e s).final? = some t) : t.store.BodiesIn P := by
  let w : Visit P := ⟨s, hs⟩
  have hend := evaluate_matches settings n node (S := Visit.simulation P) (w := w) (e := e) hnode
    trivial s rfl
  change (Visit.comparison P).Ends w _ (evaluate settings n node e s) _ at hend
  generalize evaluate settings n node e s = x at h hend
  cases hend with
  | @value w' _ _ _ _ _ _ =>
    cases h
    exact w'.bodies
  | @failure w' _ _ _ _ =>
    cases h
    exact w'.bodies
  | timeout => cases h

variable {step' : (Function → FrameRef → Position → Eval Value) →
    (Node → FrameRef → Eval Value) → Nat → Node → FrameRef → Eval Value}
  (hstep : ∀ call evaluate rounds node frame, P node →
    step' call evaluate rounds node frame = step call evaluate rounds node frame)

include hstep

theorem evaluateBy_matches (n : Nat) (w : Visit P) (node : Node) (e : FrameRef)
    (hnode : node.All P) :
    (Visit.comparison P).Matches w (Visit.comparison P).Pair (evaluate settings n node e)
      (evaluateBy step' settings n node e) := by
  induction n generalizing w node e with
  | zero => exact Simulation.matches_timeout (S := Visit.simulation P)
  | succ n ih =>
    rw [evaluateBy, hstep _ _ _ _ _ (hnode node .self)]
    exact step_matches (S := Visit.simulation P) (w := w) (fun w node e h _ => ih w node e h) n node
      hnode trivial

/-- What is done at nodes that lack a property makes no difference if the nodes of the tree and of
all bodies of functions have it. -/
theorem evaluateBy_eq (hnode : node.All P) (hs : s.store.BodiesIn P) (n : Nat) (e : FrameRef) :
    evaluateBy step' settings n node e s = evaluate settings n node e s := by
  let w : Visit P := ⟨s, hs⟩
  exact Visit.isSelf.eq_of_ends (evaluateBy_matches hstep n w node e hnode s rfl)

end Visits

end Eval
end Scriptlet
