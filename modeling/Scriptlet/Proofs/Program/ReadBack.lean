import Scriptlet.Program
import Scriptlet.Proofs.Eval.Steps
import Scriptlet.Proofs.Syntax.Literal
/-!
# Displayed data reads back

Running the text that shows a value of data gives an equal value. The text is parsed as a node that
writes the tree of the value, and evaluating such a node builds the tree in the store, next to all
that is there already (`Eval.builds_of_writes`). Main statement: `Program.run_display`.
-/
namespace Scriptlet

theorem Table.put_of_notMem {α : Type} {name : String} {entries : List (String × α)}
    (h : name ∉ entries.map (·.1)) (value : α) :
    put name value entries = entries ++ [(name, value)] := by
  induction entries with
  | nil => rfl
  | cons e entries ih =>
    rw [List.map_cons, List.mem_cons, not_or] at h
    rw [put, if_neg (Ne.symm h.1), ih h.2, List.cons_append]

theorem Table.entries_ofList {α : Type} {pairs : List (String × α)}
    (h : (pairs.map (·.1)).Nodup) : (ofList pairs).entries = pairs := by
  induction pairs using List.reverseRecOn with
  | nil => rfl
  | append_singleton pairs pair ih =>
    rw [List.map_append, List.map_singleton, List.nodup_append] at h
    have hnew : pair.1 ∉ pairs.map (·.1) := fun hmem =>
      h.2.2 _ hmem _ (List.mem_singleton_self _) rfl
    rw [ofList_append]
    change put pair.1 pair.2 (ofList pairs).entries = _
    rw [ih h.1, put_of_notMem hnew]

/-- Nothing changes but that arrays and objects are added. -/
structure State.Grows (s t : State) : Prop where
  store : s.store.Grows t.store
  same : t = { s with store := t.store }

namespace State.Grows

variable {s t u : State}

theorem refl (s : State) : s.Grows s :=
  ⟨.refl _, rfl⟩

theorem trans (hst : s.Grows t) (htu : t.Grows u) : s.Grows u where
  store := hst.store.trans htu.store
  same := by
    rw [htu.same, hst.same]

end State.Grows

namespace Eval

/-- From every state, the evaluation of a node gives a value with the given tree, and changes
nothing that is there. -/
def Builds (settings : Settings) (e : FrameRef) (node : Node) (tree : View) : Prop :=
  ∀ s, ∃ v t, Ends (fun steps => evaluate settings steps node e) s v t ∧ s.Grows t ∧
    t.store.Unfolds v tree

section Builds

variable {settings : Settings} {e : FrameRef} {node : Node} {tree : View}

theorem Builds.leaf {v : Value} (hv : ∀ store : Store, store.Unfolds v tree)
    (h : ∀ call evaluate rounds, step call evaluate rounds node e = pure v) :
    Builds settings e node tree := by
  intro s
  refine ⟨v, s, .of_step (.of_eq fun steps => ?_), .refl s, hv _⟩
  rw [h]
  rfl

theorem number_ends {digits : String} {n : Int64} (h : Arithmetic.literal? digits = some n)
    (p : Position) (s : State) :
    Ends (fun steps => evaluate settings steps ⟨.number digits, p⟩ e) s (.integer n) s := by
  refine .of_step (.of_eq fun _ => ?_)
  simp only [step, h]
  rfl

theorem negative_ends {digits : String} {m n : Int64} (h : Arithmetic.literal? digits = some m)
    (hn : n.toInt = -m.toInt) (p q : Position) (s : State) :
    Ends (fun steps => evaluate settings steps ⟨.unary .minus ⟨.number digits, q⟩, p⟩ e) s
      (.integer n) s := by
  have hunary : Arithmetic.applyUnary .minus (.integer m) p = .ok (.integer n) := by
    have hfit := Arithmetic.fit?_eq_some_iff.2 hn
    simp [Arithmetic.applyUnary, Arithmetic.ofInt, Value.toInteger, hfit, bind, Except.bind, pure,
      Except.pure]
  refine .of_step ((number_ends h q s).bind (.of_eq fun _ => ?_))
  change lift (Arithmetic.applyUnary .minus (.integer m) p) s = _
  rw [hunary]
  rfl

theorem evaluateAll_builds {nodes : List Node} {items : List View}
    (h : List.Forall₂ (Builds settings e) nodes items) (s : State) :
    ∃ vs t, Ends (fun steps => evaluateAll (evaluate settings steps) e nodes) s vs t ∧ s.Grows t ∧
      List.Forall₂ t.store.Unfolds vs items := by
  induction h generalizing s with
  | nil => exact ⟨[], s, .of_eq fun _ => rfl, .refl s, .nil⟩
  | cons hnode _ ih =>
    obtain ⟨v, t, hv, hst, hitem⟩ := hnode s
    obtain ⟨vs, u, hvs, htu, hitems⟩ := ih t
    refine ⟨v :: vs, u, hv.bind (hvs.bind (.of_eq fun _ => rfl)), hst.trans htu, ?_⟩
    exact .cons (hitem.grow htu.store) hitems

theorem properties_builds {entries : List (String × Node)} {properties : List (String × View)}
    (h : Namewise (Builds settings e) entries properties) (s : State) :
    ∃ pairs t, Ends (fun steps => Eval.properties (evaluate settings steps) e entries) s pairs t ∧
      s.Grows t ∧ Namewise t.store.Unfolds pairs properties := by
  rw [Namewise] at h
  induction h generalizing s with
  | nil => exact ⟨[], s, .of_eq fun _ => rfl, .refl s, .nil⟩
  | @cons entry property _ _ hnode _ ih =>
    obtain ⟨v, t, hv, hst, hvalue⟩ := hnode.2 s
    obtain ⟨pairs, u, hpairs, htu, hvalues⟩ := ih t
    exact ⟨(entry.1, v) :: pairs, u, hv.bind (hpairs.bind (.of_eq fun _ => rfl)), hst.trans htu,
      .cons ⟨hnode.1, hvalue.grow htu.store⟩ hvalues⟩

theorem array_builds {nodes : List Node} {items : List View}
    (h : List.Forall₂ (Builds settings e) nodes items) (p : Position) :
    Builds settings e ⟨.array nodes, p⟩ (.array items) := by
  intro s
  obtain ⟨vs, t, hvs, hst, hitems⟩ := evaluateAll_builds h s
  have hgrows := Store.Grows.addArray t.store vs.toArray
  refine ⟨.array (t.store.addArray vs.toArray).1,
    { t with store := (t.store.addArray vs.toArray).2 }, .of_step (hvs.bind (.of_eq fun _ => rfl)),
    hst.trans ⟨hgrows, rfl⟩, Store.unfolds_array.2 ⟨?_, ?_⟩⟩
  · simp [Store.addArray]
  · rw [Store.array_addArray, if_pos rfl, List.toList_toArray]
    exact hitems.imp fun _ _ hitem => hitem.grow hgrows

theorem object_builds {entries : List (String × Node)} {properties : List (String × View)}
    (hnames : (properties.map (·.1)).Nodup) (h : Namewise (Builds settings e) entries properties)
    (p : Position) : Builds settings e ⟨.object entries, p⟩ (.object properties) := by
  intro s
  obtain ⟨pairs, t, hpairs, hst, hvalues⟩ := properties_builds h s
  have hgrows := Store.Grows.addObject t.store (.ofList pairs)
  refine ⟨.object (t.store.addObject (.ofList pairs)).1,
    { t with store := (t.store.addObject (.ofList pairs)).2 },
    .of_step (hpairs.bind (.of_eq fun _ => rfl)), hst.trans ⟨hgrows, rfl⟩,
    Store.unfolds_object.2 ⟨?_, ?_⟩⟩
  · simp [Store.addObject]
  · rw [← (namewise_iff.1 hvalues).1] at hnames
    rw [Store.object_addObject, if_pos rfl, Table.entries_ofList hnames]
    exact hvalues.imp fun _ _ hvalue => ⟨hvalue.1, hvalue.2.grow hgrows⟩

theorem builds_of_writes (h : node.Writes tree) (hdata : tree.IsData) :
    Builds settings e node tree := by
  induction h with
  | undefined p => exact .leaf (fun _ => .undefined) fun _ _ _ => rfl
  | bool b p => exact .leaf (fun _ => .bool b) fun _ _ _ => rfl
  | number p hdigits => exact fun s => ⟨_, s, number_ends hdigits p s, .refl s, .integer _⟩
  | negative p q hdigits hn =>
    exact fun s => ⟨_, s, negative_ends hdigits hn p q s, .refl s, .integer _⟩
  | array p hlength _ ih =>
    cases hdata with
    | array hitems =>
      refine array_builds (List.forall₂_iff_zip.2 ⟨hlength, fun hx => ?_⟩) p
      exact ih _ hx (hitems _ (List.of_mem_zip hx).2)
  | object p hnames _ ih =>
    cases hdata with
    | object hnodup _ hvalues =>
      refine object_builds hnodup (namewise_iff.2 ⟨hnames, fun x hx => ?_⟩) p
      exact ih x hx (hvalues _ (List.of_mem_zip hx).2)

end Builds

end Eval

namespace Program

/-- Data, shown as a text and run as a program, gives an equal value with the same items and
properties in the same order. No variable changes, and no array, object or function that was
there. -/
theorem run_display {s : State} {v : Value} (h : s.store.IsData v) (settings : Settings)
    (path : String) (e : FrameRef) :
    ∃ w t n, (∀ steps, n ≤ steps → run settings steps path (s.store.display v) e s = .value w t) ∧
      t.store.equal w v ∧ t.store.view w = s.store.view v ∧ s.store.Grows t.store ∧
      t.depth = s.depth ∧ t.output = s.output := by
  obtain ⟨tree, hdata, hv⟩ := h.exists_unfolds
  obtain ⟨node, hwrites, hparse⟩ := parse_display hdata
  have hbuilds : Eval.Builds settings e node tree := Eval.builds_of_writes hwrites hdata
  obtain ⟨w, t, hends, hgrows, hw⟩ := hbuilds (s.emit (.parsed path))
  have hstatements : Eval.Ends (fun steps => Eval.evaluate settings steps
      ⟨.statements [node], .start⟩ e) (s.emit (.parsed path)) w t :=
    .of_step (hends.bind (.of_eq fun _ => rfl))
  obtain ⟨n, hn⟩ := hstatements
  have hsame := hgrows.same
  refine ⟨w, t.emit (.evaluated path w.type), n, fun steps hsteps => ?_,
    hw.equal (hv.grow hgrows.store), hw.view_eq.trans hv.view_eq.symm, hgrows.store,
    by rw [hsame]; rfl, by rw [hsame]; rfl⟩
  have hvalue : Eval.evaluate settings steps ⟨.statements [node], .start⟩ e
      (s.emit (.parsed path)) = .value w t := hn steps hsteps
  rw [run, Store.display, hv.view_eq, hparse]
  dsimp only
  rw [hvalue]

/-- A state with an array that holds another one twice, with negative numbers and an object that has
no properties. -/
def sharingState : State where
  store := {
    frames := #[{ bindings := .ofList [("xs", ⟨.array ⟨1⟩, true⟩)] }]
    arrays := #[#[.integer (-7), .bool true], #[.array ⟨0⟩, .object ⟨0⟩, .array ⟨0⟩, .object ⟨1⟩]]
    objects := #[.ofList [("iff", .undefined), ("x", .array ⟨0⟩)], .empty] }

theorem sharingState_isData : sharingState.store.IsData (.array ⟨1⟩) := by
  have hinner : sharingState.store.IsData (.array ⟨0⟩) := by
    refine .array (by decide) ?_
    rw [show (sharingState.store.array ⟨0⟩).toList = [.integer (-7), .bool true] from rfl]
    simp only [List.forall_mem_cons]
    exact ⟨.integer (by decide), .bool true, List.forall_mem_nil _⟩
  have hword {word : String} {c : Char} {cs : List Char} (hcs : word.toList = c :: cs)
      (hname : Lexeme.startsName c ∧ cs.all Lexeme.continuesName)
      (hkeyword : word ∉ Token.keywords.map (·.1)) : (Token.identifier word).WellFormed := by
    refine ⟨?_, hkeyword⟩
    rw [hcs]
    exact Pattern.cons_mem_one_mul.2
      ⟨hname.1, Pattern.mem_kstar_one.2 (List.all_eq_true.1 hname.2)⟩
  have hobject : sharingState.store.IsData (.object ⟨0⟩) := by
    have hentries : (sharingState.store.object ⟨0⟩).entries =
        [("iff", .undefined), ("x", .array ⟨0⟩)] := rfl
    refine .object (by decide) ?_ ?_
    · rw [hentries]
      simp only [List.forall_mem_cons]
      exact ⟨hword rfl (by decide) (by decide), hword rfl (by decide) (by decide),
        List.forall_mem_nil _⟩
    · rw [hentries]
      simp only [List.forall_mem_cons]
      exact ⟨.undefined, hinner, List.forall_mem_nil _⟩
  have hempty : sharingState.store.IsData (.object ⟨1⟩) :=
    .object (by decide) (List.forall_mem_nil _) (List.forall_mem_nil _)
  refine .array (by decide) ?_
  rw [show (sharingState.store.array ⟨1⟩).toList =
    [.array ⟨0⟩, .object ⟨0⟩, .array ⟨0⟩, .object ⟨1⟩] from rfl]
  simp only [List.forall_mem_cons]
  exact ⟨hinner, hobject, hinner, hempty, List.forall_mem_nil _⟩

theorem run_display_sharing : sharingState.store.IsData (.array ⟨1⟩) ∧
    sharingState.store.display (.array ⟨1⟩) =
      "[[-7, true], \x7biff: undefined, x: [-7, true]\x7d, [-7, true], \x7b\x7d]" ∧
    ∃ w t n, (∀ steps, n ≤ steps → run {} steps "main" (sharingState.store.display (.array ⟨1⟩)) ⟨0⟩
        sharingState = .value w t) ∧
      t.store.equal w (.array ⟨1⟩) ∧
      t.store.view w = sharingState.store.view (.array ⟨1⟩) ∧
      sharingState.store.Grows t.store ∧ t.depth = 0 ∧ t.output = "" :=
  ⟨sharingState_isData, by decide, run_display sharingState_isData {} "main" ⟨0⟩⟩

end Program

end Scriptlet
