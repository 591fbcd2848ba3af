import Scriptlet.Proofs.Eval.Run
/-!
# Arrays and objects only grow

Arrays and objects are shared, and a program can write to them through any reference: it pushes
items, assigns properties, and assigns to names that an associated object brings into scope. All of
these keep what is there in its place and add at the end. Main statement: after an evaluation, an
array starts with the items that it had before, and an object with the names
(`Eval.evaluate_only_appends`).
-/
namespace Scriptlet

/-- From `s` to `t` arrays get further items and objects further names, at the end. -/
structure Appends (s t : Store) : Prop where
  items : ∀ ref, (s.array ref).toList <+: (t.array ref).toList
  names : ∀ ref, (s.object ref).names <+: (t.object ref).names

namespace Store

variable {s : Store}

theorem pushItem_eq_self (ref : ArrayRef) (v : Value) (h : ¬ ref.index < s.arrays.size) :
    s.pushItem ref v = s := by
  simp [pushItem, Array.modify, Array.modifyM, h, pure, Id.run]

theorem setProperty_eq_self (ref : ObjectRef) (name : String) (v : Value)
    (h : ¬ ref.index < s.objects.size) : s.setProperty ref name v = s := by
  simp [setProperty, Array.modify, Array.modifyM, h, pure, Id.run]

theorem array_of_size_le {ref : ArrayRef} (h : s.arrays.size ≤ ref.index) : s.array ref = #[] :=
  dif_neg (Nat.not_lt.2 h)

theorem object_of_size_le {ref : ObjectRef} (h : s.objects.size ≤ ref.index) :
    s.object ref = .empty :=
  dif_neg (Nat.not_lt.2 h)

end Store

theorem Table.names_prefix_insert {α : Type} (t : Table α) (name : String) (value : α) :
    t.names <+: (t.insert name value).names := by
  rw [names_insert]
  split
  · exact List.prefix_refl _
  · exact List.prefix_append _ _

namespace Appends

variable {s t u : Store}

theorem of_eq (harrays : t.arrays = s.arrays) (hobjects : t.objects = s.objects) :
    Appends s t where
  items ref := by
    simp only [Store.array, harrays, List.prefix_refl]
  names ref := by
    simp only [Store.object, hobjects, List.prefix_refl]

theorem refl (s : Store) : Appends s s :=
  of_eq rfl rfl

theorem trans (hst : Appends s t) (htu : Appends t u) : Appends s u where
  items ref := (hst.items ref).trans (htu.items ref)
  names ref := (hst.names ref).trans (htu.names ref)

/-! ## One change -/

theorem pushItem (s : Store) (ref : ArrayRef) (v : Value) : Appends s (s.pushItem ref v) where
  items other := by
    by_cases hlt : ref.index < s.arrays.size
    · rw [Store.array_pushItem s ref other v hlt]
      split
      · rw [Array.toList_push]
        exact List.prefix_append _ _
      · exact List.prefix_refl _
    · simp only [Store.pushItem_eq_self ref v hlt, List.prefix_refl]
  names _ := List.prefix_refl _

theorem setProperty (s : Store) (ref : ObjectRef) (name : String) (v : Value) :
    Appends s (s.setProperty ref name v) where
  items _ := List.prefix_refl _
  names other := by
    by_cases hlt : ref.index < s.objects.size
    · rw [Store.object_setProperty s ref other name v hlt]
      split
      · exact Table.names_prefix_insert _ name v
      · exact List.prefix_refl _
    · simp only [Store.setProperty_eq_self ref name v hlt, List.prefix_refl]

theorem write (s : Store) (name : String) (v : Value) (owner : Owner) :
    Appends s (s.write name v owner) := by
  cases owner with
  | binding frame => exact of_eq rfl rfl
  | property object => exact setProperty s object name v

theorem addArray (s : Store) (items : Array Value) : Appends s (s.addArray items).2 where
  items other := by
    rw [Store.array_addArray]
    split
    · next heq =>
      rw [Store.array_of_size_le (heq ▸ Nat.le_refl _)]
      exact List.nil_prefix
    · exact List.prefix_refl _
  names _ := List.prefix_refl _

theorem addObject (s : Store) (properties : Table Value) :
    Appends s (s.addObject properties).2 where
  items _ := List.prefix_refl _
  names other := by
    rw [Store.object_addObject]
    split
    · next heq =>
      rw [Store.object_of_size_le (heq ▸ Nat.le_refl _)]
      exact List.nil_prefix
    · exact List.prefix_refl _

end Appends

theorem Change.appends {e : FrameRef} {s t : State} (h : Change e s t) :
    Appends s.store t.store := by
  cases h with
  | assign name v owner _ => exact .write s.store name v owner
  | setProperty ref name v => exact .setProperty s.store ref name v
  | pushItem ref v => exact .pushItem s.store ref v
  | addArray items => exact .addArray s.store items
  | addObject properties => exact .addObject s.store properties
  | _ => exact .of_eq rfl rfl

/-! ## Calls and whole evaluations -/

/-- Entering a function changes no array and no object: what it sees of its receivers is a matter
of its frame. -/
theorem State.entered_appends (s : State) (f : Function) (frame : FrameRef) (p : Position) :
    Appends s.store (s.entered f frame p).store := by
  have hreceive : ∀ receivers (store : Store),
      Appends store (store.receiveAll frame receivers) := by
    intro receivers
    induction receivers with
    | nil => exact .refl
    | cons receiver receivers ih =>
      intro store
      refine Appends.trans (t := store.receive frame receiver) ?_ (ih _)
      cases receiver <;> exact .of_eq rfl rfl
  rw [State.entered]
  cases f.code with
  | closure outer body => exact (hreceive f.receivers s.store).trans (.of_eq rfl rfl)
  | builtin b => exact hreceive f.receivers s.store

theorem Run.appends {settings : Settings} {e : FrameRef} {s t : State}
    (h : Run settings e s t) : Appends s.store t.store := by
  induction h with
  | done => exact .refl _
  | change hc _ ih => exact hc.appends.trans ih
  | @call e s t u w ref values line column p _ _ _ _ hargs hbody hrest =>
    let frame := Frame.ofCall (.function ref) (s.store.function ref).params values line column
    have hframe : Appends t.store (t.store.addFrame frame).2 := .of_eq rfl rfl
    have hentered := State.entered_appends { t with store := (t.store.addFrame frame).2 }
      (s.store.function ref) ⟨t.store.frames.size⟩ p
    exact (((hargs.trans hframe).trans hentered).trans hbody).trans hrest

namespace Eval

private theorem getElem?_of_prefix {α : Type} {xs ys : List α} (h : xs <+: ys) {i : Nat} {x : α}
    (hx : xs[i]? = some x) : ys[i]? = some x := by
  obtain ⟨hlt, -⟩ := List.getElem?_eq_some_iff.1 hx
  obtain ⟨rest, rfl⟩ := h
  rw [List.getElem?_append_left hlt, hx]

/-- An array that is there when an evaluation starts has its items when it ends, with a value or
with a fault, and further ones at most after them; an object has its names, in their order and each
once, and further ones at most after them. So an item stays at its index, and a property where it
is. -/
theorem evaluate_only_appends (settings : Settings) (n : Nat) (node : Node) (e : FrameRef)
    (s t : State) (h : (evaluate settings n node e s).final? = some t) :
    (∀ ref, (s.store.array ref).toList <+: (t.store.array ref).toList ∧
      ∀ (i : Nat) v, (s.store.array ref)[i]? = some v → (t.store.array ref)[i]? = some v) ∧
    ∀ ref, (s.store.object ref).names <+: (t.store.object ref).names ∧
      (t.store.object ref).names.Nodup ∧
      ∀ (i : Nat) name, (s.store.object ref).names[i]? = some name →
        (t.store.object ref).names[i]? = some name ∧ (t.store.object ref).contains name := by
  have happends := (evaluate_runs settings n node e s t h).appends
  refine ⟨fun ref => ⟨happends.items ref, fun i v hv => ?_⟩,
    fun ref => ⟨happends.names ref, (t.store.object ref).nodup, fun i name hname => ?_⟩⟩
  · rw [← Array.getElem?_toList] at hv ⊢
    exact getElem?_of_prefix (happends.items ref) hv
  · have hplace := getElem?_of_prefix (happends.names ref) hname
    rw [Table.contains_iff]
    exact ⟨hplace, List.mem_of_getElem? hplace⟩

def sharedContainers : State where
  store := {
    frames := #[{ bindings := .ofList [("xs", ⟨.array ⟨0⟩, false⟩), ("o", ⟨.object ⟨0⟩, false⟩)] }]
    arrays := #[#[.bool true]]
    objects := #[.ofList [("a", .undefined), ("f", .function ⟨0⟩)]]
    functions := #[{
      params := []
      code := .closure ⟨0⟩ ⟨.assignment false "a" ⟨.array [], .start⟩, .start⟩ }] }

/-- Pushes an item, writes a property by its bare name and adds another one, and stops at a name
that is not there. -/
def writesContainers : Node :=
  let name (text : String) : Node := ⟨.identifier text, .start⟩
  let call (object property : String) (arguments : List Node) : Node :=
    ⟨.call (name object) [⟨.property property, .start⟩, ⟨.arguments arguments, .start⟩], .start⟩
  ⟨.statements [call "xs" "push" [name "o"], call "o" "f" [],
    ⟨.propertyAssignment (name "o") "b" (name "xs"), .start⟩, name "z"], .start⟩

theorem evaluate_only_appends_writesContainers :
    ∃ t, (evaluate {} 9 writesContainers ⟨0⟩ sharedContainers).final? = some t ∧
      t.store.array ⟨0⟩ = #[.bool true, .object ⟨0⟩] ∧
      (t.store.object ⟨0⟩).entries =
        [("a", .array ⟨1⟩), ("f", .function ⟨0⟩), ("b", .array ⟨0⟩)] ∧
      (sharedContainers.store.array ⟨0⟩).toList <+: (t.store.array ⟨0⟩).toList ∧
      (sharedContainers.store.object ⟨0⟩).names <+: (t.store.object ⟨0⟩).names := by
  have hends : ((evaluate {} 9 writesContainers ⟨0⟩ sharedContainers).final?.map fun t =>
      (t.store.array ⟨0⟩, (t.store.object ⟨0⟩).entries)) =
      some (#[.bool true, .object ⟨0⟩],
        [("a", .array ⟨1⟩), ("f", .function ⟨0⟩), ("b", .array ⟨0⟩)]) := by
    decide +kernel
  obtain ⟨t, ht, hcontents⟩ := Option.map_eq_some_iff.1 hends
  obtain ⟨hitems, hentries⟩ := Prod.mk.inj hcontents
  obtain ⟨harrays, hobjects⟩ :=
    evaluate_only_appends {} 9 writesContainers ⟨0⟩ sharedContainers t ht
  exact ⟨t, ht, hitems, hentries, (harrays ⟨0⟩).1, (hobjects ⟨0⟩).1⟩

end Eval
end Scriptlet
