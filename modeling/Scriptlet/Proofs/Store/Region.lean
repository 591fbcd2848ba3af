import Mathlib.Data.Set.Insert
import Mathlib.Logic.Relation
import Scriptlet.Eval.Call
/-!
# Regions of a store

The frames, arrays, objects and functions of a store refer to one another. A region is a set of them
that no reference leaves. What is read inside a region stays inside, and a write or an addition
whose parts lie in a region turns it into a region of the new store, at most larger by what is
added; the rest of the store is not touched. A policy can restrict which functions a region holds.
-/
namespace Scriptlet

/-- A place of a store. -/
inductive Location where
  | frame (ref : FrameRef)
  | array (ref : ArrayRef)
  | object (ref : ObjectRef)
  | function (ref : FunctionRef)
deriving DecidableEq

def Value.locations : Value → List Location
  | .array ref => [.array ref]
  | .object ref => [.object ref]
  | .function ref => [.function ref]
  | _ => []

def Frame.locations (frame : Frame) : List Location :=
  frame.outers.map .frame ++ frame.object.toList.map .object ++
    frame.bindings.entries.flatMap fun (_, b) => b.value.locations

def Function.locations (f : Function) : List Location :=
  f.receivers.flatMap Value.locations ++
    match f.code with
    | .closure frame _ => [.frame frame]
    | .builtin _ => []

def Owner.location : Owner → Location
  | .binding frame => .frame frame
  | .property object => .object object

theorem Frame.mem_locations {frame : Frame} {l : Location} :
    l ∈ frame.locations ↔
      (∃ outer ∈ frame.outers, l = .frame outer) ∨
      (∃ object, frame.object = some object ∧ l = .object object) ∨
      ∃ name b, frame.bindings.get? name = some b ∧ l ∈ b.value.locations := by
  simp only [Table.get?_eq_some_iff]
  simp [locations, eq_comm]

theorem Function.mem_locations {f : Function} {l : Location} :
    l ∈ f.locations ↔
      (∃ v ∈ f.receivers, l ∈ v.locations) ∨
      ∃ frame body, f.code = .closure frame body ∧ l = .frame frame := by
  rw [locations, List.mem_append, List.mem_flatMap]
  cases f.code <;> simp

theorem Function.locations_cons (f : Function) (receiver : Value) :
    { f with receivers := receiver :: f.receivers }.locations =
      receiver.locations ++ f.locations := by
  simp [locations]

namespace Store

variable {s t u : Store} {l l' : Location}

/-- The places that a thing in the store refers to. -/
def links (s : Store) : Location → List Location
  | .frame ref => (s.frame ref).locations
  | .array ref => (s.array ref).toList.flatMap Value.locations
  | .object ref => (s.object ref).entries.flatMap fun (_, v) => v.locations
  | .function ref => (s.function ref).locations

def Reaches (s : Store) : Location → Location → Prop :=
  Relation.ReflTransGen fun l l' => l' ∈ s.links l

def Has (s : Store) : Location → Prop
  | .frame ref => ref.index < s.frames.size
  | .array ref => ref.index < s.arrays.size
  | .object ref => ref.index < s.objects.size
  | .function ref => ref.index < s.functions.size

/-- A place that is taken in `t` and was free in `s`. -/
def Allocated (s t : Store) (l : Location) : Prop :=
  ¬ s.Has l ∧ t.Has l

/-- A place holds the same thing in both stores, or none in either. -/
def SameAt (s t : Store) : Location → Prop
  | .frame ref => t.frames[ref.index]? = s.frames[ref.index]?
  | .array ref => t.arrays[ref.index]? = s.arrays[ref.index]?
  | .object ref => t.objects[ref.index]? = s.objects[ref.index]?
  | .function ref => t.functions[ref.index]? = s.functions[ref.index]?

theorem mem_links_array {ref : ArrayRef} :
    l ∈ s.links (.array ref) ↔ ∃ v ∈ (s.array ref).toList, l ∈ v.locations :=
  List.mem_flatMap

theorem mem_links_object {ref : ObjectRef} :
    l ∈ s.links (.object ref) ↔
      ∃ name v, (s.object ref).get? name = some v ∧ l ∈ v.locations := by
  simp [links, Table.get?_eq_some_iff]

theorem SameAt.refl (s : Store) (l : Location) : s.SameAt s l := by
  cases l <;> rfl

theorem SameAt.trans (hst : s.SameAt t l) (htu : t.SameAt u l) : s.SameAt u l := by
  cases l <;> exact Eq.trans htu hst

private theorem lt_size_iff {α : Type} {xs ys : Array α} {i : Nat} (h : ys[i]? = xs[i]?) :
    i < ys.size ↔ i < xs.size := by
  rw [← Nat.not_le, ← Nat.not_le, ← Array.getElem?_eq_none_iff, ← Array.getElem?_eq_none_iff, h]

theorem SameAt.has_iff (h : s.SameAt t l) : t.Has l ↔ s.Has l := by
  cases l <;> exact lt_size_iff h

theorem SameAt.links_eq (h : s.SameAt t l) : t.links l = s.links l := by
  cases l <;>
    simp only [SameAt] at h <;>
    simp only [links, frame, array, object, function, Array.getD_eq_getD_getElem?, h]

end Store

/-- Which functions a region may hold; `none` stands for a reference to no function. -/
structure Policy where
  allows : Option Function → Prop
  closure : ∀ params frame body, allows (some { params, code := .closure frame body })
  method : ∀ f receiver, allows (some f) →
    allows (some { f with receivers := receiver :: f.receivers })
  push : ∀ ref, allows (some { Builtin.push.function with receivers := [.array ref] })
  dangling : allows none → ∀ f, allows (some f)

/-- A set of places that no reference leaves, with functions that a policy allows. -/
structure Region (policy : Policy) (s : Store) where
  carrier : Set Location
  closed : ∀ l ∈ carrier, ∀ l' ∈ s.links l, l' ∈ carrier
  allowed : ∀ ref, .function ref ∈ carrier → policy.allows s.functions[ref.index]?

namespace Region

variable {policy : Policy} {s t u : Store}

instance : Membership Location (Region policy s) :=
  ⟨fun R l => l ∈ R.carrier⟩

def Holds (R : Region policy s) (locations : List Location) : Prop :=
  ∀ l ∈ locations, l ∈ R

theorem Holds.nil (R : Region policy s) : R.Holds [] := by
  simp [Holds]

theorem holds_singleton {R : Region policy s} {l : Location} : R.Holds [l] ↔ l ∈ R := by
  simp [Holds]

theorem Holds.append {R : Region policy s} {ls ls' : List Location} (h : R.Holds ls)
    (h' : R.Holds ls') : R.Holds (ls ++ ls') := by
  intro l hl
  rcases List.mem_append.1 hl with hl | hl
  · exact h l hl
  · exact h' l hl

/-- From `R` to `R'` nothing is lost, only places that were free come in, and outside of `R` nothing
changes. -/
structure Extends (R : Region policy s) (R' : Region policy t) : Prop where
  sub : ∀ l ∈ R, l ∈ R'
  new : ∀ l ∈ R', l ∈ R ∨ s.Allocated t l
  keeps : ∀ l, s.Has l → t.Has l
  same : ∀ l, s.Has l → l ∉ R → s.SameAt t l

theorem Extends.refl (R : Region policy s) : R.Extends R where
  sub _ h := h
  new _ h := .inl h
  keeps _ h := h
  same l _ _ := .refl s l

theorem Extends.trans {R : Region policy s} {R' : Region policy t} {R'' : Region policy u}
    (h : R.Extends R') (h' : R'.Extends R'') : R.Extends R'' where
  sub l hl := h'.sub l (h.sub l hl)
  new l hl := by
    rcases h'.new l hl with hl | ⟨hfree, htaken⟩
    · rcases h.new l hl with hl | ⟨hfree, htaken⟩
      · exact .inl hl
      · exact .inr ⟨hfree, h'.keeps l htaken⟩
    · exact .inr ⟨fun hhas => hfree (h.keeps l hhas), htaken⟩
  keeps l hl := h'.keeps l (h.keeps l hl)
  same l hhas hl := by
    have hl' : l ∉ R' := by
      intro hmem
      rcases h.new l hmem with hmem | hnew
      · exact hl hmem
      · exact hnew.1 hhas
    exact (h.same l hhas hl).trans (h'.same l (h.keeps l hhas) hl')

theorem Extends.holds {R : Region policy s} {R' : Region policy t} {ls : List Location}
    (h : R.Extends R') (hls : R.Holds ls) : R'.Holds ls :=
  fun l hl => h.sub l (hls l hl)

/-- A change at one place. The places of the new region are given: all old ones, and the one place
if it was free. -/
private theorem exists_extends (R : Region policy s) {l₀ : Location} {C : Set Location}
    (hsub : ∀ l ∈ R, l ∈ C) (hnew : ∀ l ∈ C, l ∈ R ∨ s.Allocated t l)
    (hinside : s.Has l₀ → l₀ ∈ R ∧ t.Has l₀) (hothers : ∀ l, l ≠ l₀ → s.SameAt t l)
    (hlinks : l₀ ∈ C → ∀ l ∈ t.links l₀, l ∈ C)
    (hallows : ∀ ref, l₀ = .function ref → l₀ ∈ C → policy.allows t.functions[ref.index]?) :
    ∃ R' : Region policy t, R'.carrier = C ∧ R.Extends R' := by
  -- Away from the changed place, a place of the new region was one before.
  have hold : ∀ l ∈ C, l ≠ l₀ → l ∈ R := by
    intro l hl hne
    rcases hnew l hl with hl | hfree
    · exact hl
    · exact absurd ((hothers l hne).has_iff.1 hfree.2) hfree.1
  refine ⟨⟨C, ?_, ?_⟩, rfl, hsub, hnew, ?_, ?_⟩
  · intro l hl
    by_cases heq : l = l₀
    · subst heq
      exact hlinks hl
    · rw [(hothers l heq).links_eq]
      intro l' hl'
      exact hsub l' (R.closed l (hold l hl heq) l' hl')
  · intro ref href
    by_cases heq : Location.function ref = l₀
    · exact hallows ref heq.symm (heq ▸ href)
    · rw [show t.functions[ref.index]? = s.functions[ref.index]? from hothers _ heq]
      exact R.allowed ref (hold _ href heq)
  · intro l hhas
    by_cases heq : l = l₀
    · subst heq
      exact (hinside hhas).2
    · exact (hothers l heq).has_iff.2 hhas
  · intro l hhas hl
    apply hothers l
    rintro rfl
    exact hl (hinside hhas).1

theorem exists_of_write (R : Region policy s) {l₀ : Location} (hmem : l₀ ∈ R)
    (hkeeps : s.Has l₀ → t.Has l₀) (hothers : ∀ l, l ≠ l₀ → s.SameAt t l)
    (hlinks : R.Holds (t.links l₀)) (hkind : ∀ ref, l₀ ≠ .function ref) :
    ∃ R' : Region policy t, R.Extends R' := by
  obtain ⟨R', -, hext⟩ := R.exists_extends (C := R.carrier) (fun l hl => hl)
    (fun l hl => .inl hl) (fun hhas => ⟨hmem, hkeeps hhas⟩) hothers (fun _ => hlinks)
    (fun ref heq => absurd heq (hkind ref))
  exact ⟨R', hext⟩

theorem exists_of_add (R : Region policy s) {l₀ : Location} (hnew : s.Allocated t l₀)
    (hothers : ∀ l, l ≠ l₀ → s.SameAt t l) (hlinks : R.Holds (t.links l₀))
    (hallows : ∀ ref, l₀ = .function ref → policy.allows t.functions[ref.index]?) :
    ∃ R' : Region policy t, R.Extends R' ∧ l₀ ∈ R' := by
  have hnew' : ∀ l ∈ insert l₀ R.carrier, l ∈ R ∨ s.Allocated t l := by
    intro l hl
    rcases Set.mem_insert_iff.1 hl with rfl | hl
    · exact .inr hnew
    · exact .inl hl
  obtain ⟨R', hcarrier, hext⟩ := R.exists_extends (fun l hl => Set.mem_insert_of_mem l₀ hl) hnew'
    (fun hhas => absurd hhas hnew.1) hothers
    (fun _ l hl => Set.mem_insert_of_mem l₀ (hlinks l hl)) (fun ref heq _ => hallows ref heq)
  have hmem : l₀ ∈ R'.carrier := hcarrier ▸ Set.mem_insert l₀ R.carrier
  exact ⟨R', hext, hmem⟩

/-! ## Frames -/

theorem exists_modifyFrame (R : Region policy s) {ref : FrameRef} {change : Frame → Frame}
    (href : .frame ref ∈ R) (hchange : R.Holds (change (s.frame ref)).locations) :
    ∃ R' : Region policy (s.modifyFrame ref change), R.Extends R' := by
  apply R.exists_of_write href
  · intro hhas
    simpa [Store.Has, Store.modifyFrame] using hhas
  · intro l hne
    cases l with
    | frame other =>
      have hindex : ref.index ≠ other.index := fun h => hne (by rw [FrameRef.ext h])
      simp [Store.SameAt, Store.modifyFrame, Array.getElem?_modify, hindex]
    | _ => rfl
  · by_cases hlt : ref.index < s.frames.size
    · rw [Store.links, Store.frame_modifyFrame s ref ref change hlt, if_pos rfl]
      exact hchange
    · rw [Store.modifyFrame_eq_self s ref change hlt]
      exact fun l hl => R.closed _ href l hl
  · intro ref' h
    cases h

theorem exists_bind (R : Region policy s) {ref : FrameRef} (name : String) (b : Binding)
    (href : .frame ref ∈ R) (hvalue : R.Holds b.value.locations) :
    ∃ R' : Region policy (s.bind ref name b), R.Extends R' := by
  apply R.exists_modifyFrame href
  intro l hl
  rcases Frame.mem_locations.1 hl with houter | hobject | ⟨n, b', hb', hl⟩
  · exact R.closed _ href l (Frame.mem_locations.2 (.inl houter))
  · exact R.closed _ href l (Frame.mem_locations.2 (.inr (.inl hobject)))
  · rw [Table.get?_insert] at hb'
    split at hb'
    · cases hb'
      exact hvalue l hl
    · exact R.closed _ href l (Frame.mem_locations.2 (.inr (.inr ⟨n, b', hb', hl⟩)))

theorem exists_appendOuter (R : Region policy s) {ref outer : FrameRef} (href : .frame ref ∈ R)
    (houter : .frame outer ∈ R) :
    ∃ R' : Region policy (s.appendOuter ref outer), R.Extends R' := by
  apply R.exists_modifyFrame href
  intro l hl
  rcases Frame.mem_locations.1 hl with ⟨other, hother, rfl⟩ | hrest
  · rcases List.mem_append.1 hother with hother | hother
    · exact R.closed _ href _ (Frame.mem_locations.2 (.inl ⟨other, hother, rfl⟩))
    · rw [List.mem_singleton] at hother
      exact hother ▸ houter
  · exact R.closed _ href l (Frame.mem_locations.2 (.inr hrest))

theorem exists_associate (R : Region policy s) {ref : FrameRef} {object : ObjectRef}
    (href : .frame ref ∈ R) (hobject : .object object ∈ R) :
    ∃ R' : Region policy (s.associate ref object), R.Extends R' := by
  apply R.exists_modifyFrame href
  intro l hl
  rcases Frame.mem_locations.1 hl with houter | ⟨other, hother, rfl⟩ | hbinding
  · exact R.closed _ href l (Frame.mem_locations.2 (.inl houter))
  · cases hother
    exact hobject
  · exact R.closed _ href l (Frame.mem_locations.2 (.inr (.inr hbinding)))

theorem exists_receive (R : Region policy s) {ref : FrameRef} {receiver : Value}
    (href : .frame ref ∈ R) (hreceiver : R.Holds receiver.locations) :
    ∃ R' : Region policy (s.receive ref receiver), R.Extends R' := by
  obtain ⟨R', hext⟩ := R.exists_bind Frame.thisName ⟨receiver, false⟩ href hreceiver
  cases receiver with
  | object object =>
    have hobject : .object object ∈ R := holds_singleton.1 hreceiver
    obtain ⟨R'', hext'⟩ := R'.exists_associate (hext.sub _ href) (hext.sub _ hobject)
    exact ⟨R'', hext.trans hext'⟩
  | _ => exact ⟨R', hext⟩

theorem exists_receiveAll (R : Region policy s) {ref : FrameRef} {receivers : List Value}
    (href : .frame ref ∈ R) (hreceivers : R.Holds (receivers.flatMap Value.locations)) :
    ∃ R' : Region policy (s.receiveAll ref receivers), R.Extends R' := by
  induction receivers generalizing s with
  | nil => exact ⟨R, .refl R⟩
  | cons receiver receivers ih =>
    rw [List.flatMap_cons] at hreceivers
    obtain ⟨R', hext⟩ := R.exists_receive href
      fun l hl => hreceivers l (List.mem_append_left _ hl)
    obtain ⟨R'', hext'⟩ := ih R' (hext.sub _ href)
      fun l hl => hext.sub l (hreceivers l (List.mem_append_right _ hl))
    exact ⟨R'', hext.trans hext'⟩

theorem exists_addFrame (R : Region policy s) {frame : Frame} (hframe : R.Holds frame.locations) :
    ∃ R' : Region policy (s.addFrame frame).2, R.Extends R' ∧ .frame (s.addFrame frame).1 ∈ R' := by
  apply R.exists_of_add
  · simp [Store.Allocated, Store.Has, Store.addFrame]
  · intro l hne
    cases l with
    | frame other =>
      have hindex : other.index ≠ s.frames.size := fun h => hne (by rw [FrameRef.ext h]; rfl)
      simp [Store.SameAt, Store.addFrame, Array.getElem?_push, hindex]
    | _ => rfl
  · rw [Store.links, Store.frame_addFrame, if_pos rfl]
    exact hframe
  · intro ref h
    cases h

/-! ## Arrays, objects and functions -/

theorem exists_pushItem (R : Region policy s) {ref : ArrayRef} {v : Value} (href : .array ref ∈ R)
    (hv : R.Holds v.locations) : ∃ R' : Region policy (s.pushItem ref v), R.Extends R' := by
  apply R.exists_of_write href
  · intro hhas
    simpa [Store.Has, Store.pushItem] using hhas
  · intro l hne
    cases l with
    | array other =>
      have hindex : ref.index ≠ other.index := fun h => hne (by rw [ArrayRef.ext h])
      simp [Store.SameAt, Store.pushItem, Array.getElem?_modify, hindex]
    | _ => rfl
  · intro l hl
    obtain ⟨w, hw, hlw⟩ := Store.mem_links_array.1 hl
    have hlt := Store.lt_of_mem_array hw
    rw [Store.array_pushItem s ref ref v (by simpa [Store.pushItem] using hlt), if_pos rfl,
      Array.toList_push, List.mem_append, List.mem_singleton] at hw
    rcases hw with hw | rfl
    · exact R.closed _ href l (Store.mem_links_array.2 ⟨w, hw, hlw⟩)
    · exact hv l hlw
  · intro ref' h
    cases h

theorem exists_setProperty (R : Region policy s) {ref : ObjectRef} {name : String} {v : Value}
    (href : .object ref ∈ R) (hv : R.Holds v.locations) :
    ∃ R' : Region policy (s.setProperty ref name v), R.Extends R' := by
  apply R.exists_of_write href
  · intro hhas
    simpa [Store.Has, Store.setProperty] using hhas
  · intro l hne
    cases l with
    | object other =>
      have hindex : ref.index ≠ other.index := fun h => hne (by rw [ObjectRef.ext h])
      simp [Store.SameAt, Store.setProperty, Array.getElem?_modify, hindex]
    | _ => rfl
  · intro l hl
    obtain ⟨n, w, hw, hl⟩ := Store.mem_links_object.1 hl
    have hlt := Store.lt_of_mem_object (Table.get?_eq_some_iff.1 hw)
    rw [Store.object_setProperty s ref ref name v (by simpa [Store.setProperty] using hlt),
      if_pos rfl, Table.get?_insert] at hw
    split at hw
    · cases hw
      exact hv l hl
    · exact R.closed _ href l (Store.mem_links_object.2 ⟨n, w, hw, hl⟩)
  · intro ref' h
    cases h

theorem exists_addArray (R : Region policy s) {items : Array Value}
    (hitems : R.Holds (items.toList.flatMap Value.locations)) :
    ∃ R' : Region policy (s.addArray items).2, R.Extends R' ∧ .array (s.addArray items).1 ∈ R' := by
  apply R.exists_of_add
  · simp [Store.Allocated, Store.Has, Store.addArray]
  · intro l hne
    cases l with
    | array other =>
      have hindex : other.index ≠ s.arrays.size := fun h => hne (by rw [ArrayRef.ext h]; rfl)
      simp [Store.SameAt, Store.addArray, Array.getElem?_push, hindex]
    | _ => rfl
  · rw [Store.links, Store.array_addArray, if_pos rfl]
    exact hitems
  · intro ref h
    cases h

theorem exists_addObject (R : Region policy s) {properties : Table Value}
    (hproperties : ∀ name v, properties.get? name = some v → R.Holds v.locations) :
    ∃ R' : Region policy (s.addObject properties).2,
      R.Extends R' ∧ .object (s.addObject properties).1 ∈ R' := by
  apply R.exists_of_add
  · simp [Store.Allocated, Store.Has, Store.addObject]
  · intro l hne
    cases l with
    | object other =>
      have hindex : other.index ≠ s.objects.size := fun h => hne (by rw [ObjectRef.ext h]; rfl)
      simp [Store.SameAt, Store.addObject, Array.getElem?_push, hindex]
    | _ => rfl
  · intro l hl
    obtain ⟨name, v, hv, hl⟩ := Store.mem_links_object.1 hl
    rw [Store.object_addObject, if_pos rfl] at hv
    exact hproperties name v hv l hl
  · intro ref h
    cases h

theorem sameAt_addFunction (s : Store) (f : Function) {l : Location}
    (hne : l ≠ .function (s.addFunction f).1) : s.SameAt (s.addFunction f).2 l := by
  cases l with
  | function other =>
    have hindex : other.index ≠ s.functions.size := fun h => hne (by rw [FunctionRef.ext h]; rfl)
    simp [Store.SameAt, Store.addFunction, Array.getElem?_push, hindex]
  | _ => rfl

theorem exists_addFunction (R : Region policy s) {f : Function} (hf : R.Holds f.locations)
    (hallows : policy.allows (some f)) :
    ∃ R' : Region policy (s.addFunction f).2,
      R.Extends R' ∧ .function (s.addFunction f).1 ∈ R' := by
  apply R.exists_of_add
  · simp [Store.Allocated, Store.Has, Store.addFunction]
  · intro l hne
    exact sameAt_addFunction s f hne
  · rw [Store.links, Store.function_addFunction, if_pos rfl]
    exact hf
  · intro ref h
    cases h
    simpa [Store.addFunction] using hallows

/-- A function without references that stays outside. A region may refer to the place already, since
nothing was there. -/
theorem exists_ignoreFunction (R : Region policy s) {f : Function} (hf : f.locations = []) :
    ∃ R' : Region policy (s.addFunction f).2, R.Extends R' := by
  have hlinks : (s.addFunction f).2.links (.function (s.addFunction f).1) = [] := by
    rw [Store.links, Store.function_addFunction, if_pos rfl, hf]
  have hallows : ∀ ref, Location.function (s.addFunction f).1 = .function ref →
      .function (s.addFunction f).1 ∈ R.carrier →
      policy.allows (s.addFunction f).2.functions[ref.index]? := by
    intro ref h hmem
    cases h
    have hnone := R.allowed _ hmem
    rw [Store.addFunction, Array.getElem?_eq_none (Nat.le_refl _)] at hnone
    simpa [Store.addFunction] using policy.dangling hnone f
  obtain ⟨R', -, hext⟩ := R.exists_extends (fun l hl => hl) (fun l hl => .inl hl)
    (fun hhas => absurd hhas (Nat.lt_irrefl _)) (fun l hne => sameAt_addFunction s f hne)
    (fun _ l hl => by rw [hlinks] at hl; cases hl) hallows
  exact ⟨R', hext⟩

/-! ## Reading -/

theorem holds_function (R : Region policy s) {ref : FunctionRef} (href : .function ref ∈ R) :
    R.Holds (s.function ref).locations :=
  fun l hl => R.closed _ href l hl

theorem holds_method (R : Region policy s) {ref : FunctionRef} {v : Value}
    (href : .function ref ∈ R) (hv : R.Holds v.locations) :
    R.Holds ({ s.function ref with
      receivers := v :: (s.function ref).receivers } : Function).locations := by
  rw [Function.locations_cons]
  exact hv.append (R.holds_function href)

theorem holds_of_get?_ofList (R : Region policy s) {entries : List (String × Value)}
    (h : R.Holds (entries.flatMap fun entry => entry.2.locations)) (name : String) (v : Value)
    (hv : (Table.ofList entries).get? name = some v) : R.Holds v.locations :=
  fun l hl => h l (List.mem_flatMap.2 ⟨_, Table.mem_of_get?_ofList hv, hl⟩)

theorem allows_function (R : Region policy s) {ref : FunctionRef} (href : .function ref ∈ R) :
    policy.allows (some (s.function ref)) := by
  have hallowed := R.allowed ref href
  rw [Store.function, Array.getD_eq_getD_getElem?]
  cases hf : s.functions[ref.index]? with
  | none => exact policy.closure _ _ _
  | some f =>
    rw [hf] at hallowed
    exact hallowed

theorem holds_item (R : Region policy s) {ref : ArrayRef} {v : Value} (href : .array ref ∈ R)
    (hv : v ∈ (s.array ref).toList) : R.Holds v.locations :=
  fun l hl => R.closed _ href l (Store.mem_links_array.2 ⟨v, hv, hl⟩)

theorem holds_property (R : Region policy s) {ref : ObjectRef} {name : String} {v : Value}
    (href : .object ref ∈ R) (hv : (s.object ref).get? name = some v) : R.Holds v.locations :=
  fun l hl => R.closed _ href l (Store.mem_links_object.2 ⟨name, v, hv, hl⟩)

theorem mem_outer (R : Region policy s) {ref outer : FrameRef} (href : .frame ref ∈ R)
    (houter : outer ∈ (s.frame ref).outers) : .frame outer ∈ R :=
  R.closed _ href _ (Frame.mem_locations.2 (.inl ⟨outer, houter, rfl⟩))

theorem mem_associated (R : Region policy s) {ref : FrameRef} {object : ObjectRef}
    (href : .frame ref ∈ R) (hobject : (s.frame ref).object = some object) : .object object ∈ R :=
  R.closed _ href _ (Frame.mem_locations.2 (.inr (.inl ⟨object, hobject, rfl⟩)))

theorem holds_binding (R : Region policy s) {ref : FrameRef} {name : String} {b : Binding}
    (href : .frame ref ∈ R) (hb : (s.frame ref).bindings.get? name = some b) :
    R.Holds b.value.locations :=
  fun l hl => R.closed _ href l (Frame.mem_locations.2 (.inr (.inr ⟨name, b, hb, hl⟩)))

theorem holds_get? (R : Region policy s) {ref : FrameRef} {name : String} {v : Value}
    (href : .frame ref ∈ R) (hv : s.get? ref name = some v) : R.Holds v.locations := by
  rw [Store.get?] at hv
  generalize s.searchDepth = n at hv
  induction n generalizing ref with
  | zero => cases hv
  | succ n ih =>
    rw [Store.getWithin] at hv
    cases hb : (s.frame ref).bindings.get? name with
    | some b =>
      rw [hb] at hv
      cases hv
      exact R.holds_binding href hb
    | none =>
      rw [hb] at hv
      dsimp only at hv
      cases hp : (s.frame ref).object.bind fun object => (s.object object).get? name with
      | some w =>
        rw [hp] at hv
        cases hv
        obtain ⟨object, hobject, hproperty⟩ := Option.bind_eq_some_iff.1 hp
        exact R.holds_property (R.mem_associated href hobject) hproperty
      | none =>
        rw [hp] at hv
        obtain ⟨outer, houter, hv⟩ := List.exists_of_findSome?_eq_some hv
        exact ih (R.mem_outer href houter) hv

/-! ## Assigning -/

theorem exists_of_firstDefined {search : FrameRef → Except AssignError Owner} {owner : Owner}
    {refs : List FrameRef} (h : Store.firstDefined search refs = .ok owner) :
    ∃ ref ∈ refs, search ref = .ok owner := by
  induction refs with
  | nil => cases h
  | cons ref refs ih =>
    rw [Store.firstDefined] at h
    split at h
    · obtain ⟨other, hother, h⟩ := ih h
      exact ⟨other, List.mem_cons_of_mem _ hother, h⟩
    · exact ⟨ref, List.mem_cons_self, h⟩

theorem mem_target (R : Region policy s) {ref : FrameRef} {name : String} {owner : Owner}
    (href : .frame ref ∈ R) (h : s.target ref name = .ok owner) : owner.location ∈ R := by
  rw [Store.target] at h
  generalize s.searchDepth = n at h
  induction n generalizing ref with
  | zero => cases h
  | succ n ih =>
    rw [Store.targetWithin] at h
    cases hb : (s.frame ref).bindings.get? name with
    | some b =>
      rw [hb] at h
      dsimp only at h
      split at h
      · cases h
        exact href
      · cases h
    | none =>
      rw [hb] at h
      dsimp only at h
      cases hp : (s.frame ref).object.filter fun object => (s.object object).contains name with
      | some object =>
        rw [hp] at h
        cases h
        exact R.mem_associated href (Option.filter_eq_some_iff.1 hp).1
      | none =>
        rw [hp] at h
        obtain ⟨outer, houter, h⟩ := exists_of_firstDefined h
        exact ih (R.mem_outer href houter) h

theorem exists_write (R : Region policy s) {name : String} {v : Value} {owner : Owner}
    (howner : owner.location ∈ R) (hv : R.Holds v.locations) :
    ∃ R' : Region policy (s.write name v owner), R.Extends R' := by
  cases owner with
  | binding frame => exact R.exists_bind name ⟨v, true⟩ howner hv
  | property object => exact R.exists_setProperty howner hv

end Region
end Scriptlet
