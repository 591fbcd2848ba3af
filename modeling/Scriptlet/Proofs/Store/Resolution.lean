import Mathlib.Data.Fintype.Card
import Mathlib.Logic.Relation
import Scriptlet.Eval.Variable
/-!
# Names resolve to one owner

Reading and assigning search the frames in scope separately. Both go through the same frames in the
same order and stop at the same owner, so that an assignment changes exactly the cell that a read
would have seen. The order is depth first, which makes sense where no frame stands around itself;
then the bound on the depth of a search is never reached.
-/
namespace Scriptlet

namespace Store

def Outer (s : Store) (ref outer : FrameRef) : Prop :=
  outer ∈ (s.frame ref).outers

/-- No frame stands around itself. -/
def Acyclic (s : Store) : Prop :=
  ∀ ref, ¬ Relation.TransGen s.Outer ref ref

/-- The frames that a search from a frame goes through: the frame itself, then those of the frames
around it, each in full before the next. -/
def IsSearchOrder (s : Store) (order : FrameRef → List FrameRef) : Prop :=
  ∀ ref, order ref = ref :: (s.frame ref).outers.flatMap order

/-- The place in a frame itself that a name belongs to: a variable, or else a property of the
associated object. -/
def own? (s : Store) (name : String) (ref : FrameRef) : Option Owner :=
  if (s.frame ref).bindings.contains name then some (.binding ref)
  else ((s.frame ref).object.filter fun object => (s.object object).contains name).map .property

def read? (s : Store) (name : String) : Owner → Option Value
  | .binding frame => ((s.frame frame).bindings.get? name).map (·.value)
  | .property object => (s.object object).get? name

/-- Whether a name may be written at an owner: only an immutable variable refuses. -/
def accepts (s : Store) (name : String) : Owner → Bool
  | .binding frame => ((s.frame frame).bindings.get? name).any (·.mutable)
  | .property _ => true

/-! ## The order of a search -/

/-- The frames of a search that goes through at most the given number one inside the other. -/
def framesWithin (s : Store) : Nat → FrameRef → List FrameRef
  | 0, _ => []
  | n + 1, ref => ref :: (s.frame ref).outers.flatMap (framesWithin s n)

def searched (s : Store) (ref : FrameRef) : List FrameRef :=
  s.framesWithin s.searchDepth ref

section Order

variable {s : Store}

theorem acyclic_of_decreasing (h : ∀ ref outer, s.Outer ref outer → outer.index < ref.index) :
    s.Acyclic := by
  have hlt : ∀ ref outer, Relation.TransGen s.Outer ref outer → outer.index < ref.index := by
    intro ref outer hway
    induction hway with
    | single hstep => exact h _ _ hstep
    | tail _ hstep ih => exact (h _ _ hstep).trans ih
  intro ref hway
  exact Nat.lt_irrefl _ (hlt ref ref hway)

theorem lt_of_outer {ref outer : FrameRef} (h : s.Outer ref outer) :
    ref.index < s.frames.size := by
  rw [Outer, frame, Array.getD] at h
  split at h
  · assumption
  · simp at h

theorem length_le_of_nodup {refs : List FrameRef} (hn : refs.Nodup)
    (hlt : ∀ ref ∈ refs, ref.index < s.frames.size) : refs.length ≤ s.frames.size := by
  have hmap : (refs.map (·.index)).Nodup := by
    refine hn.map_on fun a _ b _ hab => ?_
    exact FrameRef.ext hab
  have hsub : refs.map (·.index) ⊆ List.range s.frames.size := by
    intro i hi
    obtain ⟨ref, href, rfl⟩ := List.mem_map.1 hi
    exact List.mem_range.2 (hlt ref href)
  have := (List.subperm_of_subset hmap hsub).length_le
  simpa using this

/-- The induction is on the depth that is left. The frames on the way to `ref` are different frames
of the store, since none stands around itself, so their number and the depth make up the bound. -/
theorem framesWithin_succ (n : Nat) (ref : FrameRef) (way : List FrameRef)
    (hs : ∀ r, Relation.ReflTransGen s.Outer ref r → ¬ Relation.TransGen s.Outer r r)
    (hn : way.Nodup) (hway : ∀ r ∈ way, r.index < s.frames.size ∧ Relation.TransGen s.Outer r ref)
    (hdepth : s.searchDepth ≤ n + way.length) :
    s.framesWithin (n + 1) ref = s.framesWithin n ref := by
  induction n generalizing ref way with
  | zero =>
    have := length_le_of_nodup hn fun r hr => (hway r hr).1
    rw [searchDepth] at hdepth
    omega
  | succ n ih =>
    rw [framesWithin, framesWithin]
    congr 1
    apply List.flatMap_congr
    intro outer houter
    have hlt := lt_of_outer houter
    refine ih outer (ref :: way) (fun r hr => hs r (.head houter hr))
      (List.nodup_cons.2 ⟨fun hmem => ?_, hn⟩) ?_ ?_
    · exact hs ref .refl (hway ref hmem).2
    · intro r hr
      rcases List.mem_cons.1 hr with rfl | hr
      · exact ⟨hlt, .single houter⟩
      · exact ⟨(hway r hr).1, (hway r hr).2.tail houter⟩
    · rw [List.length_cons]
      omega

theorem isSearchOrder_searched (hs : s.Acyclic) : s.IsSearchOrder s.searched := by
  intro ref
  rw [searched, ← framesWithin_succ s.searchDepth ref [] (fun r _ => hs r) List.nodup_nil
    (by simp) (by simp)]
  rfl

/-- An order is determined from the shortest lists on. -/
theorem IsSearchOrder.unique {order other : FrameRef → List FrameRef} (h : s.IsSearchOrder order)
    (h' : s.IsSearchOrder other) : order = other := by
  funext ref
  induction hk : (order ref).length using Nat.strong_induction_on generalizing ref with
  | _ k ih =>
    subst hk
    rw [h ref, h' ref]
    congr 1
    apply List.flatMap_congr
    intro outer houter
    refine ih _ ?_ outer rfl
    rw [h ref, List.length_cons, List.flatMap_def]
    have hsub := List.sublist_flatten_of_mem (List.mem_map_of_mem (f := order) houter)
    exact Nat.lt_succ_of_le hsub.length_le

end Order

/-! ## Both searches find the first owner -/

def firstOwner? (s : Store) (name : String) (refs : List FrameRef) : Option Owner :=
  refs.findSome? (s.own? name)

/-- What an assignment makes of the owner of its name. -/
def verdict (s : Store) (name : String) : Option Owner → Except AssignError Owner
  | none => .error .undefined
  | some owner => if s.accepts name owner then .ok owner else .error .immutable

section Search

variable {s : Store} {name : String}

theorem firstOwner?_cons (ref : FrameRef) (refs : List FrameRef) :
    s.firstOwner? name (ref :: refs) = (s.own? name ref).or (s.firstOwner? name refs) := by
  rw [firstOwner?, List.findSome?_cons]
  cases s.own? name ref <;> rfl

theorem firstOwner?_flatMap (refs : List FrameRef) (frames : FrameRef → List FrameRef) :
    s.firstOwner? name (refs.flatMap frames) =
      refs.findSome? fun ref => s.firstOwner? name (frames ref) := by
  induction refs with
  | nil => rfl
  | cons ref refs ih =>
    rw [firstOwner?, List.flatMap_cons, List.findSome?_append, List.findSome?_cons]
    rw [firstOwner?] at ih
    rw [ih, firstOwner?]
    cases (frames ref).findSome? (s.own? name) <;> rfl

/-- What a frame itself has for a name, in the terms of both searches: a variable, a property of
its object, or nothing. -/
theorem own?_cases (s : Store) (name : String) (ref : FrameRef) :
    (∃ b, (s.frame ref).bindings.get? name = some b ∧ s.own? name ref = some (.binding ref)) ∨
    (∃ object v, (s.frame ref).bindings.get? name = none ∧ (s.object object).get? name = some v ∧
      ((s.frame ref).object.bind fun object => (s.object object).get? name) = some v ∧
      ((s.frame ref).object.filter fun object => (s.object object).contains name) = some object ∧
      s.own? name ref = some (.property object)) ∨
    ((s.frame ref).bindings.get? name = none ∧
      ((s.frame ref).object.bind fun object => (s.object object).get? name) = none ∧
      ((s.frame ref).object.filter fun object => (s.object object).contains name) = none ∧
      s.own? name ref = none) := by
  rw [own?, Table.contains]
  cases hb : (s.frame ref).bindings.get? name with
  | some b => exact .inl ⟨b, rfl, rfl⟩
  | none =>
    refine .inr ?_
    cases (s.frame ref).object with
    | none => exact .inr ⟨rfl, rfl, rfl, rfl⟩
    | some object =>
      rw [Option.filter_some, Option.bind_some, Table.contains]
      cases hv : (s.object object).get? name with
      | none => exact .inr ⟨rfl, rfl, rfl, rfl⟩
      | some v => exact .inl ⟨object, v, rfl, hv, rfl, rfl, rfl⟩

theorem read?_of_firstOwner? {refs : List FrameRef} {owner : Owner}
    (h : s.firstOwner? name refs = some owner) : ∃ v, s.read? name owner = some v := by
  obtain ⟨ref, -, h⟩ := List.exists_of_findSome?_eq_some h
  rcases own?_cases s name ref with ⟨b, hb, ho⟩ | ⟨object, v, -, hv, -, -, ho⟩ | ⟨-, -, -, ho⟩
  all_goals
    rw [h] at ho
    cases ho
  · exact ⟨b.value, by rw [read?, hb]; rfl⟩
  · exact ⟨v, hv⟩

theorem findSome?_read? (frames : FrameRef → List FrameRef) (refs : List FrameRef) :
    (refs.findSome? fun ref => (s.firstOwner? name (frames ref)).bind (s.read? name)) =
      (refs.findSome? fun ref => s.firstOwner? name (frames ref)).bind (s.read? name) := by
  induction refs with
  | nil => rfl
  | cons ref refs ih =>
    rw [List.findSome?_cons, List.findSome?_cons]
    cases hf : s.firstOwner? name (frames ref) with
    | none => exact ih
    | some owner =>
      obtain ⟨v, hv⟩ := read?_of_firstOwner? hf
      simp only [Option.bind_some, hv]

theorem getWithin_eq (n : Nat) (ref : FrameRef) :
    s.getWithin name n ref = (s.firstOwner? name (s.framesWithin n ref)).bind (s.read? name) := by
  induction n generalizing ref with
  | zero => rfl
  | succ n ih =>
    rw [getWithin, framesWithin, firstOwner?_cons, firstOwner?_flatMap]
    simp only [ih, findSome?_read?]
    rcases own?_cases s name ref with ⟨b, hb, ho⟩ | ⟨object, v, hb, hv, hbind, -, ho⟩ |
        ⟨hb, hbind, -, ho⟩
    · simp [hb, ho, read?]
    · simp [hb, hbind, hv, ho, read?]
    · simp only [hb, hbind, ho, Option.none_or]

theorem verdict_some_ne_undefined (owner : Owner) :
    s.verdict name (some owner) ≠ .error .undefined := by
  rw [verdict]
  split <;> simp

theorem firstDefined_verdict (search : FrameRef → Option Owner) (refs : List FrameRef) :
    firstDefined (fun ref => s.verdict name (search ref)) refs =
      s.verdict name (refs.findSome? search) := by
  induction refs with
  | nil => rfl
  | cons ref refs ih =>
    rw [firstDefined, List.findSome?_cons]
    cases search ref with
    | none => exact ih
    | some owner =>
      split
      · next h => exact absurd h (verdict_some_ne_undefined owner)
      · rfl

theorem targetWithin_eq (n : Nat) (ref : FrameRef) :
    s.targetWithin name n ref = s.verdict name (s.firstOwner? name (s.framesWithin n ref)) := by
  induction n generalizing ref with
  | zero => rfl
  | succ n ih =>
    rw [targetWithin, framesWithin, firstOwner?_cons, firstOwner?_flatMap]
    simp only [ih, firstDefined_verdict]
    rcases own?_cases s name ref with ⟨b, hb, ho⟩ | ⟨object, v, hb, -, -, hfilter, ho⟩ |
        ⟨hb, -, hfilter, ho⟩
    · simp [hb, ho, verdict, accepts]
    · simp [hb, hfilter, ho, verdict, accepts]
    · simp only [hb, hfilter, ho, Option.none_or]

end Search

/-! ## What an assignment changes -/

/-- Two states that differ in the value of one cell alone: `v` is the value of the name at its owner
afterwards. No name comes or goes, no variable changes its mutability, and no frame its place. -/
structure Overwritten (s s' : State) (name : String) (owner : Owner) (v : Value) : Prop where
  written : s'.store.read? name owner = some v
  cells : ∀ name' owner', ¬ (name' = name ∧ owner' = owner) →
    s'.store.read? name' owner' = s.store.read? name' owner'
  names : ∀ ref, (s'.store.frame ref).bindings.names = (s.store.frame ref).bindings.names
  flags : ∀ ref n, ((s'.store.frame ref).bindings.get? n).map (·.mutable) =
    ((s.store.frame ref).bindings.get? n).map (·.mutable)
  properties : ∀ ref, (s'.store.object ref).names = (s.store.object ref).names
  outers : ∀ ref, (s'.store.frame ref).outers = (s.store.frame ref).outers
  associated : ∀ ref, (s'.store.frame ref).object = (s.store.frame ref).object
  frames : s'.store.frames.size = s.store.frames.size
  objects : s'.store.objects.size = s.store.objects.size
  arrays : s'.store.arrays = s.store.arrays
  functions : s'.store.functions = s.store.functions
  depth : s'.depth = s.depth
  output : s'.output = s.output
  events : s'.events = s.events

section Writing

variable {s s' : State} {name : String} {owner : Owner} {v : Value}

theorem overwritten_bind {ref : FrameRef} {b : Binding}
    (hb : (s.store.frame ref).bindings.get? name = some b) (hm : b.mutable = true) :
    Overwritten s { s with store := s.store.bind ref name ⟨v, true⟩ } name (.binding ref) v := by
  have hlt := lt_of_binding hb
  have hget := fun other n => get?_bind s.store ref other name n ⟨v, true⟩ hlt
  constructor
  case written => simp only [read?, hget, and_self, if_true, Option.map_some]
  case cells =>
    intro name' owner' hne
    cases owner' with
    | binding other =>
      have hother : ¬ (ref = other ∧ name = name') := fun h => hne (by simp [h])
      simp only [read?, hget, if_neg hother]
    | property object => rfl
  case names =>
    intro other
    rw [bind, frame_modifyFrame s.store ref other _ hlt]
    split
    · next hr =>
      subst hr
      exact Table.names_insert_of_get? hb
    · rfl
  case flags =>
    intro other n
    rw [hget]
    split
    · next h =>
      obtain ⟨rfl, rfl⟩ := h
      rw [hb, Option.map_some, Option.map_some, hm]
    · rfl
  case properties => exact fun _ => rfl
  case outers => exact fun other => outers_bind s.store ref other name _
  case associated => exact fun other => associated_bind s.store ref other name _
  case frames => exact Array.size_modify
  all_goals rfl

theorem overwritten_setProperty {ref : ObjectRef} {old : Value}
    (hold : (s.store.object ref).get? name = some old) :
    Overwritten s { s with store := s.store.setProperty ref name v } name (.property ref) v := by
  have hlt := lt_of_mem_object (Table.get?_eq_some_iff.1 hold)
  have hobject := fun other => object_setProperty s.store ref other name v hlt
  constructor
  case written => simp only [read?, hobject, if_true, Table.get?_insert]
  case cells =>
    intro name' owner' hne
    cases owner' with
    | binding frame => rfl
    | property other =>
      simp only [read?, hobject]
      split
      · next hr =>
        subst hr
        have hname : name ≠ name' := fun h => hne ⟨h.symm, rfl⟩
        rw [Table.get?_insert, if_neg hname]
      · rfl
  case properties =>
    intro other
    rw [hobject]
    split
    · next hr =>
      subst hr
      exact Table.names_insert_of_get? hold
    · rfl
  case objects => exact Array.size_modify
  all_goals first | rfl | exact fun _ => rfl | exact fun _ _ => rfl

/-- An owner that is found and accepts the name is overwritten, and nothing else is. -/
theorem overwritten_write {refs : List FrameRef} (h : s.store.firstOwner? name refs = some owner)
    (ha : s.store.accepts name owner) :
    Overwritten s { s with store := s.store.write name v owner } name owner v := by
  obtain ⟨old, hold⟩ := read?_of_firstOwner? h
  cases owner with
  | binding ref =>
    rw [accepts, Option.any_eq_true] at ha
    obtain ⟨b, hb, hm⟩ := ha
    exact overwritten_bind hb hm
  | property ref => exact overwritten_setProperty hold

theorem Overwritten.firstOwner?_eq (h : Overwritten s s' name owner v) (n : String)
    (refs : List FrameRef) : s'.store.firstOwner? n refs = s.store.firstOwner? n refs := by
  have hown : s'.store.own? n = s.store.own? n := by
    funext ref
    have hvars : (s'.store.frame ref).bindings.contains n =
        (s.store.frame ref).bindings.contains n := by
      rw [Bool.eq_iff_iff, Table.contains_iff, Table.contains_iff, h.names]
    have hprops : ∀ object, (s'.store.object object).contains n =
        (s.store.object object).contains n := by
      intro object
      rw [Bool.eq_iff_iff, Table.contains_iff, Table.contains_iff, h.properties]
    simp only [own?, hvars, h.associated, hprops]
  rw [firstOwner?, hown, firstOwner?]

theorem Overwritten.framesWithin_eq (h : Overwritten s s' name owner v) (n : Nat) :
    s'.store.framesWithin n = s.store.framesWithin n := by
  induction n with
  | zero => rfl
  | succ n ih =>
    funext ref
    rw [framesWithin, framesWithin, h.outers, ih]

theorem Overwritten.get?_eq (h : Overwritten s s' name owner v) {ref : FrameRef}
    (hfirst : s.store.firstOwner? name (s.store.searched ref) = some owner) :
    s'.store.get? ref name = some v := by
  have hdepth : s'.store.searchDepth = s.store.searchDepth := by
    rw [searchDepth, searchDepth, h.frames]
  rw [get?, getWithin_eq, h.firstOwner?_eq, hdepth, h.framesWithin_eq, ← searched, hfirst]
  exact h.written

end Writing

end Store

namespace Eval

variable {frame : FrameRef} {name : String} {v : Value} {p : Position} {s : State}

theorem lookup_eq (frame : FrameRef) (name : String) (p : Position) (s : State) :
    lookup frame name p s =
      match s.store.get? frame name with
      | some w => .value w s
      | none => .failure (.raised (.undefinedVariable name) p) s := by
  rw [lookup, bind_apply, store]
  dsimp only
  cases s.store.get? frame name <;> rfl

theorem assign_eq (frame : FrameRef) (name : String) (v : Value) (p : Position) (s : State) :
    assign frame name v p s =
      match s.store.target frame name with
      | .ok owner => .value () { s with store := s.store.write name v owner }
      | .error .undefined => .failure (.raised (.undefinedVariable name) p) s
      | .error .immutable => .failure (.raised (.immutableBinding name) p) s := by
  rw [assign, bind_apply, store]
  dsimp only
  cases s.store.target frame name with
  | ok owner => rfl
  | error e => cases e <;> rfl

theorem assignOrDeclare_eq (frame : FrameRef) (mutable : Bool) (name : String) (v : Value)
    (p : Position) (s : State) :
    assignOrDeclare frame mutable name v p s =
      if s.store.has frame name then
        match s.store.target frame name with
        | .ok owner => .value v { s with store := s.store.write name v owner }
        | .error .undefined => .failure (.raised (.undefinedVariable name) p) s
        | .error .immutable => .failure (.raised (.immutableBinding name) p) s
      else .value v { s.emit (.declared name mutable p) with
        store := s.store.bind frame name ⟨v, mutable⟩ } := by
  rw [assignOrDeclare, bind_apply, store]
  dsimp only
  split
  · rw [bind_apply, assign_eq]
    cases s.store.target frame name with
    | ok owner => rfl
    | error e => cases e <;> rfl
  · rfl

/-- The three ways that a name can be found: nowhere, at an owner that accepts it, or at a variable
that is immutable. Reading and assigning are determined by it. -/
theorem resolution_cases (frame : FrameRef) (name : String) (v : Value) (p : Position) (s : State) :
    (s.store.firstOwner? name (s.store.searched frame) = none ∧
      s.store.get? frame name = none ∧
      assign frame name v p s = .failure (.raised (.undefinedVariable name) p) s) ∨
    (∃ owner w, s.store.firstOwner? name (s.store.searched frame) = some owner ∧
      s.store.accepts name owner ∧ s.store.read? name owner = some w ∧
      s.store.get? frame name = some w ∧
      assign frame name v p s = .value () { s with store := s.store.write name v owner }) ∨
    (∃ ref b, s.store.firstOwner? name (s.store.searched frame) = some (.binding ref) ∧
      (s.store.frame ref).bindings.get? name = some b ∧ b.mutable = false ∧
      s.store.get? frame name = some b.value ∧
      assign frame name v p s = .failure (.raised (.immutableBinding name) p) s) := by
  rw [assign_eq, Store.target, Store.get?, Store.getWithin_eq, Store.targetWithin_eq,
    ← Store.searched]
  cases hf : s.store.firstOwner? name (s.store.searched frame) with
  | none => exact .inl ⟨rfl, rfl, rfl⟩
  | some owner =>
    obtain ⟨w, hw⟩ := Store.read?_of_firstOwner? hf
    rw [Option.bind_some, hw, Store.verdict]
    cases ha : s.store.accepts name owner with
    | true => exact .inr (.inl ⟨owner, w, rfl, ha, hw, rfl, rfl⟩)
    | false =>
      cases owner with
      | property object => cases ha
      | binding ref =>
        rw [Store.read?, Option.map_eq_some_iff] at hw
        obtain ⟨b, hb, rfl⟩ := hw
        rw [Store.accepts, hb, Option.any_some] at ha
        exact .inr (.inr ⟨ref, b, rfl, hb, ha, rfl, rfl⟩)

/-- Where no frame stands around itself, a name has one first owner, by which reading and assigning
go. A name that is seen can be read, and assigning to it does not find it undefined. An assignment
succeeds exactly if that owner accepts the name; then it changes the value there and nothing else,
and the name reads as the new value. One that fails changes nothing, and it is refused as immutable
exactly if the owner is an immutable variable, whatever stands further out. -/
theorem assign_overwrites_first_owner (s : State) (hs : s.store.Acyclic) :
    (∃! order, s.store.IsSearchOrder order) ∧
    ∀ order, s.store.IsSearchOrder order →
      ∀ (frame : FrameRef) (name : String) (v : Value) (p : Position),
        ((s.store.has frame name ↔ ∃ w, lookup frame name p s = .value w s) ∧
          (s.store.has frame name ↔
            ∀ s', assign frame name v p s ≠ .failure (.raised (.undefinedVariable name) p) s')) ∧
        ((∃ s', assign frame name v p s = .value () s') ↔
          ∃ owner, s.store.firstOwner? name (order frame) = some owner ∧
            s.store.accepts name owner) ∧
        (∀ s', assign frame name v p s = .value () s' →
          lookup frame name p s' = .value v s' ∧
          ∃ owner w, s.store.firstOwner? name (order frame) = some owner ∧
            s.store.read? name owner = some w ∧ lookup frame name p s = .value w s ∧
            Store.Overwritten s s' name owner v) ∧
        (∀ e s', assign frame name v p s = .failure e s' → s' = s) ∧
        ((∃ s', assign frame name v p s = .failure (.raised (.immutableBinding name) p) s') ↔
          ∃ ref b, s.store.firstOwner? name (order frame) = some (.binding ref) ∧
            (s.store.frame ref).bindings.get? name = some b ∧ b.mutable = false) ∧
        assign frame name v p s ≠ .timeout := by
  have horder := Store.isSearchOrder_searched hs
  refine ⟨⟨_, horder, fun other hother => hother.unique horder⟩, ?_⟩
  intro order horder' frame name v p
  cases horder'.unique horder
  rw [Store.has, lookup_eq]
  rcases resolution_cases frame name v p s with ⟨hf, hget, ha⟩ |
      ⟨owner, w, hf, hacc, hw, hget, ha⟩ | ⟨ref, b, hf, hb, hm, hget, ha⟩
  · rw [hf, hget, ha]
    refine ⟨⟨by simp, by simp⟩, by simp, ?_, ?_, by simp, by simp⟩
    · rintro s' ⟨⟩
    · rintro e s' ⟨⟩
      rfl
  · have hover := Store.overwritten_write (v := v) hf hacc
    rw [hf, hget, ha]
    refine ⟨⟨by simp, by simp⟩, ?_, ?_, ?_, ?_, by simp⟩
    · exact ⟨fun _ => ⟨owner, rfl, hacc⟩, fun _ => ⟨_, rfl⟩⟩
    · rintro s' ⟨⟩
      exact ⟨by rw [lookup_eq, hover.get?_eq hf], owner, w, rfl, hw, rfl, hover⟩
    · rintro e s' ⟨⟩
    · constructor
      · rintro ⟨s', ⟨⟩⟩
      · rintro ⟨ref, b, hown, hb, hm⟩
        cases hown
        rw [Store.accepts, hb, Option.any_some, hm] at hacc
        cases hacc
  · rw [hf, hget, ha]
    refine ⟨⟨by simp, by simp⟩, ?_, ?_, ?_, ?_, by simp⟩
    · constructor
      · rintro ⟨s', ⟨⟩⟩
      · rintro ⟨owner, hown, hacc⟩
        cases hown
        rw [Store.accepts, hb, Option.any_some, hm] at hacc
        cases hacc
    · rintro s' ⟨⟩
    · rintro e s' ⟨⟩
      rfl
    · exact ⟨fun _ => ⟨ref, b, rfl, hb, hm⟩, fun _ => ⟨s, rfl⟩⟩

/-- A frame with an object and two frames around it; the one that is searched first hides a variable
of the other, which it shares. -/
def hiddenVariable : State where
  store := {
    frames := #[
      { bindings := .ofList [("x", ⟨.integer 1, true⟩)] },
      { bindings := .ofList [("x", ⟨.integer 2, false⟩)], outers := [⟨0⟩] },
      { outers := [⟨1⟩, ⟨0⟩], object := some ⟨0⟩ }]
    objects := #[.ofList [("y", .integer 3)]] }

theorem assign_overwrites_first_owner_hiddenVariable :
    hiddenVariable.store.Acyclic ∧
      (∃ s', assign ⟨2⟩ "x" .undefined .start hiddenVariable =
        .failure (.raised (.immutableBinding "x") .start) s') ∧
      ∃ s', assign ⟨2⟩ "y" (.bool true) .start hiddenVariable = .value () s' ∧
        lookup ⟨2⟩ "y" .start s' = .value (.bool true) s' := by
  have hs : hiddenVariable.store.Acyclic := by
    apply Store.acyclic_of_decreasing
    rintro ⟨ref⟩ outer h
    match ref with
    | 0 => cases h
    | 1 =>
      cases List.mem_singleton.1 h
      decide
    | 2 =>
      rcases List.mem_pair.1 h with rfl | rfl <;> decide
    | ref + 3 => cases h
  obtain ⟨⟨order, horder, -⟩, hall⟩ := assign_overwrites_first_owner hiddenVariable hs
  cases horder.unique (Store.isSearchOrder_searched hs)
  obtain ⟨-, -, -, -, himmutable, -⟩ := hall _ horder ⟨2⟩ "x" .undefined .start
  obtain ⟨-, haccepted, hwritten, -⟩ := hall _ horder ⟨2⟩ "y" (.bool true) .start
  obtain ⟨s', hs'⟩ := haccepted.2 ⟨.property ⟨0⟩, by decide, rfl⟩
  exact ⟨hs, himmutable.2 ⟨⟨1⟩, _, by decide, rfl, rfl⟩, s', hs', (hwritten s' hs').1⟩

end Eval

end Scriptlet
