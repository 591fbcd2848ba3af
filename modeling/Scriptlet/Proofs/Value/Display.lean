import Mathlib.Logic.Relation
import Scriptlet.Proofs.Store.Unplaced
import Scriptlet.Proofs.Value.Unfolding
/-!
# Displays of values that contain themselves

A value unfolds into a tree. Where an array or an object is met again inside of itself, the tree is
cut, so it is finite, whatever contains what; a value in which nothing contains itself is written
out in full. Main statement: the display of a value is the text of that tree, and writing the value
from left to right, with one set of the arrays and objects that are open, gives the same text
(`Store.display_unfolding`).
-/
namespace Scriptlet.Store

/-! ## Trees -/

/-- The tree of a value that lies inside the arrays and objects of a path. It is cut where `cut`
says so, and nowhere else. -/
inductive Unfolding (s : Store) (cut : List Value → Value → Prop) : List Value → Value → View → Prop
  | undefined {path : List Value} : Unfolding s cut path .undefined .undefined
  | integer {path : List Value} (n : Int64) : Unfolding s cut path (.integer n) (.integer n)
  | bool {path : List Value} (b : Bool) : Unfolding s cut path (.bool b) (.bool b)
  | string {path : List Value} (text : String) : Unfolding s cut path (.string text) (.string text)
  | function {path : List Value} (ref : FunctionRef) :
      Unfolding s cut path (.function ref) (.function (s.function ref))
  | array {path : List Value} {ref : ArrayRef} {items : List View} : ¬ cut path (.array ref) →
      (s.array ref).toList.length = items.length →
      (∀ p ∈ (s.array ref).toList.zip items, Unfolding s cut (.array ref :: path) p.1 p.2) →
      Unfolding s cut path (.array ref) (.array items)
  | object {path : List Value} {ref : ObjectRef} {properties : List (String × View)} :
      ¬ cut path (.object ref) → (s.object ref).names = properties.map (·.1) →
      (∀ p ∈ (s.object ref).entries.zip properties,
        Unfolding s cut (.object ref :: path) p.1.2 p.2.2) →
      Unfolding s cut path (.object ref) (.object properties)
  | cutArray {path : List Value} {ref : ArrayRef} : cut path (.array ref) →
      Unfolding s cut path (.array ref) .cutArray
  | cutObject {path : List Value} {ref : ObjectRef} : cut path (.object ref) →
      Unfolding s cut path (.object ref) .cutObject

/-- The tree of a value, cut where an array or an object lies inside of itself. -/
def UnfoldsUnder (s : Store) : List Value → Value → View → Prop :=
  s.Unfolding fun path v => v ∈ path

def UnfoldsFully (s : Store) : Value → View → Prop :=
  s.Unfolding (fun _ _ => False) []

variable {s : Store} {cut : List Value → Value → Prop} {path : List Value} {v : Value}
  {tree other : View}

theorem unfolding_array {ref : ArrayRef} {items : List View} :
    s.Unfolding cut path (.array ref) (.array items) ↔ ¬ cut path (.array ref) ∧
      List.Forall₂ (s.Unfolding cut (.array ref :: path)) (s.array ref).toList items := by
  rw [List.forall₂_iff_zip]
  constructor
  · intro h
    cases h with
    | array hnew hlength hitems => exact ⟨hnew, hlength, fun hp => hitems _ hp⟩
  · rintro ⟨hnew, hlength, hitems⟩
    exact .array hnew hlength fun _ hp => hitems hp

theorem unfolding_object {ref : ObjectRef} {properties : List (String × View)} :
    s.Unfolding cut path (.object ref) (.object properties) ↔ ¬ cut path (.object ref) ∧
      Namewise (s.Unfolding cut (.object ref :: path)) (s.object ref).entries properties := by
  rw [namewise_iff]
  constructor
  · intro h
    cases h with
    | object hnew hnames hvalues => exact ⟨hnew, hnames, hvalues⟩
  · rintro ⟨hnew, hnames, hvalues⟩
    exact .object hnew hnames hvalues

theorem Unfolding.unique (h : s.Unfolding cut path v tree) (h' : s.Unfolding cut path v other) :
    tree = other := by
  induction h generalizing other with
  | undefined | integer | bool | string | function => cases h'; rfl
  | @array path ref items hnew hlength _ ih =>
    cases h' with
    | cutArray hcut => exact absurd hcut hnew
    | @array _ _ items' hnew' hlength' hitems' =>
      have hitems : List.Forall₂
          (fun v tree => ∀ other, s.Unfolding cut (.array ref :: path) v other → tree = other)
          (s.array ref).toList items :=
        List.forall₂_iff_zip.2 ⟨hlength, fun hp _ h' => ih _ hp h'⟩
      have hitems' := (unfolding_array.1 (.array hnew' hlength' hitems')).2
      rw [eq_of_forall₂ (fun _ _ _ hunique h' => hunique _ h') hitems hitems']
  | @object path ref properties hnew hnames _ ih =>
    cases h' with
    | cutObject hcut => exact absurd hcut hnew
    | @object _ _ properties' hnew' hnames' hvalues' =>
      have hentries : Namewise
          (fun v tree => ∀ other, s.Unfolding cut (.object ref :: path) v other → tree = other)
          (s.object ref).entries properties :=
        namewise_iff.2 ⟨hnames, fun p hp _ h' => ih p hp h'⟩
      have hentries' := (unfolding_object.1 (.object hnew' hnames' hvalues')).2
      rw [eq_of_forall₂ (fun _ _ _ h h' => Prod.ext (h.1.symm.trans h'.1) (h.2 _ h'.2))
        hentries hentries']
  | cutArray hcut =>
    cases h' with
    | cutArray _ => rfl
    | array hnew => exact absurd hcut hnew
  | cutObject hcut =>
    cases h' with
    | cutObject _ => rfl
    | object hnew => exact absurd hcut hnew

/-! ## Enough depth -/

/-- A path of different arrays and objects of the store, where those that are not on the path are
fewer than the depth that is left. -/
structure Room (s : Store) (n : Nat) (path : List Value) : Prop where
  nodup : path.Nodup
  stored : ∀ v ∈ path, s.HasContainer v
  depth : s.arrays.size + s.objects.size < n + path.length

namespace Room

variable {n : Nat}

theorem nil (h : s.arrays.size + s.objects.size < n) : s.Room n [] where
  nodup := List.nodup_nil
  stored := List.forall_mem_nil _
  depth := h

theorem exists_succ (h : s.Room n path) : ∃ k, n = k + 1 := by
  have hlength := length_le_of_hasContainer h.nodup h.stored
  have hdepth := h.depth
  exact ⟨n - 1, by omega⟩

theorem cons (h : s.Room (n + 1) path) (hnew : v ∉ path) (hstored : s.HasContainer v) :
    s.Room n (v :: path) where
  nodup := List.nodup_cons.2 ⟨hnew, h.nodup⟩
  stored := List.forall_mem_cons.2 ⟨hstored, h.stored⟩
  depth := by
    have hdepth := h.depth
    rw [List.length_cons]
    omega

theorem item {ref : ArrayRef} (h : s.Room (n + 1) path) (hnew : .array ref ∉ path)
    (hv : v ∈ (s.array ref).toList) : s.Room n (.array ref :: path) :=
  h.cons hnew (.inl ⟨ref.index, lt_of_mem_array hv, rfl⟩)

theorem property {ref : ObjectRef} {e : String × Value} (h : s.Room (n + 1) path)
    (hnew : .object ref ∉ path) (he : e ∈ (s.object ref).entries) :
    s.Room n (.object ref :: path) :=
  h.cons hnew (.inr ⟨ref.index, lt_of_mem_object he, rfl⟩)

end Room

/-- The induction is on the depth that is left. It is never used up. -/
theorem unfoldsUnder_viewWithin {n : Nat} (h : s.Room n path) (v : Value) :
    s.UnfoldsUnder path v (s.viewWithin n path v) := by
  induction n generalizing path v with
  | zero =>
    obtain ⟨k, hk⟩ := h.exists_succ
    cases hk
  | succ n ih =>
    cases v with
    | undefined => exact .undefined
    | integer n => exact .integer n
    | bool b => exact .bool b
    | string text => exact .string text
    | function ref => exact .function ref
    | array ref =>
      rw [viewWithin]
      split
      · next hopen => exact .cutArray (by simpa using hopen)
      · next hnew =>
        have hnew : .array ref ∉ path := by simpa using hnew
        refine unfolding_array.2 ⟨hnew, List.forall₂_map_right_iff.2 ?_⟩
        exact List.forall₂_same.2 fun w hw => ih (h.item hnew hw) w
    | object ref =>
      rw [viewWithin]
      split
      · next hopen => exact .cutObject (by simpa using hopen)
      · next hnew =>
        have hnew : .object ref ∉ path := by simpa using hnew
        refine unfolding_object.2 ⟨hnew, List.forall₂_map_right_iff.2 ?_⟩
        exact List.forall₂_same.2 fun e he => ⟨rfl, ih (h.property hnew he) e.2⟩

/-! ## Writing -/

/-- Writes a text, with the arrays and objects that are open as its state. It gives up where the
values are nested more deeply than was allowed. -/
abbrev Writer := StateT (List Value) Option

/-- Writes an array or an object, which is open while its contents are written. If it is open
already, only its mark is written. -/
def writeOnce (v : Value) (mark : String) (contents : Writer String) : Writer String := do
  if (← get).contains v then return mark
  modify (v :: ·)
  let text ← contents
  modify (·.erase v)
  return text

def writeProperty (write : Value → Writer String) (property : String × Value) : Writer String := do
  let text ← write property.2
  return property.1 ++ ": " ++ text

def writeWithin (s : Store) : Nat → Value → Writer String
  | _, .undefined => return "undefined"
  | _, .integer n => return toString n.toInt
  | _, .bool b => return toString b
  | _, .string text => return text
  | _, .function _ => return "[function]"
  | 0, _ => failure
  | n + 1, .array ref => writeOnce (.array ref) "[...]" do
    let items ← (s.array ref).toList.mapM (writeWithin s n)
    return "[" ++ String.intercalate ", " items ++ "]"
  | n + 1, .object ref => writeOnce (.object ref) "\x7b...\x7d" do
    let properties ← (s.object ref).entries.mapM (writeProperty (writeWithin s n))
    return "\x7b" ++ String.intercalate ", " properties ++ "\x7d"

theorem mapM_run {α : Type} {write : α → Writer String} {text : α → String} {as : List α}
    {opened : List Value} (h : ∀ a ∈ as, (write a).run opened = some (text a, opened)) :
    (as.mapM write).run opened = some (as.map text, opened) := by
  induction as with
  | nil => rfl
  | cons a as ih =>
    rw [List.forall_mem_cons] at h
    simp [List.mapM_cons, h.1, ih h.2]

theorem writeProperty_run {write : Value → Writer String} {property : String × Value}
    {text : String} {opened : List Value}
    (h : (write property.2).run opened = some (text, opened)) :
    (writeProperty write property).run opened = some (property.1 ++ ": " ++ text, opened) := by
  simp [writeProperty, h]

theorem writeOnce_of_mem {mark : String} {contents : Writer String} (h : v ∈ path) :
    (writeOnce v mark contents).run path = some (mark, path) := by
  simp [writeOnce, h]

theorem writeOnce_of_notMem {mark text : String} {contents : Writer String} (h : v ∉ path)
    (hcontents : contents.run (v :: path) = some (text, v :: path)) :
    (writeOnce v mark contents).run path = some (text, path) := by
  simp [writeOnce, h, hcontents]

/-- What is open while a value is written is what the value lies in: whatever is opened is closed
again. -/
theorem writeWithin_run {n : Nat} (h : s.Room n path) (v : Value) :
    (s.writeWithin n v).run path = some ((s.viewWithin n path v).display, path) := by
  induction n generalizing path v with
  | zero =>
    obtain ⟨k, hk⟩ := h.exists_succ
    cases hk
  | succ n ih =>
    cases v with
    | array ref =>
      rw [writeWithin, viewWithin]
      split
      · next hopen => exact writeOnce_of_mem (by simpa using hopen)
      · next hnew =>
        have hnew : .array ref ∉ path := by simpa using hnew
        have hitems := mapM_run fun w hw => ih (h.item hnew hw) w
        refine writeOnce_of_notMem hnew ?_
        simp [hitems, View.display, displayItems_eq_map, Function.comp_def]
    | object ref =>
      rw [writeWithin, viewWithin]
      split
      · next hopen => exact writeOnce_of_mem (by simpa using hopen)
      · next hnew =>
        have hnew : .object ref ∉ path := by simpa using hnew
        have hproperties := mapM_run fun e he => writeProperty_run (ih (h.property hnew he) e.2)
        refine writeOnce_of_notMem hnew ?_
        simp [hproperties, View.display, displayProperties_eq_map, Function.comp_def]
    | _ => rfl

/-! ## Values that contain themselves -/

def contents (s : Store) : Value → List Value
  | .array ref => (s.array ref).toList
  | .object ref => (s.object ref).entries.map (·.2)
  | _ => []

def Contains (s : Store) (v w : Value) : Prop :=
  w ∈ s.contents v

/-- Nothing in a value contains itself, so nothing is cut off: what lies on the path to a value
contains it. -/
theorem UnfoldsUnder.fully (h : s.UnfoldsUnder path v tree)
    (hpath : ∀ u ∈ path, Relation.TransGen s.Contains u v)
    (hacyclic : ∀ u, Relation.ReflTransGen s.Contains v u → ¬ Relation.TransGen s.Contains u u) :
    s.Unfolding (fun _ _ => False) path v tree := by
  have hopen : ∀ {v w path}, (∀ u ∈ path, Relation.TransGen s.Contains u v) → s.Contains v w →
      ∀ u ∈ v :: path, Relation.TransGen s.Contains u w := by
    intro v w path hpath hstep
    exact List.forall_mem_cons.2 ⟨.single hstep, fun u hu => (hpath u hu).tail hstep⟩
  unfold UnfoldsUnder at h
  induction h with
  | undefined => exact .undefined
  | integer n => exact .integer n
  | bool b => exact .bool b
  | string text => exact .string text
  | function ref => exact .function ref
  | @array path ref items _ hlength _ ih =>
    refine .array id hlength fun p hp => ?_
    have hstep : s.Contains (.array ref) p.1 := (List.of_mem_zip hp).1
    exact ih p hp (hopen hpath hstep) fun u hu => hacyclic u (.head hstep hu)
  | @object path ref properties _ hnames _ ih =>
    refine .object id hnames fun p hp => ?_
    have hstep : s.Contains (.object ref) p.1.2 :=
      List.mem_map_of_mem (f := Prod.snd) (List.of_mem_zip hp).1
    exact ih p hp (hopen hpath hstep) fun u hu => hacyclic u (.head hstep hu)
  | cutArray hcut | cutObject hcut => exact absurd (hpath _ hcut) (hacyclic _ .refl)

/-- What holds only values of lower rank is not within itself. -/
theorem not_contains_self_of_rank (rank : Value → Nat)
    (h : ∀ v, ∀ w ∈ s.contents v, rank w < rank v) (v : Value) :
    ¬ Relation.TransGen s.Contains v v := by
  have hlt : ∀ w, Relation.TransGen s.Contains v w → rank w < rank v := by
    intro w hway
    induction hway with
    | single hstep => exact h _ _ hstep
    | tail _ hstep ih => exact (h _ _ hstep).trans ih
  exact fun hcycle => Nat.lt_irrefl _ (hlt v hcycle)

/-- A value of any store, whatever contains what, unfolds into exactly one tree that is cut where an
array or an object lies inside of itself. The display of the value is the text of this tree. It is
also what is written from left to right, with one set of the arrays and objects that are open, and
the number of those in the store bounds how deeply that goes. If nothing within the value contains
itself, then nothing of the tree is cut off. -/
theorem display_unfolding (s : Store) (v : Value) :
    ∃ tree, s.UnfoldsUnder [] v tree ∧ (∀ other, s.UnfoldsUnder [] v other → other = tree) ∧
      s.display v = tree.display ∧
      (∀ n, s.arrays.size + s.objects.size < n →
        (s.writeWithin n v).run [] = some (s.display v, [])) ∧
      ((∀ u, Relation.ReflTransGen s.Contains v u → ¬ Relation.TransGen s.Contains u u) →
        s.UnfoldsFully v tree) := by
  have hunfolds : s.UnfoldsUnder [] v (s.view v) :=
    unfoldsUnder_viewWithin (.nil (Nat.lt_succ_self _)) v
  refine ⟨s.view v, hunfolds, fun other h => h.unique hunfolds, rfl, fun n hn => ?_, ?_⟩
  · rw [writeWithin_run (.nil hn) v, viewWithin_eq_view s v n hn]
    rfl
  · exact hunfolds.fully (List.forall_mem_nil _)

def sharedArray : Store where
  arrays := #[#[.string "a"], #[.array ⟨0⟩, .array ⟨0⟩]]

def arrayRank : Value → Nat
  | .array ref => ref.index + 1
  | _ => 0

theorem display_unfolding_sharedArray :
    sharedArray.UnfoldsFully (.array ⟨1⟩) (.array [.array [.string "a"], .array [.string "a"]]) ∧
      sharedArray.display (.array ⟨1⟩) = "[[a], [a]]" := by
  obtain ⟨tree, -, hunique, hdisplay, -, hfully⟩ := display_unfolding sharedArray (.array ⟨1⟩)
  have hview : sharedArray.view (.array ⟨1⟩) =
      .array [.array [.string "a"], .array [.string "a"]] := rfl
  have htree : sharedArray.view (.array ⟨1⟩) = tree :=
    hunique _ (unfoldsUnder_viewWithin (.nil (Nat.lt_succ_self _)) _)
  rw [hview] at htree
  subst htree
  refine ⟨hfully fun u _ => not_contains_self_of_rank arrayRank ?_ u, hdisplay.trans (by decide)⟩
  rintro (_ | _ | _ | _ | ⟨_ | _ | i⟩ | _ | _) w hw
  all_goals simp_all [contents, sharedArray, array, object, arrayRank, Table.empty]

def selfArray : Store where
  arrays := #[#[.array ⟨0⟩, .array ⟨1⟩, .array ⟨1⟩], #[.string "a"]]

example : selfArray.display (.array ⟨0⟩) = "[[...], [a], [a]]" := by decide

end Scriptlet.Store
