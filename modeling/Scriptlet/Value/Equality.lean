import Scriptlet.Store
/-!
Equality of values. Arrays are equal if their items are, objects if they have the same names with
equal values in any order, and functions only if they are the same function. A pair that is being
compared already counts as equal, so that values which contain themselves can be compared. The pairs
that are compared inside one another are different, and a store has finitely many.
-/
namespace Scriptlet.Store

def containerPairs (s : Store) : List (Value × Value) :=
  let arrays := (List.range s.arrays.size).map fun i => Value.array ⟨i⟩
  let objects := (List.range s.objects.size).map fun i => Value.object ⟨i⟩
  arrays.flatMap (fun a => arrays.map (a, ·)) ++ objects.flatMap fun a => objects.map (a, ·)

theorem array_mem_containerPairs {s : Store} {x y : ArrayRef} {v w : Value}
    (h : (v, w) ∈ (s.array x).toList.zip (s.array y).toList) :
    (.array x, .array y) ∈ s.containerPairs := by
  have hx := lt_of_mem_array (List.of_mem_zip h).1
  have hy := lt_of_mem_array (List.of_mem_zip h).2
  simp [containerPairs, ArrayRef.ext_iff, hx, hy]

theorem object_mem_containerPairs {s : Store} {x y : ObjectRef} {name : String} {v w : Value}
    (hx : (name, v) ∈ (s.object x).entries) (hy : (s.object y).get? name = some w) :
    (.object x, .object y) ∈ s.containerPairs := by
  have hx := lt_of_mem_object hx
  have hy := lt_of_mem_object (Table.get?_eq_some_iff.1 hy)
  simp [containerPairs, ObjectRef.ext_iff, hx, hy]

/-- The pairs that a comparison can still meet for the first time. -/
def unassumed (s : Store) (assumed : List (Value × Value)) : List (Value × Value) :=
  s.containerPairs.filter (· ∉ assumed)

theorem unassumed_cons_length_lt {s : Store} {assumed : List (Value × Value)} {pair : Value × Value}
    (hmem : pair ∈ s.containerPairs) (hnew : pair ∉ assumed) :
    (s.unassumed (pair :: assumed)).length < (s.unassumed assumed).length := by
  have hfilter : s.unassumed (pair :: assumed) = (s.unassumed assumed).filter (· ≠ pair) := by
    rw [unassumed, unassumed, List.filter_filter]
    apply List.filter_congr
    simp
  rw [hfilter, List.length_filter_lt_length_iff_exists]
  exact ⟨pair, by simp [unassumed, hmem, hnew], by simp⟩

/-- Equality with the given pairs assumed equal. -/
def equalAssuming (s : Store) (assumed : List (Value × Value)) : Value → Value → Bool
  | .array x, .array y =>
    if hnew : x = y ∨ (.array x, .array y) ∈ assumed then true
    else
      (s.array x).size = (s.array y).size &&
        ((s.array x).toList.zip (s.array y).toList).attach.all fun ⟨(v, w), hv⟩ =>
          have := unassumed_cons_length_lt (array_mem_containerPairs hv) (not_or.1 hnew).2
          equalAssuming s ((.array x, .array y) :: assumed) v w
  | .object x, .object y =>
    if hnew : x = y ∨ (.object x, .object y) ∈ assumed then true
    else
      (s.object x).size = (s.object y).size &&
        (s.object x).entries.attach.all fun ⟨(name, v), hv⟩ =>
          match hw : (s.object y).get? name with
          | some w =>
            have := unassumed_cons_length_lt (object_mem_containerPairs hv hw) (not_or.1 hnew).2
            equalAssuming s ((.object x, .object y) :: assumed) v w
          | none => false
  | a, b => a = b
termination_by (s.unassumed assumed).length

def equal (s : Store) (a b : Value) : Bool :=
  s.equalAssuming [] a b

end Scriptlet.Store
