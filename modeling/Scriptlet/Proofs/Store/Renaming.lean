import Scriptlet.Proofs.Store.Unplaced
import Scriptlet.Value.Comparison
/-!
# Other names for functions

Which reference a function has is nothing that a program can see: it can compare references to
functions, and no more. Here the functions get other references, one for each. Main statements: what
is looked up in stores that differ in that alone, how values compare there and how they are
displayed.
-/
namespace Scriptlet

def Value.rename (rename : FunctionRef → FunctionRef) : Value → Value
  | .function ref => .function (rename ref)
  | v => v

def Function.rename (rename : FunctionRef → FunctionRef) (f : Function) : Function :=
  { f with receivers := f.receivers.map (·.rename rename) }

def Binding.rename (rename : FunctionRef → FunctionRef) (b : Binding) : Binding :=
  { b with value := b.value.rename rename }

def Frame.rename (rename : FunctionRef → FunctionRef) (frame : Frame) : Frame :=
  { frame with bindings := frame.bindings.map fun _ b => b.rename rename }

theorem Function.params_rename (rename : FunctionRef → FunctionRef) (f : Function) :
    (f.rename rename).params = f.params := rfl

theorem Function.code_rename (rename : FunctionRef → FunctionRef) (f : Function) :
    (f.rename rename).code = f.code := rfl

namespace Value

variable (rename : FunctionRef → FunctionRef) (v : Value) (p : Position)

theorem truthy_rename : (v.rename rename).truthy = v.truthy := by
  cases v <;> rfl

theorem toInteger_rename : (v.rename rename).toInteger p = v.toInteger p := by
  cases v <;> rfl

theorem toArray_rename : (v.rename rename).toArray p = v.toArray p := by
  cases v <;> rfl

theorem toObject_rename : (v.rename rename).toObject p = v.toObject p := by
  cases v <;> rfl

theorem order_rename (w : Value) :
    (v.rename rename).order (w.rename rename) p = v.order w p := by
  cases v <;> cases w <;> rfl

theorem applyUnary_rename (op : UnaryOperator) :
    Arithmetic.applyUnary op (v.rename rename) p =
      (Arithmetic.applyUnary op v p).map (·.rename rename) := by
  cases op with
  | plus => rfl
  | not => rw [Arithmetic.applyUnary, Arithmetic.applyUnary, truthy_rename]; rfl
  | minus =>
    rw [Arithmetic.applyUnary, Arithmetic.applyUnary, toInteger_rename]
    cases v.toInteger p with
    | error fault => rfl
    | ok n =>
      simp only [bind, Except.bind]
      cases Arithmetic.ofInt (-n.toInt) p <;> rfl

theorem rename_id : v.rename id = v := by
  cases v <;> rfl

end Value

theorem Function.rename_id (f : Function) : f.rename id = f := by
  simp [Function.rename, Value.rename_id]

theorem Binding.rename_id (b : Binding) : b.rename id = b := by
  simp [Binding.rename, Value.rename_id]

theorem Table.map_id {α : Type} (t : Table α) {f : String → α → α} (h : ∀ name a, f name a = a) :
    t.map f = t := by
  apply eq_of_get?
  · exact names_map f t
  · intro name
    rw [get?_map, funext (h name)]
    exact Option.map_id'

namespace Store

variable {s s' : Store} {rename : FunctionRef → FunctionRef}

/-- Arrays and objects hold the same values in both stores, but for the names of functions. -/
structure Renamed (rename : FunctionRef → FunctionRef) (s s' : Store) : Prop where
  arrays : s'.arrays = s.arrays.map (·.map (·.rename rename))
  objects : s'.objects = s.objects.map (·.map fun _ v => v.rename rename)

namespace Renamed

variable (h : Renamed rename s s')

include h

theorem array_eq (ref : ArrayRef) : s'.array ref = (s.array ref).map (·.rename rename) := by
  simp only [Store.array, h.arrays, Array.getD_eq_getD_getElem?, Array.getElem?_map]
  cases s.arrays[ref.index]? <;> simp

theorem object_eq (ref : ObjectRef) :
    s'.object ref = (s.object ref).map fun _ v => v.rename rename := by
  simp only [Store.object, h.objects, Array.getD_eq_getD_getElem?, Array.getElem?_map]
  cases s.objects[ref.index]? <;> rfl

theorem get?_object (ref : ObjectRef) (name : String) :
    (s'.object ref).get? name = ((s.object ref).get? name).map (·.rename rename) := by
  rw [h.object_eq, Table.get?_map]

/-! ## Searches -/

section Searches

variable {name : String} (houters : ∀ ref, (s'.frame ref).outers = (s.frame ref).outers)
  (hobject : ∀ ref, (s'.frame ref).object = (s.frame ref).object)
  (hbinding : ∀ ref, (s'.frame ref).bindings.get? name =
    ((s.frame ref).bindings.get? name).map (·.rename rename))

include houters hobject hbinding

theorem getWithin_eq (n : Nat) (ref : FrameRef) :
    s'.getWithin name n ref = (s.getWithin name n ref).map (·.rename rename) := by
  induction n generalizing ref with
  | zero => rfl
  | succ n ih =>
    rw [getWithin, getWithin]
    simp only [hbinding, hobject, houters, ih, h.get?_object]
    cases (s.frame ref).bindings.get? name with
    | some b => rfl
    | none =>
      have hrest : (s.frame ref).outers.findSome?
          (fun outer => (s.getWithin name n outer).map (·.rename rename)) =
          ((s.frame ref).outers.findSome? (s.getWithin name n)).map (·.rename rename) :=
        List.map_findSome?.symm
      cases (s.frame ref).object with
      | none => exact hrest
      | some object =>
        simp only [Option.map_none, Option.bind_some]
        cases (s.object object).get? name with
        | some v => rfl
        | none => exact hrest

theorem targetWithin_eq (n : Nat) (ref : FrameRef) :
    s'.targetWithin name n ref = s.targetWithin name n ref := by
  have hcontains : ∀ object, (s'.object object).contains name =
      (s.object object).contains name := by
    intro object
    rw [Table.contains, Table.contains, h.get?_object, Option.isSome_map]
  induction n generalizing ref with
  | zero => rfl
  | succ n ih =>
    rw [targetWithin, targetWithin]
    simp only [hbinding, hobject, houters, ih, hcontains]
    cases (s.frame ref).bindings.get? name with
    | some b => rfl
    | none => rfl

end Searches

/-! ## Comparing and displaying -/

variable {R : Value → Value → Prop} {a b : Value}

theorem agree_rename (hab : s.Agree (fun c d => R (c.rename rename) (d.rename rename)) a b) :
    s'.Agree R (a.rename rename) (b.rename rename) := by
  cases hab with
  | undefined => exact .undefined
  | integer n => exact .integer n
  | bool b => exact .bool b
  | string t => exact .string t
  | function ref => exact .function (rename ref)
  | array hitems =>
    refine .array ?_
    simp only [h.array_eq, Array.toList_map]
    rwa [List.forall₂_map_left_iff, List.forall₂_map_right_iff]
  | object hnames hvalues =>
    refine .object ?_ ?_
    · simpa only [h.object_eq, Table.names_map] using hnames
    · intro name v w hv hw
      rw [h.get?_object, Option.map_eq_some_iff] at hv hw
      obtain ⟨v, hv, rfl⟩ := hv
      obtain ⟨w, hw, rfl⟩ := hw
      exact hvalues name v w hv hw

theorem agree_of_rename (hinjective : Function.Injective rename)
    (hab : s'.Agree R (a.rename rename) (b.rename rename)) :
    s.Agree (fun c d => R (c.rename rename) (d.rename rename)) a b := by
  generalize ha : a.rename rename = a' at hab
  generalize hb : b.rename rename = b' at hab
  cases hab with
  | undefined => cases a <;> cases ha; cases b <;> cases hb; exact .undefined
  | integer n => cases a <;> cases ha; cases b <;> cases hb; exact .integer n
  | bool t => cases a <;> cases ha; cases b <;> cases hb; exact .bool t
  | string t => cases a <;> cases ha; cases b <;> cases hb; exact .string t
  | function ref =>
    cases a <;> cases ha
    cases b <;> simp only [Value.rename, Value.function.injEq, reduceCtorEq] at hb
    rw [hinjective hb]
    exact .function _
  | array hitems =>
    cases a <;> cases ha
    cases b <;> cases hb
    simp only [h.array_eq, Array.toList_map] at hitems
    rw [List.forall₂_map_left_iff, List.forall₂_map_right_iff] at hitems
    exact .array hitems
  | object hnames hvalues =>
    cases a <;> cases ha
    cases b <;> cases hb
    simp only [h.object_eq, Table.names_map] at hnames
    refine .object hnames fun name v w hv hw => ?_
    exact hvalues name _ _ (by rw [h.get?_object, hv]; rfl) (by rw [h.get?_object, hw]; rfl)

/-- A bisimulation of one store is one of the other, so they compare values alike. -/
theorem equal_eq (hinjective : Function.Injective rename) (a b : Value) :
    s'.equal (a.rename rename) (b.rename rename) = s.equal a b := by
  rw [Bool.eq_iff_iff]
  constructor
  · intro hab
    have hR : s.IsBisimulation fun c d => s'.equal (c.rename rename) (d.rename rename) :=
      fun c d hcd => h.agree_of_rename hinjective (equal_isBisimulation s' _ _ hcd)
    exact equal_of_isBisimulation hR hab
  · intro hab
    have hR : s'.IsBisimulation fun x y =>
        ∃ c d, x = c.rename rename ∧ y = d.rename rename ∧ s.equal c d := by
      rintro _ _ ⟨c, d, rfl, rfl, hcd⟩
      apply h.agree_rename
      exact (equal_isBisimulation s c d hcd).mono fun c d hcd => ⟨c, d, rfl, rfl, hcd⟩
    exact equal_of_isBisimulation hR ⟨a, b, rfl, rfl, hab⟩

theorem compare_eq (hinjective : Function.Injective rename) (op : ComparisonOperator) (a b : Value)
    (p : Position) :
    s'.compare op (a.rename rename) (b.rename rename) p = s.compare op a b p := by
  cases op <;> simp only [Store.compare, h.equal_eq hinjective, Value.order_rename]

theorem display_eq (v : Value) : s'.display (v.rename rename) = s.display v := by
  have hwithin : ∀ n (path : List Value) (v : Value),
      (s'.viewWithin n path (v.rename rename)).display = (s.viewWithin n path v).display := by
    intro n
    induction n with
    | zero => intro path v; cases v <;> rfl
    | succ n ih =>
      intro path v
      cases v with
      | array ref =>
        simp only [Value.rename, viewWithin]
        split
        · rfl
        · simp only [View.display, displayItems_eq_map, h.array_eq, Array.toList_map, List.map_map]
          congr 4
          funext v
          exact ih _ v
      | object ref =>
        simp only [Value.rename, viewWithin]
        split
        · rfl
        · simp only [View.display, displayProperties_eq_map, h.object_eq, Table.map, List.map_map]
          congr 4
          funext e
          simp only [Function.comp_apply, ih]
      | _ => rfl
  have hdepth : s'.arrays.size + s'.objects.size = s.arrays.size + s.objects.size := by
    rw [h.arrays, h.objects, Array.size_map, Array.size_map]
  rw [display, display, view, view, hdepth]
  exact hwithin _ [] v

end Renamed
end Store
end Scriptlet
