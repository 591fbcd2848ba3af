import Mathlib.Data.List.Forall2
import Mathlib.Data.List.Perm.Subperm
import Mathlib.Order.Bounds.Defs
import Scriptlet.Value.Equality
/-!
# Equality is bisimilarity

A store is a graph in which arrays and objects may be shared and may contain themselves. Two values
are bisimilar if some relation pairs them and every pair of the relation agrees one level deep, with
the parts again in the relation. Comparing takes a pair that is open already as equal, and forgets
it afterwards. That is sound since such a pair is only ever used inside the comparison that opened
it: what is found there holds relative to the open pairs, and none is open at the end.
-/
namespace Scriptlet.Store

/-- Values that agree one level deep, with their parts related by `R`. -/
inductive Agree (s : Store) (R : Value → Value → Prop) : Value → Value → Prop
  | undefined : Agree s R .undefined .undefined
  | integer (n : Int64) : Agree s R (.integer n) (.integer n)
  | bool (b : Bool) : Agree s R (.bool b) (.bool b)
  | string (t : String) : Agree s R (.string t) (.string t)
  | function (ref : FunctionRef) : Agree s R (.function ref) (.function ref)
  | array {x y : ArrayRef} : List.Forall₂ R (s.array x).toList (s.array y).toList →
      Agree s R (.array x) (.array y)
  | object {x y : ObjectRef} : (∀ name, name ∈ (s.object x).names ↔ name ∈ (s.object y).names) →
      (∀ name v w, (s.object x).get? name = some v → (s.object y).get? name = some w → R v w) →
      Agree s R (.object x) (.object y)

/-- A relation whose pairs agree, with their parts in the relation again. -/
def IsBisimulation (s : Store) (R : Value → Value → Prop) : Prop :=
  ∀ a b, R a b → s.Agree R a b

section Relations

variable {s : Store} {R S : Value → Value → Prop} {a b c : Value}

theorem Agree.mono (hRS : ∀ a b, R a b → S a b) (h : s.Agree R a b) : s.Agree S a b := by
  cases h with
  | undefined => exact .undefined
  | integer n => exact .integer n
  | bool b => exact .bool b
  | string t => exact .string t
  | function ref => exact .function ref
  | array hitems => exact .array (hitems.imp hRS)
  | object hnames hvalues =>
    exact .object hnames fun name v w hv hw => hRS v w (hvalues name v w hv hw)

theorem Agree.refl (s : Store) (a : Value) : s.Agree (· = ·) a a := by
  cases a with
  | undefined => exact .undefined
  | integer n => exact .integer n
  | bool b => exact .bool b
  | string t => exact .string t
  | function ref => exact .function ref
  | array ref => exact .array (List.forall₂_same.2 fun _ _ => rfl)
  | object ref =>
    refine .object (fun _ => Iff.rfl) fun name v w hv hw => ?_
    rw [hv] at hw
    exact Option.some.inj hw

theorem Agree.swap (h : s.Agree R a b) : s.Agree (fun c d => R d c) b a := by
  cases h with
  | undefined => exact .undefined
  | integer n => exact .integer n
  | bool b => exact .bool b
  | string t => exact .string t
  | function ref => exact .function ref
  | array hitems => exact .array hitems.flip
  | object hnames hvalues =>
    exact .object (fun name => (hnames name).symm) fun name v w hv hw => hvalues name w v hw hv

theorem forall₂_comp {as bs cs : List Value} (hab : List.Forall₂ R as bs)
    (hbc : List.Forall₂ S bs cs) : List.Forall₂ (Relation.Comp R S) as cs := by
  induction hab generalizing cs with
  | nil =>
    cases hbc
    exact .nil
  | cons hR _ ih =>
    cases hbc with
    | cons hS hbc => exact .cons ⟨_, hR, hS⟩ (ih hbc)

theorem Agree.comp (hab : s.Agree R a b) (hbc : s.Agree S b c) :
    s.Agree (Relation.Comp R S) a c := by
  cases hab with
  | undefined => cases hbc; exact .undefined
  | integer n => cases hbc; exact .integer n
  | bool b => cases hbc; exact .bool b
  | string t => cases hbc; exact .string t
  | function ref => cases hbc; exact .function ref
  | array hitems =>
    cases hbc with
    | array hitems' => exact .array (forall₂_comp hitems hitems')
  | @object x y hnames hvalues =>
    cases hbc with
    | @object _ z hnames' hvalues' =>
      refine .object (fun name => (hnames name).trans (hnames' name)) fun name v w hv hw => ?_
      -- The name is present in the object between the two as well.
      have hmem : name ∈ (s.object y).names := by
        rw [← hnames, ← Table.contains_iff, Table.contains, hv]
        rfl
      rw [← Table.contains_iff, Table.contains, Option.isSome_iff_exists] at hmem
      obtain ⟨u, hu⟩ := hmem
      exact ⟨u, hvalues name v u hv hu, hvalues' name u w hu hw⟩

theorem isBisimulation_eq (s : Store) : s.IsBisimulation (· = ·) := by
  rintro a b rfl
  exact Agree.refl s a

theorem IsBisimulation.swap (h : s.IsBisimulation R) : s.IsBisimulation fun a b => R b a :=
  fun _ _ hab => (h _ _ hab).swap

theorem IsBisimulation.comp (hR : s.IsBisimulation R) (hS : s.IsBisimulation S) :
    s.IsBisimulation (Relation.Comp R S) := by
  rintro a c ⟨b, hab, hbc⟩
  exact (hR a b hab).comp (hS b c hbc)

end Relations

/-! ## One comparison -/

section Comparing

variable {s : Store} {assumed : List (Value × Value)}

theorem equalAssuming_array {x y : ArrayRef} :
    s.equalAssuming assumed (.array x) (.array y) ↔
      (x = y ∨ (.array x, .array y) ∈ assumed) ∨
        List.Forall₂ (fun v w => s.equalAssuming ((.array x, .array y) :: assumed) v w)
          (s.array x).toList (s.array y).toList := by
  rw [equalAssuming]
  split
  · next h => simp [h]
  · next h => simp [h, List.forall₂_iff_zip, Array.length_toList]

theorem names_iff_of_subset {x y : Table Value} (hsize : x.size = y.size)
    (hsub : x.names ⊆ y.names) (name : String) : name ∈ x.names ↔ name ∈ y.names := by
  have hlen : y.names.length ≤ x.names.length := by
    simp only [Table.length_names, hsize, Nat.le_refl]
  exact ((List.subperm_of_subset x.nodup hsub).perm_of_length_le hlen).mem_iff

theorem size_eq_of_names {x y : Table Value} (h : ∀ name, name ∈ x.names ↔ name ∈ y.names) :
    x.size = y.size := by
  have hperm := (List.perm_ext_iff_of_nodup x.nodup y.nodup).2 h
  rw [← Table.length_names, ← Table.length_names]
  exact hperm.length_eq

theorem equalAssuming_object {x y : ObjectRef} :
    s.equalAssuming assumed (.object x) (.object y) ↔
      (x = y ∨ (.object x, .object y) ∈ assumed) ∨
        (∀ name, name ∈ (s.object x).names ↔ name ∈ (s.object y).names) ∧
          ∀ name v w, (s.object x).get? name = some v → (s.object y).get? name = some w →
            s.equalAssuming ((.object x, .object y) :: assumed) v w := by
  rw [equalAssuming]
  split
  · next h => simp [h]
  · next h =>
    simp only [h, false_or, Bool.and_eq_true, decide_eq_true_eq, List.all_eq_true]
    constructor
    · rintro ⟨hsize, hall⟩
      have hpart : ∀ name v, (name, v) ∈ (s.object x).entries →
          ∃ w, (s.object y).get? name = some w ∧
            s.equalAssuming ((.object x, .object y) :: assumed) v w := by
        intro name v hv
        have hone := hall ⟨(name, v), hv⟩ (List.mem_attach _ _)
        dsimp only at hone
        split at hone
        · next w hw => exact ⟨w, hw, hone⟩
        · cases hone
      refine ⟨names_iff_of_subset hsize ?_, fun name v w hv hw => ?_⟩
      · intro name hname
        obtain ⟨⟨_, v⟩, hv, rfl⟩ := List.mem_map.1 hname
        obtain ⟨w, hw, -⟩ := hpart _ v hv
        exact List.mem_map.2 ⟨_, Table.get?_eq_some_iff.1 hw, rfl⟩
      · obtain ⟨w', hw', heq⟩ := hpart name v (Table.get?_eq_some_iff.1 hv)
        rw [hw] at hw'
        cases hw'
        exact heq
    · rintro ⟨hnames, hvalues⟩
      refine ⟨size_eq_of_names hnames, ?_⟩
      rintro ⟨⟨name, v⟩, hv⟩ -
      dsimp only
      split
      · next w hw => exact hvalues name v w (Table.get?_eq_some_iff.2 hv) hw
      · next hw =>
        have hmem := (hnames name).1 (List.mem_map_of_mem hv)
        rw [← Table.contains_iff, Table.contains, hw] at hmem
        cases hmem

/-- What is neither a pair of arrays nor one of objects agrees only with itself. -/
theorem equalAssuming_scalar {a b : Value}
    (harray : ∀ x y, a = .array x → b = .array y → False)
    (hobject : ∀ x y, a = .object x → b = .object y → False) :
    s.equalAssuming assumed a b ↔ a = b := by
  rw [equalAssuming]
  · simp
  · exact harray
  · exact hobject

end Comparing

/-! ## Comparing relative to open pairs -/

/-- Values that are bisimilar as far as the open pairs are: some relation holds of them whose pairs
agree, with their parts in the relation or among the open pairs. -/
def Relative (s : Store) (assumed : List (Value × Value)) (a b : Value) : Prop :=
  ∃ R : Value → Value → Prop, R a b ∧
    ∀ c d, R c d → s.Agree (fun c d => R c d ∨ (c, d) ∈ assumed) c d

section Relative

variable {s : Store} {assumed : List (Value × Value)} {a b : Value}

theorem Relative.agree (h : s.Relative assumed a b) :
    s.Agree (fun c d => s.Relative assumed c d ∨ (c, d) ∈ assumed) a b := by
  obtain ⟨R, hab, hR⟩ := h
  exact (hR a b hab).mono fun c d hcd => hcd.imp_left fun hcd => ⟨R, hcd, hR⟩

theorem Relative.refl (a : Value) : s.Relative assumed a a :=
  ⟨(· = ·), rfl, fun c d hcd => (isBisimulation_eq s c d hcd).mono fun _ _ => .inl⟩

/-- A pair can be closed once its parts agree with it still open. -/
theorem Relative.close
    (h : s.Agree (fun c d => s.Relative ((a, b) :: assumed) c d ∨ (c, d) ∈ (a, b) :: assumed) a b) :
    s.Relative assumed a b := by
  -- The pair itself joins what is related with it open.
  refine ⟨fun c d => (c, d) = (a, b) ∨ s.Relative ((a, b) :: assumed) c d, .inl rfl, ?_⟩
  have hwiden : ∀ c d, s.Relative ((a, b) :: assumed) c d ∨ (c, d) ∈ (a, b) :: assumed →
      ((c, d) = (a, b) ∨ s.Relative ((a, b) :: assumed) c d) ∨ (c, d) ∈ assumed := by
    rintro c d (hcd | hcd)
    · exact .inl (.inr hcd)
    · exact (List.mem_cons.1 hcd).imp_left .inl
  rintro c d (hcd | hcd)
  · cases hcd
    exact h.mono hwiden
  · exact hcd.agree.mono hwiden

/-- What is found equal is bisimilar relative to the open pairs, or is one of them. -/
theorem relative_of_equalAssuming (h : s.equalAssuming assumed a b) :
    s.Relative assumed a b ∨ (a, b) ∈ assumed := by
  induction assumed, a, b using equalAssuming.induct s with
  | case1 assumed x y hopen =>
    rcases hopen with rfl | hopen
    · exact .inl (.refl _)
    · exact .inr hopen
  | case2 assumed x y hnew ih =>
    have hitems := (equalAssuming_array.1 h).resolve_left hnew
    refine .inl (.close (.array ?_))
    rw [List.forall₂_iff_zip] at hitems ⊢
    exact ⟨hitems.1, fun {v w} hvw => ih v w hvw (hitems.2 hvw)⟩
  | case3 assumed x y hopen =>
    rcases hopen with rfl | hopen
    · exact .inl (.refl _)
    · exact .inr hopen
  | case4 assumed x y hnew ih =>
    obtain ⟨hnames, hvalues⟩ := (equalAssuming_object.1 h).resolve_left hnew
    refine .inl (.close (.object hnames fun name v w hv hw => ?_))
    exact ih name v (Table.get?_eq_some_iff.1 hv) w hw (hvalues name v w hv hw)
  | case5 assumed a b harray hobject =>
    rw [equalAssuming_scalar harray hobject] at h
    subst h
    exact .inl (.refl _)

theorem equalAssuming_of_isBisimulation {R : Value → Value → Prop} (hR : s.IsBisimulation R)
    (h : R a b) : s.equalAssuming assumed a b := by
  induction assumed, a, b using equalAssuming.induct s with
  | case1 assumed x y hopen => exact equalAssuming_array.2 (.inl hopen)
  | case2 assumed x y hnew ih =>
    cases hR _ _ h with
    | array hitems =>
      refine equalAssuming_array.2 (.inr ?_)
      rw [List.forall₂_iff_zip] at hitems ⊢
      exact ⟨hitems.1, fun {v w} hvw => ih v w hvw (hitems.2 hvw)⟩
  | case3 assumed x y hopen => exact equalAssuming_object.2 (.inl hopen)
  | case4 assumed x y hnew ih =>
    cases hR _ _ h with
    | object hnames hvalues =>
      refine equalAssuming_object.2 (.inr ⟨hnames, fun name v w hv hw => ?_⟩)
      exact ih name v (Table.get?_eq_some_iff.1 hv) w hw (hvalues name v w hv hw)
  | case5 assumed a b harray hobject =>
    rw [equalAssuming_scalar harray hobject]
    cases hR a b h with
    | array _ => exact (harray _ _ rfl rfl).elim
    | object _ _ => exact (hobject _ _ rfl rfl).elim
    | _ => rfl

end Relative

/-! ## Equality -/

theorem equal_isBisimulation (s : Store) : s.IsBisimulation fun a b => s.equal a b := by
  intro a b h
  have hrel : s.Relative [] a b := by
    simpa using relative_of_equalAssuming h
  obtain ⟨R, hab, hR⟩ := hrel
  have hbisim : s.IsBisimulation R := fun c d hcd => by simpa using hR c d hcd
  exact (hbisim a b hab).mono fun c d hcd => equalAssuming_of_isBisimulation hbisim hcd

theorem equal_of_isBisimulation {s : Store} {R : Value → Value → Prop} (hR : s.IsBisimulation R)
    {a b : Value} (h : R a b) : s.equal a b :=
  equalAssuming_of_isBisimulation hR h

/-- Equality is the greatest bisimulation, and so an equivalence of all values. -/
theorem equal_isGreatest_bisimulation (s : Store) :
    IsGreatest {R | s.IsBisimulation R} (fun a b => s.equal a b = true) ∧
      Equivalence fun a b => s.equal a b = true := by
  have hequal := equal_isBisimulation s
  refine ⟨⟨hequal, fun R hR a b hab => equal_of_isBisimulation hR hab⟩, ?_, ?_, ?_⟩
  · exact fun a => equal_of_isBisimulation (isBisimulation_eq s) rfl
  · exact fun hab => equal_of_isBisimulation hequal.swap hab
  · exact fun hab hbc => equal_of_isBisimulation (hequal.comp hequal) ⟨_, hab, hbc⟩

end Scriptlet.Store
