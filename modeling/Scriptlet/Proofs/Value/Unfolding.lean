import Scriptlet.Proofs.Eval.Termination
import Scriptlet.Proofs.Token.Rendering
import Scriptlet.Proofs.Value.Bisimulation
/-!
# Data and its trees

Data are values without texts and functions that do not lie inside themselves. Such a value unfolds
into a finite tree (`Store.IsData.exists_unfolds`), which is its view (`Store.Unfolds.view_eq`).
What the tree is does not change when a store grows (`Store.Unfolds.grow`), and values with the same
tree are equal (`Store.Unfolds.equal`).
-/
namespace Scriptlet

def Namewise {α β : Type} (R : α → β → Prop) : List (String × α) → List (String × β) → Prop :=
  List.Forall₂ fun e q => e.1 = q.1 ∧ R e.2 q.2

section Lists

variable {α β : Type} {R : α → β → Prop}

theorem namewise_iff {entries : List (String × α)} {properties : List (String × β)} :
    Namewise R entries properties ↔ entries.map (·.1) = properties.map (·.1) ∧
      ∀ p ∈ entries.zip properties, R p.1.2 p.2.2 := by
  rw [Namewise]
  induction entries generalizing properties with
  | nil => cases properties <;> simp
  | cons e entries ih =>
    cases properties with
    | nil => simp
    | cons q properties =>
      rw [List.forall₂_cons, ih]
      simp only [List.map_cons, List.cons.injEq, List.zip_cons_cons, List.forall_mem_cons]
      tauto

theorem map_eq_of_forall₂ {f : α → β} {as : List α} {bs : List β}
    (h : List.Forall₂ (fun a b => f a = b) as bs) : as.map f = bs := by
  rw [← List.forall₂_eq_eq_eq, List.forall₂_map_left_iff]
  exact h

theorem eq_of_forall₂ {S : α → β → Prop} (hRS : ∀ a b c, R a b → S a c → b = c) {as : List α}
    {bs cs : List β} (hbs : List.Forall₂ R as bs) (hcs : List.Forall₂ S as cs) : bs = cs := by
  induction hbs generalizing cs with
  | nil =>
    cases hcs
    rfl
  | cons hb _ ih =>
    cases hcs with
    | cons hc hcs => rw [hRS _ _ _ hb hc, ih hcs]

theorem exists_mem_of_forall₂ {as : List α} {bs : List β} (h : List.Forall₂ R as bs) {a : α}
    (ha : a ∈ as) : ∃ b ∈ bs, R a b := by
  induction h with
  | nil => cases ha
  | cons hab _ ih =>
    rcases List.mem_cons.1 ha with rfl | ha
    · exact ⟨_, List.mem_cons_self, hab⟩
    · obtain ⟨b, hb, hab⟩ := ih ha
      exact ⟨b, List.mem_cons_of_mem _ hb, hab⟩

theorem forall₂_of_common {γ : Type} {S : γ → β → Prop} {as : List α} {cs : List γ} {bs : List β}
    (has : List.Forall₂ R as bs) (hcs : List.Forall₂ S cs bs) :
    List.Forall₂ (fun a c => ∃ b, R a b ∧ S c b) as cs := by
  induction has generalizing cs with
  | nil =>
    cases hcs
    exact .nil
  | cons hab _ ih =>
    cases hcs with
    | cons hcb hcs => exact .cons ⟨_, hab, hcb⟩ (ih hcs)

end Lists

/-- Trees of data that can be written: an integer has a positive counterpart, and properties have
names that are no reserved words. -/
inductive View.IsData : View → Prop
  | undefined : IsData .undefined
  | integer {n : Int64} : n ≠ Int64.minValue → IsData (.integer n)
  | bool (b : Bool) : IsData (.bool b)
  | array {items : List View} : (∀ item ∈ items, IsData item) → IsData (.array items)
  | object {properties : List (String × View)} : (properties.map (·.1)).Nodup →
      (∀ q ∈ properties, (Token.identifier q.1).WellFormed) →
      (∀ q ∈ properties, IsData q.2) → IsData (.object properties)

namespace Store

/-- Values of a store that are data. There is no way to build up a value that lies inside itself. -/
inductive IsData (s : Store) : Value → Prop
  | undefined : IsData s .undefined
  | integer {n : Int64} : n ≠ Int64.minValue → IsData s (.integer n)
  | bool (b : Bool) : IsData s (.bool b)
  | array {ref : ArrayRef} : ref.index < s.arrays.size → (∀ v ∈ (s.array ref).toList, IsData s v) →
      IsData s (.array ref)
  | object {ref : ObjectRef} : ref.index < s.objects.size →
      (∀ e ∈ (s.object ref).entries, (Token.identifier e.1).WellFormed) →
      (∀ e ∈ (s.object ref).entries, IsData s e.2) → IsData s (.object ref)

/-- A value of a store and the tree that it is, written out in full. -/
inductive Unfolds (s : Store) : Value → View → Prop
  | undefined : Unfolds s .undefined .undefined
  | integer (n : Int64) : Unfolds s (.integer n) (.integer n)
  | bool (b : Bool) : Unfolds s (.bool b) (.bool b)
  | array {ref : ArrayRef} {items : List View} : ref.index < s.arrays.size →
      (s.array ref).toList.length = items.length →
      (∀ p ∈ (s.array ref).toList.zip items, Unfolds s p.1 p.2) →
      Unfolds s (.array ref) (.array items)
  | object {ref : ObjectRef} {properties : List (String × View)} : ref.index < s.objects.size →
      (s.object ref).names = properties.map (·.1) →
      (∀ p ∈ (s.object ref).entries.zip properties, Unfolds s p.1.2 p.2.2) →
      Unfolds s (.object ref) (.object properties)

structure Grows (s t : Store) : Prop where
  frames : t.frames = s.frames
  functions : t.functions = s.functions
  arrays : s.arrays.toList <+: t.arrays.toList
  objects : s.objects.toList <+: t.objects.toList

namespace Grows

variable {s t u : Store}

theorem refl (s : Store) : s.Grows s :=
  ⟨rfl, rfl, List.prefix_rfl, List.prefix_rfl⟩

theorem trans (hst : s.Grows t) (htu : t.Grows u) : s.Grows u where
  frames := htu.frames.trans hst.frames
  functions := htu.functions.trans hst.functions
  arrays := hst.arrays.trans htu.arrays
  objects := hst.objects.trans htu.objects

theorem addArray (s : Store) (items : Array Value) : s.Grows (s.addArray items).2 where
  frames := rfl
  functions := rfl
  arrays := by simp [Store.addArray]
  objects := List.prefix_rfl

theorem addObject (s : Store) (properties : Table Value) : s.Grows (s.addObject properties).2 where
  frames := rfl
  functions := rfl
  arrays := List.prefix_rfl
  objects := by simp [Store.addObject]

theorem array_eq (h : s.Grows t) {ref : ArrayRef} (href : ref.index < s.arrays.size) :
    t.array ref = s.array ref ∧ ref.index < t.arrays.size := by
  have hlength : s.arrays.size ≤ t.arrays.size := h.arrays.length_le
  have hitem := h.arrays.getElem (i := ref.index) href
  simp only [Array.getElem_toList] at hitem
  have hlt := href.trans_le hlength
  simp [Store.array, href, hlt, hitem]

theorem object_eq (h : s.Grows t) {ref : ObjectRef} (href : ref.index < s.objects.size) :
    t.object ref = s.object ref ∧ ref.index < t.objects.size := by
  have hlength : s.objects.size ≤ t.objects.size := h.objects.length_le
  have hitem := h.objects.getElem (i := ref.index) href
  simp only [Array.getElem_toList] at hitem
  have hlt := href.trans_le hlength
  simp [Store.object, href, hlt, hitem]

end Grows

section Unfolds

variable {s t : Store} {v w : Value} {tree other : View} {items : List View}
  {properties : List (String × View)}

theorem unfolds_array {ref : ArrayRef} : s.Unfolds (.array ref) (.array items) ↔
    ref.index < s.arrays.size ∧ List.Forall₂ s.Unfolds (s.array ref).toList items := by
  rw [List.forall₂_iff_zip]
  constructor
  · intro h
    cases h with
    | array href hlength hitems => exact ⟨href, hlength, fun hp => hitems _ hp⟩
  · rintro ⟨href, hlength, hitems⟩
    exact .array href hlength fun _ hp => hitems hp

theorem unfolds_object {ref : ObjectRef} : s.Unfolds (.object ref) (.object properties) ↔
    ref.index < s.objects.size ∧ Namewise s.Unfolds (s.object ref).entries properties := by
  rw [namewise_iff]
  constructor
  · intro h
    cases h with
    | object href hnames hvalues => exact ⟨href, hnames, hvalues⟩
  · rintro ⟨href, hnames, hvalues⟩
    exact .object href hnames hvalues

theorem IsData.exists_unfolds (h : s.IsData v) : ∃ tree : View, tree.IsData ∧ s.Unfolds v tree := by
  have : Nonempty View := ⟨.undefined⟩
  induction h with
  | undefined => exact ⟨_, .undefined, .undefined⟩
  | integer hn => exact ⟨_, .integer hn, .integer _⟩
  | bool b => exact ⟨_, .bool b, .bool b⟩
  | @array ref href _ ih =>
    choose! tree hdata hunfolds using ih
    refine ⟨.array ((s.array ref).toList.map tree), .array ?_, unfolds_array.2 ⟨href, ?_⟩⟩
    · exact List.forall_mem_map.2 hdata
    · exact List.forall₂_map_right_iff.2 (List.forall₂_same.2 hunfolds)
  | @object ref href hnames _ ih =>
    choose! tree hdata hunfolds using ih
    refine ⟨.object ((s.object ref).entries.map fun e => (e.1, tree e)), .object ?_ ?_ ?_,
      unfolds_object.2 ⟨href, ?_⟩⟩
    · have hnodup := (s.object ref).nodup
      simpa [Function.comp_def] using hnodup
    · exact List.forall_mem_map.2 hnames
    · exact List.forall_mem_map.2 hdata
    · apply List.forall₂_map_right_iff.2
      exact List.forall₂_same.2 fun e he => ⟨rfl, hunfolds e he⟩

theorem Unfolds.unique (h : s.Unfolds v tree) (h' : s.Unfolds v other) : tree = other := by
  induction h generalizing other with
  | undefined => cases h'; rfl
  | integer n => cases h'; rfl
  | bool b => cases h'; rfl
  | @array ref items _ hlength _ ih =>
    cases h' with
    | @array _ items' href' hlength' hitems' =>
      have hitems : List.Forall₂ (fun v tree => ∀ other, s.Unfolds v other → tree = other)
          (s.array ref).toList items :=
        List.forall₂_iff_zip.2 ⟨hlength, fun hp _ h' => ih _ hp h'⟩
      have hitems' := (unfolds_array.1 (.array href' hlength' hitems')).2
      rw [eq_of_forall₂ (fun _ _ _ hunique h' => hunique _ h') hitems hitems']
  | @object ref properties _ hnames _ ih =>
    cases h' with
    | @object _ properties' href' hnames' hvalues' =>
      have hentries : Namewise (fun v tree => ∀ other, s.Unfolds v other → tree = other)
          (s.object ref).entries properties :=
        namewise_iff.2 ⟨hnames, fun p hp _ h' => ih p hp h'⟩
      have hentries' := (unfolds_object.1 (.object href' hnames' hvalues')).2
      have heq := eq_of_forall₂ (fun _ _ _ h h' => Prod.ext (h.1.symm.trans h'.1) (h.2 _ h'.2))
        hentries hentries'
      rw [heq]

theorem Unfolds.grow (h : s.Unfolds v tree) (hgrows : s.Grows t) : t.Unfolds v tree := by
  induction h with
  | undefined => exact .undefined
  | integer n => exact .integer n
  | bool b => exact .bool b
  | array href hlength _ ih =>
    obtain ⟨heq, hlt⟩ := hgrows.array_eq href
    exact .array hlt (by rw [heq, hlength]) (by rwa [heq])
  | object href hnames _ ih =>
    obtain ⟨heq, hlt⟩ := hgrows.object_eq href
    exact .object hlt (by rw [heq, hnames]) (by rwa [heq])

/-- A path to a value: arrays and objects whose trees are larger than that of the value. -/
def PathTo (s : Store) (tree : View) (path : List Value) : Prop :=
  ∀ u ∈ path, ∃ outer, s.Unfolds u outer ∧ sizeOf tree < sizeOf outer

theorem PathTo.notMem {path : List Value} (hpath : s.PathTo tree path) (h : s.Unfolds v tree) :
    v ∉ path := by
  intro hv
  obtain ⟨outer, houter, hlt⟩ := hpath v hv
  rw [houter.unique h] at hlt
  exact Nat.lt_irrefl _ hlt

theorem PathTo.cons {path : List Value} (hpath : s.PathTo tree path) (h : s.Unfolds v tree)
    (hlt : sizeOf other < sizeOf tree) : s.PathTo other (v :: path) := by
  refine List.forall_mem_cons.2 ⟨⟨tree, h, hlt⟩, fun u hu => ?_⟩
  obtain ⟨outer, houter, hlt'⟩ := hpath u hu
  exact ⟨outer, houter, hlt.trans hlt'⟩

theorem sizeOf_lt_of_mem_items {item : View} (h : item ∈ items) :
    sizeOf item < sizeOf (View.array items) := by
  have := List.sizeOf_lt_of_mem h
  simp
  omega

theorem sizeOf_lt_of_mem_properties {q : String × View} (h : q ∈ properties) :
    sizeOf q.2 < sizeOf (View.object properties) := by
  have := List.sizeOf_lt_of_mem h
  obtain ⟨name, tree⟩ := q
  simp at this ⊢
  omega

theorem Unfolds.viewWithin_eq (h : s.Unfolds v tree) {n : Nat} {path : List Value}
    (hn : sizeOf tree ≤ n) (hpath : s.PathTo tree path) : s.viewWithin n path v = tree := by
  induction h generalizing n path with
  | undefined => cases n <;> rfl
  | integer k => cases n <;> rfl
  | bool b => cases n <;> rfl
  | @array ref items href hlength hitems ih =>
    have h := Unfolds.array href hlength hitems
    cases n with
    | zero => simp at hn
    | succ n =>
      rw [viewWithin, if_neg (by simpa using hpath.notMem h)]
      congr 1
      apply map_eq_of_forall₂
      refine List.forall₂_iff_zip.2 ⟨hlength, fun {w item} hp => ?_⟩
      have hlt := sizeOf_lt_of_mem_items (List.of_mem_zip hp).2
      have hdepth : sizeOf item ≤ n := by omega
      exact ih (w, item) hp hdepth (hpath.cons h hlt)
  | @object ref properties href hnames hvalues ih =>
    have h := Unfolds.object href hnames hvalues
    cases n with
    | zero => simp at hn
    | succ n =>
      rw [viewWithin, if_neg (by simpa using hpath.notMem h)]
      congr 1
      apply map_eq_of_forall₂
      have hentries : Namewise (fun w tree => s.viewWithin n (.object ref :: path) w = tree)
          (s.object ref).entries properties := by
        refine namewise_iff.2 ⟨hnames, fun p hp => ?_⟩
        have hlt := sizeOf_lt_of_mem_properties (List.of_mem_zip hp).2
        have hdepth : sizeOf p.2.2 ≤ n := by omega
        exact ih p hp hdepth (hpath.cons h hlt)
      exact hentries.imp fun e q heq => Prod.ext heq.1 heq.2

/-- The view of data is its tree, with nothing cut off. -/
theorem Unfolds.view_eq (h : s.Unfolds v tree) : s.view v = tree := by
  rw [← s.viewWithin_eq_view v (s.arrays.size + s.objects.size + 1 + sizeOf tree) (by omega)]
  exact h.viewWithin_eq (by omega) (List.forall_mem_nil _)

theorem isBisimulation_unfolds (s : Store) :
    s.IsBisimulation fun a b => ∃ tree, s.Unfolds a tree ∧ s.Unfolds b tree := by
  rintro a b ⟨tree, ha, hb⟩
  cases tree with
  | undefined => cases ha; cases hb; exact .undefined
  | integer n => cases ha; cases hb; exact .integer n
  | bool b => cases ha; cases hb; exact .bool b
  | array items =>
    cases a with
    | array x =>
      cases b with
      | array y => exact .array (forall₂_of_common (unfolds_array.1 ha).2 (unfolds_array.1 hb).2)
      | _ => cases hb
    | _ => cases ha
  | object properties =>
    cases a with
    | object x =>
      cases b with
      | object y =>
        have hx := (unfolds_object.1 ha).2
        have hy := (unfolds_object.1 hb).2
        have hnames : (s.object x).names = (s.object y).names :=
          (namewise_iff.1 hx).1.trans (namewise_iff.1 hy).1.symm
        refine .object (fun name => by rw [hnames]) fun name v w hv hw => ?_
        obtain ⟨f, hf, q, hvq, hfq⟩ := exists_mem_of_forall₂ (forall₂_of_common hx hy)
          (Table.get?_eq_some_iff.1 hv)
        have hf' : (s.object y).get? name = some f.2 := by
          rw [Table.get?_eq_some_iff, show name = f.1 from hvq.1.trans hfq.1.symm]
          exact hf
        rw [hw, Option.some.injEq] at hf'
        exact ⟨q.2, hvq.2, hf' ▸ hfq.2⟩
      | _ => cases hb
    | _ => cases ha
  | _ => cases ha

theorem Unfolds.equal (hv : s.Unfolds v tree) (hw : s.Unfolds w tree) : s.equal v w :=
  equal_of_isBisimulation s.isBisimulation_unfolds ⟨tree, hv, hw⟩

end Unfolds

end Store
end Scriptlet
