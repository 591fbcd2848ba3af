import Scriptlet.Proofs.Eval.Confinement
/-!
# Evaluations touch only what they can reach

A program gets hold of a frame, array, object or function only along references that start at its
own frame. Main statement: an evaluation leaves everything else as it is, and what can be reached
after it was within reach before or was added by it (`Eval.evaluate_touches_reach`).
-/
namespace Scriptlet

def Policy.all : Policy where
  allows _ := True
  closure _ _ _ := trivial
  method _ _ _ := trivial
  push _ := trivial
  dangling _ _ := trivial

namespace Region

def reach (s : Store) (l : Location) : Region .all s where
  carrier := { l' | s.Reaches l l' }
  closed _ hl _ hl' := .tail hl hl'
  allowed _ _ := trivial

theorem mem_of_reaches {policy : Policy} {s : Store} (R : Region policy s) {l l' : Location}
    (hl : l ∈ R) (h : s.Reaches l l') : l' ∈ R := by
  induction h with
  | refl => exact hl
  | tail _ hlink ih => exact R.closed _ ih _ hlink

end Region

namespace Eval

/-- An evaluation in the frame `e` changes only what `e` leads to, whether it ends with a value or
with a fault. Afterwards `e` and the places of the value lead only to what `e` led to before and to
what the evaluation added. -/
theorem evaluate_touches_reach (settings : Settings) (n : Nat) (node : Node) (e : FrameRef)
    (s t : State) (h : (evaluate settings n node e s).final? = some t) :
    (∀ l, s.store.Has l → ¬ s.store.Reaches (.frame e) l → s.store.SameAt t.store l) ∧
    (∀ l, t.store.Reaches (.frame e) l →
      s.store.Reaches (.frame e) l ∨ s.store.Allocated t.store l) ∧
    ∀ v, evaluate settings n node e s = .value v t → ∀ l₀ ∈ v.locations,
      ∀ l, t.store.Reaches l₀ l → s.store.Reaches (.frame e) l ∨ s.store.Allocated t.store l := by
  have he : .frame e ∈ Region.reach s.store (.frame e) := Relation.ReflTransGen.refl
  have hconfined := evaluate_within .all settings n s (Region.reach s.store (.frame e)) node e he
  obtain ⟨R, hext⟩ := hconfined.exists_of_final h
  refine ⟨hext.same, fun l hl => hext.new l (R.mem_of_reaches (hext.sub _ he) hl), ?_⟩
  intro v hv l₀ hl₀ l hl
  obtain ⟨R', hext', hplaces⟩ := hconfined.value v t hv
  exact hext'.new l (R'.mem_of_reaches (hplaces l₀ hl₀) hl)

/-- A frame with a function that writes to the variable of another frame, and a third frame. -/
def privateCounter : State where
  store := {
    frames := #[
      { bindings := .ofList [("f", ⟨.function ⟨0⟩, false⟩)] },
      { bindings := .ofList [("n", ⟨.integer 0, true⟩)] },
      { bindings := .ofList [("n", ⟨.integer 0, true⟩)] }]
    functions := #[{
      params := []
      code := .closure ⟨1⟩ ⟨.assignment false "n" ⟨.number "1", .start⟩, .start⟩ }] }

def callsF : Node :=
  ⟨.call ⟨.identifier "f", .start⟩ [⟨.arguments [], .start⟩], .start⟩

theorem evaluate_touches_reach_privateCounter :
    ∃ t, (evaluate {} 9 callsF ⟨0⟩ privateCounter).final? = some t ∧
      ((t.store.frame ⟨1⟩).bindings.get? "n").map (·.value) = some (.integer 1) ∧
      ¬ privateCounter.store.Reaches (.frame ⟨0⟩) (.frame ⟨2⟩) ∧
      privateCounter.store.SameAt t.store (.frame ⟨2⟩) := by
  have hvalue : ((evaluate {} 9 callsF ⟨0⟩ privateCounter).final?.map fun t =>
      ((t.store.frame ⟨1⟩).bindings.get? "n").map (·.value)) = some (some (.integer 1)) := by
    decide +kernel
  obtain ⟨t, ht, hn⟩ := Option.map_eq_some_iff.1 hvalue
  -- The first frame, its function and the frame of that function refer to one another only.
  let places : List Location := [.frame ⟨0⟩, .function ⟨0⟩, .frame ⟨1⟩]
  have hclosed : ∀ l ∈ places, ∀ l' ∈ privateCounter.store.links l, l' ∈ places := by
    decide +kernel
  have hapart : ¬ privateCounter.store.Reaches (.frame ⟨0⟩) (.frame ⟨2⟩) := by
    let R : Region .all privateCounter.store := ⟨{ l | l ∈ places }, hclosed, fun _ _ => trivial⟩
    intro hreach
    have hmem : Location.frame ⟨2⟩ ∈ places := R.mem_of_reaches List.mem_cons_self hreach
    revert hmem
    decide
  have hsame := (evaluate_touches_reach {} 9 callsF ⟨0⟩ privateCounter t ht).1
  exact ⟨t, ht, hn, hapart, hsame (.frame ⟨2⟩) (Nat.lt_succ_self 2) hapart⟩

end Eval
end Scriptlet
