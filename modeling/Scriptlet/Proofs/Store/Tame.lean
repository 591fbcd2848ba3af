import Scriptlet.Proofs.Eval.Reach
import Scriptlet.Proofs.Store.Resolution
import Scriptlet.Proofs.Syntax.Tree
/-!
# Tame regions

A region is tame if nothing in it can keep an evaluation busy for ever: no frame stands around
itself, so that searches for names come to an end, and no function has a loop in its body. All
references lead somewhere, so that what is added later is not there yet for the region. What an
evaluation does to the store keeps regions tame; only the frame of a call gets a frame around it,
and nothing refers to that frame before (`TameRegion.exists_appendOuter`).
-/
namespace Scriptlet

def NodeKind.isLoop : NodeKind → Bool
  | .whileLoop _ _ => true
  | _ => false

def Node.Loopless (tree : Node) : Prop :=
  ∀ node : Node, node.Within tree → node.kind.isLoop = false

theorem Node.loopless_mk {kind : NodeKind} {p : Position} :
    (⟨kind, p⟩ : Node).Loopless ↔
      kind.isLoop = false ∧ ∀ child ∈ kind.children, child.Loopless :=
  Node.forall_within

def Function.Loopless (f : Function) : Prop :=
  ∀ frame body, f.code = .closure frame body → body.Loopless

theorem Function.default_loopless : (default : Function).Loopless := by
  rintro frame body ⟨⟩
  exact Node.loopless_mk.2 ⟨rfl, by simp [NodeKind.children]⟩

theorem Builtin.function_loopless (b : Builtin) : b.function.Loopless := by
  rintro frame body ⟨⟩

namespace Store

variable {s t u : Store}

/-- A search for a name from a frame goes through the same frames if it may go deeper. -/
def searchEnds (s : Store) (ref : FrameRef) : Bool :=
  s.framesWithin (s.searchDepth + 1) ref = s.framesWithin s.searchDepth ref

/-- From `s` to `t` no frame gets another frame around it, and functions get no loops. -/
structure Quiet (s t : Store) : Prop where
  outers : ∀ ref, (t.frame ref).outers = (s.frame ref).outers
  functions : ∀ ref, t.function ref = s.function ref ∨ (t.function ref).Loopless

theorem frame_of_not_has {ref : FrameRef} (h : ¬ s.Has (.frame ref)) : s.frame ref = {} := by
  exact dif_neg h

theorem function_of_not_has {ref : FunctionRef} (h : ¬ s.Has (.function ref)) :
    s.function ref = default := by
  exact dif_neg h

namespace Quiet

theorem refl (s : Store) : s.Quiet s :=
  ⟨fun _ => rfl, fun _ => .inl rfl⟩

theorem trans (h : s.Quiet t) (h' : t.Quiet u) : s.Quiet u where
  outers ref := (h'.outers ref).trans (h.outers ref)
  functions ref := by
    rcases h'.functions ref with heq | hloopless
    · rw [heq]
      exact h.functions ref
    · exact .inr hloopless

theorem bind (s : Store) (ref : FrameRef) (name : String) (b : Binding) :
    s.Quiet (s.bind ref name b) :=
  ⟨fun other => outers_bind s ref other name b, fun _ => .inl rfl⟩

theorem associate (s : Store) (ref : FrameRef) (object : ObjectRef) :
    s.Quiet (s.associate ref object) where
  outers other := by
    by_cases hlt : ref.index < s.frames.size
    · rw [Store.associate, frame_modifyFrame s ref other _ hlt]
      split <;> rfl
    · rw [Store.associate, modifyFrame_eq_self s ref _ hlt]
  functions _ := .inl rfl

theorem receiveAll (s : Store) (ref : FrameRef) (receivers : List Value) :
    s.Quiet (s.receiveAll ref receivers) := by
  induction receivers generalizing s with
  | nil => exact .refl s
  | cons receiver receivers ih =>
    refine Quiet.trans ?_ (ih (s.receive ref receiver))
    cases receiver with
    | object object => exact (bind s ref _ _).trans (associate _ ref object)
    | _ => exact bind s ref _ _

theorem write (s : Store) (name : String) (v : Value) (owner : Owner) :
    s.Quiet (s.write name v owner) := by
  cases owner with
  | binding frame => exact bind s frame name _
  | property object => exact ⟨fun _ => rfl, fun _ => .inl rfl⟩

theorem addFrame (s : Store) {frame : Frame} (h : frame.outers = []) :
    s.Quiet (s.addFrame frame).2 where
  outers other := by
    rw [frame_addFrame]
    split
    · next heq =>
      have hfree : ¬ s.Has (.frame other) := heq ▸ Nat.lt_irrefl s.frames.size
      rw [h, frame_of_not_has hfree]
    · rfl
  functions _ := .inl rfl

theorem addFunction (s : Store) {f : Function} (h : f.Loopless) :
    s.Quiet (s.addFunction f).2 where
  outers _ := rfl
  functions other := by
    rw [function_addFunction]
    split
    · exact .inr h
    · exact .inl rfl

end Quiet

end Store

/-- A region where all references lead somewhere, no frame stands around itself and no function has
a loop. -/
structure TameRegion (s : Store) extends Region .all s where
  has : ∀ l ∈ carrier, s.Has l
  acyclic : ∀ ref, .frame ref ∈ carrier → ¬ Relation.TransGen s.Outer ref ref
  loopless : ∀ ref, .function ref ∈ carrier → (s.function ref).Loopless

namespace TameRegion

variable {s t : Store}

theorem has_of_extends (T : TameRegion s) {R : Region .all t} (hext : T.Extends R) {l : Location}
    (hl : l ∈ R) : t.Has l := by
  rcases hext.new l hl with hl | hnew
  · exact hext.keeps l (T.has l hl)
  · exact hnew.2

/-- A region stays tame if no frame gets another frame around it and functions get no loops. -/
theorem exists_of_quiet (T : TameRegion s) {R : Region .all t} (hext : T.Extends R)
    (hquiet : s.Quiet t) : ∃ T' : TameRegion t, T'.toRegion = R := by
  have houter : t.Outer = s.Outer := by
    funext ref outer
    rw [Store.Outer, Store.Outer, hquiet.outers]
  refine ⟨⟨R, fun l hl => T.has_of_extends hext hl, ?_, ?_⟩, rfl⟩
  · intro ref href
    rw [houter]
    rcases hext.new _ href with href | hnew
    · exact T.acyclic ref href
    · intro hcycle
      obtain ⟨outer, hstep, -⟩ := Relation.TransGen.head'_iff.1 hcycle
      exact hnew.1 (Store.lt_of_outer hstep)
  · intro ref href
    rcases hquiet.functions ref with heq | hloopless
    · rw [heq]
      rcases hext.new _ href with href | hnew
      · exact T.loopless ref href
      · rw [Store.function_of_not_has hnew.1]
        exact Function.default_loopless
    · exact hloopless

/-- A frame that stands around none of the region may get a frame around it. -/
theorem exists_appendOuter (T : TameRegion s) {ref outer : FrameRef}
    (href : .frame ref ∈ T.toRegion) (houter : .frame outer ∈ T.toRegion) (hne : outer ≠ ref)
    (hunused : ∀ other, .frame other ∈ T.toRegion → ref ∉ (s.frame other).outers) :
    ∃ T' : TameRegion (s.appendOuter ref outer), T.Extends T'.toRegion := by
  obtain ⟨R, hext⟩ := T.toRegion.exists_appendOuter href houter
  have hlt : ref.index < s.frames.size := T.has _ href
  have hframe : ∀ other, (s.appendOuter ref outer).frame other =
      if ref = other then { s.frame other with outers := (s.frame other).outers ++ [outer] }
      else s.frame other := fun other => Store.frame_modifyFrame s ref other _ hlt
  -- A step that is not from `ref` was there before, and no step of the region leads to `ref`.
  have hstep : ∀ {a b}, (s.appendOuter ref outer).Outer a b → ref ≠ a → s.Outer a b := by
    intro a b hab hne
    rwa [Store.Outer, hframe, if_neg hne] at hab
  have hmem : ∀ {a}, .frame a ∈ R → .frame a ∈ T.toRegion := by
    intro a ha
    rcases hext.new _ ha with ha | hnew
    · exact ha
    · exact absurd (by simpa [Store.Has, Store.appendOuter, Store.modifyFrame] using hnew.2) hnew.1
  have hunused' : ∀ {a b}, .frame a ∈ R → (s.appendOuter ref outer).Outer a b → ref ≠ b := by
    rintro a b ha hab rfl
    rw [Store.Outer, hframe] at hab
    split at hab
    · rcases List.mem_append.1 hab with hab | hab
      · exact hunused a (hmem ha) hab
      · exact hne (List.mem_singleton.1 hab).symm
    · exact hunused a (hmem ha) hab
  have hway : ∀ {a b}, .frame a ∈ R → Relation.TransGen (s.appendOuter ref outer).Outer a b →
      ref ≠ b ∧ .frame b ∈ R ∧ (ref ≠ a → Relation.TransGen s.Outer a b) := by
    intro a b ha h
    induction h with
    | single hab => exact ⟨hunused' ha hab, R.mem_outer ha hab, fun hne => .single (hstep hab hne)⟩
    | tail _ hbc ih =>
      obtain ⟨hne, hb, hway⟩ := ih
      exact ⟨hunused' hb hbc, R.mem_outer hb hbc, fun h => (hway h).tail (hstep hbc hne)⟩
  refine ⟨⟨R, fun l hl => T.has_of_extends hext hl, ?_, ?_⟩, hext⟩
  · intro a ha hcycle
    obtain ⟨hne, -, hway⟩ := hway ha hcycle
    exact T.acyclic a (hmem ha) (hway hne)
  · intro f hf
    rcases hext.new _ hf with hf | hnew
    · exact T.loopless f hf
    · exact absurd hnew.2 hnew.1

theorem not_mem_outers (T : TameRegion s) {T' : TameRegion t} (hext : T.Extends T'.toRegion)
    (hquiet : s.Quiet t) {ref : FrameRef} (hfree : ¬ s.Has (.frame ref)) (other : FrameRef)
    (hother : .frame other ∈ T'.toRegion) : ref ∉ (t.frame other).outers := by
  rw [hquiet.outers]
  intro href
  rcases hext.new _ hother with hother | hnew
  · exact hfree (T.has _ (T.mem_outer hother href))
  · rw [Store.frame_of_not_has hnew.1] at href
    cases href

theorem searchEnds (T : TameRegion s) {ref : FrameRef} (href : .frame ref ∈ T.toRegion) :
    s.searchEnds ref = true := by
  have hacyclic : ∀ r, Relation.ReflTransGen s.Outer ref r → ¬ Relation.TransGen s.Outer r r := by
    intro r hr
    apply T.acyclic
    induction hr with
    | refl => exact href
    | tail _ hstep ih => exact T.mem_outer ih hstep
  rw [Store.searchEnds, decide_eq_true_iff]
  exact Store.framesWithin_succ s.searchDepth ref [] hacyclic List.nodup_nil (by simp) (by simp)

def reach (s : Store) (e : FrameRef) (hhas : ∀ l, s.Reaches (.frame e) l → s.Has l)
    (hacyclic : ∀ ref, s.Reaches (.frame e) (.frame ref) → ¬ Relation.TransGen s.Outer ref ref)
    (hloopless : ∀ ref, s.Reaches (.frame e) (.function ref) → (s.function ref).Loopless) :
    TameRegion s :=
  { Region.reach s (.frame e) with has := hhas, acyclic := hacyclic, loopless := hloopless }

end TameRegion
end Scriptlet
