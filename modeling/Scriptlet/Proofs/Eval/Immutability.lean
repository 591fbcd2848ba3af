import Scriptlet.Proofs.Eval.Run
import Scriptlet.Proofs.Store.Resolution
/-!
# Immutable variables keep their values

Two operations write variables: a declaration binds a name in the frame at hand, and would replace a
variable of that name with its mutability, and an assignment writes to the owner of a name. The
first is reached only for a name that the frame does not see, the second only for an owner that
accepts it, and a call starts with a frame that nothing refers to yet. So every variable keeps its
mutability through an evaluation, and an immutable one its value.
-/
namespace Scriptlet

/-- Every variable of `s` is there in `t`, with its mutability, and with its value if it is
immutable. -/
def KeepsVariables (s t : Store) : Prop :=
  ∀ ref name b, (s.frame ref).bindings.get? name = some b →
    ∃ b', (t.frame ref).bindings.get? name = some b' ∧ b'.mutable = b.mutable ∧
      (b.mutable = false → b'.value = b.value)

namespace KeepsVariables

variable {s t u : Store}

theorem of_frame_eq (h : ∀ ref, ref.index < s.frames.size → t.frame ref = s.frame ref) :
    KeepsVariables s t := by
  intro ref name b hb
  refine ⟨b, ?_, rfl, fun _ => rfl⟩
  rw [h ref (Store.lt_of_binding hb), hb]

theorem refl (s : Store) : KeepsVariables s s :=
  of_frame_eq fun _ _ => rfl

theorem trans (hst : KeepsVariables s t) (htu : KeepsVariables t u) : KeepsVariables s u := by
  intro ref name b hb
  obtain ⟨b', hb', hflag, hvalue⟩ := hst ref name b hb
  obtain ⟨b'', hb'', hflag', hvalue'⟩ := htu ref name b' hb'
  refine ⟨b'', hb'', hflag'.trans hflag, fun hm => ?_⟩
  rw [hvalue' (hflag.trans hm), hvalue hm]

end KeepsVariables

/-! ## One change -/

namespace Store

variable {s : Store} {e : FrameRef} {name : String}

theorem get?_eq_none_of_has (h : s.has e name = false) :
    (s.frame e).bindings.get? name = none := by
  rw [has, get?, searchDepth, getWithin] at h
  cases hb : (s.frame e).bindings.get? name with
  | none => rfl
  | some b =>
    rw [hb] at h
    cases h

theorem bind_keepsVariables (b : Binding) (h : s.has e name = false) :
    KeepsVariables s (s.bind e name b) := by
  intro ref n old hold
  refine ⟨old, ?_, rfl, fun _ => rfl⟩
  by_cases hlt : e.index < s.frames.size
  · have hne : ¬ (e = ref ∧ name = n) := by
      rintro ⟨rfl, rfl⟩
      rw [get?_eq_none_of_has h] at hold
      cases hold
    rw [get?_bind s e ref name n b hlt, if_neg hne, hold]
  · rw [bind, modifyFrame_eq_self s e _ hlt, hold]

theorem target_eq_ok {owner : Owner} (h : s.target e name = .ok owner) :
    s.firstOwner? name (s.searched e) = some owner ∧ s.accepts name owner := by
  rw [target, targetWithin_eq, ← searched] at h
  cases hf : s.firstOwner? name (s.searched e) with
  | none =>
    rw [hf] at h
    cases h
  | some first =>
    rw [hf, verdict] at h
    split at h
    · next ha =>
      cases h
      exact ⟨rfl, ha⟩
    · cases h

end Store

theorem Store.Overwritten.keepsVariables {s t : State} {name : String} {owner : Owner} {v : Value}
    (h : Store.Overwritten s t name owner v) (ha : s.store.accepts name owner) :
    KeepsVariables s.store t.store := by
  intro ref n b hb
  have hflag := h.flags ref n
  rw [hb, Option.map_some, Option.map_eq_some_iff] at hflag
  obtain ⟨b', hb', hflag⟩ := hflag
  refine ⟨b', hb', hflag, fun hm => ?_⟩
  have hother : ¬ (n = name ∧ Owner.binding ref = owner) := by
    rintro ⟨rfl, rfl⟩
    rw [Store.accepts, hb, Option.any_some, hm] at ha
    cases ha
  have hcell := h.cells n (.binding ref) hother
  rw [Store.read?, Store.read?, hb, hb'] at hcell
  exact Option.some.inj hcell

theorem Change.keepsVariables {e : FrameRef} {s t : State} (h : Change e s t) :
    KeepsVariables s.store t.store := by
  cases h with
  | declare name v mutable p hnew => exact Store.bind_keepsVariables _ hnew
  | assign name v owner htarget =>
    obtain ⟨hfirst, haccepts⟩ := Store.target_eq_ok htarget
    exact (Store.overwritten_write hfirst haccepts).keepsVariables haccepts
  | addFrame callee params values line column =>
    refine .of_frame_eq fun ref hlt => ?_
    exact Store.frame_addFrame_of_lt s.store _ hlt
  | _ => exact .refl _

/-! ## Calls -/

namespace Store

variable {s : Store} {frame ref : FrameRef}

theorem frame_receive_of_ne (receiver : Value) (hne : ref ≠ frame) :
    (s.receive frame receiver).frame ref = s.frame ref := by
  have hbind := frame_modifyFrame_of_ne s
    (fun f => { f with bindings := f.bindings.insert Frame.thisName ⟨receiver, false⟩ }) hne
  cases receiver with
  | object object => exact (frame_modifyFrame_of_ne _ _ hne).trans hbind
  | _ => exact hbind

theorem frame_receiveAll_of_ne (receivers : List Value) (hne : ref ≠ frame) :
    (s.receiveAll frame receivers).frame ref = s.frame ref := by
  induction receivers generalizing s with
  | nil => rfl
  | cons receiver receivers ih =>
    rw [receiveAll, List.foldl_cons]
    exact ih.trans (frame_receive_of_ne receiver hne)

end Store

theorem State.frame_entered_of_ne {s : State} {f : Function} {frame ref : FrameRef} {p : Position}
    (hne : ref ≠ frame) : (s.entered f frame p).store.frame ref = s.store.frame ref := by
  have hreceive : (s.store.receiveAll frame f.receivers).frame ref = s.store.frame ref :=
    Store.frame_receiveAll_of_ne f.receivers hne
  rw [State.entered]
  cases f.code with
  | closure outer body => exact (Store.frame_modifyFrame_of_ne _ _ hne).trans hreceive
  | builtin b => exact hreceive

/-- The frame of a call is new, so entering the function touches no variable that is there. -/
theorem entered_keepsVariables (s : State) (frame : Frame) (f : Function) (p : Position) :
    KeepsVariables s.store (State.entered { s with store := (s.store.addFrame frame).2 } f
      ⟨s.store.frames.size⟩ p).store := by
  refine .of_frame_eq fun ref hlt => ?_
  have hne : ref ≠ ⟨s.store.frames.size⟩ := by
    rintro rfl
    exact Nat.lt_irrefl _ hlt
  rw [State.frame_entered_of_ne hne]
  exact Store.frame_addFrame_of_lt s.store frame hlt

/-! ## Whole evaluations -/

theorem Run.keepsVariables {settings : Settings} {e : FrameRef} {s t : State}
    (h : Run settings e s t) : KeepsVariables s.store t.store := by
  induction h with
  | done => exact .refl _
  | change hc _ ih => exact hc.keepsVariables.trans ih
  | @call e s t u w ref values line column p _ _ _ _ hargs hbody hrest =>
    have hentered := entered_keepsVariables t
      (.ofCall (.function ref) (s.store.function ref).params values line column)
      (s.store.function ref) p
    exact ((hargs.trans hentered).trans hbody).trans hrest

namespace Eval

/-- A variable that is there when an evaluation starts is there when it ends, with a value or with a
fault: its mutability is the same, and if it is immutable, its value is. -/
theorem evaluate_keeps_variables (settings : Settings) (n : Nat) (node : Node) (e : FrameRef)
    (s s' : State) (h : (evaluate settings n node e s).final? = some s') (ref : FrameRef)
    (name : String) (b : Binding) (hb : (s.store.frame ref).bindings.get? name = some b) :
    ∃ b', (s'.store.frame ref).bindings.get? name = some b' ∧ b'.mutable = b.mutable ∧
      (b.mutable = false → b'.value = b.value) :=
  (evaluate_runs settings n node e s s' h).keepsVariables ref name b hb

def twoVariables : State where
  store := {
    frames := #[{ bindings := .ofList [("x", ⟨.bool false, false⟩), ("y", ⟨.bool false, true⟩)] }] }

def assignsBoth : Node :=
  let truth : Node := ⟨.bool true, .start⟩
  let body : Node := ⟨.statements
    [⟨.assignment false "y" truth, .start⟩, ⟨.assignment false "x" truth, .start⟩], .start⟩
  ⟨.call ⟨.function [] body, .start⟩ [⟨.arguments [], .start⟩], .start⟩

theorem evaluate_keeps_variables_assignsBoth :
    ∃ s', (evaluate {} 5 assignsBoth ⟨0⟩ twoVariables).final? = some s' ∧
      (s'.store.frame ⟨0⟩).bindings.get? "y" = some ⟨.bool true, true⟩ ∧
      (s'.store.frame ⟨0⟩).bindings.get? "x" = some ⟨.bool false, false⟩ := by
  have hmutable : ((evaluate {} 5 assignsBoth ⟨0⟩ twoVariables).final?.bind
      fun s' => (s'.store.frame ⟨0⟩).bindings.get? "y") = some ⟨.bool true, true⟩ := rfl
  obtain ⟨s', h, hy⟩ := Option.bind_eq_some_iff.1 hmutable
  obtain ⟨⟨value, flag⟩, hb, hflag, hvalue⟩ := evaluate_keeps_variables {} 5 assignsBoth ⟨0⟩
    twoVariables s' h ⟨0⟩ "x" ⟨.bool false, false⟩ rfl
  cases hflag
  cases hvalue rfl
  exact ⟨s', h, hy, hb⟩

end Eval
end Scriptlet
