import Scriptlet.Proofs.Eval.Course
/-!
# Scopes stay acyclic

A search for a name follows the frames around a frame without remembering where it has been, so it
ends only if no frame stands around itself. Functions, frames and receivers refer to one another in
cycles, through values; but a frame gets a frame around it only when a function is entered, before
anything refers to it, and the one that it gets is there already. Main statement: no evaluation
makes a cycle of scopes, at no moment (`Eval.evaluate_keeps_scopes_acyclic`).
-/
namespace Scriptlet

namespace Store

variable {s t : Store}

/-- A search for a name finds the same if it may look through more frames, both to read the name and
to write to it. -/
def SearchesEnd (s : Store) : Prop :=
  ∀ ref name n, s.searchDepth ≤ n →
    s.getWithin name n ref = s.get? ref name ∧ s.targetWithin name n ref = s.target ref name

theorem Acyclic.searchesEnd (hs : s.Acyclic) : s.SearchesEnd := by
  intro ref name n hn
  have hframes : s.framesWithin n ref = s.framesWithin s.searchDepth ref := by
    induction n, hn using Nat.le_induction with
    | base => rfl
    | succ n hn ih =>
      rw [framesWithin_succ n ref [] (fun r _ => hs r) List.nodup_nil (by simp) (by simpa using hn)]
      exact ih
  constructor
  · rw [get?, getWithin_eq, getWithin_eq, hframes]
  · rw [target, targetWithin_eq, targetWithin_eq, hframes]

/-- New frames with older frames around them make no cycle. A way from an old frame is one of
before, and a way from a new frame leads to older ones only. -/
theorem Acyclic.of_older (hs : s.Acyclic)
    (hrange : ∀ ref outer, s.Outer ref outer → outer.index < s.frames.size)
    (hold : ∀ ref, ref.index < s.frames.size → (t.frame ref).outers = (s.frame ref).outers)
    (hnew : ∀ ref outer, s.frames.size ≤ ref.index → t.Outer ref outer →
      outer.index < ref.index) : t.Acyclic := by
  have hstep : ∀ {a b : FrameRef}, a.index < s.frames.size → t.Outer a b → s.Outer a b := by
    intro a b ha hab
    rwa [Outer, hold a ha] at hab
  have hway : ∀ {a b}, Relation.TransGen t.Outer a b →
      (a.index < s.frames.size → b.index < s.frames.size ∧ Relation.TransGen s.Outer a b) ∧
      (s.frames.size ≤ a.index → b.index < a.index) := by
    intro a b h
    induction h with
    | single hab =>
      refine ⟨fun ha => ?_, fun ha => hnew _ _ ha hab⟩
      exact ⟨hrange _ _ (hstep ha hab), .single (hstep ha hab)⟩
    | @tail b c _ hbc ih =>
      refine ⟨fun ha => ?_, fun ha => ?_⟩
      · obtain ⟨hb, hway⟩ := ih.1 ha
        exact ⟨hrange _ _ (hstep hb hbc), hway.tail (hstep hb hbc)⟩
      · have hb := ih.2 ha
        by_cases hlt : b.index < s.frames.size
        · exact Nat.lt_of_lt_of_le (hrange _ _ (hstep hlt hbc)) ha
        · exact Nat.lt_trans (hnew b c (Nat.le_of_not_lt hlt) hbc) hb
  intro ref hcycle
  by_cases hlt : ref.index < s.frames.size
  · exact hs ref ((hway hcycle).1 hlt).2
  · exact Nat.lt_irrefl _ ((hway hcycle).2 (Nat.le_of_not_lt hlt))

/-- References to frames lead somewhere: from the frames around others, and from functions. -/
structure Grounded (s : Store) : Prop where
  outers : ∀ ref outer, s.Outer ref outer → outer.index < s.frames.size
  functions : ∀ f ∈ s.functions, ∀ outer ∈ f.code.outers, outer.index < s.frames.size

end Store

/-! ## One change and one call -/

/-- Whatever is done in a frame, no frame gets another one around it or another object. -/
theorem Change.scope_eq {e : FrameRef} {s t : State} (h : Change e s t) (ref : FrameRef) :
    (t.store.frame ref).outers = (s.store.frame ref).outers ∧
    (t.store.frame ref).object = (s.store.frame ref).object := by
  cases h with
  | declare name v mutable p hnew =>
    exact ⟨Store.outers_bind s.store e ref name _, Store.associated_bind s.store e ref name _⟩
  | assign name v owner htarget =>
    obtain ⟨hfirst, haccepts⟩ := Store.target_eq_ok htarget
    have hwritten := Store.overwritten_write (v := v) hfirst haccepts
    exact ⟨hwritten.outers ref, hwritten.associated ref⟩
  | addFrame callee params values line column =>
    rw [Store.frame_addFrame]
    split
    · next h =>
      -- The frame that is added has as little around it as a frame that is not there.
      have hfree : s.store.frame ref = {} := by
        rw [h]
        simp [Store.frame, Store.addFrame, Array.getD]
      rw [hfree]
      exact ⟨rfl, rfl⟩
    · exact ⟨rfl, rfl⟩
  | _ => exact ⟨rfl, rfl⟩

/-- The only function that is new after a change and has a frame around it has the frame at hand. -/
theorem Change.outers_function {e : FrameRef} {s t : State} (h : Change e s t)
    (ref : FunctionRef) : ∀ outer ∈ (t.store.function ref).code.outers,
      outer = e ∨ ∃ ref', outer ∈ (s.store.function ref').code.outers := by
  have hadd : ∀ f : Function, (∀ outer ∈ f.code.outers,
      outer = e ∨ ∃ ref', outer ∈ (s.store.function ref').code.outers) →
      ∀ outer ∈ ((s.store.addFunction f).2.function ref).code.outers,
        outer = e ∨ ∃ ref', outer ∈ (s.store.function ref').code.outers := by
    intro f hf outer houter
    rw [Store.function_addFunction] at houter
    split at houter
    · exact hf outer houter
    · exact .inr ⟨ref, houter⟩
  cases h with
  | assign name v owner htarget =>
    intro outer houter
    rw [Store.function, Store.functions_write] at houter
    exact .inr ⟨ref, houter⟩
  | addClosure params body =>
    apply hadd
    intro outer houter
    exact .inl (List.mem_singleton.1 houter)
  | addMethod ref' receiver =>
    apply hadd
    exact fun outer houter => .inr ⟨ref', houter⟩
  | addPush =>
    apply hadd
    exact fun outer houter => by cases houter
  | _ => exact fun outer houter => .inr ⟨ref, houter⟩

theorem Change.le_size_frames {e : FrameRef} {s t : State} (h : Change e s t) :
    s.store.frames.size ≤ t.store.frames.size := by
  rcases h.size_frames with hsize | ⟨callee, params, values, line, column, rfl⟩
  · exact Nat.le_of_eq hsize.symm
  · simp [Store.addFrame]

/-- Evaluation can go on in the frame `e`: references to frames lead somewhere, and no frame stands
around itself. -/
structure Scoped (e : FrameRef) (s : State) : Prop where
  frame : e.index < s.store.frames.size
  outers : ∀ ref outer, s.store.Outer ref outer → outer.index < s.store.frames.size
  functions : ∀ ref, ∀ outer ∈ (s.store.function ref).code.outers,
    outer.index < s.store.frames.size
  acyclic : s.store.Acyclic

namespace Scoped

variable {e : FrameRef} {s t u : State}

theorem of_grounded (he : e.index < s.store.frames.size) (hgrounded : s.store.Grounded)
    (hacyclic : s.store.Acyclic) : Scoped e s where
  frame := he
  outers := hgrounded.outers
  functions := by
    intro ref outer houter
    by_cases hlt : ref.index < s.store.functions.size
    · rw [Store.function, Array.getD, dif_pos hlt] at houter
      exact hgrounded.functions _ (Array.getElem_mem hlt) outer houter
    · -- The function that does nothing stands in the first frame.
      rw [Store.function, Array.getD, dif_neg hlt] at houter
      cases List.mem_singleton.1 houter
      exact Nat.zero_lt_of_lt he
  acyclic := hacyclic

theorem change (hs : Scoped e s) (h : Change e s t) : Scoped e t := by
  have hsize := h.le_size_frames
  have houter : t.store.Outer = s.store.Outer := by
    funext ref outer
    rw [Store.Outer, Store.Outer, (h.scope_eq ref).1]
  constructor
  case frame => exact Nat.lt_of_lt_of_le hs.frame hsize
  case outers =>
    intro ref outer hstep
    rw [houter] at hstep
    exact Nat.lt_of_lt_of_le (hs.outers ref outer hstep) hsize
  case functions =>
    intro ref outer hmem
    rcases h.outers_function ref outer hmem with rfl | ⟨ref', hmem⟩
    · exact Nat.lt_of_lt_of_le hs.frame hsize
    · exact Nat.lt_of_lt_of_le (hs.functions ref' outer hmem) hsize
  case acyclic =>
    rw [Store.Acyclic, houter]
    exact hs.acyclic

section Call

variable {f : Function} {ref : FunctionRef} (hs : Scoped e s) (hf : s.store.Denotes ref f)
  (callee : Value) (values : List Value) (line column : Int64) (p : Position)

include hs hf

/-- The frame that a function is written in was there before the frame of its call. -/
theorem lt_of_mem_outers {outer : FrameRef} (houter : outer ∈ f.code.outers) :
    outer.index < s.store.frames.size := by
  rcases hf with rfl | rfl
  · exact hs.functions ref outer houter
  · cases List.mem_singleton.1 houter
    exact Nat.zero_lt_of_lt hs.frame

theorem older_called {inner outer : FrameRef} (hinner : s.store.frames.size ≤ inner.index)
    (h : (s.called callee f values line column p).store.Outer inner outer) :
    outer.index < inner.index := by
  have hlt := Store.lt_of_outer h
  rw [State.size_frames_called] at hlt
  have hindex : inner = ⟨s.store.frames.size⟩ := FrameRef.ext (by simp; omega)
  rw [hindex, Store.Outer, State.frame_called_self] at h
  exact Nat.lt_of_lt_of_le (hs.lt_of_mem_outers hf h) hinner

theorem called : Scoped ⟨s.store.frames.size⟩ (s.called callee f values line column p) := by
  have hsize := s.size_frames_called callee f values line column p
  have hold := fun (inner : FrameRef) (hlt : inner.index < s.store.frames.size) =>
    congrArg Frame.outers (s.frame_called_of_lt callee f values line column p hlt)
  have hnew : ∀ inner outer, s.store.frames.size ≤ inner.index →
      (s.called callee f values line column p).store.Outer inner outer →
      outer.index < inner.index :=
    fun inner outer hle h => hs.older_called hf callee values line column p hle h
  constructor
  case frame =>
    rw [hsize]
    exact Nat.lt_succ_self _
  case outers =>
    intro inner outer h
    by_cases hlt : inner.index < s.store.frames.size
    · rw [Store.Outer, hold inner hlt] at h
      have := hs.outers inner outer h
      omega
    · have hinner := Store.lt_of_outer h
      have := hnew inner outer (Nat.le_of_not_lt hlt) h
      omega
  case functions =>
    intro inner outer h
    rw [Store.function, State.functions_called] at h
    have := hs.functions inner outer h
    omega
  case acyclic => exact hs.acyclic.of_older hs.outers hold hnew

end Call

theorem left (hs : Scoped e s) (hu : Scoped ⟨s.store.frames.size⟩ u) : Scoped e u.left where
  frame := Nat.lt_trans hs.frame hu.frame
  outers := hu.outers
  functions := hu.functions
  acyclic := hu.acyclic

theorem kept : Kept Scoped where
  change hs h := hs.change h
  call ref values line column p hs hf := hs.called hf (.function ref) values line column p
  left hs hu := hs.left hu

end Scoped

/-! ## What a course does to scopes -/

/-- The frames around others and the associated objects, from one state to another with the calls in
between. -/
structure Links (s : State) (log : List Happening) (t : State) : Prop where
  size : s.store.frames.size ≤ t.store.frames.size
  place : ∀ ref code, .called ref code ∈ log →
    s.store.frames.size ≤ ref.index ∧ ref.index < t.store.frames.size
  old : ∀ ref, ref.index < s.store.frames.size →
    (t.store.frame ref).outers = (s.store.frame ref).outers ∧
    (t.store.frame ref).object = (s.store.frame ref).object
  called : ∀ ref code, .called ref code ∈ log → (t.store.frame ref).outers = code.outers
  uncalled : ∀ ref, s.store.frames.size ≤ ref.index → (∀ code, .called ref code ∉ log) →
    (t.store.frame ref).outers = []
  older : ∀ ref outer, s.store.frames.size ≤ ref.index → t.store.Outer ref outer →
    outer.index < ref.index

namespace Links

variable {e : FrameRef} {s t u : State} {log log' : List Happening}

theorem trans (hst : Links s log t) (htu : Links t log' u) : Links s (log ++ log') u where
  size := Nat.le_trans hst.size htu.size
  place := by
    intro ref code h
    rcases List.mem_append.1 h with h | h
    · exact ⟨(hst.place ref code h).1, Nat.lt_of_lt_of_le (hst.place ref code h).2 htu.size⟩
    · exact ⟨Nat.le_trans hst.size (htu.place ref code h).1, (htu.place ref code h).2⟩
  old := by
    intro ref hlt
    have ht := htu.old ref (Nat.lt_of_lt_of_le hlt hst.size)
    exact ⟨ht.1.trans (hst.old ref hlt).1, ht.2.trans (hst.old ref hlt).2⟩
  called := by
    intro ref code h
    rcases List.mem_append.1 h with h | h
    · rw [(htu.old ref (hst.place ref code h).2).1, hst.called ref code h]
    · exact htu.called ref code h
  uncalled := by
    intro ref hle h
    have hfirst : ∀ code, .called ref code ∉ log :=
      fun code hmem => h code (List.mem_append_left _ hmem)
    have hsecond : ∀ code, .called ref code ∉ log' :=
      fun code hmem => h code (List.mem_append_right _ hmem)
    by_cases ht : ref.index < t.store.frames.size
    · rw [(htu.old ref ht).1, hst.uncalled ref hle hfirst]
    · exact htu.uncalled ref (Nat.le_of_not_lt ht) hsecond
  older := by
    intro ref outer hle h
    by_cases ht : ref.index < t.store.frames.size
    · rw [Store.Outer, (htu.old ref ht).1] at h
      exact hst.older ref outer hle h
    · exact htu.older ref outer (Nat.le_of_not_lt ht) h

theorem of_scope_eq (hlog : ∀ ref code, .called ref code ∉ log)
    (hsize : s.store.frames.size ≤ t.store.frames.size)
    (h : ∀ ref, (t.store.frame ref).outers = (s.store.frame ref).outers ∧
      (t.store.frame ref).object = (s.store.frame ref).object) : Links s log t := by
  have hfree : ∀ ref, s.store.frames.size ≤ ref.index → (t.store.frame ref).outers = [] := by
    intro ref hle
    rw [(h ref).1, Store.frame, Array.getD, dif_neg (Nat.not_lt_of_le hle)]
  constructor
  case size => exact hsize
  case place => exact fun ref code hmem => absurd hmem (hlog ref code)
  case old => exact fun ref _ => h ref
  case called => exact fun ref code hmem => absurd hmem (hlog ref code)
  case uncalled => exact fun ref hle _ => hfree ref hle
  case older =>
    intro ref outer hle houter
    rw [Store.Outer, hfree ref hle] at houter
    cases houter

theorem of_call {f : Function} {ref : FunctionRef} {callee : Value} {values : List Value}
    {line column : Int64} {p : Position} (hs : Scoped e s) (hf : s.store.Denotes ref f)
    (h : Links (s.called callee f values line column p) log u) :
    Links s (.called ⟨s.store.frames.size⟩ f.code :: log) u.left := by
  have hsize := s.size_frames_called callee f values line column p
  have hself : (u.store.frame ⟨s.store.frames.size⟩).outers = f.code.outers := by
    rw [(h.old ⟨s.store.frames.size⟩ (by simp [hsize])).1, State.frame_called_self]
  constructor
  case size => exact Nat.le_trans (by omega) h.size
  case place =>
    intro inner code hmem
    rcases List.mem_cons.1 hmem with heq | hmem
    · cases heq
      exact ⟨Nat.le_refl _, Nat.lt_of_lt_of_le (by simp [hsize]) h.size⟩
    · exact ⟨Nat.le_trans (by omega) (h.place inner code hmem).1, (h.place inner code hmem).2⟩
  case old =>
    intro inner hlt
    rw [← s.frame_called_of_lt callee f values line column p hlt]
    exact h.old inner (by omega)
  case called =>
    intro inner code hmem
    rcases List.mem_cons.1 hmem with heq | hmem
    · cases heq
      exact hself
    · exact h.called inner code hmem
  case uncalled =>
    intro inner hle hmem
    have hne : inner.index ≠ s.store.frames.size := by
      intro hindex
      have heq : inner = ⟨s.store.frames.size⟩ := FrameRef.ext hindex
      exact hmem f.code (heq ▸ List.mem_cons_self)
    exact h.uncalled inner (by omega) fun code hcalled => hmem code (List.mem_cons_of_mem _ hcalled)
  case older =>
    intro inner outer hle houter
    by_cases hindex : inner.index = s.store.frames.size
    · have heq : inner = ⟨s.store.frames.size⟩ := FrameRef.ext hindex
      rw [heq] at houter
      change outer ∈ (u.store.frame ⟨s.store.frames.size⟩).outers at houter
      rw [hself] at houter
      rw [hindex]
      exact hs.lt_of_mem_outers hf houter
    · exact h.older inner outer (by omega) houter

end Links

theorem Course.links {tree : Node} {e : FrameRef} {s t : State} {log : List Happening}
    (h : Course tree e s log t) (hs : Scoped e s) : Links s log t := by
  induction h with
  | done =>
    exact .of_scope_eq (by simp) (Nat.le_refl _) fun ref => ⟨rfl, rfl⟩
  | @declare tree value e s t log name v mutable p _ hnew _ ih =>
    have hchange : Change e s _ := .declare name v mutable p hnew
    have hfirst : Links s [.declared ⟨e, name, mutable, p, s⟩] _ :=
      .of_scope_eq (by simp) hchange.le_size_frames hchange.scope_eq
    exact hfirst.trans (ih (hs.change hchange))
  | @change tree e s t u log hchange _ _ ih =>
    have hfirst : Links s [] t := .of_scope_eq (by simp) hchange.le_size_frames hchange.scope_eq
    exact hfirst.trans (ih (hs.change hchange))
  | @call tree e s t u inner log f ref values line column p hf hcourse _ hbody hrest =>
    have hcalled := hs.called hf (.function ref) values line column p
    have hfirst := Links.of_call hs hf (hbody hcalled)
    exact hfirst.trans (hrest (hs.left (hcourse.kept Scoped.kept hcalled)))

namespace Eval

/-- From a state where references to frames lead somewhere and no frame stands around itself, no
evaluation makes a cycle of scopes. The first part says so for every moment, whether or not the
evaluation ends: a test that only stores with a cycle, or with a search that does not end, may fail
is never failed. The second part is about what is there in the end. Frames that were there have the
same frames around them and the same object. The frame of a call has the one around it that the code
was written in, if it is a closure, and none if it is provided or the call was refused; and that one
is older. -/
theorem evaluate_keeps_scopes_acyclic (settings : Settings) (n : Nat) (node : Node) (e : FrameRef)
    (s : State) (he : e.index < s.store.frames.size) (hgrounded : s.store.Grounded)
    (hacyclic : s.store.Acyclic) :
    (∀ test alarm,
      (∀ ref (t : State), t.store.Acyclic → t.store.SearchesEnd → test ref t = true) →
      evaluateChecked test alarm settings n node e s = evaluate settings n node e s) ∧
    ∀ t, (evaluate settings n node e s).final? = some t →
      t.store.Acyclic ∧ ∃ log, Course node e s log t ∧
        (∀ ref, ref.index < s.store.frames.size →
          (t.store.frame ref).outers = (s.store.frame ref).outers ∧
          (t.store.frame ref).object = (s.store.frame ref).object) ∧
        ∀ ref, s.store.frames.size ≤ ref.index →
          (∀ code, .called ref code ∈ log → (t.store.frame ref).outers = code.outers) ∧
          ((∀ code, .called ref code ∉ log) → (t.store.frame ref).outers = []) ∧
          ∀ outer ∈ (t.store.frame ref).outers, outer.index < ref.index := by
  have hs := Scoped.of_grounded he hgrounded hacyclic
  constructor
  · intro test alarm htest
    have hpass : ∀ ref t, Scoped ref t → test ref t = true :=
      fun ref t ht => htest ref t ht.acyclic ht.acyclic.searchesEnd
    exact evaluateChecked_eq hpass Scoped.kept alarm settings n node e s hs
  · intro t ht
    obtain ⟨log, hcourse⟩ := evaluate_course settings n node e s t ht
    have hlinks := hcourse.links hs
    refine ⟨(hcourse.kept Scoped.kept hs).acyclic, log, hcourse, hlinks.old, fun ref hle => ?_⟩
    exact ⟨hlinks.called ref, hlinks.uncalled ref hle, fun outer => hlinks.older ref outer hle⟩

def frameInFrame : State where
  store := {
    frames := #[
      { bindings := .ofList [("x", ⟨.bool false, false⟩), ("y", ⟨.bool false, true⟩)] },
      { outers := [⟨0⟩] }]
    functions := #[{ params := [], code := .closure ⟨1⟩ ⟨.undefined, .start⟩ }] }

/-- A test of searches never fails, and a called function that stops with a fault leaves its frame
inside the one that it was written in. -/
theorem evaluate_keeps_scopes_acyclic_frameInFrame :
    let test ref (t : State) :=
      t.store.getWithin "x" (t.store.searchDepth + 1) ref = t.store.get? ref "x"
    (∀ alarm, evaluateChecked (fun ref t => decide (test ref t)) alarm {} 9 assignsBoth ⟨1⟩
      frameInFrame = evaluate {} 9 assignsBoth ⟨1⟩ frameInFrame) ∧
    ∃ t, (evaluate {} 9 assignsBoth ⟨1⟩ frameInFrame).final? = some t ∧ t.store.Acyclic ∧
      (t.store.frame ⟨1⟩).outers = [⟨0⟩] ∧ (t.store.frame ⟨2⟩).outers = [⟨1⟩] := by
  have hstep : ∀ ref outer, frameInFrame.store.Outer ref outer → ref = ⟨1⟩ ∧ outer = ⟨0⟩ := by
    rintro ⟨i⟩ outer h
    have hlt : i < 2 := Store.lt_of_outer h
    obtain rfl | rfl : i = 0 ∨ i = 1 := by omega
    · cases h
    · exact ⟨rfl, List.mem_singleton.1 h⟩
  have hgrounded : frameInFrame.store.Grounded := by
    constructor
    · intro ref outer h
      rw [(hstep ref outer h).2]
      decide
    · decide +kernel
  have hacyclic : frameInFrame.store.Acyclic := by
    apply Store.acyclic_of_decreasing
    intro ref outer h
    rw [(hstep ref outer h).1, (hstep ref outer h).2]
    decide
  obtain ⟨hchecked, hends⟩ := evaluate_keeps_scopes_acyclic {} 9 assignsBoth ⟨1⟩ frameInFrame
    (by decide) hgrounded hacyclic
  refine ⟨fun alarm => hchecked _ alarm fun ref t _ hsearches => ?_, ?_⟩
  · exact decide_eq_true (hsearches ref "x" _ (Nat.le_succ _)).1
  · have hnew : ((evaluate {} 9 assignsBoth ⟨1⟩ frameInFrame).final?.map fun t =>
        (t.store.frame ⟨2⟩).outers) = some [⟨1⟩] := by
      decide +kernel
    obtain ⟨t, ht, houters⟩ := Option.map_eq_some_iff.1 hnew
    obtain ⟨hend, log, -, hold, -⟩ := hends t ht
    exact ⟨t, ht, hend, (hold ⟨1⟩ (by decide)).1, houters⟩

end Eval
end Scriptlet
