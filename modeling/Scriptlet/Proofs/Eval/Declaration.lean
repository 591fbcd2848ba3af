import Scriptlet.Proofs.Eval.Course
import Scriptlet.Proofs.Eval.Immutability
/-!
# Declarations stay in their frame

Whether an assignment makes a variable depends on everything that is in scope at that moment, and
functions run in new frames that see old ones. Still, a variable is only made in the frame that the
assignment is evaluated in. Main statement: the names that a frame gains are those that assignments
declared in it, each of them once and each with one event (`Eval.evaluate_declares_in_frame`). It
follows the course of the evaluation, with what is known of the names of every frame.
-/
namespace Scriptlet

def declarations (log : List Happening) : List Declaration :=
  log.filterMap fun
    | .declared d => some d
    | .called _ _ => none

def Declaration.event (d : Declaration) : Event :=
  .declared d.name d.mutable d.position

/-- The names that are declared in a frame, in the order of their declaration. -/
def declaredIn (ref : FrameRef) (log : List Declaration) : List String :=
  (log.filter (·.frame = ref)).map (·.name)

def Event.isDeclared : Event → Bool
  | .declared _ _ _ => true
  | _ => false

def State.declarations (s : State) : List Event :=
  s.events.toList.filter Event.isDeclared

theorem declaredIn_append (ref : FrameRef) (log log' : List Declaration) :
    declaredIn ref (log ++ log') = declaredIn ref log ++ declaredIn ref log' := by
  simp [declaredIn]

theorem declaredIn_eq_nil {ref : FrameRef} {log : List Declaration}
    (h : ∀ d ∈ log, d.frame ≠ ref) : declaredIn ref log = [] := by
  simpa [declaredIn] using h

theorem nodup_of_declaredIn {log : List Declaration} (h : ∀ ref, (declaredIn ref log).Nodup) :
    (log.map fun d => (d.frame, d.name)).Nodup := by
  induction log with
  | nil => exact List.nodup_nil
  | cons d log ih =>
    have hself := h d.frame
    have hrest : ∀ ref, (declaredIn ref log).Nodup := by
      intro ref
      refine (h ref).sublist ?_
      exact ((List.sublist_cons_self d log).filter _).map _
    rw [List.map_cons, List.nodup_cons]
    refine ⟨fun hmem => ?_, ih hrest⟩
    obtain ⟨d', hd', heq⟩ := List.mem_map.1 hmem
    simp only [Prod.mk.injEq] at heq
    have hname : d.name ∈ declaredIn d.frame log :=
      List.mem_map.2 ⟨d', List.mem_filter.2 ⟨hd', by simp [heq.1]⟩, heq.2⟩
    rw [declaredIn, List.filter_cons_of_pos (by simp), List.map_cons, List.nodup_cons] at hself
    exact hself.1 hname

/-! ## One change -/

theorem Store.names_bind {s : Store} {e : FrameRef} {name : String} (b : Binding)
    (he : e.index < s.frames.size) (hnew : (s.frame e).bindings.get? name = none)
    (ref : FrameRef) :
    ((s.bind e name b).frame ref).bindings.names =
      (s.frame ref).bindings.names ++ if e = ref then [name] else [] := by
  rw [bind, frame_modifyFrame s e ref _ he]
  split
  · next h =>
    subst h
    have hnot : name ∉ (s.frame e).bindings.names := by
      rw [← Table.contains_iff, Table.contains, hnew]
      simp
    rw [Table.names_insert, if_neg hnot]
  · rw [List.append_nil]

/-- What is done in a frame apart from declarations leaves the names of all frames as they are. -/
theorem Change.names_eq {e : FrameRef} {s t : State} (h : Change e s t)
    (hevents : t.events = s.events) {ref : FrameRef} (hlt : ref.index < s.store.frames.size) :
    (t.store.frame ref).bindings.names = (s.store.frame ref).bindings.names := by
  cases h with
  | declare name v mutable p hnew => simp [State.emit] at hevents
  | assign name v owner htarget =>
    obtain ⟨hfirst, haccepts⟩ := Store.target_eq_ok htarget
    exact (Store.overwritten_write hfirst haccepts).names ref
  | addFrame callee params values line column =>
    rw [Store.frame_addFrame_of_lt s.store _ hlt]
  | _ => rfl

/-! ## What a course declares -/

/-- What the logged declarations have to do with the names of the frames and with the events, from
one state to another in the frame `e`. -/
structure Declares (tree : Node) (e : FrameRef) (s : State) (log : List Declaration) (t : State) :
    Prop where
  size : s.store.frames.size ≤ t.store.frames.size
  place : ∀ d ∈ log, (d.frame = e ∨ s.store.frames.size ≤ d.frame.index) ∧
    d.frame.index < t.store.frames.size
  written : ∀ d ∈ log, d.frame = e →
    ∃ value, Node.Within ⟨.assignment d.mutable d.name value, d.position⟩ tree
  unseen : ∀ d ∈ log, d.before.store.has d.frame d.name = false
  flag : ∀ d ∈ log, ∃ b, (t.store.frame d.frame).bindings.get? d.name = some b ∧
    b.mutable = d.mutable
  old : ∀ ref, ref.index < s.store.frames.size → (t.store.frame ref).bindings.names =
    (s.store.frame ref).bindings.names ++ declaredIn ref log
  /-- The other names of a new frame are those that its call binds. -/
  new : ∀ ref, s.store.frames.size ≤ ref.index → ref.index < t.store.frames.size →
    ∃ callee params values line column receivers, (t.store.frame ref).bindings.names =
      ((Frame.ofCall callee params values line column).receiveAll receivers).bindings.names ++
        declaredIn ref log
  events : t.declarations = s.declarations ++ log.map Declaration.event
  keeps : KeepsVariables s.store t.store

namespace Declares

variable {tree : Node} {e : FrameRef} {s t u : State} {log log' : List Declaration}

theorem refl (tree : Node) (e : FrameRef) (s : State) : Declares tree e s [] s where
  size := Nat.le_refl _
  place := by simp
  written := by simp
  unseen := by simp
  flag := by simp
  old ref _ := by simp [declaredIn]
  new ref hle hlt := absurd hlt (Nat.not_lt_of_le hle)
  events := by simp
  keeps := .refl _

theorem trans (hst : Declares tree e s log t) (htu : Declares tree e t log' u) :
    Declares tree e s (log ++ log') u where
  size := Nat.le_trans hst.size htu.size
  place := by
    intro d hd
    rcases List.mem_append.1 hd with hd | hd
    · exact ⟨(hst.place d hd).1, Nat.lt_of_lt_of_le (hst.place d hd).2 htu.size⟩
    · exact ⟨(htu.place d hd).1.imp_right (Nat.le_trans hst.size), (htu.place d hd).2⟩
  written := by
    intro d hd
    rcases List.mem_append.1 hd with hd | hd
    · exact hst.written d hd
    · exact htu.written d hd
  unseen := by
    intro d hd
    rcases List.mem_append.1 hd with hd | hd
    · exact hst.unseen d hd
    · exact htu.unseen d hd
  flag := by
    intro d hd
    rcases List.mem_append.1 hd with hd | hd
    · obtain ⟨b, hb, hflag⟩ := hst.flag d hd
      obtain ⟨b', hb', hflag', -⟩ := htu.keeps d.frame d.name b hb
      exact ⟨b', hb', hflag'.trans hflag⟩
    · exact htu.flag d hd
  old := by
    intro ref hlt
    rw [htu.old ref (Nat.lt_of_lt_of_le hlt hst.size), hst.old ref hlt, declaredIn_append,
      List.append_assoc]
  new := by
    intro ref hle hlt
    by_cases ht : ref.index < t.store.frames.size
    · obtain ⟨callee, params, values, line, column, receivers, hnames⟩ := hst.new ref hle ht
      refine ⟨callee, params, values, line, column, receivers, ?_⟩
      rw [htu.old ref ht, hnames, declaredIn_append, List.append_assoc]
    · -- A frame that comes later has no declaration in the first part.
      have hnone : declaredIn ref log = [] := by
        apply declaredIn_eq_nil
        rintro d hd rfl
        exact ht (hst.place d hd).2
      rw [declaredIn_append, hnone, List.nil_append]
      exact htu.new ref (Nat.le_of_not_lt ht) hlt
  events := by rw [htu.events, hst.events, List.map_append, List.append_assoc]
  keeps := hst.keeps.trans htu.keeps

theorem of_change (h : Change e s t) (hevents : t.events = s.events) :
    Declares tree e s [] t where
  size := by
    rcases h.size_frames with hsize | ⟨callee, params, values, line, column, rfl⟩
    · exact Nat.le_of_eq hsize.symm
    · simp [Store.addFrame]
  place := by simp
  written := by simp
  unseen := by simp
  flag := by simp
  old ref hlt := by simp [h.names_eq hevents hlt, declaredIn]
  new ref hle hlt := by
    rcases h.size_frames with hsize | ⟨callee, params, values, line, column, rfl⟩
    · omega
    · refine ⟨callee, params, values, line, column, [], ?_⟩
      have hindex : ref = ⟨s.store.frames.size⟩ := by
        simp only [Store.addFrame, Array.size_push] at hlt
        exact FrameRef.ext (by simp; omega)
      rw [hindex, declaredIn, List.filter_nil, List.map_nil, List.append_nil]
      exact congrArg (·.bindings.names) (s.store.frame_addFrame_self _)
  events := by simp [State.declarations, hevents]
  keeps := h.keepsVariables

theorem declare {value : Node} {name : String} {mutable : Bool} {p : Position} (v : Value)
    (he : e.index < s.store.frames.size)
    (hwithin : Node.Within ⟨.assignment mutable name value, p⟩ tree)
    (hnew : s.store.has e name = false) :
    Declares tree e s [⟨e, name, mutable, p, s⟩] { s.emit (.declared name mutable p) with
      store := s.store.bind e name ⟨v, mutable⟩ } where
  size := Nat.le_of_eq (Store.size_frames_bind _ _ _ _).symm
  place := by simpa [Store.size_frames_bind] using he
  written := by
    simp only [List.mem_singleton, forall_eq]
    exact fun _ => ⟨value, hwithin⟩
  unseen := by simpa using hnew
  flag := by
    simp only [List.mem_singleton, forall_eq]
    refine ⟨⟨v, mutable⟩, ?_, rfl⟩
    rw [Store.get?_bind s.store e e name name _ he, if_pos ⟨rfl, rfl⟩]
  old ref _ := by
    rw [Store.names_bind _ he (Store.get?_eq_none_of_has hnew)]
    by_cases h : e = ref <;> simp [declaredIn, h]
  new ref hle hlt := by
    rw [Store.size_frames_bind] at hlt
    omega
  events := by simp [State.declarations, State.emit, Event.isDeclared, Declaration.event]
  keeps := Store.bind_keepsVariables _ hnew

/-- What a function declares in the frame of its call, and further calls in theirs, is declared in
new frames for the caller. -/
theorem left {body : Node} {f : Function} {callee : Value} {values : List Value}
    {line column : Int64} {p : Position} (he : e.index < s.store.frames.size)
    (h : Declares body ⟨s.store.frames.size⟩ (s.called callee f values line column p) log u) :
    Declares tree e s log u.left := by
  have hsize := s.size_frames_called callee f values line column p
  have hframe := fun {ref : FrameRef} (hlt : ref.index < s.store.frames.size) =>
    s.frame_called_of_lt callee f values line column p hlt
  have hplace : ∀ d ∈ log, s.store.frames.size ≤ d.frame.index := by
    intro d hd
    rcases (h.place d hd).1 with heq | hle
    · rw [heq]
    · omega
  constructor
  case size => exact Nat.le_trans (by omega) h.size
  case place => exact fun d hd => ⟨.inr (hplace d hd), (h.place d hd).2⟩
  case written =>
    rintro d hd rfl
    exact absurd he (Nat.not_lt_of_le (hplace d hd))
  case unseen => exact h.unseen
  case flag => exact h.flag
  case old =>
    intro ref hlt
    rw [State.left, h.old ref (by omega), hframe hlt]
  case new =>
    intro ref hle hlt
    by_cases hcalled : ref.index < s.store.frames.size + 1
    · have hindex : ref = ⟨s.store.frames.size⟩ := FrameRef.ext (by simp; omega)
      refine ⟨callee, f.params, values, line, column, f.receivers, ?_⟩
      rw [State.left, h.old ref (by omega), hindex, State.frame_called_self]
    · exact h.new ref (by omega) hlt
  case events =>
    have hevents : (s.called callee f values line column p).declarations = s.declarations := by
      simp [State.called, State.entered, State.declarations, Event.isDeclared]
    rw [← hevents]
    exact h.events
  case keeps => exact (entered_keepsVariables s _ f p).trans h.keeps

end Declares

theorem Course.declares {tree : Node} {e : FrameRef} {s t : State} {log : List Happening}
    (h : Course tree e s log t) (he : e.index < s.store.frames.size) :
    Declares tree e s (declarations log) t := by
  induction h with
  | @done tree e s => exact .refl tree e s
  | declare name v mutable p hwithin hnew _ ih =>
    have hfirst := Declares.declare v he hwithin hnew
    exact hfirst.trans (ih (Nat.lt_of_lt_of_le he hfirst.size))
  | @change tree e s t u log hchange hevents _ ih =>
    have hfirst : Declares tree e s [] t := .of_change hchange hevents
    exact hfirst.trans (ih (Nat.lt_of_lt_of_le he hfirst.size))
  | @call tree e s t u inner log f ref values line column p _ _ _ hbody hrest =>
    have hinner : s.store.frames.size <
        (s.called (.function ref) f values line column p).store.frames.size := by
      rw [State.size_frames_called]
      exact Nat.lt_succ_self _
    have hfirst : Declares tree e s (declarations inner) u.left := .left he (hbody hinner)
    have hboth := hfirst.trans (hrest (Nat.lt_of_lt_of_le he hfirst.size))
    rwa [declarations, declarations, ← List.filterMap_append] at hboth

theorem Declares.nodup {tree : Node} {e : FrameRef} {s t : State} {log : List Declaration}
    (h : Declares tree e s log t) : (log.map fun d => (d.frame, d.name)).Nodup := by
  apply nodup_of_declaredIn
  intro ref
  have hnames := (t.store.frame ref).bindings.nodup
  change (t.store.frame ref).bindings.names.Nodup at hnames
  by_cases hold : ref.index < s.store.frames.size
  · rw [h.old ref hold] at hnames
    exact (List.nodup_append.1 hnames).2.1
  · by_cases hnew : ref.index < t.store.frames.size
    · obtain ⟨_, _, _, _, _, _, heq⟩ := h.new ref (Nat.le_of_not_lt hold) hnew
      rw [heq] at hnames
      exact (List.nodup_append.1 hnames).2.1
    · have hnone : declaredIn ref log = [] := by
        apply declaredIn_eq_nil
        rintro d hd rfl
        exact hnew (h.place d hd).2
      rw [hnone]
      exact List.nodup_nil

namespace Eval

/-- Of the frames that are there, an evaluation in the frame `e` gives new names to `e` alone, and
takes none away. The new names of `e`, and those of the frames of calls beyond what the call itself
binds, are the names of declarations in the course of the evaluation: assignments of the tree, for
those in `e`, to names that were not in scope at that moment. Each is declared once, it has the
mutability of its declaration in the end, and each declaration has one event. -/
theorem evaluate_declares_in_frame (settings : Settings) (n : Nat) (node : Node) (e : FrameRef)
    (s t : State) (he : e.index < s.store.frames.size)
    (h : (evaluate settings n node e s).final? = some t) :
    ∃ log, Course node e s log t ∧
      (∀ ref, ref.index < s.store.frames.size → ref ≠ e →
        (t.store.frame ref).bindings.names = (s.store.frame ref).bindings.names) ∧
      (t.store.frame e).bindings.names =
        (s.store.frame e).bindings.names ++ declaredIn e (declarations log) ∧
      (∀ ref, s.store.frames.size ≤ ref.index → ref.index < t.store.frames.size →
        ∃ callee params values line column receivers, (t.store.frame ref).bindings.names =
          ((Frame.ofCall callee params values line column).receiveAll receivers).bindings.names ++
            declaredIn ref (declarations log)) ∧
      (∀ d ∈ declarations log, d.frame = e →
        ∃ value, Node.Within ⟨.assignment d.mutable d.name value, d.position⟩ node) ∧
      (∀ d ∈ declarations log, (d.frame = e ∨ s.store.frames.size ≤ d.frame.index) ∧
        d.before.store.has d.frame d.name = false ∧
        ∃ b, (t.store.frame d.frame).bindings.get? d.name = some b ∧ b.mutable = d.mutable) ∧
      ((declarations log).map fun d => (d.frame, d.name)).Nodup ∧
      t.declarations = s.declarations ++ (declarations log).map Declaration.event := by
  obtain ⟨log, hcourse⟩ := evaluate_course settings n node e s t h
  have hdeclares := hcourse.declares he
  refine ⟨log, hcourse, fun ref hlt hne => ?_, hdeclares.old e he, hdeclares.new,
    hdeclares.written, fun d hd => ⟨(hdeclares.place d hd).1, hdeclares.unseen d hd,
      hdeclares.flag d hd⟩, hdeclares.nodup, hdeclares.events⟩
  have hnone : declaredIn ref (declarations log) = [] := by
    apply declaredIn_eq_nil
    rintro d hd rfl
    rcases (hdeclares.place d hd).1 with heq | hle
    · exact hne heq
    · exact absurd hlt (Nat.not_lt_of_le hle)
  rw [hdeclares.old ref hlt, hnone, List.append_nil]

/-- A declaration, and a call of a function that assigns to it and declares another variable. -/
def declaresInCall : Node :=
  let truth : Node := ⟨.bool true, .start⟩
  let body : Node := ⟨.statements
    [⟨.assignment false "u" truth, .start⟩, ⟨.assignment false "w" truth, .start⟩], .start⟩
  ⟨.statements
    [⟨.assignment true "u" truth, .start⟩,
      ⟨.call ⟨.function [] body, .start⟩ [⟨.arguments [], .start⟩], .start⟩], .start⟩

theorem evaluate_declares_in_frame_declaresInCall :
    ∃ t log, (evaluate {} 9 declaresInCall ⟨0⟩ twoVariables).final? = some t ∧
      Course declaresInCall ⟨0⟩ twoVariables log t ∧ declaredIn ⟨0⟩ (declarations log) = ["u"] ∧
      (declarations log).map Declaration.event =
        [.declared "u" true .start, .declared "w" false .start] := by
  have hfinal : ((evaluate {} 9 declaresInCall ⟨0⟩ twoVariables).final?.map fun t =>
      ((t.store.frame ⟨0⟩).bindings.names, t.declarations)) =
      some (["x", "y", "u"], [.declared "u" true .start, .declared "w" false .start]) := by
    decide +kernel
  obtain ⟨t, ht, hfacts⟩ := Option.map_eq_some_iff.1 hfinal
  obtain ⟨log, hcourse, -, hnames, -, -, -, -, hevents⟩ :=
    evaluate_declares_in_frame {} 9 declaresInCall ⟨0⟩ twoVariables t (by decide) ht
  rw [Prod.mk.injEq, hnames, hevents] at hfacts
  have hgained : ["x", "y"] ++ declaredIn ⟨0⟩ (declarations log) = ["x", "y"] ++ ["u"] := hfacts.1
  exact ⟨t, log, ht, hcourse, List.append_cancel_left hgained, hfacts.2⟩

end Eval
end Scriptlet
