import Scriptlet.Proofs.Eval.Blame
import Scriptlet.Proofs.Syntax.Places
/-!
# Where the faults of a session point

A program can call the functions that earlier programs of its session have left behind, so its
faults are reported at places of its own text or of theirs. Main statement: they are reported
nowhere else, and what a provided function raises is reported at its call
(`Program.faults_point_into_texts`). Only the surroundings of a program can make it stop without a
place (`Program.busyOutput_lacks_place`).
-/
namespace Scriptlet

theorem Position.Marks.ne_nowhere {p : Position} {source text : List Char}
    (h : p.Marks source text) : p ≠ .nowhere := by
  obtain ⟨before, after, -, hline, -⟩ := h
  rintro rfl
  have hzero : 0 = 1 + before.count '\n' := hline
  omega

namespace Program

open Phrase

/-- The places of the trees of source texts, at their nodes and at the suffixes of these. The place
of what stands in no text is none of them. -/
def places (sources : List String) : Set Position :=
  { p | p ≠ .nowhere ∧ ∃ source ∈ sources, ∃ program node : Node,
      parse source = .ok program ∧ node.Within program ∧
        (node.position = p ∨ ∃ suffix ∈ node.kind.suffixes, suffix.position = p) }

/-- The texts that have been run one after another in the frame of `start`, the last one first, and
the state that they lead to. Each has settings of its own, and one that is refused or stops leaves
its state to the next. -/
inductive History : List String → State → Prop
  | first : History [] start.2
  | next {sources : List String} {s t : State} (settings : Settings) (steps : Nat)
      (path source : String) : History sources s →
      (run settings steps path source start.1 s).final? = some t → History (source :: sources) t

theorem places_subset_cons (source : String) (sources : List String) :
    places sources ⊆ places (source :: sources) := by
  rintro p ⟨hp, text, htext, htree⟩
  exact ⟨hp, text, List.mem_cons_of_mem source htext, htree⟩

theorem placed_of_parse {source : String} {program : Node} (h : parse source = .ok program) :
    program.Placed source.toList := by
  rw [parse, mapError_eq_ok, except_bind_eq_ok] at h
  obtain ⟨tokens, htokens, h⟩ := h
  obtain ⟨body, hbody, rfl⟩ := statementList_of_ofTokens (closed_placed source.toList) h
  have hmarked : Tokens.Marked source.toList tokens := fun t ht =>
    Position.marks_iff_stands.2 ((Token.tokenize_eq_ok.1 htokens).stands t ht)
  have hstart : Position.start.Marks source.toList [] :=
    Position.marks_iff_stands.2 (.nil _ .start)
  exact .of_text hstart (Or.inl rfl) rfl (statementList_marking (fun _ _ h => h.2) hbody hmarked)

theorem placesIn_of_parse {source : String} {program : Node} (h : parse source = .ok program)
    {sources : List String} (hsource : source ∈ sources) : program.PlacesIn (places sources) := by
  intro node hnode
  have hmarked := placed_of_parse h node hnode
  refine ⟨⟨hmarked.place.ne_nowhere, source, hsource, program, node, h, hnode, .inl rfl⟩, ?_⟩
  intro suffix hsuffix
  exact ⟨(hmarked.suffixes suffix hsuffix).ne_nowhere, source, hsource, program, node, h, hnode,
    .inr ⟨suffix, hsuffix, rfl⟩⟩

/-- A run leaves functions with bodies from its own text or from those before, and its faults are
blamed on these texts. -/
theorem run_places {settings : Settings} {steps : Nat} {path source : String}
    {sources : List String} {s : State} (hs : s.store.PlacesIn (places (source :: sources))) :
    (∀ t, (run settings steps path source start.1 s).final? = some t →
      t.store.PlacesIn (places (source :: sources))) ∧
    ∀ fault t, run settings steps path source start.1 s = .failure (.stopped fault) t →
      fault.BlamedIn (places (source :: sources)) settings := by
  have hends {program : Node} (hparse : parse source = .ok program) :
      (Eval.evaluate settings steps program start.1 (s.emit (.parsed path))).Blames
        (places (source :: sources)) settings :=
    have hprogram := placesIn_of_parse hparse (List.mem_cons_self (l := sources))
    (Eval.evaluate_blames _ settings steps program (.inr hprogram) start.1
      (s.emit (.parsed path)) hs).2
  constructor
  · intro t ht
    obtain rfl | ⟨program, u, hparse, hfinal, hstore⟩ := final?_run ht
    · exact hs
    · rw [hstore]
      exact (hends hparse).of_final hfinal
  · intro fault t hfault
    obtain ⟨program, hparse, hfailure⟩ := run_eq_stopped hfault
    have hblames := hends hparse
    rw [hfailure] at hblames
    cases hblames with
    | failure _ hblamed => exact hblamed

/-- The functions at the start are provided ones. Any other reference leads nowhere. -/
theorem start_function (ref : FunctionRef) :
    (∃ b : Builtin, start.2.store.function ref = b.function) ∨
      start.2.store.function ref = default := by
  obtain ⟨index⟩ := ref
  match index with
  | 0 => exact .inl ⟨.puts, rfl⟩
  | 1 => exact .inl ⟨.assert, rfl⟩
  | n + 2 => exact .inr rfl

theorem start_placesIn (places : Set Position) : start.2.store.PlacesIn places := by
  intro ref
  obtain ⟨b, hb⟩ | hdefault := start_function ref
  · rw [hb]
    exact Code.builtin_placesIn b
  · rw [hdefault]
    rintro frame body ⟨⟩
    exact .inl rfl

theorem History.placesIn {sources : List String} {s : State} (h : History sources s) :
    s.store.PlacesIn (places sources) := by
  induction h with
  | first => exact start_placesIn _
  | @next sources s t settings steps path source _ hrun ih =>
    exact (run_places (ih.mono (places_subset_cons source sources))).1 t hrun

/-- A program that runs after others stops at a place of its text or of theirs, unless the output
refuses a text or is in use elsewhere, or an array that something is pushed to is. To report what a
provided function raises at the place of its call makes no difference. -/
theorem faults_point_into_texts (sources : List String) (s : State) (hs : History sources s)
    (settings : Settings) (steps : Nat) (path source : String) :
    (∀ fault t, run settings steps path source start.1 s = .failure (.stopped fault) t →
      fault.BlamedIn (places (source :: sources)) settings) ∧
    ∀ program, parse source = .ok program →
      Eval.evaluateWith (Eval.invokeBlaming settings) steps program start.1
          (s.emit (.parsed path)) =
        Eval.evaluate settings steps program start.1 (s.emit (.parsed path)) := by
  have hplaces := hs.placesIn.mono (places_subset_cons source sources)
  refine ⟨(run_places hplaces).2, fun program hparse => ?_⟩
  have hprogram := placesIn_of_parse hparse (List.mem_cons_self (l := sources))
  exact (Eval.evaluate_blames _ settings steps program (.inr hprogram) start.1
    (s.emit (.parsed path)) hplaces).1

def fault? : Outcome Error Value → Option Fault
  | .failure (.stopped fault) _ => some fault
  | _ => none

theorem exists_of_fault? {outcome : Outcome Error Value} {fault : Fault}
    (h : fault? outcome = some fault) : ∃ t, outcome = .failure (.stopped fault) t := by
  cases outcome with
  | failure e t =>
    cases e with
    | stopped fault =>
      cases h
      exact ⟨t, rfl⟩
    | malformed path e => cases h
  | _ => cases h

/-- A text that leaves a function behind, which asserts its argument on the second line. -/
def checker : String := "f = fn(x) \x7b\n assert(x)\n\x7d"

/-- The function fails when another text calls it. The fault points into the text that has the
function, at the call of `assert`. -/
theorem faults_point_into_texts_checker :
    ∃ t, (run {} 30 "define" checker start.1 start.2).final? = some t ∧ History [checker] t ∧
      (∃ u, run {} 30 "use" "f(false)" start.1 t =
        .failure (.stopped (.raised .assertionFailed ⟨2, 2⟩)) u) ∧
      ⟨2, 2⟩ ∈ places ["f(false)", checker] := by
  have hruns : ((run {} 30 "define" checker start.1 start.2).final?.bind fun t =>
      fault? (run {} 30 "use" "f(false)" start.1 t)) = some (.raised .assertionFailed ⟨2, 2⟩) := by
    decide +kernel
  obtain ⟨t, ht, hfault⟩ := Option.bind_eq_some_iff.1 hruns
  obtain ⟨u, hrun⟩ := exists_of_fault? hfault
  have hhistory : History [checker] t := .next {} 30 "define" checker .first ht
  exact ⟨t, ht, hhistory, ⟨u, hrun⟩,
    (faults_point_into_texts [checker] t hhistory {} 30 "use" "f(false)").1 _ u hrun⟩

/-- The output is in use elsewhere, which stops a program without a place. -/
theorem busyOutput_lacks_place :
    ¬ ∀ sources s, History sources s → ∀ settings steps path source fault t,
      run settings steps path source start.1 s = .failure (.stopped fault) t →
      (∃ reason, fault = .output reason) ∨
        ∃ cause p, fault = .raised cause p ∧ p ∈ places (source :: sources) := by
  intro hall
  have hfault : fault? (run { sink := .busy } 30 "write" "puts(1)" start.1 start.2) =
      some (.internal .busyOutput) := by
    decide +kernel
  obtain ⟨t, hrun⟩ := exists_of_fault? hfault
  rcases hall [] start.2 .first _ _ _ _ _ t hrun with ⟨reason, h⟩ | ⟨cause, p, h, -⟩
  · cases h
  · cases h

end Program
end Scriptlet
