import Scriptlet.Proofs.Eval.Calculation
import Scriptlet.Proofs.Eval.Visit
import Scriptlet.Proofs.Program.History
import Scriptlet.Proofs.Syntax.Shape
/-!
# Programs in shape

The evaluation has an answer for every tree, also for those that no text stands for: a row of
operands without any has the value `undefined`, and what is no number is reported as one that is too
large. Programs come from texts, and so do the functions that earlier programs of a session have
left behind. Main statement: no such answer is ever given, and only numbers that are too large are
reported as such (`Program.parse_shaped`).
-/
namespace Scriptlet

namespace Eval

open Arithmetic

/-- The value that decimal digits spell, unless it is too large. -/
def spelled (digits : String) (p : Position) : Eval Value :=
  if Int64.maxValue.toInt < placeValue digits.toList then raise (.literalTooLarge digits) p
  else return .integer (.ofInt (placeValue digits.toList))

/-- One step of evaluation for constructs in shape. At others `misshapen` is done, and a row of
operands has the value `empty` before the first of them. -/
def stepShaped (empty : Value) (misshapen : Eval Value)
    (call : Function → FrameRef → Position → Eval Value) (evaluate : Node → FrameRef → Eval Value)
    (rounds : Nat) (node : Node) (frame : FrameRef) : Eval Value :=
  if node.kind.Shaped then
    match node.kind with
    | .disjunction operands => firstTruth evaluate frame true empty operands
    | .conjunction operands => firstTruth evaluate frame false empty operands
    | .number digits => spelled digits node.position
    | _ => step call evaluate rounds node frame
  else misshapen

theorem firstTruth_of_ne_nil {evaluate : Node → FrameRef → Eval Value} {frame : FrameRef}
    {stop : Bool} (v w : Value) {operands : List Node} (h : operands ≠ []) :
    firstTruth evaluate frame stop v operands = firstTruth evaluate frame stop w operands := by
  cases operands with
  | nil => exact absurd rfl h
  | cons => rfl

theorem step_number {digits : String} (h : IsNumeral digits) (p : Position)
    (call : Function → FrameRef → Position → Eval Value) (evaluate : Node → FrameRef → Eval Value)
    (rounds : Nat) (frame : FrameRef) :
    step call evaluate rounds ⟨.number digits, p⟩ frame = spelled digits p := by
  have hwell := isNumeral_iff_wellFormed.1 h
  rw [step, spelled]
  dsimp only
  cases hn : literal? digits with
  | none => rw [if_pos ((literal?_eq_none_iff hwell).1 hn)]
  | some n =>
    have hfits : ¬ Int64.maxValue.toInt < placeValue digits.toList := by
      rw [← literal?_eq_none_iff hwell, hn]
      exact Option.some_ne_none n
    rw [if_neg hfits, ← (literal?_eq_some_iff hwell).1 hn, Int64.ofInt_toInt]

theorem stepShaped_eq (empty : Value) (misshapen : Eval Value)
    (call : Function → FrameRef → Position → Eval Value) (evaluate : Node → FrameRef → Eval Value)
    (rounds : Nat) (node : Node) (frame : FrameRef) (h : node.kind.Shaped) :
    stepShaped empty misshapen call evaluate rounds node frame =
      step call evaluate rounds node frame := by
  obtain ⟨kind, p⟩ := node
  rw [stepShaped, if_pos h]
  cases kind with
  | disjunction operands =>
    have hne : operands ≠ [] := List.ne_nil_of_length_pos (Nat.lt_of_lt_of_le Nat.two_pos h)
    exact firstTruth_of_ne_nil empty .undefined hne
  | conjunction operands =>
    have hne : operands ≠ [] := List.ne_nil_of_length_pos (Nat.lt_of_lt_of_le Nat.two_pos h)
    exact firstTruth_of_ne_nil empty .undefined hne
  | number digits => exact (step_number h p call evaluate rounds frame).symm
  | _ => rfl

end Eval

namespace Program

theorem History.wellShaped {sources : List String} {s : State} (h : History sources s) :
    s.store.BodiesIn (·.kind.Shaped) := by
  induction h with
  | first =>
    intro ref
    obtain ⟨b, hb⟩ | hdefault := start_function ref
    · rw [hb]
      exact b.function_bodyIn
    · rw [hdefault]
      rintro outer body ⟨⟩
      exact Node.wellShaped_mk.2 ⟨trivial, by simp [NodeKind.children]⟩
  | @next sources s t settings steps path source _ hrun ih =>
    obtain rfl | ⟨program, u, hparse, hfinal, hstore⟩ := final?_run hrun
    · exact ih
    · have hbodies : (s.emit (.parsed path)).store.BodiesIn (·.kind.Shaped) := ih
      rw [hstore]
      exact Eval.evaluate_bodiesIn (wellShaped_of_parse hparse) hbodies hfinal

/-- In the tree of a program nothing is missing, operators in a row are of one level, bodies are
statements, names are names and numbers are numbers, also in the code of templates. A number has the
value that it spells and is reported exactly if that is too large. So it makes no difference, after
any other programs of the session, which value a row without operands would have and what would be
done at a construct that is out of shape. -/
theorem parse_shaped {source : String} {program : Node} (h : parse source = .ok program) :
    (∀ node : Node, node.Within program → node.kind.Shaped) ∧
    (∀ digits p, Node.Within ⟨.number digits, p⟩ program → ∀ settings steps e s,
      Eval.evaluate settings (steps + 1) ⟨.number digits, p⟩ e s = Eval.spelled digits p s) ∧
    ∀ sources s, History sources s → ∀ settings steps path empty misshapen,
      Eval.evaluateBy (Eval.stepShaped empty misshapen) settings steps program start.1
          (s.emit (.parsed path)) =
        Eval.evaluate settings steps program start.1 (s.emit (.parsed path)) := by
  have hshaped := wellShaped_of_parse h
  refine ⟨hshaped, fun digits p hnumber settings steps e s => ?_, ?_⟩
  · rw [Eval.evaluate, Eval.step_number (hshaped _ hnumber)]
  · intro sources s hs settings steps path empty misshapen
    have hbodies : (s.emit (.parsed path)).store.BodiesIn (·.kind.Shaped) := hs.wellShaped
    exact Eval.evaluateBy_eq (Eval.stepShaped_eq empty misshapen) hshaped hbodies steps start.1

/-- A number in the code of a template, which is an operand of a row. It is one more than the
largest integer. -/
def tooLarge : String := "size = \"$\x7b9223372036854775808\x7d\" || 0"

/-- The tree is in shape, and the number is reported whatever else the session does. -/
theorem parse_shaped_tooLarge :
    ∃ program number : Node, parse tooLarge = .ok program ∧ number.Within program ∧
      number.kind = .number "9223372036854775808" ∧
      (∀ node : Node, node.Within program → node.kind.Shaped) ∧
      (∀ settings steps e s, Eval.evaluate settings (steps + 1) number e s =
        .failure (.raised (.literalTooLarge "9223372036854775808") ⟨1, 11⟩) s) ∧
      ∀ settings steps path empty misshapen,
        Eval.evaluateBy (Eval.stepShaped empty misshapen) settings steps program start.1
            (start.2.emit (.parsed path)) =
          Eval.evaluate settings steps program start.1 (start.2.emit (.parsed path)) := by
  have hfound : ((parse tooLarge).toOption.bind fun program =>
      program.kind.children.head?.bind fun assignment =>
      assignment.kind.children.head?.bind fun row =>
      row.kind.children.head?.bind fun template =>
      template.kind.children.getLast?.bind fun node =>
      match node.kind with
      | .number digits => some (digits, node.position)
      | _ => none) = some ("9223372036854775808", ⟨1, 11⟩) := by
    decide +kernel
  obtain ⟨program, hprogram, hfound⟩ := Option.bind_eq_some_iff.1 hfound
  obtain ⟨assignment, hassignment, hfound⟩ := Option.bind_eq_some_iff.1 hfound
  obtain ⟨row, hrow, hfound⟩ := Option.bind_eq_some_iff.1 hfound
  obtain ⟨template, htemplate, hfound⟩ := Option.bind_eq_some_iff.1 hfound
  obtain ⟨⟨kind, p⟩, hnumber, hfound⟩ := Option.bind_eq_some_iff.1 hfound
  have hparse := toOption_eq_some.1 hprogram
  have hwithin : (⟨kind, p⟩ : Node).Within program :=
    .child (List.mem_of_mem_head? hassignment) (.child (List.mem_of_mem_head? hrow)
      (.child (List.mem_of_mem_head? htemplate) (.child (List.mem_of_mem_getLast? hnumber) .self)))
  split at hfound
  · next hkind =>
    cases hkind
    cases hfound
    obtain ⟨hshaped, hnumbers, hsame⟩ := parse_shaped hparse
    refine ⟨program, _, hparse, hwithin, rfl, hshaped, fun settings steps e s => ?_, ?_⟩
    · have hlarge : Int64.maxValue.toInt <
          Arithmetic.placeValue "9223372036854775808".toList := by decide +kernel
      rw [hnumbers _ _ hwithin settings steps e s, Eval.spelled, if_pos hlarge]
      rfl
    · exact hsame [] start.2 .first
  · cases hfound

end Program
end Scriptlet
