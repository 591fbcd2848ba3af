import Scriptlet.Program
import Scriptlet.Proofs.Eval.Regrouping
import Scriptlet.Proofs.Syntax.Moving
import Scriptlet.Proofs.Syntax.Sealed
/-!
# Programs one below the other

Two programs with a line feed between them are one program. Main statement: its statements are those
of the first program and then those of the second, lowered by the lines of the first, and to run it
is to run the one and then the other in the same frame (`Program.parse_joined`).
-/
namespace Scriptlet

open Phrase

/-! ## Statements in a row -/

namespace Phrase

variable {expr : Tokens → Node → Prop}

theorem Many.append {α : Type} {item : Tokens → α → Prop} {ts more : Tokens} {as bs : List α}
    (has : Many item ts as) (hbs : Many item more bs) : Many item (ts ++ more) (as ++ bs) := by
  induction has with
  | nil => exact hbs
  | cons ha _ ih =>
    rw [List.append_assoc]
    exact .cons ha ih

theorem Separators.append {seps seps' : Tokens} (h : Separators seps) (h' : Separators seps') :
    Separators (seps ++ seps') :=
  List.forall_mem_append.2 ⟨h, h'⟩

theorem StatementList.append {ts seps more : Tokens} {body body' : List Node}
    (hbody : StatementList expr ts body) (hseps : Separators seps) (hne : seps ≠ [])
    (hbody' : StatementList expr more body') :
    StatementList expr (ts ++ (seps ++ more)) (body ++ body') := by
  cases hbody with
  | empty hfront =>
    cases hbody' with
    | empty hback => exact .empty (hfront.append (hseps.append hback))
    | filled hback hn hns hlast =>
      have h := StatementList.filled (hfront.append (hseps.append hback)) hn hns hlast
      simpa only [List.append_assoc, List.nil_append] using h
  | filled hfront hn hns hend =>
    cases hbody' with
    | empty hback =>
      have h := StatementList.filled hfront hn hns (hend.append (hseps.append hback))
      simpa only [List.append_assoc, List.append_nil] using h
    | filled hback hn' hns' hlast =>
      have hbetween := hend.append (hseps.append hback)
      have hfurther := Many.cons (FurtherStatement.mk hbetween (by simp [hne]) hn') hns'
      have h := StatementList.filled hfront hn (hns.append hfurther) hlast
      simpa only [List.append_assoc, List.cons_append] using h

end Phrase

namespace Program

def report (path : String) : Outcome Fault Value → Outcome Error Value
  | .value v s => .value v (s.emit (.evaluated path v.type))
  | .failure e s => .failure (.stopped e) s
  | .timeout => .timeout

theorem run_eq_report {source : String} {program : Node} (h : parse source = .ok program)
    (settings : Settings) (steps : Nat) (path : String) (frame : FrameRef) (s : State) :
    run settings steps path source frame s =
      report path (Eval.evaluate settings steps program frame (s.emit (.parsed path))) := by
  unfold run
  rw [h]
  rfl

/-- Statements on the lines below a source text. -/
def below (source : String) (body : List Node) : List Node :=
  body.map (Node.relocate (.lower (source.toList.count '\n' + 1)))

theorem start_lower (source : List Char) :
    Position.start.lower (source.count '\n' + 1) =
      (Position.start.after source).advance '\n' := by
  rw [Position.start_after]
  rfl

theorem tokenize_joined {first second : List Char} {tokens tokens' : Tokens} {n : Node}
    (hfirst : Token.tokenize first .start = .ok tokens)
    (hsecond : Token.tokenize second .start = .ok tokens') (hn : ofTokens tokens = .ok n) :
    Token.tokenize (first ++ '\n' :: second) .start =
      .ok (tokens ++ ([(.newline, Position.start.after first)] ++
        moveAll (.lower (first.count '\n' + 1)) tokens')) := by
  have hmoved := (Token.tokenize_eq_ok.1 hsecond).move
    (Position.lower_moves (first.count '\n' + 1))
  rw [start_lower] at hmoved
  exact Token.tokenize_eq_ok.2
    ((Token.tokenize_eq_ok.1 hfirst).join (sealed_of_ofTokens hn) hmoved)

/-- Two source texts with a line feed between them are read as the statements of the first and then
those of the second, which are moved to their lines. They run one after the other: the value is that
of the second, if it has a statement. -/
theorem parse_joined (first second : String) (m n : Node) (hm : parse first = .ok m)
    (hn : parse second = .ok n) :
    ∃ body body', m = ⟨.statements body, .start⟩ ∧ n = ⟨.statements body', .start⟩ ∧
      parse (first ++ "\n" ++ second) = .ok ⟨.statements (body ++ below first body'), .start⟩ ∧
      ∀ settings steps path frame s,
        run settings steps path (first ++ "\n" ++ second) frame s =
          report path ((do
            let v ← Eval.evaluate settings steps ⟨.statements body, .start⟩ frame
            let w ← Eval.evaluate settings steps ⟨.statements (below first body'), .start⟩ frame
            return if body'.isEmpty then v else w : Eval Value) (s.emit (.parsed path))) := by
  rw [parse, mapError_eq_ok, except_bind_eq_ok] at hm hn
  obtain ⟨tokens, hfirst, hm⟩ := hm
  obtain ⟨tokens', hsecond, hn⟩ := hn
  obtain ⟨body, hbody, rfl⟩ := statementList_of_ofTokens .derivations hm
  obtain ⟨body', -, rfl⟩ := statementList_of_ofTokens .derivations hn
  have hseparator : Separators [(.newline, Position.start.after first.toList)] :=
    List.forall_mem_singleton.2 rfl
  have hbody' := statementList_of_ofTokens_move
    (Position.lower_moves (first.toList.count '\n' + 1)) hn
  have hjoined := hbody.append hseparator (by simp) hbody'
  have hsource : (first ++ "\n" ++ second).toList = first.toList ++ '\n' :: second.toList := by
    simp
  have hparse : parse (first ++ "\n" ++ second) =
      .ok ⟨.statements (body ++ below first body'), .start⟩ := by
    rw [parse, mapError_eq_ok, except_bind_eq_ok, hsource]
    exact ⟨_, tokenize_joined hfirst hsecond hm, ofTokens_complete (.mk hjoined)⟩
  refine ⟨body, body', rfl, rfl, hparse, fun settings steps path frame s => ?_⟩
  rw [run_eq_report hparse, Eval.evaluate_statements_append, below, List.isEmpty_map]

/-- Both texts end in a comment, and the second has a name inside of a template. -/
theorem parse_joined_comments :
    ∃ body body', parse "a = 1 / 2 // half" = .ok ⟨.statements body, .start⟩ ∧
      parse "b = \"$\x7ba\x7d\" /* text */" = .ok ⟨.statements body', .start⟩ ∧
      parse "a = 1 / 2 // half\nb = \"$\x7ba\x7d\" /* text */" =
        .ok ⟨.statements (body ++ below "a = 1 / 2 // half" body'), .start⟩ ∧
      (body ++ below "a = 1 / 2 // half" body').map (·.position) = [⟨1, 1⟩, ⟨2, 1⟩] := by
  have hfirst : ((parse "a = 1 / 2 // half").toOption.map fun n =>
      n.kind.children.map (·.position)) = some [⟨1, 1⟩] := by
    decide +kernel
  have hsecond : ((parse "b = \"$\x7ba\x7d\" /* text */").toOption.map fun n =>
      n.kind.children.map (·.position)) = some [⟨1, 1⟩] := by
    decide +kernel
  obtain ⟨m, hm, hfirst⟩ := Option.map_eq_some_iff.1 hfirst
  obtain ⟨n, hn, hsecond⟩ := Option.map_eq_some_iff.1 hsecond
  rw [toOption_eq_some] at hm hn
  obtain ⟨body, body', rfl, rfl, hjoined, -⟩ := parse_joined _ _ m n hm hn
  have hbelow : (below "a = 1 / 2 // half" body').map (·.position) =
      (body'.map (·.position)).map (.lower 1) := by
    simp [below, Node.relocate_position]
  have hplaces : body.map (·.position) = [⟨1, 1⟩] := hfirst
  have hplaces' : body'.map (·.position) = [⟨1, 1⟩] := hsecond
  refine ⟨body, body', hm, hn, hjoined, ?_⟩
  rw [List.map_append, hbelow, hplaces, hplaces']
  rfl

end Program
end Scriptlet
