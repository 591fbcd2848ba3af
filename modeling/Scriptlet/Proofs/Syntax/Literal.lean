import Scriptlet.Proofs.Store.Unplaced
import Scriptlet.Proofs.Syntax.Derivation
import Scriptlet.Proofs.Value.Unfolding
/-!
# Reading displayed data

The text that shows a tree of data is an expression of the language. Main statement: it is parsed as
a program of one statement, which writes the tree (`Program.parse_display`). A text is cut and read
without knowing what follows it, as long as the first character of that does not go on with a word
(`Token.CutInto`); so the texts of items can be put together to the text of an array or an object.
-/
namespace Scriptlet

open Lexeme

/-! ## Cutting a text with something behind it -/

namespace Token

/-- The text does not go on with a word. -/
def Clear (rest : List Char) : Prop :=
  ∀ c ∈ rest.head?, ¬ continuesName c

/-- A sign that no character makes longer. -/
structure Alone (t : Token) : Prop where
  bare : t.text? = none
  unextended : ∀ c, ¬ t.extendedBy c

/-- A text that begins at `p` is cut into the given tokens, whatever follows it clearly. -/
def CutInto (text : List Char) (p : Position) (ts : Tokens) : Prop :=
  ∀ rest more, Clear rest → Scanned rest (p.after text) more → Scanned (text ++ rest) p (ts ++ more)

namespace CutInto

variable {text other : List Char} {p : Position} {ts us : Tokens}

theorem nil (p : Position) : CutInto [] p [] :=
  fun _ _ _ h => h

theorem token {t : Token} (ht : t.WellFormed) (hclear : ∀ c, t.extendedBy c → continuesName c)
    (p : Position) : CutInto t.spelling p [(t, p)] := by
  intro rest more hrest h
  exact h.spelling_append ht fun c hc hextended => hrest c hc (hclear c hextended)

theorem append (h : CutInto text p ts) (hother : Clear other)
    (h' : CutInto other (p.after text) us) : CutInto (text ++ other) p (ts ++ us) := by
  intro rest more hrest hscan
  rw [Position.after_append] at hscan
  rw [List.append_assoc, List.append_assoc]
  refine h _ _ ?_ (h' rest more hrest hscan)
  cases other with
  | nil => exact hrest
  | cons c other => exact hother

theorem sign_append {t : Token} (ht : t.Alone) (h : CutInto text (p.after t.spelling) ts) :
    CutInto (t.spelling ++ text) p ((t, p) :: ts) := by
  intro rest more hrest hscan
  rw [Position.after_append] at hscan
  rw [List.append_assoc]
  exact (h rest more hrest hscan).spelling_append (wellFormed_of_text?_eq_none ht.bare)
    fun c _ => ht.unextended c

theorem sign {t : Token} (ht : t.Alone) (p : Position) : CutInto t.spelling p [(t, p)] := by
  have h := sign_append ht (nil (p.after t.spelling))
  rwa [List.append_nil] at h

theorem blank_cons {c : Char} (hc : ¬ isBlank c) (h : CutInto (c :: text) (p.advance ' ') ts) :
    CutInto (' ' :: c :: text) p ts := by
  intro rest more hrest hscan
  apply (h rest more hrest hscan).blank_cons
  rintro d ⟨⟩
  exact hc

end CutInto
end Token

/-- A text that is read as a phrase that means what is asked for. -/
structure Reads {α : Type} (phrase : Tokens → α → Prop) (means : α → Prop) (text : List Char) :
    Prop where
  starts : ∃ c cs, text = c :: cs ∧ ¬ isBlank c
  reads : ∀ p, ∃ ts a, phrase ts a ∧ means a ∧ Token.CutInto text p ts

/-! ## Lists in brackets -/

section Lists

open Phrase

variable {α β : Type} {phrase : Tokens → α → Prop} {R : α → β → Prop} {texts : List (List Char)}
  {bs : List β}

theorem intercalate_cons_eq (sep text : List Char) (texts : List (List Char)) :
    sep.intercalate (text :: texts) = text ++ texts.flatMap (sep ++ ·) := by
  induction texts generalizing text with
  | nil => simp
  | cons other texts ih =>
    rw [List.intercalate_cons_cons, ih, List.flatMap_cons, List.append_assoc, List.append_assoc]

theorem Reads.further (h : List.Forall₂ (fun text b => Reads phrase (R · b) text) texts bs)
    (p : Position) : ∃ ts as, Many (FurtherItem phrase) ts as ∧ List.Forall₂ R as bs ∧
      Token.CutInto (texts.flatMap ([',', ' '] ++ ·)) p ts := by
  induction h generalizing p with
  | nil => exact ⟨[], [], .nil, .nil, .nil p⟩
  | @cons text b texts bs htext _ ih =>
    obtain ⟨c, cs, rfl, hblank⟩ := htext.starts
    obtain ⟨ts, a, hphrase, hmeans, hcut⟩ := htext.reads ((p.advance ',').advance ' ')
    obtain ⟨more, as, hmany, has, hmore⟩ := ih (p.after ([',', ' '] ++ c :: cs))
    have hcomma : Token.comma.Alone := ⟨rfl, by simp [Token.extendedBy]⟩
    have hitem := Token.CutInto.sign_append hcomma (hcut.blank_cons hblank)
    refine ⟨((.comma, p) :: ([] ++ (ts ++ []))) ++ more, a :: as, ?_, .cons hmeans has, ?_⟩
    · exact .cons (.mk (by simp [Newlines]) hphrase (by simp [Newlines])) hmany
    · rw [List.flatMap_cons, List.nil_append, List.append_nil]
      refine hitem.append ?_ hmore
      cases texts with
      | nil => rintro d ⟨⟩
      | cons text texts =>
        rintro d ⟨⟩
        decide

theorem Reads.items {closing : Token} (halone : closing.Alone)
    (hclosing : Token.Clear closing.spelling)
    (h : List.Forall₂ (fun text b => Reads phrase (R · b) text) texts bs) (p : Position) :
    ∃ ts as, Items phrase closing ts as ∧ List.Forall₂ R as bs ∧
      Token.CutInto ([',', ' '].intercalate texts ++ closing.spelling) p ts := by
  have hno : Newlines [] := by simp [Newlines]
  cases h with
  | nil => exact ⟨[] ++ [(closing, p)], [], .empty hno, .nil, Token.CutInto.sign halone p⟩
  | @cons text b texts bs htext hfurther =>
    obtain ⟨ts, a, hphrase, hmeans, hcut⟩ := htext.reads p
    obtain ⟨more, as, hmany, has, hmore⟩ := Reads.further hfurther (p.after text)
    have hclear : Token.Clear (texts.flatMap ([',', ' '] ++ ·) ++ closing.spelling) := by
      cases texts with
      | nil => exact hclosing
      | cons text texts =>
        rintro d ⟨⟩
        decide
    have hall := hcut.append hclear (hmore.append hclosing (.sign halone _))
    rw [← List.append_assoc, ← intercalate_cons_eq] at hall
    exact ⟨_, a :: as, .filled hno hphrase hno hmany .absent, .cons hmeans has, hall⟩

end Lists

/-! ## Numbers -/

namespace Arithmetic

theorem isDecimal_of_mem_toDigits {k : Nat} : ∀ c ∈ Nat.toDigits 10 k, isDecimal c := by
  intro c hc
  have hdigit := Nat.isDigit_of_mem_toDigits (by decide) (by decide) hc
  simpa [isDecimal, Char.isDigit, Char.le_def] using hdigit

theorem decimal_toDigits (k : Nat) : decimal (Nat.toDigits 10 k) = k := by
  rw [decimal, ← Nat.ofDigitChars_eq_foldl, Nat.ofDigitChars_ten_toDigits]

theorem literal?_toString {n : Int64} {k : Nat} (h : n.toInt = k) :
    literal? (toString k) = some n := by
  have hdigits : (toString k).toList = Nat.toDigits 10 k := by
    rw [Nat.toString_eq_ofList_toDigits, String.toList_ofList]
  have hne : (toString k).isEmpty = false := by
    rw [← Bool.not_eq_true, String.isEmpty_iff, ← String.toList_eq_nil_iff, hdigits]
    exact Nat.toDigits_ne_nil
  have hall : (Nat.toDigits 10 k).all (fun c => '0' ≤ c && c ≤ '9') = true :=
    List.all_eq_true.2 isDecimal_of_mem_toDigits
  rw [literal?, hdigits, hne, hall, decimal_toDigits, Bool.not_false, Bool.and_true, if_pos rfl,
    fit?_eq_some_iff, h]

end Arithmetic

/-! ## Trees of data -/

inductive Node.Writes : Node → View → Prop
  | undefined (p : Position) : Writes ⟨.undefined, p⟩ .undefined
  | bool (b : Bool) (p : Position) : Writes ⟨.bool b, p⟩ (.bool b)
  | number {digits : String} {n : Int64} (p : Position) : Arithmetic.literal? digits = some n →
      Writes ⟨.number digits, p⟩ (.integer n)
  | negative {digits : String} {m n : Int64} (p q : Position) :
      Arithmetic.literal? digits = some m → n.toInt = -m.toInt →
      Writes ⟨.unary .minus ⟨.number digits, q⟩, p⟩ (.integer n)
  | array {nodes : List Node} {items : List View} (p : Position) : nodes.length = items.length →
      (∀ x ∈ nodes.zip items, Writes x.1 x.2) → Writes ⟨.array nodes, p⟩ (.array items)
  | object {entries : List (String × Node)} {properties : List (String × View)} (p : Position) :
      entries.map (·.1) = properties.map (·.1) →
      (∀ x ∈ entries.zip properties, Writes x.1.2 x.2.2) →
      Writes ⟨.object entries, p⟩ (.object properties)

namespace Phrase

variable {ts : Tokens} {n : Node}

theorem Multiplicative.of_primary (h : Primary Expression Template ts n) :
    Multiplicative Expression Template ts n :=
  .mk (.single (.bare h))

theorem Expression.of_unary (h : Unary (Multiplicative Expression Template) ts n) :
    Expression ts n :=
  .disjunction (.mk (.single (.mk (.single (.single (.mk (.single h)))))))

theorem Expression.of_primary (h : Primary Expression Template ts n) : Expression ts n :=
  .of_unary (.unsigned (.of_primary h))

end Phrase

section Data

open Phrase

variable {tree : View}

theorem reads_token {t : Token} (ht : t.WellFormed) (hclear : ∀ c, t.extendedBy c → continuesName c)
    (h : ∀ p, ∃ n, Primary Expression Template [(t, p)] n ∧ n.Writes tree) :
    Reads Expression (·.Writes tree) t.spelling where
  starts := Token.spelling_starts ht
  reads p := by
    obtain ⟨n, hprimary, hwrites⟩ := h p
    exact ⟨[(t, p)], n, .of_primary hprimary, hwrites, .token ht hclear p⟩

theorem number_wellFormed (k : Nat) : (Token.number (toString k)).WellFormed := by
  change (toString k).toList ∈ Pattern.number
  rw [Nat.toString_eq_ofList_toDigits, String.toList_ofList]
  obtain ⟨c, cs, hdigits⟩ := List.exists_cons_of_ne_nil (Nat.toDigits_ne_nil (n := k) (b := 10))
  have hall := Arithmetic.isDecimal_of_mem_toDigits (k := k)
  rw [hdigits, List.forall_mem_cons] at hall
  rw [hdigits]
  exact Pattern.cons_mem_one_mul.2 ⟨hall.1, Pattern.mem_kstar_one.2 hall.2⟩

theorem continuesName_of_isDecimal (c : Char) (h : isDecimal c) : continuesName c := by
  simp [continuesName, h]

theorem reads_natural {n : Int64} {k : Nat} (h : n.toInt = k) :
    Reads Expression (·.Writes (.integer n)) (toString k).toList :=
  reads_token (t := .number (toString k)) (number_wellFormed k) continuesName_of_isDecimal
    fun p => ⟨_, .number, .number p (Arithmetic.literal?_toString h)⟩

theorem reads_negative {m n : Int64} {k : Nat} (hm : m.toInt = k) (hn : n.toInt = -k) :
    Reads Expression (·.Writes (.integer n)) ('-' :: (toString k).toList) where
  starts := ⟨'-', _, rfl, by decide⟩
  reads p := by
    have hminus : Token.minus.Alone := ⟨rfl, by simp [Token.extendedBy]⟩
    have hnumber := Token.CutInto.token (number_wellFormed k) continuesName_of_isDecimal
      (p.after ['-'])
    refine ⟨_, _, .of_unary (.signed rfl (.unsigned (.of_primary .number))), ?_,
      hnumber.sign_append hminus⟩
    exact .negative _ _ (Arithmetic.literal?_toString hm) (by rw [hn, hm])

theorem reads_array {items : List View}
    (h : ∀ item ∈ items, Reads Expression (·.Writes item) item.display.toList) :
    Reads Expression (·.Writes (.array items)) (View.array items).display.toList := by
  have htext : (View.array items).display.toList =
      Token.leftBracket.spelling ++ ([',', ' '].intercalate (items.map (·.display.toList)) ++
        Token.rightBracket.spelling) := by
    rw [View.display, Store.displayItems_eq_map, String.toList_append, String.toList_append,
      String.toList_intercalate, List.map_map]
    rfl
  have hopen : Token.leftBracket.Alone := ⟨rfl, by simp [Token.extendedBy]⟩
  have hclose : Token.rightBracket.Alone := ⟨rfl, by simp [Token.extendedBy]⟩
  have hitems : List.Forall₂ (fun text item => Reads Expression (Node.Writes · item) text)
      (items.map (·.display.toList)) items :=
    List.forall₂_map_left_iff.2 (List.forall₂_same.2 h)
  rw [htext]
  refine ⟨⟨'[', _, rfl, by decide⟩, fun p => ?_⟩
  obtain ⟨ts, nodes, hphrase, hwrites, hcut⟩ :=
    Reads.items hclose (by rintro d ⟨⟩; decide) hitems (p.after ['['])
  obtain ⟨hlength, hwrites⟩ := List.forall₂_iff_zip.1 hwrites
  exact ⟨_, _, .of_primary (.array hphrase), .array p hlength fun _ hx => hwrites hx,
    hcut.sign_append hopen⟩

theorem reads_entry {name : String} (hname : (Token.identifier name).WellFormed)
    (h : Reads Expression (·.Writes tree) tree.display.toList) :
    Reads (Entry Expression) (fun e => e.1 = name ∧ e.2.Writes tree)
      (name ++ ": " ++ tree.display).toList := by
  have hcolon : Token.colon.Alone := ⟨rfl, by simp [Token.extendedBy]⟩
  obtain ⟨c, cs, htext, hblank⟩ := h.starts
  rw [String.toList_append, String.toList_append, List.append_assoc, htext]
  constructor
  · obtain ⟨d, ds, hspelling, hd⟩ := Token.spelling_starts hname
    exact ⟨d, _, congrArg (· ++ _) hspelling, hd⟩
  · intro p
    obtain ⟨ts, n, hphrase, hwrites, hcut⟩ :=
      h.reads (((p.after name.toList).advance ':').advance ' ')
    rw [htext] at hcut
    have hvalue := (hcut.blank_cons hblank).sign_append hcolon
    have hentry := (Token.CutInto.token hname (fun _ hd => hd) p).append
      (by rintro d ⟨⟩; decide) hvalue
    have hno : Newlines [] := by simp [Newlines]
    exact ⟨_, (name, n), .mk hno hphrase, ⟨rfl, hwrites⟩, hentry⟩

theorem reads_object {properties : List (String × View)}
    (hnames : ∀ q ∈ properties, (Token.identifier q.1).WellFormed)
    (h : ∀ q ∈ properties, Reads Expression (·.Writes q.2) q.2.display.toList) :
    Reads Expression (·.Writes (.object properties)) (View.object properties).display.toList := by
  have htext : (View.object properties).display.toList =
      Token.leftBrace.spelling ++ ([',', ' '].intercalate
        (properties.map fun q => (q.1 ++ ": " ++ q.2.display).toList) ++
          Token.rightBrace.spelling) := by
    rw [View.display, Store.displayProperties_eq_map, String.toList_append, String.toList_append,
      String.toList_intercalate, List.map_map]
    rfl
  have hopen : Token.leftBrace.Alone := ⟨rfl, by simp [Token.extendedBy]⟩
  have hclose : Token.rightBrace.Alone := ⟨rfl, by simp [Token.extendedBy]⟩
  have hentries : List.Forall₂ (fun text q =>
      Reads (Entry Expression) (fun e => e.1 = q.1 ∧ e.2.Writes q.2) text)
      (properties.map fun q => (q.1 ++ ": " ++ q.2.display).toList) properties :=
    List.forall₂_map_left_iff.2
      (List.forall₂_same.2 fun q hq => reads_entry (hnames q hq) (h q hq))
  rw [htext]
  refine ⟨⟨'\x7b', _, rfl, by decide⟩, fun p => ?_⟩
  obtain ⟨ts, entries, hphrase, hwrites, hcut⟩ :=
    Reads.items hclose (by rintro d ⟨⟩; decide) hentries (p.after ['\x7b'])
  obtain ⟨hsame, hwrites⟩ := namewise_iff.1 hwrites
  exact ⟨_, _, .of_primary (.object hphrase), .object p hsame hwrites, hcut.sign_append hopen⟩

/-- The text that shows data is an expression that writes it. -/
theorem View.IsData.reads (h : tree.IsData) :
    Reads Expression (·.Writes tree) tree.display.toList := by
  induction h with
  | undefined =>
    exact reads_token (t := .kwUndefined) trivial (fun _ hc => hc)
      fun p => ⟨_, .undefined, .undefined p⟩
  | bool b =>
    cases b with
    | false =>
      exact reads_token (t := .kwFalse) trivial (fun _ hc => hc) fun p => ⟨_, .false, .bool false p⟩
    | true =>
      exact reads_token (t := .kwTrue) trivial (fun _ hc => hc) fun p => ⟨_, .true, .bool true p⟩
  | @integer n hn =>
    rcases hsign : n.toInt with k | k
    · rw [View.display, hsign]
      exact reads_natural hsign
    · have hfits : ((k + 1 : Nat) : Int) < 2 ^ 63 := by
        have hle := n.le_toInt
        have hne : n.toInt ≠ -2 ^ 63 := fun heq => hn (Int64.toInt_inj.1 heq)
        omega
      have hm : (Int64.ofInt (k + 1 : Nat)).toInt = (k + 1 : Nat) :=
        Int64.toInt_ofInt_of_le (by omega) hfits
      have htext : (toString (Int.negSucc k)).toList = '-' :: (toString (k + 1)).toList :=
        String.toList_append
      rw [View.display, hsign, htext]
      exact reads_negative hm hsign
  | array _ ih => exact reads_array ih
  | object _ hnames _ ih => exact reads_object hnames ih

end Data

namespace Program

/-- An expression that takes up all tokens of a text is a program of one statement. -/
theorem parse_expression {source : String} {ts : Tokens} {n : Node}
    (hscan : Token.Scanned source.toList .start ts) (hn : Phrase.Expression ts n) :
    parse source = .ok ⟨.statements [n], .start⟩ := by
  have hprogram : Phrase.Program ts ⟨.statements [n], .start⟩ := by
    have hno : Phrase.Separators [] := by simp [Phrase.Separators]
    have hlist : Phrase.StatementList Phrase.Expression ([] ++ (ts ++ ([] ++ []))) [n] :=
      .filled hno hn .nil hno
    rw [List.append_nil, List.append_nil] at hlist
    exact .mk hlist
  rw [parse, Token.tokenize_eq_ok.2 hscan]
  exact mapError_eq_ok.2 (ofTokens_complete hprogram)

/-- The text that shows data is a program of one statement. -/
theorem parse_display {tree : View} (h : tree.IsData) : ∃ n : Node, n.Writes tree ∧
    parse tree.display = .ok ⟨.statements [n], .start⟩ := by
  obtain ⟨ts, n, hphrase, hwrites, hcut⟩ := h.reads.reads .start
  have hscan : Token.Scanned tree.display.toList .start ts := by
    have := hcut [] [] (by simp [Token.Clear]) .done
    rwa [List.append_nil, List.append_nil] at this
  exact ⟨n, hwrites, parse_expression hscan hphrase⟩

end Program

end Scriptlet
