import Scriptlet.Program
/-!
The command line: a program text or the name of a file with one, and a few options. The first word
that is wrong, or that asks for the version or for help, decides what happens.
-/
namespace Scriptlet.CommandLine

structure Options where
  /-- `contents` names a file. -/
  file : Bool := false
  /-- The tree is written before the program runs. -/
  ast : Bool := false
  maxDepth : Option Nat := none
  contents : Option String := none

inductive Request where
  | run (options : Options) (contents : String)
  | version
  | help
  /-- The words make no sense. -/
  | misuse

/-- Sets an option that may be given once. -/
def Options.setFlag (o : Options) : Char → Option Options
  | 'f' => if o.file then none else some { o with file := true }
  | 'a' => if o.ast then none else some { o with ast := true }
  | _ => none

/-- The number that a word stands for: decimal digits, after a plus sign or not, that stay below
`UInt64.size`. -/
def number? (word : String) : Option Nat :=
  let digits :=
    match word.toList with
    | '+' :: digits => digits
    | digits => digits
  if !digits.isEmpty && digits.all (fun c => '0' ≤ c && c ≤ '9') &&
      Arithmetic.decimal digits < UInt64.size then
    some (Arithmetic.decimal digits)
  else none

def Options.setMaxDepth (o : Options) (word : String) : Option Options :=
  match o.maxDepth, number? word with
  | none, some n => some { o with maxDepth := some n }
  | _, _ => none

def Options.setContents (o : Options) (word : String) : Option Options :=
  match o.contents with
  | none => some { o with contents := some word }
  | some _ => none

/-- The request once every word is read. -/
def Options.request (o : Options) : Request :=
  match o.contents with
  | some contents => .run o contents
  | none => .misuse

/-- Reads the words after `--`, which are no options. -/
def readPlain (o : Options) : List String → Request
  | [] => o.request
  | word :: words =>
    match o.setContents word with
    | some o => readPlain o words
    | none => .misuse

/-- Reads the letters of a word such as `-fa`: the options after them, or a request. -/
def readLetters (o : Options) : List Char → Request ⊕ Options
  | [] => .inr o
  | 'V' :: _ => .inl .version
  | 'h' :: _ => .inl .help
  | letter :: letters =>
    match o.setFlag letter with
    | some o => readLetters o letters
    | none => .inl .misuse

def read (o : Options) : List String → Request
  | [] => o.request
  | "--" :: words => readPlain o words
  | ["--max-depth"] => .misuse
  | "--max-depth" :: value :: words =>
    match o.setMaxDepth value with
    | some o => read o words
    | none => .misuse
  | word :: words =>
    let proceed : Option Options → Request
      | some o => read o words
      | none => .misuse
    match word.toList with
    | '-' :: '-' :: name =>
      match String.ofList name with
      | "file" => proceed (o.setFlag 'f')
      | "ast" => proceed (o.setFlag 'a')
      | "version" => .version
      | "help" => .help
      | _ =>
        if "max-depth=".toList.isPrefixOf name then
          proceed (o.setMaxDepth (String.ofList (name.drop "max-depth=".length)))
        else .misuse
    | '-' :: letter :: letters =>
      match readLetters o (letter :: letters) with
      | .inl request => request
      | .inr o => read o words
    | _ => proceed (o.setContents word)

def parse (words : List String) : Request :=
  read {} words

structure Report where
  exit : Nat
  stdout : String
  stderr : String

/-- Why a file gives no text. -/
inductive LoadError where
  | missing
  /-- The bytes are not text in UTF-8. -/
  | notText
  | other (reason : String)

def LoadError.message : LoadError → String
  | missing => "No such file or directory (os error 2)"
  | notText => "stream did not contain valid UTF-8"
  | other reason => reason

def programName : String := "culebra"

def usage : String := "Usage: " ++ programName ++ " [OPTIONS] <CONTENTS>\n"

/-- Stops with a message, after some text was written. -/
def Report.failed (stdout message : String) : Report :=
  ⟨1, stdout, message ++ "\n"⟩

/-- Runs a program and reports its value, unless that is undefined. -/
def runSource (settings : Settings) (steps : Nat) (path source written : String) : Report :=
  let (frame, state) := Program.start
  match Program.run settings steps path source frame state with
  | .value v s =>
    let shown := if v = .undefined then "" else s.store.display v ++ "\n"
    ⟨0, written ++ s.output ++ shown, ""⟩
  | .failure e s => .failed (written ++ s.output) e.message
  | .timeout => .failed written "step limit reached"

def source (load : String → Except LoadError String) (o : Options) (contents : String) :
    Except String (String × String) :=
  if o.file then
    match load contents with
    | .ok text => .ok (contents, text)
    | .error e => .error ("Failed to read the input file '" ++ contents ++ "': " ++ e.message)
  else .ok ("<script>", contents)

/-- Does what is asked for, given the texts of files and a bound on steps. -/
def perform (load : String → Except LoadError String) (steps : Nat) : Request → Report
  | .version => ⟨0, programName ++ " 0.1.0\n", ""⟩
  | .help => ⟨0, usage, ""⟩
  | .misuse => ⟨2, "", usage⟩
  | .run o contents =>
    match source load o contents with
    | .error message => .failed "" message
    | .ok (path, text) =>
      let settings : Settings := { maxDepth := o.maxDepth.getD ({} : Settings).maxDepth }
      if o.ast then
        match Program.parse text with
        | .error e => .failed "" (Program.Error.malformed path e).message
        | .ok program =>
          runSource settings steps path text (program.outline.indented 0 ++ "\n")
      else runSource settings steps path text ""

end Scriptlet.CommandLine
