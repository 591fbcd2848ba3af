import Scriptlet.CommandLine
/-!
The program itself: reads the file that it is asked for, and writes its report.
-/
namespace Scriptlet.CommandLine

def loadFile (path : String) : IO (Except LoadError String) := do
  try
    match String.fromUTF8? (← IO.FS.readBinFile path) with
    | some text => return .ok text
    | none => return .error .notText
  catch
    | .noFileOrDirectory .. => return .error .missing
    | e => return .error (.other (toString e))

def Request.loadFile : Request → IO (Except LoadError String)
  | .run options contents =>
    if options.file then CommandLine.loadFile contents else return .error .missing
  | _ => return .error .missing

end Scriptlet.CommandLine

def main (words : List String) : IO UInt32 := do
  let request := Scriptlet.CommandLine.parse words
  let loaded ← request.loadFile
  let report := Scriptlet.CommandLine.perform (fun _ => loaded) Scriptlet.Program.unbounded request
  IO.print report.stdout
  IO.eprint report.stderr
  return report.exit.toUInt32
