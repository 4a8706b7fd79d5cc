import CellMachine.Session

/-!
# The program

Reads the image named on the command line, runs it, and writes what it prints to the standard output.
Faults and, if asked for, the journal go to the standard error.
-/

open CellMachine

namespace CellMachine

/-- What the program says about itself. -/
def usage : String :=
  "Run a compiled stack VM program image\n\n" ++
  "Usage: stackvm [OPTIONS]\n\n" ++
  "Options:\n" ++
  "  -f, --file <IMAGE>           Program image to run\n" ++
  "      --arg <VALUE>            Top-level argument, stored into the next entry slot\n" ++
  "      --max-stack <CELLS>      Maximum operand stack depth, in cells\n" ++
  "      --max-calls <CALLS>      Maximum call depth\n" ++
  "      --budget <INSTRUCTIONS>  Abort after this many instructions\n" ++
  "  -v, --verbose                Log calls, returns and native calls to stderr\n" ++
  "  -h, --help                   Print help\n" ++
  "  -V, --version                Print version\n"

def readImage (path : String) : IO (Except FileFault (List UInt8)) := do
  try
    let bytes ← IO.FS.readBinFile path
    return .ok bytes.toList
  catch
    | .noFileOrDirectory .. => return .error .missing
    | e => return .error (.unreadable (toString e))

/-- Runs a command line and gives the exit status. -/
def runCommandLine (c : CommandLine) : IO UInt32 := do
  let fail (fault : SessionFault) : IO UInt32 := do
    IO.eprintln s!"Error: {fault.message}"
    return 1
  match c.file, c.cells with
  | none, _ => fail .noImage
  | some _, .error unusable => fail (.argument unusable)
  | some path, .ok args =>
    let file ← readImage path
    let journal : Journal := { level := some (if c.verbose then .debug else .warn) }
    let session := Session.run c.limits args file {} journal
    for e in session.journal.events do
      IO.eprintln e.text
    let out ← IO.getStdout
    out.write ⟨session.sink.written⟩
    out.flush
    match session.result with
    | .ok _ => return 0
    | .error fault => fail fault

end CellMachine

def main (words : List String) : IO UInt32 := do
  match CommandLine.parse words with
  | .ok c => runCommandLine c
  | .error .displayHelp =>
    IO.print usage
    return 0
  | .error .displayVersion =>
    IO.println "stackvm 0.1.0"
    return 0
  | .error refusal =>
    IO.eprintln s!"error: {refusal.message}"
    IO.eprint usage
    return 2
