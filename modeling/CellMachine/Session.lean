import CellMachine.Main.CommandLine
import CellMachine.Machine.Run
import CellMachine.Host
import CellMachine.Image.Reader

/-!
# Sessions

A session loads the image of a program, with the natives of the host, and runs the program.
-/

namespace CellMachine

/-- Why a file has no bytes. -/
inductive FileFault
  | missing
  | unreadable (reason : String)
deriving DecidableEq, Repr

def FileFault.reason : FileFault → String
  | missing => "No such file or directory (os error 2)"
  | unreadable reason => reason

inductive SessionFault
  | run (fault : Fault)
  | file (fault : FileFault)
  | image (fault : Fault)
  | argument (argument : Argument.Unusable)
  | noImage
deriving DecidableEq

def SessionFault.message : SessionFault → String
  | run fault => fault.display
  | file fault => "file error: " ++ fault.reason
  | image fault => "cannot load image: " ++ fault.display
  | argument unusable =>
    "usage: argument " ++ Text.quoted unusable.argument ++ ": " ++
      (Cause.interiorNul unusable.position).message
  | noImage => "usage: no program image given (use --file <IMAGE>)"

namespace Session

/-- Loads a program. What the host does not provide is recorded: natives one by one as they are read,
and those of a program that could be loaded together. -/
def load (file : Except FileFault (List UInt8)) (journal : Journal) :
    Except SessionFault Program × Journal :=
  match file with
  | .error fault => (.error (.file fault), journal)
  | .ok bytes =>
    let journal := (Image.declarations bytes).foldl
      (fun journal d => Host.explain journal d.name d.signature) journal
    match Program.ofBytes Host.resolver bytes with
    | .error cause => (.error (.image { cause }), journal)
    | .ok p =>
      let missing := p.natives.toList.filter fun n => n.code.isNone
      let journal :=
        if missing.isEmpty then journal else journal.record (.nativesMissing (missing.map Native.name))
      (.ok p, journal.record (.imageLoaded p.functions.size p.constants.size))

end Session

/-- What a session came to. A fault of the run stands in `result` as an error. -/
structure Session where
  result : Except SessionFault Ending
  executed : Nat
  sink : Output
  journal : Journal

namespace Session

def run (limits : Limits) (args : List Cell) (file : Except FileFault (List UInt8)) (sink : Output)
    (journal : Journal) : Session :=
  match load file journal with
  | (.error fault, journal) => ⟨.error fault, 0, sink, journal⟩
  | (.ok p, journal) =>
    let execution := p.execute limits args sink journal
    let result : Except SessionFault Ending :=
      match execution.ending with
      | .fault fault => .error (.run fault)
      | ending => .ok ending
    ⟨result, execution.executed, execution.sink, execution.journal⟩

end Session

end CellMachine
