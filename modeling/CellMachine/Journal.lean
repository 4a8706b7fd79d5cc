import CellMachine.Opcode
import CellMachine.Fault

/-!
# The journal

What happens during loading and running is recorded as events. Each event has a level; a journal
records the events of its level and of the more severe ones, or nothing.
-/

namespace CellMachine

/-- How severe an event is, the most severe first. -/
inductive Level
  | error | warn | info | debug | trace
deriving DecidableEq, Repr, Inhabited

namespace Level

def rank : Level → Nat
  | error => 0
  | warn => 1
  | info => 2
  | debug => 3
  | trace => 4

def name : Level → String
  | error => "ERROR"
  | warn => "WARN"
  | info => "INFO"
  | debug => "DEBUG"
  | trace => "TRACE"

end Level

inductive Event
  /-- An instruction is about to be executed. -/
  | dispatch (function : UInt16) (offset : Nat) (op : Opcode) (depth : Nat)
  | pushFrame (function : UInt16) (invocation locals depth : Nat)
  | popFrame (function : UInt16) (invocation depth : Nat)
  | call (caller callee : UInt16) (name : String)
  | ret (callee caller : UInt16) (cursor : Nat)
  | nativeCall (native : String)
  | dump (top : Option Cell)
  | breakpoint (function : UInt16) (offset : Nat)
  | unknownNative (name : String)
  | nativeMismatch (name : String)
  | imageLoaded (functions constants : Nat)
  | nativesMissing (names : List String)
  | runStart (functions natives : Nat)
  | runFinished (instructions : Nat)
  | runAborted (fault : Fault) (instructions : Nat)
deriving DecidableEq

namespace Event

def level : Event → Level
  | dispatch .. => .trace
  | pushFrame .. | popFrame .. | call .. | ret .. | nativeCall _ | dump _ | breakpoint ..
  | unknownNative _ | nativeMismatch _ => .debug
  | imageLoaded .. | runStart .. | runFinished _ => .info
  | nativesMissing _ => .warn
  | runAborted .. => .error

/-- The message and its fields. -/
def body : Event → String
  | dispatch function offset op depth =>
    s!"dispatch function={function} offset={offset} op={op.mnemonic} depth={depth}"
  | pushFrame function invocation locals depth =>
    s!"push frame function={function} instance={invocation} locals={locals} depth={depth}"
  | popFrame function invocation depth =>
    s!"pop frame function={function} instance={invocation} depth={depth}"
  | call caller callee name => s!"call caller={caller} callee={callee} name={name}"
  | ret callee caller cursor => s!"return from={callee} to={caller} cursor={cursor}"
  | nativeCall native => s!"native call native={native}"
  | dump (some cell) => s!"dump top={cell.display} ty={cell.tag}"
  | dump none => "dump: operand stack empty"
  | breakpoint function offset => s!"break function={function} offset={offset}"
  | unknownNative name => s!"no host native with this name native={name}"
  | nativeMismatch name => s!"host native signature mismatch native={name}"
  | imageLoaded functions constants => s!"image loaded functions={functions} constants={constants}"
  | nativesMissing names =>
    "natives not provided by this host unresolved=" ++ Text.quotedList names
  | runStart functions natives => s!"run start functions={functions} natives={natives}"
  | runFinished instructions => s!"run finished instructions={instructions}"
  | runAborted fault instructions =>
    s!"run aborted: {fault.display} instructions={instructions} kind={fault.kind.name}"

def text (e : Event) : String := e.level.name ++ " " ++ e.body

end Event

/-- Recorded events, the latest first. Without a level nothing is recorded. -/
structure Journal where
  level : Option Level := none
  recorded : List Event := []
deriving DecidableEq, Inhabited

namespace Journal

/-- Whether events of a level are recorded. -/
def admits (j : Journal) (level : Level) : Bool :=
  match j.level with
  | some least => level.rank ≤ least.rank
  | none => false

@[inline]
def record (j : Journal) (e : Event) : Journal :=
  if j.admits e.level then { j with recorded := e :: j.recorded } else j

def events (j : Journal) : List Event := j.recorded.reverse

end Journal

end CellMachine
