import CellMachine.Cell
import CellMachine.Text.Quoted

/-!
# Faults

A fault ends what it happens in: a run, the building of a program, the reading of an image. It says
what went wrong and, for an instruction, where. `Cause` lists what can go wrong; its kind and its
wording are functions of it.
-/

namespace CellMachine

inductive FaultKind
  | decode | stackDiscipline | stackOverflow | bounds | arithmetic | nativeSignature
  | unsupportedNative | instructionBudget | output
deriving DecidableEq, Repr, Inhabited

def FaultKind.name : FaultKind → String
  | decode => "decode error"
  | stackDiscipline => "stack discipline error"
  | stackOverflow => "stack overflow"
  | bounds => "bounds error"
  | arithmetic => "arithmetic error"
  | nativeSignature => "native signature error"
  | unsupportedNative => "unsupported native call"
  | instructionBudget => "instruction budget exhausted"
  | output => "output error"

/-- The two groups of argument registers of a native call. -/
inductive RegisterBank
  | integer | float
deriving DecidableEq, Repr

def RegisterBank.name : RegisterBank → String
  | integer => "integer"
  | float => "float"

/-- Argument registers in each bank. -/
def registersPerBank : Nat := 6

theorem registersPerBank_eq : registersPerBank = 6 := rfl

/-- The counts and lengths in an image. Each has a field of fixed width, which bounds what an image can
hold. -/
inductive Image.Field
  | constantCount | constantLength | nativeCount | nameLength | parameterCount | functionCount
  | codeLength
deriving DecidableEq, Repr

namespace Image.Field

def width : Field → Nat
  | parameterCount => 1
  | nativeCount | nameLength | functionCount => 2
  | constantCount | constantLength | codeLength => 4

def name : Field → String
  | constantCount => "constant count"
  | constantLength => "string constant length"
  | nativeCount => "native count"
  | nameLength => "name length"
  | parameterCount => "parameter count"
  | functionCount => "function count"
  | codeLength => "bytecode length"

/-- What a field can hold is below this number. -/
def limit (f : Field) : Nat := Nat.pow 256 f.width

end Image.Field

inductive Cause
  -- texts
  | interiorNul (position : Nat)
  | constantNul (constant : String)
  -- operand stack
  | stackLimit (limit : Nat)
  | popFromEmpty
  | popTypedFromEmpty (expected : TypeTag)
  | wrongType (expected found : TypeTag)
  | swapNeedsTwo (depth : Nat)
  -- frames
  | slotOutOfRange (slot function : UInt16) (locals : Nat)
  | noBank (type : TypeTag)
  | noFrameToPop
  | noActiveFrame
  | inactiveContext (function : UInt16)
  -- programs
  | undefinedFunction (id : UInt16)
  | undefinedConstant (id : UInt16)
  | undefinedNative (id : UInt16)
  | undeclaredFunction (id : UInt16)
  | tooManyFunctions (count : Nat)
  | tooManyNatives (count : Nat)
  | misplacedFunction (name : String) (id : UInt16) (position : Nat)
  | undefinedEntry (id : UInt16) (functions : Nat)
  | constantPoolFull
  -- native calls
  | nativeUnavailable (native : String)
  | nativeResult (native : String) (type : TypeTag)
  | nativeParameter (native : String) (position : Nat) (type : TypeTag)
  | nativeRegisters (native : String) (bank : RegisterBank)
  -- instructions
  | pastEnd
  | unknownOpcode (tag : UInt8)
  | truncatedOperand (width offset length : Nat)
  | invalidInstruction
  | jumpOutside (target : Int) (length : Nat)
  | divisionByZero
  | moduloByZero
  | callDepth (limit : Nat)
  | budgetSpent (budget : Nat)
  | tooManyArguments (count : Nat)
  -- output
  | printRefused (reason : String)
  | flushRefused (reason : String)
  -- images
  | imageTruncated (needed offset : Nat)
  | badMagic
  | unsupportedVersion (version : UInt8)
  | imageConstantNul (position : Nat)
  | malformedName (fault : Utf8.Fault)
  | unknownType (code : UInt8)
  | trailingBytes (count : Nat)
  | fieldOverflow (field : Image.Field) (value : Nat)
  -- whatever a caller reports in words of its own
  | stated (kind : FaultKind) (message : String)
deriving DecidableEq

namespace Cause

def kind : Cause → FaultKind
  | interiorNul _ | constantNul _ | pastEnd | unknownOpcode _ | truncatedOperand .. | invalidInstruction
  | jumpOutside .. | imageTruncated .. | badMagic | unsupportedVersion _ | imageConstantNul _
  | malformedName _ | unknownType _ | trailingBytes _ => .decode
  | popFromEmpty | popTypedFromEmpty _ | wrongType .. | swapNeedsTwo _ | noBank _ | noFrameToPop =>
    .stackDiscipline
  | stackLimit _ | callDepth _ => .stackOverflow
  | slotOutOfRange .. | noActiveFrame | inactiveContext _ | undefinedFunction _ | undefinedConstant _
  | undefinedNative _ | undeclaredFunction _ | tooManyFunctions _ | tooManyNatives _
  | misplacedFunction .. | undefinedEntry .. | constantPoolFull | tooManyArguments _ | fieldOverflow .. =>
    .bounds
  | divisionByZero | moduloByZero => .arithmetic
  | nativeResult .. | nativeParameter .. | nativeRegisters .. => .nativeSignature
  | nativeUnavailable _ => .unsupportedNative
  | budgetSpent _ => .instructionBudget
  | printRefused _ | flushRefused _ => .output
  | stated kind _ => kind

def message : Cause → String
  | interiorNul position => s!"string contains interior NUL at byte {position}"
  | constantNul constant => "string constant " ++ Text.quoted constant ++ " contains NUL"
  | stackLimit limit => s!"operand stack exceeds {limit} cells"
  | popFromEmpty => "pop from empty operand stack"
  | popTypedFromEmpty expected => s!"pop {expected} from empty operand stack"
  | wrongType expected found => s!"expected {expected} on top of stack, found {found}"
  | swapNeedsTwo depth => s!"swap needs two cells, stack holds {depth}"
  | slotOutOfRange slot function locals =>
    s!"slot {slot} out of range for function {function} ({locals} locals)"
  | noBank type => s!"no variable bank for type {type}"
  | noFrameToPop => "pop from empty context stack"
  | noActiveFrame => "no active frame"
  | inactiveContext function => s!"context {function} has no active frame"
  | undefinedFunction id => s!"function id {id} not defined"
  | undefinedConstant id => s!"string constant {id} not defined"
  | undefinedNative id => s!"native id {id} not registered"
  | undeclaredFunction id => s!"function id {id} not declared"
  | tooManyFunctions count => s!"{count} functions exceed the 16-bit id space"
  | tooManyNatives count => s!"{count} natives exceed the 16-bit id space"
  | misplacedFunction name id position => s!"function '{name}' has id {id} but sits at index {position}"
  | undefinedEntry id functions => s!"entry function {id} not defined ({functions} functions)"
  | constantPoolFull => "string constant pool is full"
  | nativeUnavailable native => s!"native '{native}' is not available on this host"
  | nativeResult native type => s!"native '{native}' has unsupported return type {type}"
  | nativeParameter native position type =>
    s!"native '{native}' parameter {position} has unsupported type {type}"
  | nativeRegisters native bank =>
    s!"native '{native}' needs more than {registersPerBank} {bank.name} arguments"
  | pastEnd => "cursor past end of bytecode"
  | unknownOpcode tag => s!"unrecognized opcode {tag}"
  | truncatedOperand width offset length =>
    s!"truncated {width}-byte operand at offset {offset} (bytecode length {length})"
  | invalidInstruction => "INVALID instruction"
  | jumpOutside target length => s!"jump target {target} outside bytecode (length {length})"
  | divisionByZero => "integer division by zero"
  | moduloByZero => "integer modulo by zero"
  | callDepth limit => s!"call depth exceeds {limit}"
  | budgetSpent budget => s!"instruction budget of {budget} exhausted"
  | tooManyArguments count => s!"{count} top-level arguments"
  | printRefused reason => s!"print failed: {reason}"
  | flushRefused reason => s!"flush failed: {reason}"
  | imageTruncated needed offset => s!"image truncated: need {needed} bytes at offset {offset}"
  | badMagic => "not a program image (bad magic)"
  | unsupportedVersion version => s!"unsupported image version {version}"
  | imageConstantNul position => s!"string constant {position} contains NUL"
  | malformedName fault => s!"invalid UTF-8 name: {fault.message}"
  | unknownType code => s!"unknown type tag {code}"
  | trailingBytes count => s!"{count} trailing bytes after image"
  | fieldOverflow field value =>
    s!"{field.name} {value} does not fit its {field.width}-byte image field"
  | stated _ message => message

end Cause

/-- A cause with the instruction it happened at, where that is known. -/
structure Fault where
  cause : Cause
  function : Option UInt16 := none
  offset : Option Nat := none
deriving DecidableEq

namespace Fault

def kind (f : Fault) : FaultKind := f.cause.kind

def message (f : Fault) : String := f.cause.message

/-- A fault without a place is given one; a place that is known is kept, so the innermost wins. -/
def locate (f : Fault) (function : UInt16) (offset : Nat) : Fault :=
  match f.function with
  | none => { f with function := some function, offset := some offset }
  | some _ => f

def located (cause : Cause) (function : UInt16) (offset : Nat) : Fault :=
  (Fault.mk cause none none).locate function offset

def place (f : Fault) : String :=
  match f.function, f.offset with
  | some function, some offset => s!" (function {function}, offset {offset})"
  | some function, none => s!" (function {function})"
  | none, _ => ""

def display (f : Fault) : String := s!"{f.kind.name}: {f.message}" ++ f.place

end Fault

end CellMachine
