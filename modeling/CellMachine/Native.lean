import CellMachine.OperandStack

/-!
# Natives

A native is code outside the machine. It is called with two banks of argument registers and answers
in result registers; which of them counts is a matter of the declared result. What it answers may
depend on its arguments and on the moment of the call.
-/

namespace CellMachine

structure Signature where
  result : TypeTag := .void
  params : List TypeTag := []
deriving DecidableEq, Inhabited

/-- What an integer register holds: a number, or the place of a text. -/
inductive Word
  | int (n : Int64)
  | text (t : Text)
deriving DecidableEq, Inhabited

/-- The argument registers of a call, as far as arguments filled them. Registers beyond are zero. -/
structure Registers where
  ints : List Word := []
  floats : List Float := []
  /-- When the code is called, counted in instructions. No two calls of a run have a moment in common, so
  that it stands for whatever else an answer depends on, such as earlier calls or the time of day. -/
  moment : Nat := 0
deriving DecidableEq, Inhabited

namespace Registers

/-- An integer register. A zero in the place of a text stands for no text. -/
def int (r : Registers) (index : Nat) : Word := r.ints.getD index (.int 0)

def float (r : Registers) (index : Nat) : Float := r.floats.getD index 0.0

def add (r : Registers) : Cell → Except RegisterBank Registers
  | .int n =>
    if r.ints.length < registersPerBank then .ok { r with ints := r.ints ++ [.int n] }
    else .error .integer
  | .text t =>
    if r.ints.length < registersPerBank then .ok { r with ints := r.ints ++ [.text t] }
    else .error .integer
  | .double d =>
    if r.floats.length < registersPerBank then .ok { r with floats := r.floats ++ [d] }
    else .error .float

end Registers

/-- The result registers after a call. No text is the null pointer. -/
structure Answer where
  int : Int64 := 0
  float : Float := 0.0
  text : Option Text := none
deriving DecidableEq, Inhabited

def NativeCode : Type := Registers → Answer

/-- A native as a program declares it. Without code it cannot be called. -/
structure Native where
  name : String
  signature : Signature
  code : Option NativeCode

/-- Finds the code for a native that an image declares. -/
def Resolver : Type := String → Signature → Option NativeCode

def Resolver.none : Resolver := fun _ _ => Option.none

namespace Native

/-!
### Calls

The arguments of a native are taken off the operand stack, from the last parameter to the first,
each going into the next register of its bank: integers and texts into one, doubles into the other.
The result that the declared type asks for is pushed afterwards.
-/

open OperandStack (Op push popTyped)

/-- Moves arguments into registers. `params` are the parameters left, with their positions, the last
one first. -/
def collect (native : String) : (params : List (TypeTag × Nat)) → Registers → Op Registers
  | [], registers => pure registers
  | (type, position) :: params, registers =>
    match type.valueType? with
    | none => throw (.nativeParameter native position type)
    | some _ => do
      let argument ← popTyped type
      match registers.add argument with
      | .error bank => throw (.nativeRegisters native bank)
      | .ok registers => collect native params registers

def marshal (n : Native) : Op Registers := collect n.name n.signature.params.zipIdx.reverse {}

/-- The code to call and its arguments. Missing code and a result of no type are found before any
argument is touched. -/
def prepare (n : Native) : Op (NativeCode × Registers) :=
  match n.code with
  | none => throw (.nativeUnavailable n.name)
  | some code =>
    if n.signature.result = .invalid then throw (.nativeResult n.name n.signature.result)
    else do
      let registers ← n.marshal
      return (code, registers)

/-- The result as a cell of the declared type. The null pointer is the empty text. -/
def result? (answer : Answer) : TypeTag → Option Cell
  | .int => some (.int answer.int)
  | .double => some (.double answer.float)
  | .string => some (.text (answer.text.getD Text.empty))
  | .void | .invalid => none

def deliver (n : Native) (answer : Answer) : Op Unit :=
  match result? answer n.signature.result with
  | some c => push c
  | none => pure ()

def call (n : Native) : Op Unit := do
  let (code, registers) ← n.prepare
  n.deliver (code registers)

end Native

end CellMachine
