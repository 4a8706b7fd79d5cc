import CellMachine.Program

/-!
# Drafts

A draft is a program under construction. It hands out ids in order, so that code can refer to
functions, constants and natives before all of them are there. Ids count modulo 2^16; a draft with
more functions or natives than ids cannot be built.
-/

namespace CellMachine

structure Draft where
  functions : Array Function := #[]
  constants : Array Text := #[]
  natives : Array Native := #[]

namespace Draft

def empty : Draft := {}

/-- The id of a constant. A constant that is already there keeps its id. -/
def addConstant (d : Draft) (value : String) : Except Cause (UInt16 × Draft) :=
  match Text.ofBytes (utf8Bytes value) with
  | .error _ => .error (.constantNul value)
  | .ok text =>
    match d.constants.findIdx? fun t => t.bytes == text.bytes with
    | some position => .ok (UInt16.ofNat position, d)
    | none =>
      if d.constants.size < idSpace then
        .ok (UInt16.ofNat d.constants.size, { d with constants := d.constants.push text })
      else .error .constantPoolFull

def addFunction (d : Draft) (name : String) (signature : Signature) (locals : UInt16) (code : Code) :
    UInt16 × Draft :=
  let id := UInt16.ofNat d.functions.size
  (id, { d with functions := d.functions.push { id, name, signature, locals, code } })

/-- An id for a function whose body comes later, so that functions can call each other. -/
def declareFunction (d : Draft) (name : String) (signature : Signature) : UInt16 × Draft :=
  d.addFunction name signature 0 Code.empty

/-- Gives a function its body. -/
def defineFunction (d : Draft) (id : UInt16) (locals : UInt16) (code : Code) : Except Cause Draft :=
  match d.functions[id.toNat]? with
  | none => .error (.undeclaredFunction id)
  | some f => .ok { d with functions := d.functions.setIfInBounds id.toNat { f with locals, code } }

def addNative (d : Draft) (native : Native) : UInt16 × Draft :=
  (UInt16.ofNat d.natives.size, { d with natives := d.natives.push native })

/-- The finished program, which starts with the function `entry`. -/
def build (d : Draft) (entry : UInt16) : Except Cause Program :=
  Program.make d.functions d.constants d.natives entry

end Draft

end CellMachine
