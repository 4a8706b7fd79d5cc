import CellMachine.Program

/-!
# Images

An image holds what a program is made of, except the code of its natives: of those it has the names
and the declared types. All numbers are little-endian.

    "SVMP" | version, 1 byte | entry, 2 bytes
    constants: count, 4 bytes | each: length, 4 bytes | bytes
    natives:   count, 2 bytes | each: name | signature
    functions: count, 2 bytes | each: name | signature | locals, 2 bytes | length, 4 bytes | code

    name:      length, 2 bytes | UTF-8
    signature: result type, 1 byte | count, 1 byte | parameter types, 1 byte each
-/

namespace CellMachine

/-- A native by what an image knows of it. -/
structure Declaration where
  name : String
  signature : Signature
deriving DecidableEq, Inhabited

structure Image where
  entry : UInt16
  constants : Array Text
  natives : Array Declaration
  functions : Array Function
deriving DecidableEq

namespace Image

def magic : List UInt8 := [0x53, 0x56, 0x4D, 0x50]

def version : UInt8 := 1

end Image

/-- What an image keeps of a program. -/
def Program.image (p : Program) : Image where
  entry := p.entry
  constants := p.constants
  natives := p.natives.map fun n => ⟨n.name, n.signature⟩
  functions := p.functions

/-- The program of an image, with the code that the resolver finds for its natives. -/
def Program.ofImage (resolve : Resolver) (image : Image) : Except Cause Program :=
  let natives := image.natives.map fun d => Native.mk d.name d.signature (resolve d.name d.signature)
  Program.make image.functions image.constants natives image.entry

end CellMachine
