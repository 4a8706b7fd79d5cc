import CellMachine.Image.Basic

/-!
# Writing images

An image is written part by part. A count or a length that does not fit its field stops the writing.
-/

namespace CellMachine

namespace Image

/-- A count or a length in its field. -/
def writeField (field : Field) (value : Nat) : Except Cause (List UInt8) :=
  if value < field.limit then .ok (littleEndian field.width value)
  else .error (.fieldOverflow field value)

/-- Bytes after their number. -/
def writeBlob (field : Field) (bytes : List UInt8) : Except Cause (List UInt8) := do
  let length ← writeField field bytes.length
  return length ++ bytes

def writeName (name : String) : Except Cause (List UInt8) := writeBlob .nameLength (utf8Bytes name)

def writeSignature (s : Signature) : Except Cause (List UInt8) := do
  let count ← writeField .parameterCount s.params.length
  return s.result.code :: count ++ s.params.map TypeTag.code

def writeConstant (t : Text) : Except Cause (List UInt8) := writeBlob .constantLength t.bytes

def writeNative (d : Declaration) : Except Cause (List UInt8) := do
  let name ← writeName d.name
  let signature ← writeSignature d.signature
  return name ++ signature

def writeFunction (f : Function) : Except Cause (List UInt8) := do
  let name ← writeName f.name
  let signature ← writeSignature f.signature
  let code ← writeBlob .codeLength f.code.bytes.toList
  return name ++ signature ++ littleEndian 2 f.locals.toNat ++ code

/-- The items of a table, one after the other, after their number. -/
def writeTable (field : Field) (item : α → Except Cause (List UInt8)) (items : List α) :
    Except Cause (List UInt8) := do
  let count ← writeField field items.length
  let parts ← items.mapM item
  return count ++ parts.flatten

/-- The bytes of an image. What does not fit its field is reported, the first in the order of the
image. -/
def write (image : Image) : Except Cause (List UInt8) := do
  let constants ← writeTable .constantCount writeConstant image.constants.toList
  let natives ← writeTable .nativeCount writeNative image.natives.toList
  let functions ← writeTable .functionCount writeFunction image.functions.toList
  return magic ++ version :: littleEndian 2 image.entry.toNat ++ constants ++ natives ++ functions

end Image

/-- The bytes of the image of a program. -/
def Program.toBytes (p : Program) : Except Cause (List UInt8) := p.image.write

end CellMachine
