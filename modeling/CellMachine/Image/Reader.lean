import CellMachine.Image.Basic

/-!
# Reading images

A reader takes bytes from the front of what is left and counts them, so that a fault can say where
bytes were missing. Every byte has to be used: nothing may follow an image.
-/

namespace CellMachine

namespace Image

/-- The bytes that are left, and the position of the first of them. -/
structure Cursor where
  offset : Nat
  rest : List UInt8
deriving DecidableEq

/-- Reads a value and leaves the bytes behind it. -/
def Reader (α : Type) : Type := Cursor → Except Cause (α × Cursor)

namespace Reader

instance : Monad Reader where
  pure value := fun c => .ok (value, c)
  bind read next := fun c =>
    match read c with
    | .error cause => .error cause
    | .ok (value, c') => next value c'

def fail (cause : Cause) : Reader α := fun _ => .error cause

def take (n : Nat) : Reader (List UInt8) := fun c =>
  let bytes := c.rest.take n
  if bytes.length = n then .ok (bytes, ⟨c.offset + n, c.rest.drop n⟩)
  else .error (.imageTruncated n c.offset)

def nat (width : Nat) : Reader Nat := do
  let bytes ← take width
  return ofLittleEndian bytes

def type : Reader TypeTag := do
  let code ← nat 1
  match TypeTag.ofCode? (UInt8.ofNat code) with
  | some t => return t
  | none => fail (.unknownType (UInt8.ofNat code))

def blob (field : Field) : Reader (List UInt8) := do
  let length ← nat field.width
  take length

def name : Reader String := do
  let bytes ← blob .nameLength
  match Utf8.decode bytes with
  | .ok s => return s
  | .error fault => fail (.malformedName fault)

/-- `count` more items of a table after those in `before`. An item may depend on its position. -/
def items (item : Nat → Reader α) : (count : Nat) → (before : Array α) → Reader (Array α)
  | 0, before => pure before
  | count + 1, before => fun c =>
    match item before.size c with
    | .error cause => .error cause
    | .ok (value, c') => items item count (before.push value) c'

/-- The items of a table, after their number. -/
def table (field : Field) (item : Nat → Reader α) : Reader (Array α) := do
  let count ← nat field.width
  items item count #[]

def signature : Reader Signature := do
  let result ← type
  let params ← table .parameterCount fun _ => type
  return { result, params := params.toList }

def constant (position : Nat) : Reader Text := do
  let bytes ← blob .constantLength
  match Text.ofBytes bytes with
  | .ok text => return text
  | .error _ => fail (.imageConstantNul position)

def native : Reader Declaration := do
  let name ← name
  let signature ← signature
  return { name, signature }

def function (position : Nat) : Reader Function := do
  let name ← name
  let signature ← signature
  let locals ← nat 2
  let code ← blob .codeLength
  return {
    id := UInt16.ofNat position, name, signature, locals := UInt16.ofNat locals, code := ⟨code.toArray⟩ }

def entry : Reader UInt16 := do
  let start ← take magic.length
  if start = magic then
    let found ← nat 1
    if UInt8.ofNat found = version then
      let id ← nat 2
      return UInt16.ofNat id
    else fail (.unsupportedVersion (UInt8.ofNat found))
  else fail .badMagic

/-- Nothing may follow an image. -/
def finish : Reader Unit := fun c =>
  if c.rest = [] then .ok ((), c) else .error (.trailingBytes c.rest.length)

def image : Reader Image := do
  let entry ← entry
  let constants ← table .constantCount constant
  let natives ← table .nativeCount fun _ => native
  let functions ← table .functionCount function
  finish
  return { entry, constants, natives, functions }

end Reader

def read (bytes : List UInt8) : Except Cause Image :=
  match Reader.image ⟨0, bytes⟩ with
  | .ok (image, _) => .ok image
  | .error cause => .error cause

/-- As many of `count` items as can be read. -/
def readable (item : Reader α) : (count : Nat) → (before : Array α) → Cursor → Array α
  | 0, before, _ => before
  | count + 1, before, c =>
    match item c with
    | .error _ => before
    | .ok (value, c') => readable item count (before.push value) c'

/-- The natives that bytes declare, as far as they can be read, even if the rest is no image. -/
def declarations (bytes : List UInt8) : Array Declaration :=
  let front : Reader Nat := do
    let _ ← Reader.entry
    let _ ← Reader.table .constantCount Reader.constant
    Reader.nat Field.nativeCount.width
  match front ⟨0, bytes⟩ with
  | .ok (count, c) => readable Reader.native count #[] c
  | .error _ => #[]

end Image

def Program.ofBytes (resolve : Resolver) (bytes : List UInt8) : Except Cause Program := do
  let image ← Image.read bytes
  ofImage resolve image

end CellMachine
