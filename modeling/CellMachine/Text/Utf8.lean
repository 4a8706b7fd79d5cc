import CellMachine.Text

/-!
# Reading bytes as UTF-8

A byte list is cut from the left into sequences: a whole scalar value, bytes that no scalar value
starts with, or a scalar value that the end of the list cuts short. A malformed sequence is as long
as it could still be continued to a scalar value, and at least one byte. `firstFault` names the
first bad sequence, `lossy` puts U+FFFD in the place of each.
-/

namespace CellMachine.Utf8

/-- What stands at the front of a non-empty byte list. `further` counts the bytes after the first. -/
inductive Sequence
  | scalar (char : Char) (further : Nat)
  | malformed (further : Nat)
  | cut
deriving DecidableEq, Repr

def isContinuation (b : UInt8) : Bool := 0x80 ≤ b && b ≤ 0xBF

/-- The second bytes that may follow a first byte of a sequence of three or four bytes. They leave
out longer forms of small values, surrogates and values above U+10FFFF. -/
def mayFollow (first second : UInt8) : Bool :=
  let low : UInt8 := if first == 0xE0 then 0xA0 else if first == 0xF0 then 0x90 else 0x80
  let high : UInt8 := if first == 0xED then 0x9F else if first == 0xF4 then 0x8F else 0xBF
  low ≤ second && second ≤ high

def payload (b : UInt8) : Nat := b.toNat % 64

def sequence (first : UInt8) (rest : List UInt8) : Sequence :=
  if first < 0x80 then .scalar (Char.ofNat first.toNat) 0
  else if 0xC2 ≤ first && first ≤ 0xDF then
    match rest with
    | [] => .cut
    | b :: _ =>
      if isContinuation b then .scalar (Char.ofNat (first.toNat % 32 * 64 + payload b)) 1
      else .malformed 0
  else if 0xE0 ≤ first && first ≤ 0xEF then
    match rest with
    | [] => .cut
    | b :: rest =>
      if mayFollow first b then
        match rest with
        | [] => .cut
        | c :: _ =>
          if isContinuation c then
            .scalar (Char.ofNat ((first.toNat % 16 * 64 + payload b) * 64 + payload c)) 2
          else .malformed 1
      else .malformed 0
  else if 0xF0 ≤ first && first ≤ 0xF4 then
    match rest with
    | [] => .cut
    | b :: rest =>
      if mayFollow first b then
        match rest with
        | [] => .cut
        | c :: rest =>
          if isContinuation c then
            match rest with
            | [] => .cut
            | d :: _ =>
              if isContinuation d then
                .scalar (Char.ofNat
                  (((first.toNat % 8 * 64 + payload b) * 64 + payload c) * 64 + payload d)) 3
              else .malformed 2
          else .malformed 1
      else .malformed 0
  else .malformed 0

/-- Why bytes are not UTF-8: bytes that fit nowhere, or an unfinished sequence at the end. -/
inductive Fault
  | malformed (length index : Nat)
  | incomplete (index : Nat)
deriving DecidableEq, Repr

def Fault.message : Fault → String
  | .malformed length index => s!"invalid utf-8 sequence of {length} bytes from index {index}"
  | .incomplete index => s!"incomplete utf-8 byte sequence from index {index}"

/-- The first bad sequence of `bytes`, which start at position `index` of what they are part of. -/
def firstFault (index : Nat) : List UInt8 → Option Fault
  | [] => none
  | b :: rest =>
    match sequence b rest with
    | .scalar _ further => firstFault (index + 1 + further) (rest.drop further)
    | .malformed further => some (.malformed (1 + further) index)
    | .cut => some (.incomplete index)
termination_by bytes => bytes.length
decreasing_by simp only [List.length_drop, List.length_cons]; omega

/-- The characters of `bytes` after those in `before`, the latest of which comes first. -/
def lossyAfter (before : List Char) : List UInt8 → List Char
  | [] => before.reverse
  | b :: rest =>
    match sequence b rest with
    | .scalar char further => lossyAfter (char :: before) (rest.drop further)
    | .malformed further => lossyAfter ('\uFFFD' :: before) (rest.drop further)
    | .cut => ('\uFFFD' :: before).reverse
termination_by bytes => bytes.length
decreasing_by all_goals simp only [List.length_drop, List.length_cons]; omega

def lossy (bytes : List UInt8) : List Char := lossyAfter [] bytes

def decode (bytes : List UInt8) : Except Fault String :=
  match String.fromUTF8? ⟨bytes.toArray⟩ with
  | some s => .ok s
  | none => .error ((firstFault 0 bytes).getD (.incomplete 0))

/-- A string that was read is written with the bytes it was read from. -/
theorem utf8Bytes_of_decode {bytes : List UInt8} {s : String} (h : decode bytes = .ok s) :
    utf8Bytes s = bytes := by
  unfold decode String.fromUTF8? at h
  split at h
  · rename_i s' hs
    split at hs
    · cases hs
      cases h
      simp [utf8Bytes, String.fromUTF8]
    · cases hs
  · cases h

theorem decode_utf8Bytes (s : String) : decode (utf8Bytes s) = .ok s := by
  have h : (⟨(utf8Bytes s).toArray⟩ : ByteArray) = s.toByteArray := by simp [utf8Bytes]
  unfold decode String.fromUTF8?
  rw [h]
  simp [String.fromUTF8, s.isValidUTF8]

end CellMachine.Utf8
