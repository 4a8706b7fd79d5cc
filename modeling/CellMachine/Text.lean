/-!
# Texts

A text is what the machine calls a string: bytes of any value but NUL, in no particular encoding.
-/

namespace CellMachine

/-- Bytes without a NUL among them. -/
structure Text where
  bytes : List UInt8
  noNul : 0 ∉ bytes
deriving DecidableEq

namespace Text

theorem bytes_inj {t u : Text} : t.bytes = u.bytes ↔ t = u := by
  cases t
  cases u
  simp only [mk.injEq]

/-- The text without bytes, the value of a text variable that was never written. -/
def empty : Text := ⟨[], List.not_mem_nil⟩

instance : Inhabited Text := ⟨empty⟩

def length (t : Text) : Nat := t.bytes.length

def isEmpty (t : Text) : Bool := t.bytes.isEmpty

/-- The text of the bytes, or the position of the first NUL. -/
def ofBytes (bytes : List UInt8) : Except Nat Text :=
  if h : 0 ∈ bytes then .error (bytes.idxOf 0) else .ok ⟨bytes, h⟩

theorem ofBytes_eq_ok_iff {bytes : List UInt8} {t : Text} : ofBytes bytes = .ok t ↔ bytes = t.bytes := by
  unfold ofBytes
  split
  · rename_i h
    simp only [reduceCtorEq, false_iff]
    rintro rfl
    exact t.noNul h
  · cases t
    simp

theorem ofBytes_eq_error_iff {bytes : List UInt8} {position : Nat} :
    ofBytes bytes = .error position ↔ 0 ∈ bytes ∧ position = bytes.idxOf 0 := by
  unfold ofBytes
  split
  · rename_i h
    simp only [Except.error.injEq, h, true_and, eq_comm]
  · rename_i h
    simp only [reduceCtorEq, h, false_and]

@[simp] theorem ofBytes_bytes (t : Text) : ofBytes t.bytes = .ok t := ofBytes_eq_ok_iff.2 rfl

end Text

/-- The bytes of a character string in UTF-8. -/
def utf8Bytes (s : String) : List UInt8 := s.toByteArray.data.toList

theorem utf8Bytes_eq (s : String) : utf8Bytes s = s.toList.flatMap String.utf8EncodeChar := by
  have h : utf8Bytes (String.ofList s.toList) = s.toList.flatMap String.utf8EncodeChar := by
    rw [utf8Bytes, String.toByteArray_ofList]
    simp [List.utf8Encode]
  rwa [String.ofList_toList] at h

theorem utf8Bytes_inj {s t : String} : utf8Bytes s = utf8Bytes t ↔ s = t := by
  refine ⟨fun h => ?_, congrArg utf8Bytes⟩
  exact String.toByteArray_inj.1 (ByteArray.ext (Array.toList_inj.1 h))

/-- Only NUL is written with a zero byte. -/
theorem zero_mem_utf8EncodeChar {c : Char} : 0 ∈ String.utf8EncodeChar c ↔ c = '\x00' := by
  have hbyte : ∀ n, n < 256 → ((0 : UInt8) = UInt8.ofNat n ↔ n = 0) := by
    intro n hn
    rw [← UInt8.toNat_inj, UInt8.toNat_ofNat', UInt8.toNat_zero]
    omega
  have hzero : c = '\x00' ↔ c.val.toNat = 0 := by
    rw [← Char.val_inj, ← UInt32.toNat_inj]
    rfl
  unfold String.utf8EncodeChar
  dsimp only
  split
  · rw [List.mem_singleton, hbyte _ (by omega), hzero]
  · split
    · simp only [List.mem_cons, List.not_mem_nil, or_false, hzero]
      rw [hbyte _ (by omega), hbyte _ (by omega)]
      omega
    · split
      · simp only [List.mem_cons, List.not_mem_nil, or_false, hzero]
        rw [hbyte _ (by omega), hbyte _ (by omega), hbyte _ (by omega)]
        omega
      · simp only [List.mem_cons, List.not_mem_nil, or_false, hzero]
        rw [hbyte _ (by omega), hbyte _ (by omega), hbyte _ (by omega), hbyte _ (by omega)]
        omega

theorem zero_mem_utf8Bytes {s : String} : 0 ∈ utf8Bytes s ↔ '\x00' ∈ s.toList := by
  rw [utf8Bytes_eq, List.mem_flatMap]
  simp only [zero_mem_utf8EncodeChar, exists_eq_right]

end CellMachine
