import CellMachine.Decimal
import Mathlib.Algebra.Order.Field.Power
import Mathlib.Data.List.DropRight
import Mathlib.Data.Rat.Cast.Order
import Mathlib.Tactic.FieldSimp
import Mathlib.Tactic.Linarith
import Mathlib.Tactic.Positivity
import Mathlib.Tactic.Ring

/-!
# Decimal texts

The number that a decimal text denotes, and the two forms in which numbers are written. Main statement:
what is left of the digits of a number when zeros are stripped denotes the same number, and has no zero
too many.
-/

namespace CellMachine.Decimal

/-! ### Digits -/

/-- The number that digits denote. -/
def ofDigits (digits : List Char) : ℕ := Nat.ofDigitChars 10 digits 0

theorem ofDigits_append (digits more : List Char) :
    ofDigits (digits ++ more) = 10 ^ more.length * ofDigits digits + ofDigits more := by
  rw [ofDigits, Nat.ofDigitChars_append, Nat.ofDigitChars_eq_ofDigitChars_zero]
  rfl

theorem ofDigits_replicate_zero (count : ℕ) : ofDigits (List.replicate count '0') = 0 := by
  rw [ofDigits, Nat.ofDigitChars_replicate_zero, Nat.mul_zero]

theorem ofDigits_lt {digits : List Char} (h : ∀ c ∈ digits, c.isDigit) :
    ofDigits digits < 10 ^ digits.length := by
  induction digits with
  | nil => simp [ofDigits]
  | cons c digits ih =>
    have hc : c.toNat - '0'.toNat ≤ 9 := by
      have hdigit := h c List.mem_cons_self
      simp only [Char.isDigit, Bool.and_eq_true, decide_eq_true_eq] at hdigit
      have hle : c.toNat ≤ '9'.toNat := hdigit.2
      have hnine : '9'.toNat = '0'.toNat + 9 := rfl
      omega
    have hrest := ih fun d hd => h d (List.mem_cons_of_mem _ hd)
    have happend := ofDigits_append [c] digits
    have hone : ofDigits [c] = c.toNat - '0'.toNat := by simp [ofDigits, Nat.ofDigitChars]
    rw [List.singleton_append, hone] at happend
    rw [happend, List.length_cons, pow_succ]
    have hscaled : 10 ^ digits.length * (c.toNat - '0'.toNat) ≤ 10 ^ digits.length * 9 :=
      Nat.mul_le_mul_left _ hc
    omega

theorem isDigit_of_mem_padded {width n : ℕ} {c : Char} (h : c ∈ padded width n) : c.isDigit := by
  rcases List.mem_append.1 h with hzero | hdigit
  · rw [List.eq_of_mem_replicate hzero]
    rfl
  · exact Nat.isDigit_of_mem_toDigits (by decide) (by decide) hdigit

@[simp] theorem ofDigits_padded (width n : ℕ) : ofDigits (padded width n) = n := by
  rw [padded, ofDigits_append, ofDigits_replicate_zero, Nat.mul_zero, Nat.zero_add, ofDigits,
    Nat.ofDigitChars_ten_toDigits]

theorem length_padded (width n : ℕ) :
    (padded width n).length = max width (Nat.toDigits 10 n).length := by
  simp only [padded, List.length_append, List.length_replicate]
  omega

/-- Only a single digit of a number can be a zero in front. -/
theorem head?_toDigits {n : ℕ} (h : 1 < (Nat.toDigits 10 n).length) :
    (Nat.toDigits 10 n).head? ≠ some '0' := by
  intro hhead
  cases hdigits : Nat.toDigits 10 n with
  | nil => simp [hdigits] at h
  | cons c rest =>
    rw [hdigits] at h hhead
    obtain rfl : c = '0' := by simpa using hhead
    -- without its zero the number has too few digits
    have hrest : ofDigits rest < 10 ^ rest.length := ofDigits_lt fun c hc =>
      Nat.isDigit_of_mem_toDigits (b := 10) (n := n) (by decide) (by decide)
        (by rw [hdigits]; exact List.mem_cons_of_mem _ hc)
    have hn : n = ofDigits rest := by
      have hvalue : ofDigits (Nat.toDigits 10 n) = n := Nat.ofDigitChars_ten_toDigits
      rw [hdigits] at hvalue
      exact hvalue.symm
    rw [List.length_cons] at h
    have hshort : (Nat.toDigits 10 n).length ≤ rest.length :=
      (Nat.length_toDigits_le_iff (by decide) (by omega)).2 (hn ▸ hrest)
    rw [hdigits, List.length_cons] at hshort
    omega

/-! ### Trimming -/

theorem trimEnd_concat (c d : Char) (text : List Char) :
    trimEnd c (text ++ [d]) = if d = c then trimEnd c text else text ++ [d] := by
  have h := List.rdropWhile_concat (· == c) text d
  simp only [beq_iff_eq] at h
  exact h

theorem trimEnd_append_cons {c d : Char} (h : d ≠ c) (text more : List Char) :
    trimEnd c (text ++ d :: more) = text ++ d :: trimEnd c more := by
  induction more using List.reverseRecOn with
  | nil => rw [trimEnd_concat, if_neg h]; rfl
  | append_singleton more x ih =>
    rw [← List.cons_append, ← List.append_assoc, trimEnd_concat, trimEnd_concat, ih]
    split <;> simp

theorem trimEnd_eq_self {c : Char} {text : List Char} (h : c ∉ text) : trimEnd c text = text := by
  cases text using List.reverseRecOn with
  | nil => rfl
  | append_singleton text d =>
    rw [trimEnd_concat, if_neg]
    rintro rfl
    exact h (List.mem_append_right _ List.mem_cons_self)

theorem getLast?_trimEnd (c : Char) (text : List Char) : (trimEnd c text).getLast? ≠ some c := by
  induction text using List.reverseRecOn with
  | nil => simp [trimEnd]
  | append_singleton text d ih =>
    rw [trimEnd_concat]
    split
    · exact ih
    · rename_i hd
      simpa using hd

theorem exists_trimmed (c : Char) (text : List Char) :
    ∃ count, text = trimEnd c text ++ List.replicate count c := by
  induction text using List.reverseRecOn with
  | nil => exact ⟨0, rfl⟩
  | append_singleton text d ih =>
    rw [trimEnd_concat]
    split
    · rename_i hd
      obtain ⟨count, hcount⟩ := ih
      refine ⟨count + 1, ?_⟩
      rw [List.replicate_succ', ← List.append_assoc, ← hcount, hd]
    · exact ⟨0, by simp⟩

/-! ### Numerals -/

/-- Digits before and behind a point. There is one before it, the first of them is not zero unless it
stands alone, and the last one behind the point is not zero. -/
structure Numeral (whole fraction : List Char) : Prop where
  nonempty : whole ≠ []
  digits : ∀ c ∈ whole ++ fraction, c.isDigit
  leading (zero : whole.head? = some '0') : whole = ['0']
  trailing : fraction.getLast? ≠ some '0'

/-- A numeral as it is written: without a point if there is nothing behind it. -/
def joined (whole : List Char) : (fraction : List Char) → List Char
  | [] => whole
  | c :: fraction => whole ++ '.' :: c :: fraction

/-- The number that a numeral denotes. -/
def denoted (whole fraction : List Char) : ℚ := ofDigits (whole ++ fraction) / 10 ^ fraction.length

theorem point_not_mem {digits : List Char} (h : ∀ c ∈ digits, c.isDigit) : '.' ∉ digits := by
  intro hmem
  cases h '.' hmem

theorem strip_append {whole fraction : List Char} (h : ∀ c ∈ whole ++ fraction, c.isDigit) :
    stripTrailingZeros (whole ++ '.' :: fraction) = joined whole (trimEnd '0' fraction) := by
  have hwhole : '.' ∉ whole := point_not_mem fun c hc => h c (List.mem_append_left _ hc)
  have hfraction : '.' ∉ trimEnd '0' fraction := by
    obtain ⟨count, hcount⟩ := exists_trimmed '0' fraction
    refine point_not_mem fun c hc => h c (List.mem_append_right _ ?_)
    rw [hcount]
    exact List.mem_append_left _ hc
  -- the zeros end at the point, so that no digit before it goes
  rw [stripTrailingZeros, if_pos (List.mem_append_right _ List.mem_cons_self),
    trimEnd_append_cons (by decide)]
  cases htrimmed : trimEnd '0' fraction with
  | nil => rw [trimEnd_concat, if_pos rfl, trimEnd_eq_self hwhole, joined]
  | cons c rest =>
    rw [htrimmed, List.mem_cons, not_or] at hfraction
    have hsplit : whole ++ '.' :: c :: rest = (whole ++ ['.']) ++ c :: rest := by simp
    rw [joined, hsplit, trimEnd_append_cons (Ne.symm hfraction.1), trimEnd_eq_self hfraction.2]

theorem strip_digits {digits : List Char} (h : ∀ c ∈ digits, c.isDigit) :
    stripTrailingZeros digits = digits := by
  rw [stripTrailingZeros, if_neg (point_not_mem h)]

/-- Both parts of the digits of a number, the one behind the point without zeros at its end. -/
theorem strip_pointed (decimals n : ℕ) :
    let digits := padded (decimals + 1) n
    stripTrailingZeros (pointed decimals n) =
      joined (digits.take (digits.length - decimals))
        (trimEnd '0' (digits.drop (digits.length - decimals))) := by
  intro digits
  have hdigits : ∀ c ∈ digits, c.isDigit := fun c hc => isDigit_of_mem_padded hc
  by_cases hd : decimals = 0
  · subst hd
    have hpointed : pointed 0 n = digits := rfl
    rw [hpointed, strip_digits hdigits, Nat.sub_zero, List.take_length, List.drop_length]
    rfl
  · simp only [pointed, if_neg hd]
    refine strip_append ?_
    rwa [List.take_append_drop]

/-- What is written before the point of a number. -/
theorem leading_padded (decimals n : ℕ) :
    let digits := padded (decimals + 1) n
    let whole := digits.take (digits.length - decimals)
    whole.head? = some '0' → whole = ['0'] := by
  intro digits whole hzero
  have hlength : digits.length = max (decimals + 1) (Nat.toDigits 10 n).length := length_padded _ _
  by_cases hlong : decimals + 1 < (Nat.toDigits 10 n).length
  · have hdigits : digits = Nat.toDigits 10 n := by
      have hnone : decimals + 1 - (Nat.toDigits 10 n).length = 0 := by omega
      simp only [digits, padded, hnone, List.replicate_zero, List.nil_append]
    have hhead : digits.head? = some '0' := by
      rwa [List.head?_take, if_neg (by omega)] at hzero
    exact (head?_toDigits (by omega) (hdigits ▸ hhead)).elim
  · have hone : whole.length = 1 := by
      rw [List.length_take]
      omega
    obtain ⟨c, hc⟩ := List.length_eq_one_iff.1 hone
    rw [hc] at hzero ⊢
    simpa using hzero

theorem denoted_append_zeros (whole fraction : List Char) (count : ℕ) :
    denoted whole (fraction ++ List.replicate count '0') = denoted whole fraction := by
  have hpow : (10 : ℚ) ^ count ≠ 0 := by positivity
  simp only [denoted, ← List.append_assoc]
  rw [ofDigits_append, ofDigits_replicate_zero, List.length_append, List.length_replicate, pow_add,
    Nat.add_zero, Nat.cast_mul, Nat.cast_pow, Nat.cast_ofNat, mul_comm,
    mul_div_mul_right _ _ hpow]

/-- What is left of a number when zeros are stripped is a numeral for it, with one digit before the
point if the number has no more digits than that. -/
theorem exists_numeral (decimals n : ℕ) : ∃ whole fraction,
    stripTrailingZeros (pointed decimals n) = joined whole fraction ∧ Numeral whole fraction ∧
      denoted whole fraction = n / 10 ^ decimals ∧
      (n < 10 ^ (decimals + 1) → whole.length = 1) := by
  let digits := padded (decimals + 1) n
  let whole := digits.take (digits.length - decimals)
  let fraction := digits.drop (digits.length - decimals)
  have hlength : digits.length = max (decimals + 1) (Nat.toDigits 10 n).length := length_padded _ _
  have hwhole : whole.length = digits.length - decimals := by
    rw [List.length_take]
    omega
  have hfraction : fraction.length = decimals := by
    rw [List.length_drop]
    omega
  have hall : whole ++ fraction = digits := List.take_append_drop _ digits
  obtain ⟨count, hcount⟩ := exists_trimmed '0' fraction
  have hdigits : ∀ c ∈ digits, c.isDigit := fun c hc => isDigit_of_mem_padded hc
  refine ⟨whole, trimEnd '0' fraction, strip_pointed decimals n, ?_, ?_, fun hshort => ?_⟩
  · refine ⟨?_, fun c hc => hdigits c ?_, leading_padded decimals n, getLast?_trimEnd _ _⟩
    · rw [← List.length_pos_iff, hwhole]
      omega
    · rw [← hall, hcount, ← List.append_assoc]
      exact List.mem_append_left _ hc
  · rw [← denoted_append_zeros whole _ count, ← hcount, denoted, hall, hfraction, ofDigits_padded]
  · have hdigits := (Nat.length_toDigits_le_iff (by decide) (Nat.succ_pos decimals)).2 hshort
    omega

/-! ### Forms -/

/-- A number without an exponent. -/
def Positional (text : List Char) : Prop :=
  ∃ whole fraction, Numeral whole fraction ∧ text = joined whole fraction

/-- A number with one digit before the point, not a zero, and an exponent with a sign and at least two
digits. -/
def Exponential (text : List Char) : Prop :=
  ∃ digit fraction sign exponent, Numeral [digit] fraction ∧ digit ≠ '0' ∧
    (sign = '+' ∨ sign = '-') ∧ 2 ≤ exponent.length ∧ (∀ c ∈ exponent, c.isDigit) ∧
      text = joined [digit] fraction ++ 'e' :: sign :: exponent

theorem mem_joined {whole fraction : List Char} {c : Char} (h : c ∈ joined whole fraction) :
    c ∈ whole ++ fraction ∨ c = '.' := by
  cases fraction with
  | nil =>
    rw [List.append_nil]
    exact .inl h
  | cons d fraction =>
    rw [joined, List.mem_append, List.mem_cons] at h
    rw [List.mem_append]
    rcases h with h | rfl | h
    · exact .inl (.inl h)
    · exact .inr rfl
    · exact .inl (.inr h)

theorem Positional.not_exponential {text : List Char} (h : Positional text) : ¬ Exponential text := by
  rintro ⟨digit, fraction', sign, exponent, -, -, -, -, -, htext⟩
  obtain ⟨whole, fraction, hnumeral, rfl⟩ := h
  have hmem : 'e' ∈ joined whole fraction := by
    rw [htext]
    exact List.mem_append_right _ List.mem_cons_self
  rcases mem_joined hmem with hdigit | hpoint
  · cases hnumeral.digits _ hdigit
  · cases hpoint

/-! ### Reading -/

/-- The number of a text of digits only, of which there is at least one. -/
def digits? (text : List Char) : Option ℕ :=
  if text ≠ [] ∧ text.all Char.isDigit then some (ofDigits text) else none

/-- The power of ten behind a numeral: one, or that of an exponent with its sign. -/
def power? : List Char → Option ℚ
  | [] => some 1
  | 'e' :: '+' :: digits => (digits? digits).map (10 ^ ·)
  | 'e' :: '-' :: digits => (digits? digits).map fun n => (10 ^ n)⁻¹
  | _ => none

/-- The number that a text without a sign denotes: it is split before the `e` of an exponent, and what is
before it at the point. -/
def magnitude? (text : List Char) : Option ℚ := do
  let numeral := text.takeWhile (· ≠ 'e')
  let whole := numeral.takeWhile (· ≠ '.')
  let fraction := (numeral.dropWhile (· ≠ '.')).drop 1
  let digits ← digits? (whole ++ fraction)
  let power ← power? (text.dropWhile (· ≠ 'e'))
  return digits / 10 ^ fraction.length * power

/-- The number that a text denotes, exactly. -/
def read? : List Char → Option ℚ
  | '-' :: text => (magnitude? text).map (-·)
  | text => magnitude? text

/-- A text is cut where a property of its characters ends. -/
theorem cut_append {chosen : Char → Bool} {text tail : List Char} (h : ∀ c ∈ text, chosen c)
    (htail : ∀ c ∈ tail.head?, chosen c = false) :
    (text ++ tail).takeWhile chosen = text ∧ (text ++ tail).dropWhile chosen = tail := by
  have hnone : tail.takeWhile chosen = [] ∧ tail.dropWhile chosen = tail := by
    cases tail with
    | nil => exact ⟨rfl, rfl⟩
    | cons c rest => simp [htail c rfl]
  rw [List.takeWhile_append_of_pos h, List.dropWhile_append_of_pos h, hnone.1, hnone.2,
    List.append_nil]
  exact ⟨rfl, rfl⟩

theorem digits?_eq {digits : List Char} (hne : digits ≠ []) (h : ∀ c ∈ digits, c.isDigit) :
    digits? digits = some (ofDigits digits) := if_pos ⟨hne, List.all_eq_true.2 h⟩

theorem power?_padded (e : ℤ) :
    power? ('e' :: (if e < 0 then '-' else '+') :: padded 2 e.natAbs) = some (10 ^ e) := by
  have hdigits : digits? (padded 2 e.natAbs) = some e.natAbs := by
    have hlength := length_padded 2 e.natAbs
    have hne : padded 2 e.natAbs ≠ [] := by
      rw [← List.length_pos_iff]
      omega
    rw [digits?_eq hne fun c hc => isDigit_of_mem_padded hc, ofDigits_padded]
  by_cases he : e < 0
  · have hexponent : -(e.natAbs : ℤ) = e := by omega
    rw [if_pos he, power?, hdigits, Option.map_some, ← zpow_natCast, ← zpow_neg, hexponent]
  · have hexponent : (e.natAbs : ℤ) = e := by omega
    rw [if_neg he, power?, hdigits, Option.map_some, ← zpow_natCast, hexponent]

/-- The two parts of a numeral, as they are cut out of it. -/
theorem cut_joined {whole fraction : List Char} (h : Numeral whole fraction) :
    (joined whole fraction).takeWhile (· ≠ '.') = whole ∧
      ((joined whole fraction).dropWhile (· ≠ '.')).drop 1 = fraction := by
  have hwhole : ∀ c ∈ whole, decide (c ≠ '.') := by
    intro c hc
    refine decide_eq_true ?_
    rintro rfl
    exact point_not_mem h.digits (List.mem_append_left _ hc)
  cases fraction with
  | nil =>
    have hcut := @cut_append (· ≠ '.') whole [] hwhole (by simp)
    rw [List.append_nil] at hcut
    exact ⟨hcut.1, by rw [joined, hcut.2]; rfl⟩
  | cons d rest =>
    have hcut := @cut_append (· ≠ '.') whole ('.' :: d :: rest) hwhole (by simp)
    exact ⟨hcut.1, by rw [joined, hcut.2]; rfl⟩

theorem magnitude?_joined {whole fraction tail : List Char} {power : ℚ} (h : Numeral whole fraction)
    (htail : ∀ c ∈ tail.head?, c = 'e') (hpower : power? tail = some power) :
    magnitude? (joined whole fraction ++ tail) = some (denoted whole fraction * power) := by
  have hletter : ∀ c ∈ joined whole fraction, decide (c ≠ 'e') := by
    intro c hc
    refine decide_eq_true ?_
    rintro rfl
    rcases mem_joined hc with hdigit | hpoint
    · cases h.digits _ hdigit
    · cases hpoint
  obtain ⟨hnumeral, hrest⟩ := @cut_append (· ≠ 'e') _ tail hletter fun c hc => by simp [htail c hc]
  obtain ⟨hwhole, hfraction⟩ := cut_joined h
  have hdigits : digits? (whole ++ fraction) = some (ofDigits (whole ++ fraction)) :=
    digits?_eq (List.append_ne_nil_of_left_ne_nil h.nonempty fraction) h.digits
  simp only [magnitude?, hnumeral, hrest, hwhole, hfraction, hdigits, hpower, denoted]
  rfl

theorem joined_eq_cons {whole fraction : List Char} (h : Numeral whole fraction) (tail : List Char) :
    ∃ c rest, joined whole fraction ++ tail = c :: rest ∧ c.isDigit := by
  obtain ⟨c, rest, hwhole⟩ := List.exists_cons_of_ne_nil h.nonempty
  have hc : c.isDigit := h.digits c (by simp [hwhole])
  rw [hwhole]
  cases fraction <;> exact ⟨c, _, rfl, hc⟩

theorem read?_of_digit {c : Char} (hc : c.isDigit) (rest : List Char) :
    read? (c :: rest) = magnitude? (c :: rest) := by
  unfold read?
  split
  · rename_i heq
    cases heq
    cases hc
  · rfl

/-- A sign is read apart from what follows it. -/
theorem read?_joined {whole fraction tail : List Char} {power : ℚ} (h : Numeral whole fraction)
    (htail : ∀ c ∈ tail.head?, c = 'e') (hpower : power? tail = some power) (negative : Bool) :
    read? (if negative then '-' :: (joined whole fraction ++ tail)
      else joined whole fraction ++ tail) =
        some ((if negative then -1 else 1) * (denoted whole fraction * power)) := by
  have hmagnitude := magnitude?_joined h htail hpower
  obtain ⟨c, rest, hjoined, hc⟩ := joined_eq_cons h tail
  rw [hjoined] at hmagnitude ⊢
  cases negative with
  | true => simp [read?, hmagnitude]
  | false => simp [read?_of_digit hc, hmagnitude]

end CellMachine.Decimal
