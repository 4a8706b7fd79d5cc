import CellMachine.Proofs.Decimal.Rounding
import CellMachine.Proofs.Decimal.Text

/-!
# Doubles in decimal

The text of a double, against the exact value that its bits stand for. Main statement: the text of a
finite double other than zero denotes the value rounded to six significant digits, in the form that goes
with the exponent of what it was rounded to.
-/

namespace CellMachine.Decimal

/-- The value that the bits of a finite double stand for. -/
def value (bits : UInt64) : ℚ :=
  (if signBit bits then -1 else 1) * (significand bits * 2 ^ ((scale bits : ℤ) - 1075))

/-- The three fields of a double: one bit for the sign, eleven for the exponent and fifty-two for the
fraction. -/
structure Fields (bits : UInt64) (negative : Bool) (exponent fraction : ℕ) : Prop where
  exponent_lt : exponent < 2048
  fraction_lt : fraction < 2 ^ 52
  layout : bits.toNat = (if negative then 2 ^ 63 else 0) + exponent * 2 ^ 52 + fraction

theorem exists_fields (bits : UInt64) : ∃ negative exponent fraction,
    Fields bits negative exponent fraction := by
  have hlt : bits.toNat < 2 ^ 64 := bits.toNat_lt
  by_cases hsign : 2 ^ 63 ≤ bits.toNat
  · refine ⟨true, (bits.toNat - 2 ^ 63) / 2 ^ 52, bits.toNat % 2 ^ 52, by omega, by omega, ?_⟩
    rw [if_pos rfl]
    omega
  · refine ⟨false, bits.toNat / 2 ^ 52, bits.toNat % 2 ^ 52, by omega, by omega, ?_⟩
    rw [if_neg Bool.false_ne_true]
    omega

section Fields

variable {bits : UInt64} {negative : Bool} {exponent fraction : ℕ}

theorem Fields.signBit_eq (h : Fields bits negative exponent fraction) : signBit bits = negative := by
  obtain ⟨hexponent, hfraction, hlayout⟩ := h
  unfold signBit
  cases negative
  · simp only [Bool.false_eq_true, if_false] at hlayout
    simp
    omega
  · simp only [if_true] at hlayout
    simp
    omega

theorem Fields.biasedExponent_eq (h : Fields bits negative exponent fraction) :
    biasedExponent bits = exponent := by
  obtain ⟨hexponent, hfraction, hlayout⟩ := h
  unfold biasedExponent
  simp only [Nat.pow_eq]
  split at hlayout <;> omega

theorem Fields.fractionField_eq (h : Fields bits negative exponent fraction) :
    fractionField bits = fraction := by
  obtain ⟨hexponent, hfraction, hlayout⟩ := h
  unfold fractionField
  simp only [Nat.pow_eq]
  split at hlayout <;> omega

/-- The value by the fields. A fraction stands behind a one and a point, but behind a zero if the
exponent is zero, which counts as one. -/
theorem Fields.value_eq (h : Fields bits negative exponent fraction) :
    value bits = (if negative then -1 else 1) *
      if exponent = 0 then (fraction : ℚ) / 2 ^ 52 * 2 ^ (-1022 : ℤ)
      else (1 + (fraction : ℚ) / 2 ^ 52) * 2 ^ ((exponent : ℤ) - 1023) := by
  have hpow (k : ℤ) : (2 : ℚ) ^ k = 2 ^ 52 * 2 ^ (k - 52) := by
    rw [zpow_sub₀ two_ne_zero]
    norm_num
    ring
  unfold value significand scale
  rw [h.signBit_eq, h.biasedExponent_eq, h.fractionField_eq]
  congr 1
  split
  · rename_i hzero
    subst hzero
    rw [hpow (-1022), ← mul_assoc, div_mul_cancel₀ _ (by positivity)]
    rfl
  · rename_i hpos
    have hmax : max exponent 1 = exponent := by omega
    have hexponent : (exponent : ℤ) - 1023 - 52 = exponent - 1075 := by ring
    rw [hmax, hpow (exponent - 1023), hexponent, ← mul_assoc, add_mul, div_mul_cancel₀ _ (by positivity)]
    push_cast
    ring

end Fields

/-- The exponents that are written out. -/
abbrev WrittenOut (e : ℤ) : Prop := e < -4 ∨ 6 ≤ e

/-- A text is that of `v`, rounded to `d * 10 ^ (e - 5)`. -/
structure Writes (text : List Char) (v : ℚ) (d : ℕ) (e : ℤ) : Prop where
  denotes : read? text = some ((if v < 0 then -1 else 1) * ((d : ℚ) * 10 ^ (e - 5)))
  minus : text.head? = some '-' ↔ v < 0
  form : ∃ body, text = (if v < 0 then '-' :: body else body) ∧
    (Exponential body ↔ WrittenOut e) ∧ (Positional body ↔ ¬ WrittenOut e)

/-! ### Positive ratios -/

/-- A numeral and an exponent, or none, for `q`. -/
inductive Numbers (q : ℚ) : List Char → Prop
  | intro {whole fraction tail : List Char} {power : ℚ} (numeral : Numeral whole fraction)
    (ends : ∀ c ∈ tail.head?, c = 'e') (read : power? tail = some power)
    (value : denoted whole fraction * power = q) : Numbers q (joined whole fraction ++ tail)

theorem Numeral.digit_ne_zero {digit : Char} {fraction : List Char} (h : Numeral [digit] fraction)
    (hone : 1 ≤ denoted [digit] fraction) : digit ≠ '0' := by
  rintro rfl
  have hpow : (0 : ℚ) < 10 ^ fraction.length := by positivity
  have hfraction : ofDigits fraction < 10 ^ fraction.length :=
    ofDigits_lt fun c hc => h.digits c (List.mem_cons_of_mem _ hc)
  rw [denoted, one_le_div hpow] at hone
  have hle : 10 ^ fraction.length ≤ ofDigits fraction := by exact_mod_cast hone
  omega

variable {num den : ℕ} {d : ℕ} {e : ℤ}

theorem scientific_form (hlow : 100000 ≤ d) (hhigh : d ≤ 999999) :
    Exponential (Significant.scientific ⟨d, e⟩) ∧
      Numbers (d * 10 ^ (e - 5)) (Significant.scientific ⟨d, e⟩) := by
  obtain ⟨whole, fraction, hstrip, hnumeral, hvalue, hlength⟩ := exists_numeral 5 d
  obtain ⟨digit, rfl⟩ := List.length_eq_one_iff.1 (hlength (by omega))
  have hone : 1 ≤ denoted [digit] fraction := by
    rw [hvalue, one_le_div (by positivity)]
    exact_mod_cast hlow
  have htext : Significant.scientific ⟨d, e⟩ =
      joined [digit] fraction ++ 'e' :: (if e < 0 then '-' else '+') :: padded 2 e.natAbs := by
    rw [Significant.scientific, hstrip]
  rw [htext]
  constructor
  · refine ⟨digit, fraction, _, padded 2 e.natAbs, hnumeral, hnumeral.digit_ne_zero hone, ?_, ?_,
      fun c hc => isDigit_of_mem_padded hc, rfl⟩
    · split <;> simp
    · rw [length_padded]
      exact Nat.le_max_left _ _
  · refine .intro hnumeral (by simp) (power?_padded e) ?_
    rw [hvalue, zpow_sub₀ (by norm_num), mul_div_assoc', div_mul_eq_mul_div]
    rfl

theorem positional_form (he : e ≤ 5) :
    Positional (stripTrailingZeros (pointed (5 - e).toNat d)) ∧
      Numbers (d * 10 ^ (e - 5)) (stripTrailingZeros (pointed (5 - e).toNat d)) := by
  obtain ⟨whole, fraction, hstrip, hnumeral, hvalue, -⟩ := exists_numeral (5 - e).toNat d
  rw [hstrip]
  refine ⟨⟨whole, fraction, hnumeral, rfl⟩, ?_⟩
  have hnumbers : Numbers (d * 10 ^ (e - 5)) (joined whole fraction ++ []) := by
    refine .intro hnumeral (by simp) rfl ?_
    have hpow : (10 : ℚ) ^ (e - 5) = (10 ^ (5 - e).toNat)⁻¹ := by
      rw [← zpow_natCast, ← zpow_neg]
      congr 1
      omega
    rw [hvalue, hpow, mul_one, div_eq_mul_inv]
  rwa [List.append_nil] at hnumbers

/-- The text of a ratio has the form that goes with its exponent, and denotes what it is rounded to. -/
theorem ofRatio_form (hnum : 0 < num) (hden : 0 < den) (h : RoundsTo (num / den) d e) :
    (WrittenOut e → Exponential (ofRatio num den)) ∧ (¬ WrittenOut e → Positional (ofRatio num den)) ∧
      Numbers (d * 10 ^ (e - 5)) (ofRatio num den) := by
  obtain ⟨hd, he⟩ := (roundsTo_ofRatio hnum hden).unique h
  obtain ⟨hlow, hhigh⟩ := h.six
  have hs : Significant.ofRatio num den = ⟨d, e⟩ := by rw [← hd, ← he]
  have htext : ofRatio num den =
      if e < -4 ∨ 6 ≤ e then Significant.scientific ⟨d, e⟩
      else stripTrailingZeros (fixed (5 - e).toNat num den) := by
    rw [ofRatio, hs]
  by_cases hout : WrittenOut e
  · rw [htext, if_pos hout]
    obtain ⟨hform, hnumbers⟩ := scientific_form (e := e) hlow hhigh
    exact ⟨fun _ => hform, fun hin => (hin hout).elim, hnumbers⟩
  · have hle : e ≤ 5 := by
      omega
    rw [htext, if_neg hout, h.fixed hden hle]
    obtain ⟨hform, hnumbers⟩ := positional_form (d := d) hle
    exact ⟨fun hin => (hout hin).elim, fun _ => hform, hnumbers⟩

/-! ### Doubles -/

theorem magnitude_spec (bits : UInt64) : 0 < (magnitude bits).2 ∧
    ((magnitude bits).1 : ℚ) / (magnitude bits).2 =
      significand bits * 2 ^ ((scale bits : ℤ) - 1075) := by
  unfold magnitude
  split
  · rename_i hle
    obtain ⟨k, hk⟩ := Nat.exists_eq_add_of_le hle
    have hpow : ((scale bits : ℤ) - 1075) = (k : ℕ) := by omega
    rw [hpow, zpow_natCast, hk, Nat.add_sub_cancel_left, Nat.pow_eq]
    exact ⟨one_pos, by push_cast; exact div_one _⟩
  · rename_i hlt
    obtain ⟨k, hk⟩ := Nat.exists_eq_add_of_le (Nat.le_of_not_le hlt)
    have hpow : ((scale bits : ℤ) - 1075) = -(k : ℕ) := by omega
    have hsub : 1075 - scale bits = k := by omega
    rw [hpow, zpow_neg, zpow_natCast, hsub, Nat.pow_eq, ← div_eq_mul_inv]
    exact ⟨Nat.pow_pos two_pos, by push_cast; rfl⟩

theorem value_eq_zero_iff (bits : UInt64) : value bits = 0 ↔ significand bits = 0 := by
  have hpow : (2 : ℚ) ^ ((scale bits : ℤ) - 1075) ≠ 0 := by positivity
  unfold value
  cases signBit bits <;> simp [hpow]

theorem abs_value (bits : UInt64) :
    |value bits| = significand bits * 2 ^ ((scale bits : ℤ) - 1075) := by
  have hnonneg : (0 : ℚ) ≤ significand bits * 2 ^ ((scale bits : ℤ) - 1075) := by positivity
  unfold value
  cases signBit bits <;> simp [abs_of_nonneg hnonneg]

/-- The magnitude as the ratio that is written. -/
theorem abs_value_eq_div {bits : UInt64} (h : value bits ≠ 0) :
    0 < (magnitude bits).1 ∧ 0 < (magnitude bits).2 ∧
      |value bits| = (magnitude bits).1 / (magnitude bits).2 := by
  obtain ⟨hden, hratio⟩ := magnitude_spec bits
  have hvalue : |value bits| = (magnitude bits).1 / (magnitude bits).2 := by rw [hratio, abs_value]
  refine ⟨Nat.pos_of_ne_zero fun hzero => ?_, hden, hvalue⟩
  rw [hzero, Nat.cast_zero, zero_div, abs_eq_zero] at hvalue
  exact h hvalue

theorem value_neg_iff {bits : UInt64} (h : value bits ≠ 0) : value bits < 0 ↔ signBit bits := by
  have hpos : 0 < (significand bits : ℚ) * 2 ^ ((scale bits : ℤ) - 1075) := by
    rw [← abs_value]
    exact abs_pos.2 h
  unfold value
  cases signBit bits with
  | true => simpa using hpos
  | false => simpa using hpos.le

theorem ofBits_of_finite {bits : UInt64} (hfinite : biasedExponent bits ≠ 2047)
    (hvalue : value bits ≠ 0) :
    ofBits bits = if signBit bits then '-' :: ofRatio (magnitude bits).1 (magnitude bits).2
      else ofRatio (magnitude bits).1 (magnitude bits).2 := by
  have hsignificand : significand bits ≠ 0 := fun h => hvalue ((value_eq_zero_iff bits).2 h)
  have htext : unsignedText bits = ofRatio (magnitude bits).1 (magnitude bits).2 := by
    rw [unsignedText, if_neg hfinite, if_neg hsignificand]
  rw [ofBits, if_neg (fun h => hfinite h.1), htext]

theorem writes_ofBits {bits : UInt64} (hfinite : biasedExponent bits ≠ 2047)
    (hvalue : value bits ≠ 0) (h : RoundsTo |value bits| d e) :
    Writes (ofBits bits) (value bits) d e := by
  obtain ⟨hnum, hden, hratio⟩ := abs_value_eq_div hvalue
  have hsign := value_neg_iff hvalue
  rw [hratio] at h
  obtain ⟨hwritten, hin, hnumbers⟩ := ofRatio_form hnum hden h
  rw [ofBits_of_finite hfinite hvalue]
  generalize ofRatio (magnitude bits).1 (magnitude bits).2 = text at hwritten hin hnumbers ⊢
  cases hnumbers with
  | @intro whole fraction tail power numeral ends read hdenoted =>
    refine ⟨?_, ?_, joined whole fraction ++ tail, ?_, ?_, ?_⟩
    · rw [read?_joined numeral ends read, hdenoted]
      simp only [hsign]
    · obtain ⟨c, rest, hcons, hc⟩ := joined_eq_cons numeral tail
      have hminus : c ≠ '-' := by
        rintro rfl
        cases hc
      rw [hsign, hcons]
      cases signBit bits <;> simp [hminus]
    · simp only [hsign]
    · exact ⟨fun hform => by_contra fun hout => (hin hout).not_exponential hform, hwritten⟩
    · exact ⟨fun hform hout => hform.not_exponential (hwritten hout), hin⟩

/-- The text of a finite double other than zero is that of its value rounded to six significant digits,
and there is one such rounding. -/
theorem exists_writes_ofBits (bits : UInt64) (hfinite : biasedExponent bits ≠ 2047)
    (hvalue : value bits ≠ 0) : ∃ d e, (100000 ≤ d ∧ d ≤ 999999) ∧ RoundsTo |value bits| d e ∧
      (∀ d' e', RoundsTo |value bits| d' e' → d' = d ∧ e' = e) ∧
        Writes (ofBits bits) (value bits) d e := by
  obtain ⟨hnum, hden, hratio⟩ := abs_value_eq_div hvalue
  have hrounds := roundsTo_ofRatio hnum hden
  rw [← hratio] at hrounds
  exact ⟨_, _, hrounds.six, hrounds, fun d' e' h => h.unique hrounds,
    writes_ofBits hfinite hvalue hrounds⟩

/-- The bits of 999999.5, as near to 999999 as to a million. -/
def halfBelowMillion : UInt64 := 0x412E847F00000000

theorem value_halfBelowMillion : value halfBelowMillion = 1999999 / 2 := by
  have hsign : signBit halfBelowMillion = false := by decide
  have hscale : scale halfBelowMillion = 1042 := by decide
  have hsignificand : significand halfBelowMillion = 8589930297032704 := by decide
  rw [value, hsign, hscale, hsignificand]
  norm_num

theorem exists_writes_ofBits_halfBelowMillion : value halfBelowMillion ≠ 0 ∧
    RoundsTo |value halfBelowMillion| 100000 6 ∧ ofBits halfBelowMillion = ['1', 'e', '+', '0', '6'] ∧
      Writes (ofBits halfBelowMillion) (value halfBelowMillion) 100000 6 := by
  have hvalue : value halfBelowMillion ≠ 0 := by
    rw [value_halfBelowMillion]
    norm_num
  have hrounds : RoundsTo |value halfBelowMillion| 100000 (5 + 1) := by
    rw [value_halfBelowMillion, abs_of_pos (by norm_num)]
    exact .carried ⟨by norm_num, by norm_num⟩ ⟨by norm_num, fun _ => by decide⟩
  obtain ⟨d, e, -, -, hunique, hwrites⟩ :=
    exists_writes_ofBits halfBelowMillion (by decide) hvalue
  obtain ⟨rfl, rfl⟩ := hunique _ _ hrounds
  exact ⟨hvalue, hrounds, by decide +kernel, hwrites⟩

end CellMachine.Decimal
