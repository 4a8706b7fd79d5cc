import CellMachine.Argument
import CellMachine.Proofs.Decimal.Double

/-!
# The double nearest to a number

What it means that a number is rounded to a double, said with the values of all doubles and without a way
to find it. Main statement: a decimal number of any length and any exponent is read as the double that it
is rounded to.
-/

namespace CellMachine.Decimal

/-- Half a unit in the last place beyond the greatest double. -/
def overflow : ℚ := (2 ^ 53 - 1 / 2) * 2 ^ (971 : ℤ)

/-- Below the overflow no finite double is nearer to `x`, and if another is as near the bits are those of
the even one. From the overflow on they are those of infinity. -/
structure NearestDouble (x : ℚ) (bits : UInt64) : Prop where
  positive : signBit bits = false
  finite (h : x < overflow) : biasedExponent bits ≠ 2047
  close (h : x < overflow) (other : UInt64) (hother : biasedExponent other ≠ 2047) :
    |x - value bits| ≤ |x - value other|
  even (h : x < overflow) (other : UInt64) (hother : biasedExponent other ≠ 2047)
    (hne : value other ≠ value bits) (tie : |x - value other| = |x - value bits|) : Even bits.toNat
  infinite (h : overflow ≤ x) : bits = infinity

/-! ### Multiples of a power of two -/

theorem Nearest.nearest_int {x : ℚ} {m : ℕ} (h : Nearest x m) (j : ℤ) :
    |x - m| ≤ |x - j| ∧ (|x - j| = |x - m| → j = m ∨ Even m) := by
  by_cases hj : j = m
  · subst hj
    exact ⟨le_refl _, fun _ => .inl rfl⟩
  · have hapart : (1 : ℚ) ≤ |(j : ℚ) - m| := by
      have hone : (1 : ℤ) ≤ |j - m| := Int.one_le_abs (sub_ne_zero.2 hj)
      exact_mod_cast hone
    have htriangle : |(j : ℚ) - m| ≤ |x - m| + |x - j| := by
      have hsub := abs_sub_le (j : ℚ) x m
      rw [abs_sub_comm (j : ℚ) x] at hsub
      linarith
    have hclose := h.close
    exact ⟨by linarith, fun tie => .inr (h.even (by linarith))⟩

theorem zpow_add_natCast (e : ℤ) (k : ℕ) : (2 : ℚ) ^ (e + k) = 2 ^ k * 2 ^ e := by
  rw [zpow_add₀ two_ne_zero, zpow_natCast, mul_comm]

theorem exists_value (bits : UInt64) :
    ∃ s q : ℤ, |s| < 2 ^ 53 ∧ -1074 ≤ q ∧ value bits = s * 2 ^ q := by
  have hfraction : fractionField bits < 2 ^ 52 := Nat.mod_lt _ (by decide)
  have hlt : significand bits < 2 ^ 53 := by
    unfold significand
    split
    · omega
    · simp only [Nat.pow_eq]
      omega
  have hscale : -1074 ≤ (scale bits : ℤ) - 1075 := by
    have hone : 1 ≤ scale bits := Nat.le_max_right _ _
    omega
  cases hsign : signBit bits with
  | true =>
    refine ⟨-(significand bits : ℤ), _, ?_, hscale, by simp [value, hsign]⟩
    rw [abs_neg, Nat.abs_cast]
    exact_mod_cast hlt
  | false =>
    refine ⟨significand bits, _, ?_, hscale, by simp [value, hsign]⟩
    rw [Nat.abs_cast]
    exact_mod_cast hlt

section Grid

variable {x : ℚ} {m : ℕ} {e : ℤ}

/-- Where doubles are multiples of `2 ^ e`, the nearest multiple is as near as any double. Doubles that
are no multiples of it are all below a multiple that `x` has reached. -/
theorem nearest_of_grid (hgrid : e = -1074 ∨ 2 ^ (e + 52) ≤ x) (h : Nearest (x / 2 ^ e) m) (s q : ℤ)
    (hs : |s| < 2 ^ 53) (hq : -1074 ≤ q) :
    |x - m * 2 ^ e| ≤ |x - s * 2 ^ q| ∧
      (|x - s * 2 ^ q| = |x - m * 2 ^ e| → (s * 2 ^ q : ℚ) = m * 2 ^ e ∨ Even m) := by
  have hpow : (0 : ℚ) < 2 ^ e := by positivity
  have hscaled (y : ℚ) : |x - y * 2 ^ e| = |x / 2 ^ e - y| * 2 ^ e := by
    rw [← abs_of_pos hpow, ← abs_mul, abs_of_pos hpow, sub_mul, div_mul_cancel₀ _ hpow.ne']
  rcases le_or_gt e q with hle | hlt
  · have hmultiple : (s : ℚ) * 2 ^ q = (s * 2 ^ (q - e).toNat : ℤ) * 2 ^ e := by
      obtain ⟨k, hk⟩ := Int.eq_ofNat_of_zero_le (sub_nonneg.2 hle)
      have hsum : q = e + k := by omega
      rw [hk, hsum, zpow_add_natCast]
      push_cast
      rw [Int.toNat_natCast]
      ring
    obtain ⟨hclose, htie⟩ := h.nearest_int (s * 2 ^ (q - e).toNat)
    rw [hmultiple, hscaled, hscaled]
    refine ⟨mul_le_mul_of_nonneg_right hclose hpow.le, fun tie => ?_⟩
    rcases htie (mul_right_cancel₀ hpow.ne' tie) with heq | heven
    · rw [heq]
      exact .inl rfl
    · exact .inr heven
  · have hreach : (2 : ℚ) ^ (e + 52) ≤ x := hgrid.resolve_left (by omega)
    have hbelow : (s : ℚ) * 2 ^ q < 2 ^ (e + 52) := by
      have hs' : (s : ℚ) < 2 ^ 53 := by exact_mod_cast (abs_lt.1 hs).2
      have hnext : (2 : ℚ) ^ (q + 53) ≤ 2 ^ (e + 52) := zpow_le_zpow_right₀ one_le_two (by omega)
      rw [show (53 : ℤ) = (53 : ℕ) from rfl, zpow_add_natCast] at hnext
      exact (mul_lt_mul_of_pos_right hs' (by positivity)).trans_le hnext
    have hclose := (h.nearest_int (2 ^ 52)).1
    have hcorner : |x - m * 2 ^ e| ≤ x - 2 ^ (e + 52) := by
      have hmul := mul_le_mul_of_nonneg_right hclose hpow.le
      rw [← hscaled, ← hscaled, Int.cast_pow, Int.cast_ofNat, ← zpow_add_natCast] at hmul
      exact hmul.trans_eq (abs_of_nonneg (sub_nonneg.2 hreach))
    have hstrict : |x - m * 2 ^ e| < |x - s * 2 ^ q| :=
      hcorner.trans_lt ((sub_lt_sub_left hbelow x).trans_le (le_abs_self _))
    exact ⟨hstrict.le, fun tie => absurd tie hstrict.ne'⟩

/-! ### Bits -/

theorem toNat_infinity : infinity.toNat = 2047 * 2 ^ 52 := by decide

theorem toNat_bitsOf (m : ℕ) (e : ℤ) :
    (bitsOf m e).toNat = min ((e + 1074).toNat * 2 ^ 52 + m) (2047 * 2 ^ 52) := by
  have hsize : UInt64.size = 2 ^ 64 := rfl
  rw [bitsOf, toNat_infinity, UInt64.toNat_ofNat_of_lt' (by omega), Nat.pow_eq]

theorem Fields.value_of_zero {bits : UInt64} {fraction : ℕ} (h : Fields bits false 0 fraction) :
    value bits = fraction * 2 ^ (-1074 : ℤ) := by
  have hexponent : (-1022 : ℤ) = -1074 + (52 : ℕ) := rfl
  rw [h.value_eq, if_neg Bool.false_ne_true, if_pos rfl, hexponent, zpow_add_natCast, one_mul,
    ← mul_assoc, div_mul_cancel₀ _ (by positivity)]

theorem Fields.value_of_succ {bits : UInt64} {k fraction : ℕ} (h : Fields bits false (k + 1) fraction) :
    value bits = (2 ^ 52 + fraction) * 2 ^ (-1074 + k : ℤ) := by
  have hexponent : ((k + 1 : ℕ) : ℤ) - 1023 = -1074 + k + (52 : ℕ) := by
    push_cast
    ring
  rw [h.value_eq, if_neg Bool.false_ne_true, if_neg (Nat.succ_ne_zero k), hexponent, zpow_add_natCast,
    one_mul, ← mul_assoc, add_mul, div_mul_cancel₀ _ (by positivity), one_mul]

/-- The exponent and the fraction of a finite double are those of its significand, be it one bit too
long. -/
theorem fields_bitsOf (he : -1074 ≤ e) (hm : m ≤ 2 ^ 53) (hnormal : e = -1074 ∨ 2 ^ 52 ≤ m)
    (hfinite : (e + 1074).toNat * 2 ^ 52 + m < 2047 * 2 ^ 52) :
    ∃ exponent fraction, Fields (bitsOf m e) false exponent fraction ∧ exponent ≠ 2047 ∧
      value (bitsOf m e) = m * 2 ^ e := by
  have hbits := toNat_bitsOf m e
  rw [Nat.min_eq_left hfinite.le] at hbits
  obtain ⟨k, hk⟩ := Int.eq_ofNat_of_zero_le (by omega : 0 ≤ e + 1074)
  obtain rfl : e = -1074 + k := by omega
  rw [hk, Int.toNat_natCast] at hbits hfinite
  have hlayout {exponent fraction : ℕ} (h : exponent * 2 ^ 52 + fraction = k * 2 ^ 52 + m) :
      (bitsOf m (-1074 + k)).toNat =
        (if false then 2 ^ 63 else 0) + exponent * 2 ^ 52 + fraction := by
    rw [hbits, if_neg Bool.false_ne_true, Nat.zero_add, h]
  by_cases hsub : m < 2 ^ 52
  · obtain rfl : k = 0 := by omega
    have h : Fields (bitsOf m (-1074 + (0 : ℕ))) false 0 m := ⟨by omega, hsub, hlayout rfl⟩
    exact ⟨0, m, h, by omega, h.value_of_zero⟩
  by_cases hlong : m < 2 ^ 53
  · obtain ⟨fraction, rfl⟩ := Nat.exists_eq_add_of_le (Nat.le_of_not_lt hsub)
    have h : Fields (bitsOf (2 ^ 52 + fraction) (-1074 + k)) false (k + 1) fraction :=
      ⟨by omega, by omega, hlayout (by ring)⟩
    refine ⟨k + 1, fraction, h, by omega, ?_⟩
    rw [h.value_of_succ, Nat.cast_add, Nat.cast_pow, Nat.cast_ofNat]
  · obtain rfl : m = 2 ^ 53 := by omega
    have h : Fields (bitsOf (2 ^ 53) (-1074 + k)) false (k + 1 + 1) 0 :=
      ⟨by omega, by omega, hlayout (by ring)⟩
    refine ⟨k + 1 + 1, 0, h, by omega, ?_⟩
    have hcarry : (-1074 + (k + 1 : ℕ) : ℤ) = -1074 + k + (1 : ℕ) := by
      push_cast
      ring
    rw [h.value_of_succ, hcarry, zpow_add_natCast]
    push_cast
    ring

/-! ### Rounding -/

theorem Nearest.le_of_lt {n : ℕ} (h : Nearest x m) (hx : x < n) : m ≤ n := by
  have hbelow := (abs_le.1 h.close).1
  have hlt : (m : ℚ) < n + 1 := by linarith
  exact Nat.lt_succ_iff.1 (by exact_mod_cast hlt)

theorem Nearest.le_of_le {n : ℕ} (h : Nearest x m) (hx : n ≤ x) : n ≤ m := by
  have habove := (abs_le.1 h.close).2
  have hlt : (n : ℚ) < m + 1 := by linarith
  exact Nat.lt_succ_iff.1 (by exact_mod_cast hlt)

theorem overflow_lt : overflow < 2 ^ (1024 : ℤ) := by
  have hpow : (2 : ℚ) ^ (1024 : ℤ) = 2 ^ 53 * 2 ^ (971 : ℤ) := zpow_add_natCast 971 53
  rw [overflow, hpow]
  exact mul_lt_mul_of_pos_right (by norm_num) (by positivity)

theorem lt_overflow : 2 ^ (1023 : ℤ) < overflow := by
  have hpow : (2 : ℚ) ^ (1023 : ℤ) = 2 ^ 52 * 2 ^ (971 : ℤ) := zpow_add_natCast 971 52
  rw [overflow, hpow]
  exact mul_lt_mul_of_pos_right (by norm_num) (by positivity)

theorem lt_overflow_iff : x < overflow ↔ x / 2 ^ (971 : ℤ) < 2 ^ 53 - 1 / 2 := by
  rw [overflow, div_lt_iff₀ (by positivity)]

/-- At the exponent of the greatest doubles the significand gets one bit too long exactly from the
overflow on, where the tie goes to the even one. -/
theorem Nearest.lt_iff_lt_overflow (h : Nearest (x / 2 ^ (971 : ℤ)) m) :
    m < 2 ^ 53 ↔ x < overflow := by
  rw [lt_overflow_iff]
  obtain ⟨hbelow, habove⟩ := abs_le.1 h.close
  constructor
  · intro hm
    have hle : (m : ℚ) ≤ 2 ^ 53 - 1 := by
      have hnext : ((m + 1 : ℕ) : ℚ) ≤ (2 ^ 53 : ℕ) := by exact_mod_cast hm
      push_cast at hnext
      linarith
    refine lt_of_le_of_ne (by linarith) fun heq => ?_
    have hlast : (m : ℚ) = (2 ^ 53 - 1 : ℕ) := by
      push_cast
      linarith
    have heven : Even m := h.even (by rw [heq, hlast]; norm_num)
    rw [Nat.cast_injective hlast] at heven
    exact absurd heven (by decide)
  · intro hx
    have hlt : (m : ℚ) < (2 ^ 53 : ℕ) := by
      push_cast
      linarith
    exact_mod_cast hlt

/-- The significand has the bits of a double, or one bit too many. -/
theorem significand_of_grid (hgrid : e = -1074 ∨ 2 ^ (e + 52) ≤ x) (hx : x < 2 ^ (e + 53))
    (h : Nearest (x / 2 ^ e) m) : m ≤ 2 ^ 53 ∧ (e = -1074 ∨ 2 ^ 52 ≤ m) := by
  have hpow : (0 : ℚ) < 2 ^ e := by positivity
  constructor
  · refine h.le_of_lt ?_
    rw [div_lt_iff₀ hpow, Nat.cast_pow, Nat.cast_ofNat, ← zpow_add_natCast]
    exact hx
  · refine hgrid.imp_right fun hle => h.le_of_le ?_
    rw [le_div_iff₀ hpow, Nat.cast_pow, Nat.cast_ofNat, ← zpow_add_natCast]
    exact hle

theorem fits_iff_lt_overflow (hgrid : e = -1074 ∨ 2 ^ (e + 52) ≤ x) (hx : x < 2 ^ (e + 53))
    (h : Nearest (x / 2 ^ e) m) :
    (e + 1074).toNat * 2 ^ 52 + m < 2047 * 2 ^ 52 ↔ x < overflow := by
  obtain ⟨hm, hnormal⟩ := significand_of_grid hgrid hx h
  rcases lt_trichotomy e 971 with hless | rfl | hmore
  · have hle : (2 : ℚ) ^ (e + 53) ≤ 2 ^ (1023 : ℤ) := zpow_le_zpow_right₀ one_le_two (by omega)
    exact iff_of_true (by omega) ((hx.trans_le hle).trans lt_overflow)
  · rw [← h.lt_iff_lt_overflow]
    omega
  · have hle : (2 : ℚ) ^ (1024 : ℤ) ≤ 2 ^ (e + 52) := zpow_le_zpow_right₀ one_le_two (by omega)
    have hreach := hgrid.resolve_left (by omega)
    exact iff_of_false (by omega) (not_lt.2 (overflow_lt.le.trans (hle.trans hreach)))

theorem nearestDouble_bitsOf (he : -1074 ≤ e) (hgrid : e = -1074 ∨ 2 ^ (e + 52) ≤ x)
    (hx : x < 2 ^ (e + 53)) (h : Nearest (x / 2 ^ e) m) : NearestDouble x (bitsOf m e) := by
  obtain ⟨hm, hnormal⟩ := significand_of_grid hgrid hx h
  have hfits := fits_iff_lt_overflow hgrid hx h
  have hbits := toNat_bitsOf m e
  have hsign : signBit (bitsOf m e) = false := by
    have hlt : (bitsOf m e).toNat < Nat.pow 2 63 := by
      rw [hbits, Nat.pow_eq]
      omega
    exact decide_eq_false (Nat.not_le.2 hlt)
  refine ⟨hsign, fun hlt => ?_, fun hlt other hother => ?_, fun hlt other hother hne tie => ?_,
    fun hge => ?_⟩
  · obtain ⟨exponent, fraction, hfields, hexponent, -⟩ := fields_bitsOf he hm hnormal (hfits.2 hlt)
    rwa [hfields.biasedExponent_eq]
  · obtain ⟨-, -, -, -, hvalue⟩ := fields_bitsOf he hm hnormal (hfits.2 hlt)
    obtain ⟨s, q, hs, hq, hother'⟩ := exists_value other
    rw [hvalue, hother']
    exact (nearest_of_grid hgrid h s q hs hq).1
  · obtain ⟨-, -, -, -, hvalue⟩ := fields_bitsOf he hm hnormal (hfits.2 hlt)
    obtain ⟨s, q, hs, hq, hother'⟩ := exists_value other
    rw [hvalue, hother'] at hne tie
    have heven : Even m := ((nearest_of_grid hgrid h s q hs hq).2 tie).resolve_left hne
    rw [hbits, Nat.min_eq_left (hfits.2 hlt).le]
    exact (Even.mul_left (by decide) _).add heven
  · have hfull := Nat.le_of_not_lt (mt hfits.1 (not_lt.2 hge))
    rw [← UInt64.toNat_inj, hbits, Nat.min_eq_right hfull, toNat_infinity]

end Grid

/-! ### Ratios -/

section Ratio

variable {num den : ℕ}

theorem shifted_spec (num : ℕ) (hden : 0 < den) (e : ℤ) : 0 < (shifted num den e).2 ∧
    ((shifted num den e).1 : ℚ) / (shifted num den e).2 = num / den / 2 ^ e := by
  unfold shifted
  split
  · rename_i he
    obtain ⟨k, rfl⟩ := Int.eq_ofNat_of_zero_le he
    refine ⟨Nat.mul_pos hden (Nat.pow_pos two_pos), ?_⟩
    simp [div_div]
  · rename_i he
    obtain ⟨k, hk⟩ := Int.eq_ofNat_of_zero_le (by omega : 0 ≤ -e)
    obtain rfl : e = -k := by omega
    refine ⟨hden, ?_⟩
    simp [zpow_neg, div_mul_eq_mul_div]

theorem firstBit_spec (hnum : 0 < num) (hden : 0 < den) :
    (2 : ℚ) ^ firstBit num den ≤ num / den ∧ (num / den : ℚ) < 2 ^ (firstBit num den + 1) := by
  have hpos : (0 : ℚ) < den := by exact_mod_cast hden
  have hnum' : (2 : ℚ) ^ num.log2 ≤ num ∧ (num : ℚ) < 2 ^ (num.log2 + 1) :=
    ⟨by exact_mod_cast Nat.log2_self_le hnum.ne', by exact_mod_cast Nat.lt_log2_self⟩
  have hden' : (2 : ℚ) ^ den.log2 ≤ den ∧ (den : ℚ) < 2 ^ (den.log2 + 1) :=
    ⟨by exact_mod_cast Nat.log2_self_le hden.ne', by exact_mod_cast Nat.lt_log2_self⟩
  -- The logarithms give the exponent but for one.
  have hlow : (2 : ℚ) ^ ((num.log2 : ℤ) - den.log2 - 1) ≤ num / den := by
    rw [sub_sub, zpow_sub₀ two_ne_zero]
    exact div_le_div₀ (by positivity) (by exact_mod_cast hnum'.1) hpos (by exact_mod_cast hden'.2.le)
  have hhigh : (num / den : ℚ) < 2 ^ ((num.log2 : ℤ) - den.log2 + 1) := by
    rw [sub_add_eq_add_sub, zpow_sub₀ two_ne_zero]
    exact div_lt_div₀ (by exact_mod_cast hnum'.2) (by exact_mod_cast hden'.1) (by positivity)
      (by positivity)
  obtain ⟨hscaled, hratio⟩ := shifted_spec num hden ((num.log2 : ℤ) - den.log2)
  have hreach : (shifted num den ((num.log2 : ℤ) - den.log2)).2 ≤
      (shifted num den ((num.log2 : ℤ) - den.log2)).1 ↔
        (2 : ℚ) ^ ((num.log2 : ℤ) - den.log2) ≤ num / den := by
    rw [← @Nat.cast_le ℚ, ← one_le_div₀ (by exact_mod_cast hscaled), hratio,
      one_le_div₀ (by positivity)]
  simp only [firstBit, hreach]
  split
  · rename_i hle
    exact ⟨hle, hhigh⟩
  · rename_i hlt
    rw [sub_add_cancel]
    exact ⟨hlow, not_le.1 hlt⟩

theorem nearestDouble_nearestBits (hnum : 0 < num) (hden : 0 < den) :
    NearestDouble (num / den) (nearestBits num den) := by
  obtain ⟨hlow, hhigh⟩ := firstBit_spec hnum hden
  obtain ⟨hscaled, hratio⟩ := shifted_spec num hden (lastBit num den)
  have hnearest := nearest_roundDiv (shifted num den (lastBit num den)).1 hscaled
  rw [hratio] at hnearest
  refine nearestDouble_bitsOf (Int.le_max_right _ _) ?_ ?_ hnearest
  · rcases max_choice (firstBit num den - 52) (-1074) with hlast | hlast
    · right
      rwa [lastBit, hlast, sub_add_cancel]
    · exact .inl hlast
  · have hle : firstBit num den + 1 ≤ lastBit num den + 53 := by
      unfold lastBit
      omega
    exact hhigh.trans_le (zpow_le_zpow_right₀ one_le_two hle)

end Ratio

end CellMachine.Decimal

namespace CellMachine.Argument

open Decimal

/-- The number `10 ^ k` has one digit more than `k`. -/
theorem toDigits_bounds {n : ℕ} (h : n ≠ 0) :
    (10 : ℚ) ^ ((Nat.toDigits 10 n).length - 1 : ℤ) ≤ n ∧
      (n : ℚ) < 10 ^ (Nat.toDigits 10 n).length := by
  have hpos : 0 < (Nat.toDigits 10 n).length := List.length_pos_iff.2 Nat.toDigits_ne_nil
  obtain ⟨k, hk⟩ : ∃ k, (Nat.toDigits 10 n).length = k + 1 := Nat.exists_eq_add_one.2 hpos
  rw [hk]
  constructor
  · have hle : 10 ^ k ≤ n := by
      rcases Nat.eq_zero_or_pos k with rfl | hk'
      · rw [pow_zero]
        omega
      · by_contra hlt
        have hshort := (Nat.length_toDigits_le_iff (by decide) hk').2 (Nat.lt_of_not_le hlt)
        omega
    rw [Nat.cast_succ, add_sub_cancel_right, zpow_natCast]
    exact_mod_cast hle
  · have hlt := (Nat.length_toDigits_le_iff (by decide) (Nat.succ_pos k)).1 hk.le
    exact_mod_cast hlt

/-- The power of ten before the first digit of a decimal number, and the one at it. -/
theorem Scientific.bounds {s : Scientific} (h : s.digits ≠ 0) :
    let leading : ℤ := s.exponent + (Nat.toDigits 10 s.digits).length
    (10 : ℚ) ^ (leading - 1) ≤ s.digits * 10 ^ s.exponent ∧
      (s.digits * 10 ^ s.exponent : ℚ) < 10 ^ leading := by
  intro leading
  have hpow : (0 : ℚ) < 10 ^ s.exponent := by positivity
  obtain ⟨hlow, hhigh⟩ := toDigits_bounds h
  constructor
  · have hlead : leading - 1 = (Nat.toDigits 10 s.digits).length - 1 + s.exponent := by ring
    rw [hlead, zpow_add₀ (by norm_num)]
    exact mul_le_mul_of_nonneg_right hlow hpow.le
  · have hlead : leading = (Nat.toDigits 10 s.digits).length + s.exponent := add_comm _ _
    rw [hlead, zpow_add₀ (by norm_num), zpow_natCast]
    exact mul_lt_mul_of_pos_right hhigh hpow

/-! ### Far beyond the range of doubles -/

theorem two_zpow_le_ten_zpow (k : ℕ) : (2 : ℚ) ^ (3 * k : ℤ) ≤ 10 ^ (k : ℤ) := by
  rw [zpow_mul, zpow_natCast, zpow_natCast]
  exact pow_le_pow_left₀ (by norm_num) (by norm_num) k

theorem nearestDouble_zero {x : ℚ} (hx : 0 ≤ x) (h : x < 10 ^ (-400 : ℤ)) : NearestDouble x 0 := by
  have hpow : (0 : ℚ) < 2 ^ (-1074 : ℤ) := by positivity
  have htiny : x < 1 / 2 * 2 ^ (-1074 : ℤ) := by
    have hinv := inv_anti₀ (by positivity) (two_zpow_le_ten_zpow 400)
    rw [← zpow_neg, ← zpow_neg] at hinv
    have hhalf : (2 : ℚ) ^ (-(3 * 400) : ℤ) ≤ 2 ^ (-1074 - 1 : ℤ) :=
      zpow_le_zpow_right₀ one_le_two (by norm_num)
    rw [zpow_sub_one₀ two_ne_zero] at hhalf
    linarith [h.trans_le (hinv.trans hhalf)]
  have hnearest : Nearest (x / 2 ^ (-1074 : ℤ)) 0 := by
    refine .of_lt ?_
    rw [Nat.cast_zero, sub_zero, abs_of_nonneg (div_nonneg hx hpow.le), div_lt_iff₀ hpow]
    exact htiny
  have hle : (2 : ℚ) ^ (-1074 : ℤ) ≤ 2 ^ (-1074 + 53 : ℤ) :=
    zpow_le_zpow_right₀ one_le_two (by norm_num)
  exact nearestDouble_bitsOf (m := 0) le_rfl (.inl rfl) (by linarith) hnearest

theorem nearestDouble_infinity {x : ℚ} (h : 10 ^ (400 : ℤ) ≤ x) : NearestDouble x infinity := by
  have hbeyond : overflow ≤ x := by
    have hpow : (2 : ℚ) ^ (1024 : ℤ) ≤ 2 ^ (3 * 400 : ℤ) :=
      zpow_le_zpow_right₀ one_le_two (by norm_num)
    exact overflow_lt.le.trans (hpow.trans ((two_zpow_le_ten_zpow 400).trans h))
  exact ⟨by decide, fun hlt => absurd hlt (not_lt.2 hbeyond), fun hlt => absurd hlt (not_lt.2 hbeyond),
    fun hlt => absurd hlt (not_lt.2 hbeyond), fun _ => rfl⟩

/-- The double of a decimal number is the one that the number is rounded to. -/
theorem nearestDouble_bits (s : Scientific) : NearestDouble (s.digits * 10 ^ s.exponent) s.bits := by
  unfold Scientific.bits
  dsimp only
  split
  · rename_i hsmall
    refine nearestDouble_zero (by positivity) ?_
    by_cases hzero : s.digits = 0
    · rw [hzero, Nat.cast_zero, zero_mul]
      positivity
    · have hleading := hsmall.resolve_left hzero
      exact (Scientific.bounds hzero).2.trans_le (zpow_le_zpow_right₀ (by norm_num) hleading.le)
  rename_i hsmall
  have hzero : s.digits ≠ 0 := fun hzero => hsmall (.inl hzero)
  split
  · rename_i hgreat
    have hleading : (400 : ℤ) ≤ s.exponent + (Nat.toDigits 10 s.digits).length - 1 := by omega
    exact nearestDouble_infinity
      ((zpow_le_zpow_right₀ (by norm_num) hleading).trans (Scientific.bounds hzero).1)
  split
  · rename_i hexponent
    have hratio : (s.digits : ℚ) * 10 ^ s.exponent =
        (s.digits * Nat.pow 10 s.exponent.toNat : ℕ) / (1 : ℕ) := by
      rw [zpow_of_nonneg hexponent, Nat.cast_mul, Nat.cast_one, div_one]
    rw [hratio]
    exact nearestDouble_nearestBits
      (Nat.mul_pos (Nat.pos_of_ne_zero hzero) (Nat.pow_pos (by decide))) one_pos
  · rename_i hexponent
    have hratio : (s.digits : ℚ) * 10 ^ s.exponent =
        s.digits / (Nat.pow 10 (-s.exponent).toNat : ℕ) := by
      rw [← zpow_of_nonneg (by omega), zpow_neg, div_inv_eq_mul]
    rw [hratio]
    exact nearestDouble_nearestBits (Nat.pos_of_ne_zero hzero) (Nat.pow_pos (by decide))

/-- Of two doubles as near the even one is taken. -/
example : (scientific? "9007199254740993".toList).map Scientific.bits = some 0x4340000000000000 := by
  decide +kernel

end CellMachine.Argument
