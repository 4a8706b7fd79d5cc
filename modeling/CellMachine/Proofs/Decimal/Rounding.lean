import CellMachine.Decimal
import Mathlib.Algebra.Order.Field.Power
import Mathlib.Algebra.Order.Ring.Abs
import Mathlib.Data.Nat.Log
import Mathlib.Data.Rat.Cast.Order
import Mathlib.Tactic.FieldSimp
import Mathlib.Tactic.Linarith
import Mathlib.Tactic.NormNum
import Mathlib.Tactic.Positivity
import Mathlib.Tactic.Ring

/-!
# Rounding to six significant digits

What it means that a number is rounded to six significant digits, as a statement on rational numbers,
and that `Significant.ofRatio` does it. Main statements: there is one such rounding of a positive
number, and rounding the number itself to the digits that it leaves gives the same digits.
-/

namespace CellMachine.Decimal

/-! ### The nearest integer -/

/-- No integer is nearer to `x` than `n`, and if another is as near then `n` is the even one. -/
structure Nearest (x : ℚ) (n : ℕ) : Prop where
  close : |x - n| ≤ 1 / 2
  even (tie : |x - n| = 1 / 2) : Even n

theorem Nearest.of_lt {x : ℚ} {n : ℕ} (h : |x - n| < 1 / 2) : Nearest x n :=
  ⟨h.le, fun tie => (h.ne tie).elim⟩

theorem Nearest.le {x : ℚ} {n n' : ℕ} (h : Nearest x n) (h' : Nearest x n') : n ≤ n' := by
  by_contra hlt
  have hnext : (n' : ℚ) + 1 ≤ n := by exact_mod_cast Nat.lt_of_not_le hlt
  have hbelow := (abs_le.1 h.close).1
  have habove := (abs_le.1 h'.close).2
  have hx : x = n' + 1 / 2 := by linarith
  have hn : n = n' + 1 := by
    have hcast : (n : ℚ) = n' + 1 := by linarith
    exact_mod_cast hcast
  have heven : Even n := h.even (by rw [hx, hn]; push_cast; norm_num [abs_of_neg])
  have heven' : Even n' := h'.even (by rw [hx]; norm_num)
  rw [hn, Nat.even_add_one] at heven
  exact heven heven'

theorem Nearest.unique {x : ℚ} {n n' : ℕ} (h : Nearest x n) (h' : Nearest x n') : n = n' :=
  Nat.le_antisymm (h.le h') (h'.le h)

theorem nearest_roundDiv (num : ℕ) {den : ℕ} (hden : 0 < den) :
    Nearest (num / den) (roundDiv num den) := by
  have hpos : (0 : ℚ) < den := by exact_mod_cast hden
  obtain ⟨q, r, hr, hnum⟩ : ∃ q r, r < den ∧ num = den * q + r :=
    ⟨num / den, num % den, Nat.mod_lt _ hden, (Nat.div_add_mod num den).symm⟩
  have hq : num / den = q := by rw [hnum, Nat.mul_add_div hden, Nat.div_eq_of_lt hr, Nat.add_zero]
  have hmod : num % den = r := by rw [hnum, Nat.mul_add_mod, Nat.mod_eq_of_lt hr]
  have hx : (num : ℚ) / den = q + r / den := by
    rw [hnum]
    push_cast
    field_simp
  have hr' : (r : ℚ) / den < 1 := (div_lt_one hpos).2 (by exact_mod_cast hr)
  have hr0 : (0 : ℚ) ≤ r / den := by positivity
  rw [hx]
  simp only [roundDiv, hq, hmod]
  split
  · rename_i hlt
    have hhalf : (r : ℚ) / den < 1 / 2 := by
      rw [div_lt_div_iff₀ hpos two_pos]
      exact_mod_cast (by omega : r * 2 < 1 * den)
    exact .of_lt (by rw [abs_lt]; constructor <;> linarith)
  split
  · rename_i hlt
    have hhalf : 1 / 2 < (r : ℚ) / den := by
      rw [div_lt_div_iff₀ two_pos hpos]
      exact_mod_cast (by omega : 1 * den < r * 2)
    exact .of_lt (by push_cast; rw [abs_lt]; constructor <;> linarith)
  rename_i hge hle
  have hhalf : (r : ℚ) / den = 1 / 2 := by
    rw [div_eq_div_iff hpos.ne' two_ne_zero]
    exact_mod_cast (by omega : r * 2 = 1 * den)
  rw [hhalf]
  split
  · rename_i heven
    exact ⟨by norm_num, fun _ => Nat.even_iff.2 heven⟩
  · rename_i hodd
    refine ⟨by push_cast; norm_num [abs_of_neg], fun _ => ?_⟩
    rw [Nat.even_add_one, Nat.even_iff]
    exact hodd

/-! ### The exponent -/

theorem floorLog_eq_log (n : ℕ) : floorLog n = Nat.log 10 n := by
  induction n using floorLog.induct with
  | case1 n hn => rw [floorLog, if_pos hn, Nat.log_of_lt hn]
  | case2 n hn ih =>
    rw [floorLog, if_neg hn, ih, Nat.log_of_one_lt_of_le (by decide) (Nat.le_of_not_lt hn)]

/-- The scaled ratio reaches one, and not more than tenfold if scaling was needed. -/
theorem scaling_spec {num : ℕ} (den : ℕ) (hnum : 0 < num) :
    den ≤ num * 10 ^ scaling num den ∧ (num < den → num * 10 ^ scaling num den < 10 * den) := by
  induction num using scaling.induct den with
  | case1 num hlt ih =>
    obtain ⟨hreach, hless⟩ := ih (by omega)
    rw [scaling, if_pos hlt, pow_succ', ← mul_assoc]
    refine ⟨hreach, fun _ => ?_⟩
    by_cases hten : num * 10 < den
    · exact hless hten
    · rw [scaling, if_neg (by omega), pow_zero]
      omega
  | case2 num hge =>
    rw [scaling, if_neg hge, pow_zero]
    omega

/-- `10 ^ e` is the power of ten at the first digit of `x`. -/
structure Leads (e : ℤ) (x : ℚ) : Prop where
  lower : (10 : ℚ) ^ e ≤ x
  upper : x < (10 : ℚ) ^ (e + 1)

theorem Leads.le {e e' : ℤ} {x : ℚ} (h : Leads e x) (h' : Leads e' x) : e ≤ e' :=
  Int.lt_add_one_iff.1 ((zpow_lt_zpow_iff_right₀ (by norm_num)).1 (h.lower.trans_lt h'.upper))

theorem Leads.unique {e e' : ℤ} {x : ℚ} (h : Leads e x) (h' : Leads e' x) : e = e' :=
  le_antisymm (h.le h') (h'.le h)

theorem leads_exponent {num den : ℕ} (hnum : 0 < num) (hden : 0 < den) :
    Leads (exponent num den) (num / den) := by
  have hpos : (0 : ℚ) < den := by exact_mod_cast hden
  unfold exponent
  split
  · rename_i hle
    have hquotient : 0 < num / den := Nat.div_pos hle hden
    rw [floorLog_eq_log]
    constructor
    · rw [zpow_natCast, le_div_iff₀ hpos]
      have hlow := Nat.mul_le_of_le_div _ _ _ (Nat.pow_log_le_self 10 hquotient.ne')
      exact_mod_cast hlow
    · rw [div_lt_iff₀ hpos]
      have hhigh := Nat.lt_pow_succ_log_self (by decide : 1 < 10) (num / den)
      rw [Nat.div_lt_iff_lt_mul hden] at hhigh
      exact_mod_cast hhigh
  · rename_i hlt
    obtain ⟨hreach, hless⟩ := scaling_spec den hnum
    have hless := hless (Nat.lt_of_not_le hlt)
    have hpow : (0 : ℚ) < 10 ^ scaling num den := by positivity
    constructor
    · rw [zpow_neg, zpow_natCast, le_div_iff₀ hpos, inv_mul_le_iff₀ hpow, mul_comm]
      exact_mod_cast hreach
    · rw [neg_add_eq_sub, zpow_sub₀ (by norm_num), zpow_one, zpow_natCast,
        div_lt_div_iff₀ hpos hpow]
      exact_mod_cast hless

/-! ### Six significant digits -/

/-- Rounded to six significant digits `x` is `d * 10 ^ (e - 5)`. Where rounding leads to a seventh digit
the last one goes. -/
inductive RoundsTo (x : ℚ) : ℕ → ℤ → Prop
  | kept {d : ℕ} {e : ℤ} (leads : Leads e x) (nearest : Nearest (x / 10 ^ (e - 5)) d)
    (six : d ≤ 999999) : RoundsTo x d e
  | carried {e : ℤ} (leads : Leads e x) (nearest : Nearest (x / 10 ^ (e - 5)) 1000000) :
    RoundsTo x 100000 (e + 1)

variable {x : ℚ} {d d' : ℕ} {e e' : ℤ}

theorem Leads.scaled (h : Leads e x) : 100000 ≤ x / 10 ^ (e - 5) ∧ x / 10 ^ (e - 5) < 1000000 := by
  have hpow : (0 : ℚ) < 10 ^ (e - 5) := by positivity
  have hlow : (100000 : ℚ) * 10 ^ (e - 5) = 10 ^ e := by
    rw [zpow_sub₀ (by norm_num)]
    norm_num
    ring
  have hhigh : (1000000 : ℚ) * 10 ^ (e - 5) = 10 ^ (e + 1) := by
    rw [zpow_add₀ (by norm_num), ← hlow]
    ring
  rw [le_div_iff₀ hpow, div_lt_iff₀ hpow, hlow, hhigh]
  exact ⟨h.lower, h.upper⟩

theorem Leads.digits (h : Leads e x) (hd : Nearest (x / 10 ^ (e - 5)) d) :
    100000 ≤ d ∧ d ≤ 1000000 := by
  obtain ⟨hlow, hhigh⟩ := h.scaled
  obtain ⟨hbelow, habove⟩ := abs_le.1 hd.close
  have hge : (99999 : ℚ) < d := by linarith
  have hle : (d : ℚ) < 1000001 := by linarith
  have hge' : 99999 < d := by exact_mod_cast hge
  have hle' : d < 1000001 := by exact_mod_cast hle
  omega

theorem RoundsTo.six (h : RoundsTo x d e) : 100000 ≤ d ∧ d ≤ 999999 := by
  cases h with
  | kept leads nearest six => exact ⟨(leads.digits nearest).1, six⟩
  | carried leads nearest => omega

theorem RoundsTo.unique (h : RoundsTo x d e) (h' : RoundsTo x d' e') : d = d' ∧ e = e' := by
  cases h with
  | kept leads nearest six =>
    cases h' with
    | kept leads' nearest' six' =>
      cases leads.unique leads'
      exact ⟨nearest.unique nearest', rfl⟩
    | carried leads' nearest' =>
      cases leads.unique leads'
      have := nearest.unique nearest'
      omega
  | carried leads nearest =>
    cases h' with
    | kept leads' nearest' six' =>
      cases leads.unique leads'
      have := nearest.unique nearest'
      omega
    | carried leads' nearest' =>
      cases leads.unique leads'
      exact ⟨rfl, rfl⟩

/-- A carry changes the digits and not what they are nearest to: at the new exponent a tenth of what was
rounded away is left. -/
theorem RoundsTo.nearest (h : RoundsTo x d e) : Nearest (x / 10 ^ (e - 5)) d := by
  cases h with
  | kept leads nearest six => exact nearest
  | @carried e leads nearest =>
    have htenth : x / 10 ^ (e + 1 - 5) = x / 10 ^ (e - 5) / 10 := by
      rw [show e + 1 - 5 = e - 5 + 1 by ring, zpow_add_one₀ (by norm_num), div_div]
    obtain ⟨hbelow, habove⟩ := abs_le.1 nearest.close
    rw [htenth]
    push_cast at hbelow habove
    exact .of_lt (by push_cast; rw [abs_lt]; constructor <;> linarith)

/-! ### Rounding a ratio -/

theorem zpow_of_nonneg {k : ℤ} (h : 0 ≤ k) : (10 : ℚ) ^ k = (Nat.pow 10 k.toNat : ℕ) := by
  obtain ⟨n, rfl⟩ := Int.eq_ofNat_of_zero_le h
  rw [zpow_natCast, Int.toNat_natCast, Nat.pow_eq, Nat.cast_pow, Nat.cast_ofNat]

/-- The digits of a ratio down to the sixth are the ratio itself, scaled up. -/
theorem scaled_up (num den : ℕ) (h : e ≤ 5) :
    (num : ℚ) / den / 10 ^ (e - 5) = ((num * Nat.pow 10 (5 - e).toNat : ℕ) : ℚ) / den := by
  have hpow : (10 : ℚ) ^ (e - 5) = (10 ^ (5 - e))⁻¹ := by rw [← zpow_neg, neg_sub]
  rw [hpow, zpow_of_nonneg (by omega), div_inv_eq_mul, Nat.cast_mul, div_mul_eq_mul_div]

theorem scaled_down (num den : ℕ) (h : 5 ≤ e) :
    (num : ℚ) / den / 10 ^ (e - 5) = num / ((den * Nat.pow 10 (e - 5).toNat : ℕ) : ℚ) := by
  rw [zpow_of_nonneg (by omega), div_div, Nat.cast_mul]

theorem roundsTo_ofRatio {num den : ℕ} (hnum : 0 < num) (hden : 0 < den) :
    RoundsTo (num / den) (Significant.ofRatio num den).digits
      (Significant.ofRatio num den).exponent := by
  have hleads := leads_exponent hnum hden
  obtain ⟨d, hd, hratio⟩ : ∃ d, Nearest ((num : ℚ) / den / 10 ^ (exponent num den - 5)) d ∧
      Significant.ofRatio num den =
        if d = 1000000 then ⟨100000, exponent num den + 1⟩ else ⟨d, exponent num den⟩ := by
    unfold Significant.ofRatio
    by_cases he : exponent num den ≤ 5
    · rw [scaled_up num den he]
      exact ⟨_, nearest_roundDiv _ hden, by simp only [if_pos he]⟩
    · rw [scaled_down num den (by omega)]
      have hscaled : 0 < den * Nat.pow 10 (exponent num den - 5).toNat :=
        Nat.mul_pos hden (Nat.pow_pos (by decide))
      exact ⟨_, nearest_roundDiv _ hscaled, by simp only [if_neg he]⟩
  rw [hratio]
  split
  · rename_i hcarry
    subst hcarry
    exact .carried hleads hd
  · rename_i hkept
    have hsix : d ≤ 999999 := by
      have hle := (hleads.digits hd).2
      omega
    exact .kept hleads hd hsix

/-- The second rounding, to the digits after the point, gives the six digits of the first. -/
theorem RoundsTo.fixed {num den : ℕ} (hden : 0 < den) (h : RoundsTo (num / den) d e) (he : e ≤ 5) :
    Decimal.fixed (5 - e).toNat num den = pointed (5 - e).toNat d := by
  have hagain := nearest_roundDiv (num * Nat.pow 10 (5 - e).toNat) hden
  rw [← scaled_up num den he] at hagain
  rw [Decimal.fixed, hagain.unique h.nearest]

end CellMachine.Decimal
