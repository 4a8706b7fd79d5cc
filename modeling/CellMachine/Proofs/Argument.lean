import CellMachine.Proofs.Decimal.Nearest
import Mathlib.Data.List.Forall2

/-!
# The grammar of arguments

The texts that are integers, and those that are doubles, said without the parser. Main statements: an
argument is read as an integer exactly if it is the text of one that fits 64 bits, otherwise as a double
exactly if it is the text of one, and otherwise as a text, unless there is a NUL in it; and a decimal
number is read as the double that it is rounded to.
-/

namespace CellMachine.Argument

/-! ### Grammar -/

/-- An optional sign, and whether it is a minus. -/
inductive Sign : List Char → Bool → Prop where
  | none : Sign [] false
  | plus : Sign ['+'] false
  | minus : Sign ['-'] true

/-- Digits, of which there is at least one. -/
structure Digits (cs : List Char) : Prop where
  nonempty : cs ≠ []
  digit : ∀ c ∈ cs, '0' ≤ c ∧ c ≤ '9'

/-- A sign and digits, and the integer that they denote. -/
inductive IntegerText : List Char → Int → Prop where
  | mk {sign digits : List Char} {negative : Bool} : Sign sign negative → Digits digits →
      IntegerText (sign ++ digits) (signed negative (Nat.ofDigitChars 10 digits 0))

/-- An optional exponent. -/
inductive ExponentText : List Char → Prop where
  | none : ExponentText []
  | some {e : Char} {sign digits : List Char} {negative : Bool} : e = 'e' ∨ e = 'E' →
      Sign sign negative → Digits digits → ExponentText (e :: (sign ++ digits))

/-- Digits with an optional point somewhere before, among or behind them, and an optional exponent. -/
inductive DecimalText : List Char → Prop where
  | plain {whole exponent : List Char} : Digits whole → ExponentText exponent →
      DecimalText (whole ++ exponent)
  | pointed {whole fraction exponent : List Char} : Digits (whole ++ fraction) →
      ExponentText exponent → DecimalText (whole ++ '.' :: (fraction ++ exponent))

/-- The power of ten that an optional exponent stands for. -/
inductive ExponentValue : List Char → ℤ → Prop where
  | none : ExponentValue [] 0
  | some {e : Char} {sign digits : List Char} {negative : Bool} : e = 'e' ∨ e = 'E' →
      Sign sign negative → Digits digits →
      ExponentValue (e :: (sign ++ digits)) (signed negative (Nat.ofDigitChars 10 digits 0))

/-- The number that a decimal text denotes. -/
inductive DecimalValue : List Char → ℚ → Prop where
  | plain {whole exponent : List Char} {e : ℤ} : Digits whole → ExponentValue exponent e →
      DecimalValue (whole ++ exponent) (Nat.ofDigitChars 10 whole 0 * 10 ^ e)
  | pointed {whole fraction exponent : List Char} {e : ℤ} : Digits (whole ++ fraction) →
      ExponentValue exponent e → DecimalValue (whole ++ '.' :: (fraction ++ exponent))
        (Nat.ofDigitChars 10 (whole ++ fraction) 0 / 10 ^ fraction.length * 10 ^ e)

/-- A word for infinity or NaN, each letter in any case. -/
def WordText (text : List Char) : Prop :=
  ∃ word ∈ ["inf", "infinity", "nan"],
    List.Forall₂ (fun c w => c = w ∨ c = w.toUpper) text word.toList

/-- A sign and a number that need not be an integer. -/
inductive DoubleText : List Char → Prop where
  | mk {sign number : List Char} {negative : Bool} : Sign sign negative →
      WordText number ∨ DecimalText number → DoubleText (sign ++ number)

/-! ### Signs -/

/-- A text that does not begin with a sign. -/
def Unsigned (text : List Char) : Prop := ∀ c rest, text = c :: rest → c ≠ '-' ∧ c ≠ '+'

theorem unsigned_append {sign text : List Char} {negative : Bool} (hsign : Sign sign negative)
    (htext : Unsigned text) : unsigned (sign ++ text) = (negative, text) := by
  cases hsign with
  | plus => rfl
  | minus => rfl
  | none =>
    rw [List.nil_append]
    unfold unsigned
    split
    · exact absurd rfl (htext _ _ rfl).1
    · exact absurd rfl (htext _ _ rfl).2
    · rfl

theorem exists_sign (text : List Char) : ∃ sign negative rest,
    Sign sign negative ∧ unsigned text = (negative, rest) ∧ text = sign ++ rest := by
  unfold unsigned
  split
  · exact ⟨['-'], true, _, .minus, rfl, rfl⟩
  · exact ⟨['+'], false, _, .plus, rfl, rfl⟩
  · exact ⟨[], false, _, .none, rfl, rfl⟩

/-! ### Digits -/

theorem isDigit_iff {c : Char} : isDigit c ↔ '0' ≤ c ∧ c ≤ '9' := by
  simp [isDigit]

theorem digits_iff {cs : List Char} : Digits cs ↔ cs ≠ [] ∧ cs.all isDigit := by
  rw [List.all_eq_true]
  constructor
  · intro h
    exact ⟨h.nonempty, fun c hc => isDigit_iff.2 (h.digit c hc)⟩
  · rintro ⟨hnonempty, hdigit⟩
    exact ⟨hnonempty, fun c hc => isDigit_iff.1 (hdigit c hc)⟩

theorem natural?_eq_some_iff {cs : List Char} {n : Nat} :
    natural? cs = some n ↔ Digits cs ∧ n = Nat.ofDigitChars 10 cs 0 := by
  have hvalue : ofDigits cs = Nat.ofDigitChars 10 cs 0 := rfl
  rw [digits_iff, ← hvalue, natural?]
  split
  · rename_i h
    rw [Option.some.injEq, eq_comm]
    exact (and_iff_right h).symm
  · rename_i h
    exact iff_of_false (Option.some_ne_none n).symm fun h' => h h'.1

theorem Digits.unsigned {cs : List Char} (h : Digits cs) (more : List Char) :
    Unsigned (cs ++ more) := by
  obtain ⟨d, rest, rfl⟩ := List.exists_cons_of_ne_nil h.nonempty
  rintro c _ ⟨⟩
  have hdigit : isDigit d := isDigit_iff.2 (h.digit d List.mem_cons_self)
  constructor <;> rintro rfl <;> cases hdigit

theorem unsigned_digits {sign digits : List Char} {negative : Bool} (hsign : Sign sign negative)
    (hdigits : Digits digits) : unsigned (sign ++ digits) = (negative, digits) := by
  have hunsigned := hdigits.unsigned []
  rw [List.append_nil] at hunsigned
  exact unsigned_append hsign hunsigned

/-! ### Integers -/

theorem int?_eq_some_iff {text : List Char} {n : Int64} :
    int? text = some n ↔ IntegerText text n.toInt := by
  constructor
  · intro h
    obtain ⟨sign, negative, rest, hsign, hunsigned, rfl⟩ := exists_sign text
    simp only [int?, hunsigned] at h
    cases hnatural : natural? rest with
    | none => simp [hnatural] at h
    | some magnitude =>
      obtain ⟨hdigits, rfl⟩ := natural?_eq_some_iff.1 hnatural
      simp only [hnatural] at h
      split at h
      · rename_i hrange
        obtain rfl := Option.some.inj h
        rw [Int64.toInt_ofInt_of_le hrange.1 (Int.lt_of_le_sub_one hrange.2)]
        exact .mk hsign hdigits
      · cases h
  · intro h
    generalize hn : n.toInt = k at h
    cases h with
    | @mk sign digits negative hsign hdigits =>
      have hnatural := natural?_eq_some_iff.2 ⟨hdigits, rfl⟩
      simp only [int?, unsigned_digits hsign hdigits, hnatural, ← hn]
      rw [if_pos ⟨n.minValue_le_toInt, n.toInt_le⟩, Int64.ofInt_toInt]

theorem IntegerText.unsigned_eq {text : List Char} {n : Int} (h : IntegerText text n) :
    n = signed (unsigned text).1 (Nat.ofDigitChars 10 (unsigned text).2 0) := by
  cases h with
  | @mk sign digits negative hsign hdigits =>
    rw [unsigned_digits hsign hdigits]

theorem IntegerText.unique {text : List Char} {m n : Int} (hm : IntegerText text m)
    (hn : IntegerText text n) : m = n :=
  hm.unsigned_eq.trans hn.unsigned_eq.symm

/-- An integer is written with its digits, after a minus if it is negative. -/
theorem integerText_ofInt (n : Int) : IntegerText (Decimal.ofInt n) n := by
  have hdigits : Digits (Nat.toDigits 10 n.natAbs) := digits_iff.2
    ⟨Nat.toDigits_ne_nil, List.all_eq_true.2 fun c hc =>
      Nat.isDigit_of_mem_toDigits (by decide) (by decide) hc⟩
  have hvalue : Nat.ofDigitChars 10 (Nat.toDigits 10 n.natAbs) 0 = n.natAbs :=
    Nat.ofDigitChars_ten_toDigits
  unfold Decimal.ofInt
  split
  · have h := IntegerText.mk .minus hdigits
    have hn : signed true n.natAbs = n := by
      rw [signed, if_pos rfl]
      omega
    rwa [hvalue, hn] at h
  · have h := IntegerText.mk .none hdigits
    have hn : signed false n.natAbs = n := by
      rw [signed, if_neg Bool.false_ne_true]
      omega
    rwa [hvalue, hn] at h

/-! ### Decimal numbers -/

theorem exponent?_of_value {text : List Char} {e : ℤ} (h : ExponentValue text e) :
    exponent? text = some e := by
  cases h with
  | none => rfl
  | some he hsign hdigits =>
    have hnatural := natural?_eq_some_iff.2 ⟨hdigits, rfl⟩
    simp only [exponent?, if_pos he, unsigned_digits hsign hdigits, hnatural, Option.map_some]

theorem exponentText_iff {text : List Char} : ExponentText text ↔ ∃ e, ExponentValue text e := by
  constructor
  · intro h
    cases h with
    | none => exact ⟨_, .none⟩
    | some he hsign hdigits => exact ⟨_, .some he hsign hdigits⟩
  · rintro ⟨e, h⟩
    cases h with
    | none => exact .none
    | some he hsign hdigits => exact .some he hsign hdigits

theorem isSome_exponent? {text : List Char} : (exponent? text).isSome ↔ ExponentText text := by
  constructor
  · intro h
    unfold exponent? at h
    split at h
    · exact .none
    · rename_i e rest
      split at h
      · rename_i he
        obtain ⟨sign, negative, digits, hsign, hunsigned, rfl⟩ := exists_sign rest
        simp only [hunsigned, Option.isSome_map, Option.isSome_iff_exists] at h
        obtain ⟨n, hn⟩ := h
        exact .some he hsign (natural?_eq_some_iff.1 hn).1
      · cases h
  · intro h
    obtain ⟨e, he⟩ := exponentText_iff.1 h
    rw [exponent?_of_value he, Option.isSome_some]

/-- A text that does not go on with a digit or a point. -/
def EndsNumeral (tail : List Char) : Prop := ∀ c ∈ tail.head?, isDigit c = false ∧ c ≠ '.'

theorem scientific?_plain {whole tail : List Char} (h : ∀ c ∈ whole, isDigit c)
    (htail : EndsNumeral tail) :
    scientific? (whole ++ tail) =
      if whole = [] then none else (exponent? tail).map fun e => ⟨ofDigits whole, e⟩ := by
  obtain ⟨htake, hdrop⟩ := Decimal.cut_append h fun c hc => (htail c hc).1
  simp only [scientific?, htake, hdrop]
  cases tail with
  | nil => simp
  | cons c rest => simp [(htail c rfl).2]

theorem scientific?_pointed {whole fraction tail : List Char}
    (h : ∀ c ∈ whole ++ fraction, isDigit c)
    (htail : ∀ c ∈ tail.head?, isDigit c = false) :
    scientific? (whole ++ '.' :: (fraction ++ tail)) =
      if whole ++ fraction = [] then none
      else (exponent? tail).map fun e => ⟨ofDigits (whole ++ fraction), e - fraction.length⟩ := by
  have hpoint : ∀ c ∈ ('.' :: (fraction ++ tail)).head?, isDigit c = false := by
    rintro c ⟨⟩
    rfl
  obtain ⟨htake, hdrop⟩ := Decimal.cut_append (fun c hc => h c (List.mem_append_left _ hc)) hpoint
  obtain ⟨htake', hdrop'⟩ := Decimal.cut_append (fun c hc => h c (List.mem_append_right _ hc)) htail
  simp only [scientific?, htake, hdrop, htake', hdrop', List.append_eq_nil_iff]

theorem ExponentText.endsNumeral {text : List Char} (h : ExponentText text) :
    EndsNumeral text := by
  cases h with
  | none => exact nofun
  | some he =>
    rintro c ⟨⟩
    rcases he with rfl | rfl <;> exact ⟨rfl, by decide⟩

/-- The digits that a text begins with. -/
theorem exists_leading (text : List Char) : ∃ digits rest, (∀ c ∈ digits, isDigit c) ∧
    (∀ c ∈ rest.head?, isDigit c = false) ∧ text = digits ++ rest := by
  refine ⟨text.takeWhile isDigit, text.dropWhile isDigit, List.all_eq_true.1 List.all_takeWhile, ?_,
    List.takeWhile_append_dropWhile.symm⟩
  intro c hc
  have hhead := List.head?_dropWhile_not isDigit text
  rw [hc] at hhead
  exact hhead

theorem scientific?_of_value {text : List Char} {q : ℚ} (h : DecimalValue text q) :
    ∃ s, scientific? text = some s ∧ (s.digits * 10 ^ s.exponent : ℚ) = q := by
  cases h with
  | @plain whole exponent e hwhole hexponent =>
    have hends := (exponentText_iff.2 ⟨e, hexponent⟩).endsNumeral
    obtain ⟨hne, hdigits⟩ := digits_iff.1 hwhole
    refine ⟨⟨ofDigits whole, e⟩, ?_, rfl⟩
    rw [scientific?_plain (List.all_eq_true.1 hdigits) hends, if_neg hne, exponent?_of_value hexponent,
      Option.map_some]
  | @pointed whole fraction exponent e hall hexponent =>
    have hends := (exponentText_iff.2 ⟨e, hexponent⟩).endsNumeral
    obtain ⟨hne, hdigits⟩ := digits_iff.1 hall
    refine ⟨⟨ofDigits (whole ++ fraction), e - fraction.length⟩, ?_, ?_⟩
    · rw [scientific?_pointed (List.all_eq_true.1 hdigits) fun c hc => (hends c hc).1, if_neg hne,
        exponent?_of_value hexponent, Option.map_some]
    · rw [zpow_sub₀ (by norm_num), zpow_natCast, div_mul_eq_mul_div, mul_div_assoc]
      rfl

theorem decimalText_iff {text : List Char} : DecimalText text ↔ ∃ q, DecimalValue text q := by
  constructor
  · intro h
    cases h with
    | plain hwhole hexponent =>
      obtain ⟨e, he⟩ := exponentText_iff.1 hexponent
      exact ⟨_, .plain hwhole he⟩
    | pointed hall hexponent =>
      obtain ⟨e, he⟩ := exponentText_iff.1 hexponent
      exact ⟨_, .pointed hall he⟩
  · rintro ⟨q, h⟩
    cases h with
    | plain hwhole hexponent => exact .plain hwhole (exponentText_iff.2 ⟨_, hexponent⟩)
    | pointed hall hexponent => exact .pointed hall (exponentText_iff.2 ⟨_, hexponent⟩)

theorem isSome_scientific? {text : List Char} :
    (scientific? text).isSome ↔ DecimalText text := by
  constructor
  · intro h
    obtain ⟨whole, rest, hwhole, hrest, rfl⟩ := exists_leading text
    by_cases hpoint : ∃ more, rest = '.' :: more
    · obtain ⟨more, rfl⟩ := hpoint
      obtain ⟨fraction, tail, hfraction, htail, rfl⟩ := exists_leading more
      have hall : ∀ c ∈ whole ++ fraction, isDigit c := fun c hc =>
        (List.mem_append.1 hc).elim (hwhole c) (hfraction c)
      rw [scientific?_pointed hall htail] at h
      split at h
      · cases h
      · rename_i hne
        rw [Option.isSome_map] at h
        exact .pointed (digits_iff.2 ⟨hne, List.all_eq_true.2 hall⟩) (isSome_exponent?.1 h)
    · have hends : EndsNumeral rest := fun c hc =>
        ⟨hrest c hc, by rintro rfl; exact hpoint (List.head?_eq_some_iff.1 hc)⟩
      rw [scientific?_plain hwhole hends] at h
      split at h
      · cases h
      · rename_i hne
        rw [Option.isSome_map] at h
        exact .plain (digits_iff.2 ⟨hne, List.all_eq_true.2 hwhole⟩) (isSome_exponent?.1 h)
  · intro h
    obtain ⟨q, hq⟩ := decimalText_iff.1 h
    obtain ⟨s, hs, -⟩ := scientific?_of_value hq
    rw [hs, Option.isSome_some]

theorem DecimalText.unsigned {text : List Char} (h : DecimalText text) : Unsigned text := by
  cases h with
  | plain hwhole => exact hwhole.unsigned _
  | @pointed whole fraction exponent hall =>
    cases whole with
    | nil =>
      rintro c _ ⟨⟩
      decide
    | cons d rest =>
      have hd : Digits [d] := ⟨nofun, fun c hc => hall.digit c (by simp_all)⟩
      exact hd.unsigned _

/-! ### Words -/

theorem toNat_toLower (c : Char) : c.toLower.val.toNat =
    if 65 ≤ c.val.toNat ∧ c.val.toNat ≤ 90 then c.val.toNat + 32 else c.val.toNat := by
  have hrange : (c.val ≥ 'A'.val ∧ c.val ≤ 'Z'.val) ↔ 65 ≤ c.val.toNat ∧ c.val.toNat ≤ 90 := Iff.rfl
  have hstep : ('a'.val - 'A'.val).toNat = 32 := rfl
  unfold Char.toLower
  split
  · rename_i h
    obtain ⟨hle, hge⟩ := hrange.1 h
    rw [if_pos ⟨hle, hge⟩, UInt32.toNat_add, hstep]
    omega
  · rename_i h
    rw [if_neg (mt hrange.2 h)]

theorem toNat_toUpper (c : Char) : c.toUpper.val.toNat =
    if 97 ≤ c.val.toNat ∧ c.val.toNat ≤ 122 then c.val.toNat - 32 else c.val.toNat := by
  have hrange : ('a'.val ≤ c.val ∧ c.val ≤ 'z'.val) ↔ 97 ≤ c.val.toNat ∧ c.val.toNat ≤ 122 := Iff.rfl
  -- the difference of the cases, added modulo 2^32
  have hstep : ('A'.val - 'a'.val).toNat = 4294967264 := rfl
  unfold Char.toUpper
  split
  · rename_i h
    obtain ⟨hle, hge⟩ := hrange.1 h
    rw [if_pos ⟨hle, hge⟩, UInt32.toNat_add, hstep]
    omega
  · rename_i h
    rw [if_neg (mt hrange.2 h)]

/-- Both cases of a letter, and nothing else, become the letter in lower case. -/
theorem toLower_eq_iff {c w : Char} (hw : 'a' ≤ w ∧ w ≤ 'z') :
    c.toLower = w ↔ c = w ∨ c = w.toUpper := by
  have hsmall : 97 ≤ w.val.toNat ∧ w.val.toNat ≤ 122 := hw
  simp only [← Char.val_inj, ← UInt32.toNat_inj, toNat_toLower, toNat_toUpper, if_pos hsmall]
  split <;> omega

theorem map_toLower_eq_iff {text word : List Char} (hword : ∀ w ∈ word, 'a' ≤ w ∧ w ≤ 'z') :
    text.map Char.toLower = word ↔
      List.Forall₂ (fun c w => c = w ∨ c = w.toUpper) text word := by
  induction word generalizing text with
  | nil => simp
  | cons w word ih =>
    cases text with
    | nil => simp
    | cons c text =>
      rw [List.map_cons, List.cons.injEq, List.forall₂_cons,
        toLower_eq_iff (hword w List.mem_cons_self),
        ih fun w hw => hword w (List.mem_cons_of_mem _ hw)]

theorem small_of_mem_word {word : String} (h : word ∈ ["inf", "infinity", "nan"]) :
    ∀ w ∈ word.toList, 'a' ≤ w ∧ w ≤ 'z' := by
  simp only [List.mem_cons, List.not_mem_nil, or_false] at h
  rcases h with rfl | rfl | rfl <;> simp

theorem isSome_word? {text : List Char} : (word? text).isSome ↔ WordText text := by
  have hlower : (word? text).isSome ↔
      ∃ word ∈ ["inf", "infinity", "nan"], text.map Char.toLower = word.toList := by
    simp only [word?, List.mem_cons, List.not_mem_nil, or_false, exists_eq_or_imp, exists_eq_left]
    by_cases hinf : text.map Char.toLower = "inf".toList ∨ text.map Char.toLower = "infinity".toList
    · rw [if_pos hinf]
      exact iff_of_true rfl (hinf.elim .inl fun h => .inr (.inl h))
    · rw [if_neg hinf, ← or_assoc, or_iff_right hinf]
      split
      · rename_i hnan
        exact iff_of_true rfl hnan
      · rename_i hnan
        exact iff_of_false nofun hnan
  rw [hlower]
  constructor
  · rintro ⟨word, hword, heq⟩
    exact ⟨word, hword, (map_toLower_eq_iff (small_of_mem_word hword)).1 heq⟩
  · rintro ⟨word, hword, heq⟩
    exact ⟨word, hword, (map_toLower_eq_iff (small_of_mem_word hword)).2 heq⟩

theorem WordText.letter {text : List Char} (h : WordText text) {c : Char} (hc : c ∈ text) :
    'a' ≤ c.toLower ∧ c.toLower ≤ 'z' := by
  obtain ⟨word, hword, hletters⟩ := h
  have heq := (map_toLower_eq_iff (small_of_mem_word hword)).2 hletters
  exact small_of_mem_word hword _ (heq ▸ List.mem_map_of_mem hc)

theorem WordText.unsigned {text : List Char} (h : WordText text) : Unsigned text := by
  rintro c rest rfl
  have hletter := h.letter List.mem_cons_self
  constructor <;> rintro rfl <;> exact absurd hletter (by decide)

/-! ### Doubles -/

theorem isSome_double? {text : List Char} : (double? text).isSome ↔ DoubleText text := by
  have hnumber (number : List Char) :
      (word? number <|> (scientific? number).map Scientific.nearest).isSome ↔
        WordText number ∨ DecimalText number := by
    rw [← isSome_word?, ← isSome_scientific?]
    cases word? number <;> simp
  constructor
  · intro h
    obtain ⟨sign, negative, number, hsign, hunsigned, rfl⟩ := exists_sign text
    simp only [double?, hunsigned, Option.isSome_map] at h
    exact .mk hsign ((hnumber number).1 h)
  · intro h
    cases h with
    | @mk sign number negative hsign htext =>
      have hunsigned := unsigned_append hsign (htext.elim WordText.unsigned DecimalText.unsigned)
      simp only [double?, hunsigned, Option.isSome_map]
      exact (hnumber number).2 htext

/-! ### NULs -/

theorem Sign.noNul {sign : List Char} {negative : Bool} (h : Sign sign negative) :
    '\x00' ∉ sign := by
  cases h <;> decide

theorem Digits.noNul {cs : List Char} (h : Digits cs) : '\x00' ∉ cs := by
  intro hmem
  exact absurd (h.digit _ hmem) (by decide)

theorem IntegerText.noNul {text : List Char} {n : Int} (h : IntegerText text n) :
    '\x00' ∉ text := by
  cases h with
  | mk hsign hdigits => exact List.not_mem_append hsign.noNul hdigits.noNul

theorem ExponentText.noNul {text : List Char} (h : ExponentText text) : '\x00' ∉ text := by
  cases h with
  | none => exact List.not_mem_nil
  | some he hsign hdigits =>
    refine List.not_mem_cons_of_ne_of_not_mem ?_ (List.not_mem_append hsign.noNul hdigits.noNul)
    rcases he with rfl | rfl <;> decide

theorem DecimalText.noNul {text : List Char} (h : DecimalText text) : '\x00' ∉ text := by
  cases h with
  | plain hwhole hexponent => exact List.not_mem_append hwhole.noNul hexponent.noNul
  | pointed hall hexponent =>
    have h0 := hall.noNul
    rw [List.mem_append, not_or] at h0
    exact List.not_mem_append h0.1
      (List.not_mem_cons_of_ne_of_not_mem (by decide) (List.not_mem_append h0.2 hexponent.noNul))

theorem WordText.noNul {text : List Char} (h : WordText text) : '\x00' ∉ text := by
  intro hmem
  exact absurd (h.letter hmem) (by decide)

theorem DoubleText.noNul {text : List Char} (h : DoubleText text) : '\x00' ∉ text := by
  cases h with
  | mk hsign hnumber =>
    exact List.not_mem_append hsign.noNul (hnumber.elim WordText.noNul DecimalText.noNul)

/-! ### Arguments -/

/-- The text of an integer of 64 bits. -/
def FitsInteger (text : List Char) : Prop := ∃ n : Int64, IntegerText text n.toInt

theorem isSome_int? {text : List Char} : (int? text).isSome ↔ FitsInteger text := by
  simp only [Option.isSome_iff_exists, int?_eq_some_iff, FitsInteger]

/-- What an argument is read as. -/
inductive Denotes (argument : String) : Except Unusable Cell → Prop where
  | int (n : Int64) : IntegerText argument.toList n.toInt → Denotes argument (.ok (.int n))
  | double (d : Float) : ¬ FitsInteger argument.toList → DoubleText argument.toList →
      Denotes argument (.ok (.double d))
  | text (t : Text) : ¬ FitsInteger argument.toList → ¬ DoubleText argument.toList →
      t.bytes = utf8Bytes argument → Denotes argument (.ok (.text t))
  | unusable : '\x00' ∈ argument.toList →
      Denotes argument (.error ⟨argument, (utf8Bytes argument).idxOf 0⟩)

theorem denotes_toCell (argument : String) : Denotes argument (toCell argument) := by
  unfold toCell
  cases hint : int? argument.toList with
  | some n => exact .int n (int?_eq_some_iff.1 hint)
  | none =>
    have hint : ¬ FitsInteger argument.toList := by simp [← isSome_int?, hint]
    dsimp only
    cases hdouble : double? argument.toList with
    | some d => exact .double d hint (isSome_double?.1 (by simp [hdouble]))
    | none =>
      have hdouble : ¬ DoubleText argument.toList := by simp [← isSome_double?, hdouble]
      dsimp only
      cases htext : Text.ofBytes (utf8Bytes argument) with
      | ok t => exact .text t hint hdouble (Text.ofBytes_eq_ok_iff.1 htext).symm
      | error position =>
        obtain ⟨h0, rfl⟩ := Text.ofBytes_eq_error_iff.1 htext
        exact .unusable (zero_mem_utf8Bytes.1 h0)

theorem IntegerText.doubleText {text : List Char} {n : Int} (h : IntegerText text n) :
    DoubleText text := by
  cases h with
  | mk hsign hdigits =>
    have hdecimal := DecimalText.plain hdigits .none
    rw [List.append_nil] at hdecimal
    exact .mk hsign (.inr hdecimal)

/-- What the grammar says of the result of reading an argument. -/
structure Follows (argument : String) (result : Except Unusable Cell) : Prop where
  int : ∀ n : Int64, result = .ok (.int n) ↔ IntegerText argument.toList n.toInt
  double : (∃ d, result = .ok (.double d)) ↔
    ¬ FitsInteger argument.toList ∧ DoubleText argument.toList
  /-- Integers that do not fit 64 bits. -/
  outOfRange : ∀ n : Int, IntegerText argument.toList n →
    ¬ (Int64.minValue.toInt ≤ n ∧ n ≤ Int64.maxValue.toInt) → ∃ d, result = .ok (.double d)
  text : ∀ t : Text, result = .ok (.text t) ↔
    ¬ FitsInteger argument.toList ∧ ¬ DoubleText argument.toList ∧ t.bytes = utf8Bytes argument
  unusable : ∀ e, result = .error e ↔
    '\x00' ∈ argument.toList ∧ e = ⟨argument, (utf8Bytes argument).idxOf 0⟩

theorem Denotes.follows {argument : String} {result : Except Unusable Cell}
    (h : Denotes argument result) : Follows argument result := by
  have hnul (t : Text) (h0 : '\x00' ∈ argument.toList) : t.bytes ≠ utf8Bytes argument := fun ht =>
    t.noNul (ht ▸ zero_mem_utf8Bytes.2 h0)
  cases h with
  | int m hm =>
    have hfits : FitsInteger argument.toList := ⟨m, hm⟩
    refine ⟨fun n => ?_, ?_, fun n hn hrange => ?_, fun t => ?_, fun e => ?_⟩
    · rw [Except.ok.injEq, Cell.int.injEq]
      exact ⟨fun h => h ▸ hm, fun hn => Int64.toInt_inj.1 (hm.unique hn)⟩
    · exact iff_of_false nofun fun h => h.1 hfits
    · exact absurd ⟨m.minValue_le_toInt, m.toInt_le⟩ (hm.unique hn ▸ hrange)
    · exact iff_of_false nofun fun h => h.1 hfits
    · exact iff_of_false nofun fun h => hm.noNul h.1
  | double d hint hdouble =>
    refine ⟨fun n => ?_, ?_, fun n hn hrange => ?_, fun t => ?_, fun e => ?_⟩
    · exact iff_of_false nofun fun hn => hint ⟨n, hn⟩
    · exact iff_of_true ⟨d, rfl⟩ ⟨hint, hdouble⟩
    · exact ⟨d, rfl⟩
    · exact iff_of_false nofun fun h => h.2.1 hdouble
    · exact iff_of_false nofun fun h => hdouble.noNul h.1
  | text t hint hdouble hbytes =>
    refine ⟨fun n => ?_, ?_, fun n hn hrange => ?_, fun u => ?_, fun e => ?_⟩
    · exact iff_of_false nofun fun hn => hint ⟨n, hn⟩
    · exact iff_of_false nofun fun h => hdouble h.2
    · exact absurd hn.doubleText hdouble
    · rw [Except.ok.injEq, Cell.text.injEq, ← Text.bytes_inj, hbytes, eq_comm]
      exact ⟨fun h => ⟨hint, hdouble, h⟩, fun h => h.2.2⟩
    · exact iff_of_false nofun fun h => hnul t h.1 hbytes
  | unusable h0 =>
    refine ⟨fun n => ?_, ?_, fun n hn hrange => ?_, fun t => ?_, fun e => ?_⟩
    · exact iff_of_false nofun fun hn => hn.noNul h0
    · exact iff_of_false nofun fun h => h.2.noNul h0
    · exact absurd h0 hn.noNul
    · exact iff_of_false nofun fun h => hnul t h0 h.2.2
    · rw [Except.error.injEq, eq_comm, and_iff_right h0]

theorem follows_toCell (argument : String) : Follows argument (toCell argument) :=
  (denotes_toCell argument).follows

theorem toCell_printed (n : Int64) : ∃ text, utf8Bytes text = (Cell.int n).printed ∧
    toCell text = .ok (.int n) := by
  refine ⟨String.ofList (Decimal.ofInt n.toInt), rfl, ((follows_toCell _).int n).2 ?_⟩
  rw [String.toList_ofList]
  exact integerText_ofInt n.toInt

/-! ### The values of decimal numbers -/

/-- No word begins like a number. -/
theorem DecimalText.not_word {text : List Char} (h : DecimalText text) : ¬ WordText text := by
  have hdigit {c : Char} (hc : '0' ≤ c ∧ c ≤ '9') : ¬ ('a' ≤ c.toLower ∧ c.toLower ≤ 'z') := by
    intro hletter
    have hsmall : c.val.toNat ≤ 57 := hc.2
    have hgreat : 97 ≤ c.toLower.val.toNat := hletter.1
    rw [toNat_toLower] at hgreat
    split at hgreat <;> omega
  intro hword
  cases h with
  | @plain whole exponent hwhole hexponent =>
    obtain ⟨c, rest, hcons⟩ := List.exists_cons_of_ne_nil hwhole.nonempty
    exact hdigit (hwhole.digit c (by simp [hcons])) (hword.letter (by simp [hcons]))
  | pointed hall hexponent => exact absurd (hword.letter (by simp : '.' ∈ _)) (by decide)

/-- A decimal number that is no integer of 64 bits is read as the double that it is rounded to. -/
theorem toCell_nearest {sign number : List Char} {negative : Bool} {q : ℚ} (hsign : Sign sign negative)
    (hnumber : DecimalValue number q) (hint : ¬ FitsInteger (sign ++ number)) :
    ∃ bits, Decimal.NearestDouble q bits ∧ toCell (String.ofList (sign ++ number)) =
      .ok (.double (if negative then -Float.ofBits bits else Float.ofBits bits)) := by
  obtain ⟨s, hs, rfl⟩ := scientific?_of_value hnumber
  refine ⟨s.bits, nearestDouble_bits s, ?_⟩
  have htext : DecimalText number := decimalText_iff.2 ⟨_, hnumber⟩
  have hword : word? number = none := by
    rw [← Option.not_isSome_iff_eq_none, isSome_word?]
    exact htext.not_word
  have hnone : int? (sign ++ number) = none := by
    rw [← Option.not_isSome_iff_eq_none, isSome_int?]
    exact hint
  have hdouble : double? (sign ++ number) =
      some (if negative then -Float.ofBits s.bits else Float.ofBits s.bits) := by
    simp only [double?, unsigned_append hsign htext.unsigned, hword, hs]
    rfl
  simp only [toCell, String.toList_ofList, hnone, hdouble]

/-! ### Lists of arguments -/

theorem toCells_cons (argument : String) (arguments : List String) :
    toCells (argument :: arguments) =
      (toCell argument).bind fun cell => (toCells arguments).map (cell :: ·) := by
  unfold toCells
  rw [List.mapM_cons]
  rfl

/-- Arguments are read in order, up to the first that cannot be used. -/
structure FollowsInOrder (arguments : List String) (result : Except Unusable (List Cell)) : Prop where
  fails : (∃ e, result = .error e) ↔ ∃ argument ∈ arguments, '\x00' ∈ argument.toList
  error : ∀ e, result = .error e ↔ ∃ before argument after,
    arguments = before ++ argument :: after ∧ (∀ earlier ∈ before, '\x00' ∉ earlier.toList) ∧
      toCell argument = .error e
  cells : ∀ cells, result = .ok cells ↔
    List.Forall₂ (fun argument cell => toCell argument = .ok cell) arguments cells

theorem FollowsInOrder.nil : FollowsInOrder [] (toCells []) := by
  refine ⟨?_, fun e => ?_, fun cells => ?_⟩
  · exact iff_of_false nofun nofun
  · refine iff_of_false nofun ?_
    rintro ⟨before, argument, after, hnil, -⟩
    cases before <;> cases hnil
  · rw [List.forall₂_nil_left_iff]
    exact ⟨fun h => (Except.ok.inj h).symm, fun h => h ▸ rfl⟩

variable {argument : String} {arguments : List String}

theorem FollowsInOrder.cons_error {e : Unusable} (h : toCell argument = .error e) :
    FollowsInOrder (argument :: arguments) (.error e) := by
  have h0 : '\x00' ∈ argument.toList := (((follows_toCell argument).unusable e).1 h).1
  refine ⟨?_, fun e' => ?_, fun cells => ?_⟩
  · exact iff_of_true ⟨e, rfl⟩ ⟨argument, List.mem_cons_self, h0⟩
  · constructor
    · intro heq
      exact ⟨[], argument, arguments, rfl, nofun, Except.error.inj heq ▸ h⟩
    · rintro ⟨before, a, after, hsplit, hbefore, ha⟩
      cases before with
      | nil =>
        cases hsplit
        exact congrArg Except.error (Except.error.inj (h.symm.trans ha))
      | cons b before =>
        cases hsplit
        exact absurd h0 (hbefore _ List.mem_cons_self)
  · refine iff_of_false nofun fun hcells => ?_
    cases hcells with
    | cons ha => cases h.symm.trans ha

theorem FollowsInOrder.cons_ok {cell : Cell} {result : Except Unusable (List Cell)}
    (h : toCell argument = .ok cell) (hrest : FollowsInOrder arguments result) :
    FollowsInOrder (argument :: arguments) (result.map (cell :: ·)) := by
  have h0 : '\x00' ∉ argument.toList := by
    intro h0
    cases h.symm.trans (((follows_toCell argument).unusable _).2 ⟨h0, rfl⟩)
  have herror (e : Unusable) : result.map (cell :: ·) = .error e ↔ result = .error e := by
    cases result <;> simp [Except.map]
  refine ⟨?_, fun e => ?_, fun cells => ?_⟩
  · simp only [herror, hrest.fails, List.mem_cons, exists_eq_or_imp, h0, false_or]
  · rw [herror, hrest.error]
    constructor
    · rintro ⟨before, a, after, rfl, hbefore, ha⟩
      refine ⟨argument :: before, a, after, rfl, fun b hb => ?_, ha⟩
      cases hb with
      | head => exact h0
      | tail _ hb => exact hbefore b hb
    · rintro ⟨before, a, after, hsplit, hbefore, ha⟩
      cases before with
      | nil =>
        cases hsplit
        cases h.symm.trans ha
      | cons b before =>
        cases hsplit
        exact ⟨before, a, after, rfl, fun b hb => hbefore b (List.mem_cons_of_mem _ hb), ha⟩
  · constructor
    · intro heq
      cases result with
      | error e => cases heq
      | ok rest =>
        cases heq
        exact .cons h ((hrest.cells rest).1 rfl)
    · intro hcells
      cases hcells with
      | @cons _ cell' _ rest ha htail =>
        cases h.symm.trans ha
        rw [(hrest.cells rest).2 htail]
        rfl

theorem followsInOrder_toCells (arguments : List String) :
    FollowsInOrder arguments (toCells arguments) := by
  induction arguments with
  | nil => exact .nil
  | cons argument arguments ih =>
    rw [toCells_cons]
    cases h : toCell argument with
    | error e => exact .cons_error h
    | ok cell => exact .cons_ok h ih

/-- Arguments are read by the grammar. Each is an integer, a double or a text by what it is, and cannot
be used exactly if there is a NUL in it; every integer is read back from what is printed of it; and the
arguments of a command line are read in order, up to the first with a NUL. -/
theorem toCell_grammar :
    (∀ argument, Follows argument (toCell argument)) ∧
    (∀ n : Int64, ∃ text, utf8Bytes text = (Cell.int n).printed ∧ toCell text = .ok (.int n)) ∧
    ∀ c : CommandLine, FollowsInOrder c.args c.cells :=
  ⟨follows_toCell, toCell_printed, fun c => followsInOrder_toCells c.args⟩

example : int? "-9223372036854775808".toList = some Int64.minValue ∧
    int? "9223372036854775808".toList = none := by decide

end CellMachine.Argument
