import MockAudit.Numeric.Binary64
import Mathlib.Algebra.Order.Field.Power
import Mathlib.Tactic.FieldSimp
import Mathlib.Tactic.Linarith
import Mathlib.Tactic.NormNum
import Mathlib.Tactic.Positivity
import Mathlib.Tactic.Ring

/-!
# Rounding of floating-point numbers

Rounding adds at most half of the last place, and the last place of a number that is not tiny is a
fixed share of the number. A quotient no greater than the greatest finite number rounds to a finite
number, and so does a product by a power of ten that stays below it by a few last places, although
both factors are rounded as well.

## Main definitions

* `Binary64.greatest`: the greatest finite number.
* `Binary64.IsRepresentable`: the finite numbers have a significand and an exponent in range.

## Main results

* `Binary64.exists_ofRatio_eq`: quotients in range round to finite numbers.
* `Binary64.isInfinite_timesPowerOfTen`: products by powers of ten do not overflow early.
-/

namespace MockAudit.Binary64

/-- The greatest finite number. -/
def greatest : ℚ := (2 ^ 53 - 1) * 2 ^ 971

/-- A finite number has a significand and an exponent of the format. -/
def IsRepresentable : Binary64 → Prop
  | finite _ m e => m < significandBound ∧ minExponent ≤ e ∧ e ≤ maxExponent
  | _ => True

instance (x : Binary64) : Decidable x.IsRepresentable :=
  match x with
  | nan | infinite _ => .isTrue trivial
  | finite _ m e =>
    inferInstanceAs (Decidable (m < significandBound ∧ minExponent ≤ e ∧ e ≤ maxExponent))

variable {num den : Nat}

/-! ### Quotients -/

theorem natCast_pow (b k : Nat) : ((Nat.pow b k : ℕ) : ℚ) = b ^ k := by simp

/-- A power with an exponent of any sign is the quotient of two natural numbers. -/
theorem pow_toNat_div_pow_toNat_neg (b : Nat) (e : ℤ) :
    ((Nat.pow b e.toNat : ℕ) : ℚ) / (Nat.pow b (-e).toNat : ℕ) = b ^ e := by
  rcases le_total 0 e with h | h
  · obtain ⟨n, rfl⟩ := Int.eq_ofNat_of_zero_le h
    simp
  · obtain ⟨n, hn⟩ := Int.eq_ofNat_of_zero_le (Int.neg_nonneg_of_nonpos h)
    obtain rfl : e = -n := by omega
    simp

/-- A scaled quotient. -/
theorem scaled_div_scaled (e : ℤ) :
    ((num * Nat.pow 2 (-e).toNat : ℕ) : ℚ) / (den * Nat.pow 2 e.toNat : ℕ) =
      num / den * 2 ^ (-e) := by
  have hpow := pow_toNat_div_pow_toNat_neg 2 (-e)
  rw [neg_neg, Nat.cast_ofNat] at hpow
  rw [← hpow, Nat.cast_mul, Nat.cast_mul, mul_div_mul_comm]

/-- The sizes of its parts give a power of two below the quotient. -/
theorem two_zpow_log2_lt_div (hnum : num ≠ 0) (hden : den ≠ 0) :
    (2 : ℚ) ^ ((num.log2 : ℤ) - den.log2 - 1) < num / den := by
  have hlower : (2 : ℚ) ^ (num.log2 : ℤ) ≤ num := by exact_mod_cast Nat.log2_self_le hnum
  have hupper : (den : ℚ) < 2 ^ ((den.log2 : ℤ) + 1) := by
    exact_mod_cast Nat.lt_log2_self (n := den)
  have hpos : (0 : ℚ) < den := by exact_mod_cast Nat.pos_of_ne_zero hden
  rw [lt_div_iff₀ hpos]
  calc (2 : ℚ) ^ ((num.log2 : ℤ) - den.log2 - 1) * den
      < 2 ^ ((num.log2 : ℤ) - den.log2 - 1) * 2 ^ ((den.log2 : ℤ) + 1) := by gcongr
    _ = 2 ^ (num.log2 : ℤ) := by
      rw [← zpow_add₀ two_ne_zero]
      congr 1
      omega
    _ ≤ num := hlower

/-- Whether the quotient reaches a power of two, decided on natural numbers. -/
theorem two_zpow_le_div_iff (hden : den ≠ 0) (e : ℤ) :
    (2 : ℚ) ^ e ≤ num / den ↔ den * Nat.pow 2 e.toNat ≤ num * Nat.pow 2 (-e).toNat := by
  have hpos : (0 : ℚ) < den := by exact_mod_cast Nat.pos_of_ne_zero hden
  have hpow : (0 : ℚ) < (Nat.pow 2 (-e).toNat : ℕ) := by
    exact_mod_cast Nat.pow_pos (n := (-e).toNat) (show 0 < 2 by decide)
  have hquot := pow_toNat_div_pow_toNat_neg 2 e
  rw [Nat.cast_ofNat] at hquot
  rw [← hquot, div_le_div_iff₀ hpow hpos, mul_comm]
  norm_cast

/-- The significand of a quotient that is not tiny has full width. -/
theorem two_zpow_exponentFor_le_div (hnum : num ≠ 0) (hden : den ≠ 0)
    (h : minExponent < exponentFor num den) :
    (2 : ℚ) ^ (exponentFor num den + 52) ≤ num / den := by
  have hlower := two_zpow_log2_lt_div hnum hden
  rw [exponentFor] at h ⊢
  rw [max_eq_right (le_of_lt ((lt_max_iff.mp h).resolve_left (lt_irrefl _)))]
  split_ifs with hfits
  · rw [sub_add_cancel, two_zpow_le_div_iff hden, neg_sub]
    exact hfits
  · refine le_of_eq_of_le ?_ hlower.le
    congr 1
    omega

/-! ### Rounding -/

/-- Rounding to an integer adds one half at most. -/
theorem roundHalfEven_le (num : Nat) (hden : den ≠ 0) :
    (roundHalfEven num den : ℚ) ≤ num / den + 1 / 2 := by
  have hpos : (0 : ℚ) < den := by exact_mod_cast Nat.pos_of_ne_zero hden
  have hle : 2 * (roundHalfEven num den * den) ≤ 2 * num + den := by
    have hnum := Nat.div_add_mod' num den
    have heven := Nat.mod_lt (num / den) two_pos
    rw [roundHalfEven]
    split_ifs with hbelow habove
    · omega
    · rw [Nat.add_mul]
      omega
    · have hpart : num / den % 2 * den ≤ 1 * den := Nat.mul_le_mul_right _ (by omega)
      rw [Nat.add_mul]
      omega
  rw [div_add_div _ _ hpos.ne' two_ne_zero, le_div_iff₀ (by positivity)]
  have hcast : (2 * (roundHalfEven num den * den) : ℚ) ≤ 2 * num + den := by exact_mod_cast hle
  linarith

theorem roundHalfEven_le_of_le (hden : den ≠ 0) {k : Nat} (h : (num / den : ℚ) ≤ k) :
    roundHalfEven num den ≤ k := by
  have hlt : (roundHalfEven num den : ℚ) < (k + 1 : ℕ) := by
    have := roundHalfEven_le num hden
    push_cast
    linarith
  exact Nat.lt_succ_iff.mp (by exact_mod_cast hlt)

/-- The rounded significand of a quotient. -/
def significandFor (num den : Nat) : Nat :=
  roundHalfEven (num * Nat.pow 2 (-exponentFor num den).toNat)
    (den * Nat.pow 2 (exponentFor num den).toNat)

private theorem scaledDen_ne_zero (hden : den ≠ 0) (e : ℤ) : den * Nat.pow 2 e.toNat ≠ 0 :=
  Nat.mul_ne_zero hden (Nat.pow_pos (by decide)).ne'

private theorem significandFor_le (num : Nat) (hden : den ≠ 0) :
    (significandFor num den * 2 ^ exponentFor num den : ℚ) ≤
      num / den + 2 ^ exponentFor num den / 2 := by
  have hpos : (0 : ℚ) < 2 ^ exponentFor num den := by positivity
  have hround := roundHalfEven_le (num * Nat.pow 2 (-exponentFor num den).toNat)
    (scaledDen_ne_zero hden (exponentFor num den))
  rw [scaled_div_scaled, zpow_neg, ← div_eq_mul_inv] at hround
  have hscaled := mul_le_mul_of_nonneg_right hround hpos.le
  rwa [add_mul, div_mul_cancel₀ _ hpos.ne', one_div_mul_eq_div] at hscaled

private theorem significandFor_le_of_le (hden : den ≠ 0) {k : Nat}
    (h : (num / den : ℚ) ≤ k * 2 ^ exponentFor num den) : significandFor num den ≤ k := by
  refine roundHalfEven_le_of_le (scaledDen_ne_zero hden _) ?_
  rwa [scaled_div_scaled, zpow_neg, ← div_eq_mul_inv, div_le_iff₀ (by positivity)]

/-- A quotient in range has an exponent in range, and in the last binade, where a carry would
overflow, the greatest number bounds the significand. -/
theorem exponentFor_lt_or_eq (hnum : num ≠ 0) (hden : den ≠ 0) (h : (num / den : ℚ) ≤ greatest) :
    exponentFor num den < maxExponent ∨
      exponentFor num den = maxExponent ∧ significandFor num den ≠ significandBound := by
  by_cases hlt : exponentFor num den < maxExponent
  · exact Or.inl hlt
  · have hlower := two_zpow_exponentFor_le_div hnum hden
      (lt_of_lt_of_le (by decide) (not_lt.mp hlt))
    have hgreatest : greatest < 2 ^ (1024 : ℤ) := by
      have hsplit : (2 : ℚ) ^ (1024 : ℤ) = 2 ^ 53 * 2 ^ 971 := by
        rw [← pow_add]
        rfl
      rw [greatest, hsplit]
      exact mul_lt_mul_of_pos_right (by norm_num) (by positivity)
    have hpow := (zpow_lt_zpow_iff_right₀ one_lt_two).mp ((hlower.trans h).trans_lt hgreatest)
    have hlast : exponentFor num den = maxExponent := by
      rw [maxExponent] at hlt ⊢
      omega
    have hle : significandFor num den ≤ 2 ^ 53 - 1 := by
      refine significandFor_le_of_le hden (h.trans (le_of_eq ?_))
      rw [greatest, hlast, maxExponent]
      norm_num
    refine Or.inr ⟨hlast, fun hcarry => ?_⟩
    rw [hcarry, significandBound] at hle
    exact absurd hle (by decide)

/-- **A quotient in range rounds to a finite number**, which exceeds it by half of the last place
at most. -/
theorem exists_ofRatio_eq (negative : Bool) (hnum : num ≠ 0) (hden : den ≠ 0)
    (h : (num / den : ℚ) ≤ greatest) :
    ∃ m e, ofRatio negative num den = finite negative m e ∧
      (m * 2 ^ e : ℚ) ≤ num / den + 2 ^ exponentFor num den / 2 := by
  have hsize := significandFor_le num hden
  have hrange := exponentFor_lt_or_eq hnum hden h
  have hround : roundHalfEven (num * Nat.pow 2 (-exponentFor num den).toNat)
    (den * Nat.pow 2 (exponentFor num den).toNat) = significandFor num den := rfl
  rw [ofRatio, if_neg hnum]
  by_cases hcarry : significandFor num den = significandBound
  · have hlt := hrange.resolve_right fun hlast => hlast.2 hcarry
    refine ⟨significandBound / 2, exponentFor num den + 1, ?_, le_of_eq_of_le ?_ hsize⟩
    · simp only [hround, if_pos hcarry,
        if_neg (show ¬maxExponent < exponentFor num den + 1 by omega)]
    · have hhalf : ((significandBound / 2 : ℕ) : ℚ) * 2 = significandBound := by
        norm_num [significandBound]
      rw [zpow_add_one₀ two_ne_zero, hcarry, ← hhalf]
      ring
  · have hle : ¬maxExponent < exponentFor num den :=
      not_lt.mpr (hrange.elim le_of_lt fun hlast => hlast.1.le)
    exact ⟨_, _, by simp only [hround, if_neg hcarry, if_neg hle], hsize⟩

/-- A quotient in range does not round to an infinity. -/
theorem isInfinite_ofRatio (negative : Bool) (hden : den ≠ 0) (h : (num / den : ℚ) ≤ greatest) :
    (ofRatio negative num den).isInfinite = false := by
  by_cases hnum : num = 0
  · rw [ofRatio, if_pos hnum]
    rfl
  · obtain ⟨m, e, heq, -⟩ := exists_ofRatio_eq negative hnum hden h
    rw [heq]
    rfl

/-- **A natural number in range** is rounded up by a share of two to the power of -53 at most. -/
theorem exists_ofRatio_one_eq (negative : Bool) {n : Nat} (h : (n : ℚ) ≤ greatest) :
    ∃ m e, ofRatio negative n 1 = finite negative m e ∧
      (m * 2 ^ e : ℚ) ≤ n * (1 + 2 ^ (-53 : ℤ)) := by
  by_cases hzero : n = 0
  · refine ⟨0, minExponent, by rw [ofRatio, if_pos hzero], ?_⟩
    rw [hzero, Nat.cast_zero, zero_mul, zero_mul]
  · obtain ⟨m, e, heq, hsize⟩ :=
      exists_ofRatio_eq negative hzero Nat.one_ne_zero (by simpa using h)
    refine ⟨m, e, heq, hsize.trans ?_⟩
    have hnormal : minExponent < exponentFor n 1 := by
      rw [exponentFor]
      refine lt_max_of_lt_right ?_
      have hone : Nat.log2 1 = 0 := by decide
      rw [minExponent, hone]
      split_ifs <;> omega
    have hlower := two_zpow_exponentFor_le_div hzero one_ne_zero hnormal
    rw [Nat.cast_one, div_one, zpow_add₀ two_ne_zero] at hlower
    rw [Nat.cast_one, div_one]
    norm_num at hlower ⊢
    linarith

/-! ### Products -/

/-- The rounded product of finite numbers is the rounded quotient of their exact product. -/
theorem isInfinite_mul {s s' : Bool} {m m' : Nat} {e e' : ℤ}
    (h : (m * 2 ^ e * (m' * 2 ^ e') : ℚ) ≤ greatest) :
    ((finite s m e).mul (finite s' m' e')).isInfinite = false := by
  rw [mul]
  refine isInfinite_ofRatio _ (Nat.pow_pos (by decide)).ne' (le_of_eq_of_le ?_ h)
  rw [Nat.cast_mul, mul_div_assoc, pow_toNat_div_pow_toNat_neg, Nat.cast_mul,
    Nat.cast_ofNat, zpow_add₀ two_ne_zero]
  ring

/-- How far rounded factors may reach without overflow: a few last places less than the greatest
number. -/
def safe : ℚ := (2 ^ 53 - 7 / 2) * 2 ^ 971

theorem safe_le_greatest : safe ≤ greatest :=
  mul_le_mul_of_nonneg_right (by norm_num) (by positivity)

/-- The two rounded factors exceed the exact ones by less than the space that is left. -/
theorem safe_mul_le_greatest : safe * ((1 + 2 ^ (-53 : ℤ)) * (1 + 2 ^ (-53 : ℤ))) ≤ greatest := by
  rw [safe, greatest, mul_right_comm]
  exact mul_le_mul_of_nonneg_right (by norm_num) (by positivity)

/-- The powers of ten by which numbers are scaled in one step are finite. -/
theorem natCast_ten_pow_le_greatest {k : Nat} (hk : k ≤ 308) :
    ((Nat.pow 10 k : ℕ) : ℚ) ≤ greatest := by
  rw [natCast_pow, Nat.cast_ofNat]
  calc (10 : ℚ) ^ k ≤ 10 ^ 308 := pow_le_pow_right₀ (by norm_num) hk
    _ = (10 ^ 77) ^ 4 := by rw [← pow_mul]
    _ ≤ ((2 ^ 53 - 1) * 2 ^ 203) ^ 4 := pow_le_pow_left₀ (by positivity) (by norm_num) 4
    _ = (2 ^ 53 - 1) * (2 ^ 53 - 1) ^ 3 * (2 ^ 203) ^ 4 := by ring
    _ ≤ (2 ^ 53 - 1) * (2 ^ 53) ^ 3 * (2 ^ 203) ^ 4 := by gcongr; norm_num
    _ = greatest := by rw [greatest, mul_assoc, ← pow_mul, ← pow_mul, ← pow_add]

/-- **A product by a power of ten** does not overflow as long as the exact product is safe. -/
theorem isInfinite_timesPowerOfTen (negative : Bool) {n k : Nat} (hn : (n : ℚ) ≤ greatest)
    (hk : k ≤ 308) (h : (n * 10 ^ k : ℚ) ≤ safe) :
    ((ofRatio negative n 1).timesPowerOfTen k).isInfinite = false := by
  obtain ⟨m, e, heq, hsize⟩ := exists_ofRatio_one_eq negative hn
  obtain ⟨m', e', heq', hsize'⟩ := exists_ofRatio_one_eq false (natCast_ten_pow_le_greatest hk)
  rw [timesPowerOfTen, heq, heq']
  refine isInfinite_mul ?_
  rw [natCast_pow, Nat.cast_ofNat] at hsize'
  calc (m * 2 ^ e * (m' * 2 ^ e') : ℚ)
      ≤ n * (1 + 2 ^ (-53 : ℤ)) * (10 ^ k * (1 + 2 ^ (-53 : ℤ))) := by gcongr
    _ = n * 10 ^ k * ((1 + 2 ^ (-53 : ℤ)) * (1 + 2 ^ (-53 : ℤ))) := by ring
    _ ≤ safe * ((1 + 2 ^ (-53 : ℤ)) * (1 + 2 ^ (-53 : ℤ))) := by gcongr
    _ ≤ greatest := safe_mul_le_greatest

end MockAudit.Binary64
