import MockAudit.Proofs.FloatRounding
import MockAudit.Proofs.JsonRoundTrip

/-!
# The texts of numbers read back

Every integer and every finite floating-point number has a proper text, and the reader of numbers
accepts it. The only danger is at the upper end: the text of a floating-point number is read as a
word scaled by a power of ten, both of them rounded. The word and the power denote at most the
decimal that was written, which exceeds the number by half of the last place at most, so the product
stays in range for all but the three greatest numbers, and these are computed.

## Main definitions

* `Decimal.value`, `Json.NumberText.value`: what decimals and the texts of numbers denote.
* `Decimal.numberText`: the text of a decimal in recorded data.

## Main results

* `Json.NumberText.isSome_toBinary64?`: texts that denote numbers in range are read.
* `Json.exists_ofInt_eq`: integers are written as proper texts that read back.
* `Binary64.exists_dataText?_eq`: finite numbers are written as proper texts that read back.
-/

namespace MockAudit

/-! ### Digits -/

/-- Digits denote a number below the power of ten with their count. -/
theorem ofDigitChars_lt {cs : List Char} (h : ∀ c ∈ cs, c.isDigit = true) :
    Nat.ofDigitChars 10 cs 0 < 10 ^ cs.length := by
  induction cs with
  | nil => decide
  | cons c cs ih =>
    have hc : c.isDigit = true := h c (List.mem_cons_self ..)
    have hrest := ih fun d hd => h d (List.mem_cons_of_mem _ hd)
    have hvalue : c.toNat - '0'.toNat ≤ 9 := by
      rw [Char.isDigit, Bool.and_eq_true, decide_eq_true_iff, decide_eq_true_iff] at hc
      have hle : c.toNat ≤ '9'.toNat := hc.2
      have hnine : '9'.toNat = '0'.toNat + 9 := rfl
      omega
    have hpart := Nat.mul_le_mul_left (10 ^ cs.length) hvalue
    rw [Nat.ofDigitChars_cons, Nat.mul_zero, Nat.zero_add, Nat.ofDigitChars_eq_ofDigitChars_zero,
      List.length_cons, pow_succ]
    omega

/-- The digits of a natural number do not begin with a zero. -/
theorem head?_toDigits_ne {n : Nat} (h : n ≠ 0) : (Nat.toDigits 10 n).head? ≠ some '0' := by
  induction n using Nat.strongRecOn with
  | ind n ih =>
    rw [Nat.toDigits_eq_if (by decide)]
    split_ifs with hlt
    · have hdigit : ∀ k < 10, k ≠ 0 → some k.digitChar ≠ some '0' := by decide
      exact hdigit n hlt h
    · rw [List.head?_append_of_ne_nil _ Nat.toDigits_ne_nil]
      exact ih (n / 10) (by omega) (by omega)

/-- The digits of a natural number have no leading zeros. -/
theorem toDigits_eq_of_head? {n : Nat} (h : (Nat.toDigits 10 n).head? = some '0') :
    Nat.toDigits 10 n = ['0'] := by
  by_cases hzero : n = 0
  · rw [hzero]
    rfl
  · exact absurd h (head?_toDigits_ne hzero)

private theorem isDigit_toDigits (n : Nat) : ∀ c ∈ Nat.toDigits 10 n, c.isDigit = true :=
  fun _ hc => Nat.isDigit_of_mem_toDigits (by decide) (by decide) hc

/-! ### Reading -/

namespace Json.NumberText

/-- The exponent of the text of a number. -/
def shift (n : NumberText) : ℤ :=
  n.exponent.elim 0 fun (down, digits) =>
    let size : ℤ := Binary64.digitsValue digits
    if down then -size else size

/-- The number without its sign that a text denotes. -/
def value (n : NumberText) : ℚ :=
  Nat.ofDigitChars 10 (n.whole ++ n.fraction) 0 * 10 ^ (n.shift - n.fraction.length)

/-- Digits are appended as long as there is a word for them. -/
theorem exists_appendDigits_eq {word : Nat} (hword : word ≤ maxWord) (cs : List Char) :
    ∃ taken rest, cs = taken ++ rest ∧
      appendDigits word cs = (Nat.ofDigitChars 10 taken word, rest) ∧
      Nat.ofDigitChars 10 taken word ≤ maxWord := by
  induction cs generalizing word with
  | nil => exact ⟨[], [], rfl, rfl, hword⟩
  | cons c cs ih =>
    rw [appendDigits]
    split_ifs with hlarge
    · exact ⟨[], c :: cs, rfl, rfl, hword⟩
    · obtain ⟨taken, rest, rfl, heq, hle⟩ := ih (Nat.le_of_not_lt hlarge)
      exact ⟨c :: taken, rest, rfl, heq, hle⟩

/-- Digits whose value is a word are all appended. -/
theorem appendDigits_eq {word : Nat} {cs : List Char}
    (h : Nat.ofDigitChars 10 cs word ≤ maxWord) :
    appendDigits word cs = (Nat.ofDigitChars 10 cs word, []) := by
  induction cs generalizing word with
  | nil => rfl
  | cons c cs ih =>
    rw [Nat.ofDigitChars_cons] at h ⊢
    have hle : 10 * word + (c.toNat - '0'.toNat) ≤ maxWord := by
      refine le_trans ?_ h
      rw [Nat.ofDigitChars_eq_ofDigitChars_zero]
      exact Nat.le_add_right_of_le (Nat.le_mul_of_pos_left _ (by positivity))
    rw [appendDigits, if_neg (Nat.not_lt_of_le hle)]
    exact ih h

/-- Scaling down always gives a number. -/
theorem isSome_scale_of_neg (fuel : Nat) (x : Binary64) {exponent : ℤ} (h : exponent < 0) :
    (scale fuel x exponent).isSome := by
  induction fuel generalizing x exponent with
  | zero =>
    rw [scale]
    split_ifs <;> first | rfl | omega
  | succ fuel ih =>
    rw [scale]
    split_ifs
    · omega
    · rfl
    · rfl
    · omega
    · exact ih _ (by omega)

private theorem maxWord_le_safe : (maxWord : ℚ) ≤ Binary64.safe :=
  calc (maxWord : ℚ) ≤ (2 ^ 53 - 7 / 2) * 2 ^ 12 := by norm_num [maxWord]
    _ ≤ (2 ^ 53 - 7 / 2) * 2 ^ 971 := by gcongr <;> norm_num
    _ = Binary64.safe := rfl

private theorem safe_lt_ten_pow : Binary64.safe < 10 ^ 309 :=
  calc Binary64.safe = (2 ^ 53 - 7 / 2) * 2 ^ 971 := rfl
    _ < 2 ^ 53 * 2 ^ 971 := by gcongr; norm_num
    _ = (2 ^ 256) ^ 4 := by rw [← pow_mul, ← pow_add]
    _ ≤ (12 * 10 ^ 76) ^ 4 := pow_le_pow_left₀ (by positivity) (by norm_num) 4
    _ = 12 ^ 4 * 10 ^ 304 := by rw [mul_pow, ← pow_mul]
    _ ≤ 10 ^ 5 * 10 ^ 304 := by gcongr; norm_num
    _ = 10 ^ 309 := by rw [← pow_add]

/-- **A word is scaled** if the exact product is safe. -/
theorem isSome_scale {word : Nat} (hword : word ≤ maxWord) {exponent : ℤ}
    (h : (word * 10 ^ exponent : ℚ) ≤ Binary64.safe) (fuel : Nat) :
    (scale fuel (Binary64.ofRatio false word 1) exponent).isSome := by
  by_cases hneg : exponent < 0
  · exact isSome_scale_of_neg fuel _ hneg
  · obtain ⟨k, rfl⟩ := Int.eq_ofNat_of_zero_le (not_lt.mp hneg)
    have hcast : (word : ℚ) ≤ Binary64.greatest :=
      (Nat.cast_le.mpr hword).trans (maxWord_le_safe.trans Binary64.safe_le_greatest)
    rw [zpow_natCast] at h
    rw [scale.eq_def, Int.natAbs_natCast, Int.toNat_natCast]
    simp only [if_pos (Int.natCast_nonneg k)]
    split_ifs with hsmall hinfinite hzero
    · rw [Binary64.isInfinite_timesPowerOfTen false hcast hsmall h] at hinfinite
      exact absurd hinfinite Bool.false_ne_true
    · rfl
    · rfl
    · -- A word that is not zero cannot be scaled so far and stay in range.
      have hone : (1 : ℚ) ≤ word := by
        refine Nat.one_le_cast.mpr (Nat.one_le_iff_ne_zero.mpr ?_)
        rintro rfl
        exact hzero rfl
      have hpow : (10 : ℚ) ^ 309 ≤ word * 10 ^ k :=
        calc (10 : ℚ) ^ 309 ≤ 10 ^ k := pow_le_pow_right₀ (by norm_num) (by omega)
          _ ≤ word * 10 ^ k := le_mul_of_one_le_left (by positivity) hone
      exact absurd (hpow.trans h) (not_le.mpr safe_lt_ten_pow)

/-- The digits that fit the word denote no more than all of them. -/
theorem mul_zpow_le_value {n : NumberText} {taken rest : List Char}
    (h : n.fraction = taken ++ rest) :
    (Nat.ofDigitChars 10 (n.whole ++ taken) 0 * 10 ^ (n.shift - taken.length) : ℚ) ≤ n.value := by
  have hexponent : n.shift - taken.length =
      (rest.length : ℤ) + (n.shift - (taken ++ rest).length) := by
    rw [List.length_append]
    omega
  have hdigits : 10 ^ rest.length * Nat.ofDigitChars 10 (n.whole ++ taken) 0 ≤
      Nat.ofDigitChars 10 (n.whole ++ (taken ++ rest)) 0 := by
    rw [← List.append_assoc, Nat.ofDigitChars_append (l := n.whole ++ taken),
      Nat.ofDigitChars_eq_ofDigitChars_zero (l := rest)]
    exact Nat.le_add_right ..
  rw [value, h, hexponent, zpow_add₀ (by norm_num), zpow_natCast, ← mul_assoc]
  gcongr
  rw [mul_comm]
  exact_mod_cast hdigits

/-- **A word is scaled** also if the exponent is cut to what is computed with. -/
theorem isSome_scale_cut {word : Nat} (hword : word ≤ maxWord) {exponent : ℤ}
    (h : (word * 10 ^ exponent : ℚ) ≤ Binary64.safe) (fuel : Nat) :
    (scale fuel (Binary64.ofRatio false word 1)
      (max (-maxExponent) (min maxExponent exponent))).isSome := by
  by_cases hneg : max (-maxExponent) (min maxExponent exponent) < 0
  · exact isSome_scale_of_neg fuel _ hneg
  · have hle : max (-maxExponent) (min maxExponent exponent) ≤ exponent := by
      rw [maxExponent] at hneg ⊢
      omega
    refine isSome_scale hword (le_trans ?_ h) fuel
    gcongr
    norm_num

/-- **Texts that denote numbers in range are read.** -/
theorem isSome_toBinary64? {n : NumberText} (hdigits : ∀ c ∈ n.whole, c.isDigit = true)
    (hlength : n.whole.length ≤ 19) (hshift : n.shift ≤ maxExponent)
    (h : n.value ≤ Binary64.safe) : n.toBinary64?.isSome := by
  have hword : Nat.ofDigitChars 10 n.whole 0 ≤ maxWord := by
    have hlt := ofDigitChars_lt hdigits
    have hpow := Nat.pow_le_pow_right (show 0 < 10 by decide) hlength
    rw [maxWord]
    omega
  obtain ⟨taken, rest, hfraction, htake, hle⟩ := exists_appendDigits_eq hword n.fraction
  rw [← Nat.ofDigitChars_append] at htake hle
  have hpower : (([] : List Char).length : ℤ) - (n.fraction.length - rest.length : ℕ) + n.shift =
      n.shift - taken.length := by
    rw [hfraction, List.length_append, List.length_nil]
    omega
  obtain ⟨x, hx⟩ := Option.isSome_iff_exists.mp
    (isSome_scale_cut hle ((mul_zpow_le_value hfraction).trans h) 8)
  rw [toBinary64?, appendDigits_eq hword]
  simp only [htake, show n.exponent.elim 0 _ = n.shift from rfl]
  rw [if_neg fun hlarge => absurd hlarge.1 (by omega), hpower, hx]
  split_ifs <;> rfl

end Json.NumberText

/-! ### Decimals -/

namespace Decimal

open Binary64 (pow_toNat_div_pow_toNat_neg)

/-- The number a decimal denotes. -/
def value (d : Decimal) : ℚ :=
  Nat.ofDigitChars 10 d.digits 0 * 10 ^ (d.point - d.digits.length)

/-- Digits that do not begin with a zero. -/
structure IsProper (d : Decimal) : Prop where
  some : d.digits ≠ []
  digits : ∀ c ∈ d.digits, c.isDigit = true
  leading : d.digits.head? ≠ Option.some '0'

/-- Only trailing zeros are dropped from the digits of a natural number. -/
theorem exists_toDigits_eq (n : Nat) (power : ℤ) :
    ∃ zeros, Nat.toDigits 10 n = (ofScaled n power).digits ++ List.replicate zeros '0' := by
  refine ⟨((Nat.toDigits 10 n).reverse.takeWhile (· == '0')).length, ?_⟩
  have hzeros : (Nat.toDigits 10 n).reverse.takeWhile (· == '0') =
      List.replicate ((Nat.toDigits 10 n).reverse.takeWhile (· == '0')).length '0' :=
    List.eq_replicate_of_mem fun c hc => by simpa using List.mem_takeWhile_imp hc
  rw [← List.reverse_replicate, ← hzeros, ofScaled, ← List.reverse_append,
    List.takeWhile_append_dropWhile, List.reverse_reverse]

private theorem point_ofScaled (n : Nat) (power : ℤ) :
    (ofScaled n power).point = (Nat.toDigits 10 n).length + power := rfl

/-- A decimal denotes the natural number and the power of ten it is made of. -/
theorem value_ofScaled (n : Nat) (power : ℤ) : (ofScaled n power).value = n * 10 ^ power := by
  obtain ⟨zeros, hdigits⟩ := exists_toDigits_eq n power
  have hpoint : (ofScaled n power).point =
      ((ofScaled n power).digits.length : ℤ) + (zeros + power) := by
    have hlength := congrArg List.length hdigits
    rw [List.length_append, List.length_replicate] at hlength
    rw [point_ofScaled, hlength]
    push_cast
    ring
  have hn : 10 ^ zeros * Nat.ofDigitChars 10 (ofScaled n power).digits 0 = n := by
    rw [← Nat.ofDigitChars_replicate_zero, ← Nat.ofDigitChars_append, ← hdigits,
      Nat.ofDigitChars_ten_toDigits]
  rw [value, hpoint, add_sub_cancel_left, zpow_add₀ (by norm_num), zpow_natCast, ← mul_assoc,
    mul_comm (Nat.cast _)]
  congr 1
  exact_mod_cast hn

private theorem isProper_ofScaled {n : Nat} (h : n ≠ 0) (power : ℤ) :
    (ofScaled n power).IsProper := by
  obtain ⟨zeros, hdigits⟩ := exists_toDigits_eq n power
  have hleading := head?_toDigits_ne h
  have hsome : (ofScaled n power).digits ≠ [] := by
    intro hnone
    rw [hnone, List.nil_append] at hdigits
    rw [hdigits] at hleading
    cases zeros with
    | zero => exact Nat.toDigits_ne_nil hdigits
    | succ zeros => exact hleading rfl
  refine ⟨hsome, fun c hc => isDigit_toDigits n c ?_, ?_⟩
  · rw [hdigits]
    exact List.mem_append_left _ hc
  · rwa [hdigits, List.head?_append_of_ne_nil _ hsome] at hleading

/-- The point of a decimal gives the size of the number. -/
theorem ten_zpow_le_value {n : Nat} (h : n ≠ 0) (power : ℤ) :
    (10 : ℚ) ^ ((ofScaled n power).point - 1) ≤ (ofScaled n power).value := by
  have hlength : (Nat.toDigits 10 n).length ≠ 0 :=
    List.length_pos_of_ne_nil Nat.toDigits_ne_nil |>.ne'
  have hle : 10 ^ ((Nat.toDigits 10 n).length - 1) ≤ n := by
    by_cases hone : (Nat.toDigits 10 n).length = 1
    · rw [hone]
      exact Nat.one_le_iff_ne_zero.mpr h
    · by_contra hlt
      have := (Nat.length_toDigits_le_iff (by decide) (by omega)).mpr (not_le.mp hlt)
      omega
  have hpoint : (ofScaled n power).point - 1 =
      (((Nat.toDigits 10 n).length - 1 : ℕ) : ℤ) + power := by
    rw [point_ofScaled]
    omega
  rw [value_ofScaled, hpoint, zpow_add₀ (by norm_num), zpow_natCast]
  gcongr
  exact_mod_cast hle

namespace RoundingInterval

variable (r : RoundingInterval) (power : ℤ)

/-- The factor of the candidates. -/
def left : Nat := Nat.pow 10 power.toNat * Nat.pow 2 (-r.scale).toNat

/-- The factor of the ends of the interval. -/
def right : Nat := Nat.pow 2 r.scale.toNat * Nat.pow 10 (-power).toNat

/-- Whether a number with a power of ten lies in the interval. -/
def reads (n : Nat) : Bool :=
  if r.closed then r.lower * r.right power ≤ n * r.left power &&
    n * r.left power ≤ r.upper * r.right power
  else r.lower * r.right power < n * r.left power && n * r.left power < r.upper * r.right power

private theorem left_div_right : (r.left power / r.right power : ℚ) = 10 ^ power / 2 ^ r.scale := by
  have hten := pow_toNat_div_pow_toNat_neg 10 power
  have htwo := pow_toNat_div_pow_toNat_neg 2 r.scale
  rw [Nat.cast_ofNat] at hten htwo
  rw [← hten, ← htwo, left, right, Nat.cast_mul, Nat.cast_mul, div_div_div_eq,
    mul_comm (Nat.cast (Nat.pow 10 (-power).toNat))]

private theorem right_pos : 0 < r.right power :=
  Nat.mul_pos (Nat.pow_pos (by decide)) (Nat.pow_pos (by decide))

variable {r power}

/-- What lies in the interval is positive and does not exceed its upper end. -/
theorem le_of_reads {n : Nat} (hlower : r.lower ≠ 0) (h : r.reads power n = true) :
    n ≠ 0 ∧ (n * 10 ^ power : ℚ) ≤ r.upper * 2 ^ r.scale := by
  obtain ⟨hlow, hup⟩ : r.lower * r.right power ≤ n * r.left power ∧
      n * r.left power ≤ r.upper * r.right power := by
    rw [reads] at h
    split_ifs at h <;> simp only [Bool.and_eq_true, decide_eq_true_eq] at h
    · exact h
    · exact ⟨h.1.le, h.2.le⟩
  constructor
  · rintro rfl
    have := Nat.mul_pos (Nat.pos_of_ne_zero hlower) (r.right_pos power)
    omega
  · have hright : (0 : ℚ) < r.right power := by exact_mod_cast r.right_pos power
    have hcast : (n * r.left power : ℚ) ≤ r.upper * r.right power := by exact_mod_cast hup
    rw [← div_le_iff₀ hright, mul_div_assoc, left_div_right, ← mul_div_assoc,
      div_le_iff₀ (by positivity)] at hcast
    exact hcast

end RoundingInterval

/-- A candidate lies in the interval. -/
theorem exists_of_candidate {r : RoundingInterval} {tie : Tie} {point : ℤ} {count : Nat}
    {d : Decimal} (h : candidate r tie point count = Option.some d) :
    ∃ n, r.reads (point - count) n = true ∧ d = ofScaled n (point - count) := by
  unfold candidate at h
  dsimp only at h
  split at h
  · cases h
  · rename_i hbelow _
    exact ⟨_, hbelow, (Option.some.inj h).symm⟩
  · rename_i _ habove
    exact ⟨_, habove, (Option.some.inj h).symm⟩
  · rename_i hbelow habove
    have heither {p : Prop} [Decidable p] {a b : Nat} (ha : r.reads (point - count) a = true)
        (hb : r.reads (point - count) b = true) :
        r.reads (point - count) (if p then a else b) = true := by
      split_ifs
      · exact ha
      · exact hb
    exact ⟨_, heither habove hbelow, (Option.some.inj h).symm⟩

/-- **The shortest decimal** is a proper one, and exceeds the number by half of its last place at
most, or it is the significand. -/
theorem exists_shortest_eq (tie : Tie) {m : Nat} (hm : m ≠ 0) (e : ℤ) :
    ∃ n power, shortest tie m e = ofScaled n power ∧ n ≠ 0 ∧
      ((n * 10 ^ power : ℚ) ≤ (m + 1 / 2) * 2 ^ e ∨ (n * 10 ^ power : ℚ) = m) := by
  rw [shortest]
  cases hfind : (List.range 17).findSome? fun i => candidate (roundingInterval m e) tie
    (pointOf (m * Nat.pow 2 e.toNat) (Nat.pow 2 (-e).toNat)) (i + 1) with
  | none =>
    refine ⟨_, _, rfl, Nat.mul_ne_zero hm (Nat.pow_pos (by decide)).ne', ?_⟩
    rcases le_or_gt 0 e with h | h
    · obtain ⟨k, rfl⟩ := Int.eq_ofNat_of_zero_le h
      left
      rw [Int.toNat_natCast, Nat.cast_mul, Binary64.natCast_pow, zpow_zero, mul_one, zpow_natCast]
      gcongr
      · norm_num
      · norm_num
    · right
      rw [Int.toNat_of_nonpos h.le]
      simp
  | some d =>
    obtain ⟨i, -, hi⟩ := List.exists_of_findSome?_eq_some hfind
    obtain ⟨n, hreads, rfl⟩ := exists_of_candidate hi
    have hlower : (roundingInterval m e).lower ≠ 0 := by
      rw [roundingInterval]
      dsimp only
      split_ifs <;> omega
    obtain ⟨hn, hle⟩ := RoundingInterval.le_of_reads hlower hreads
    refine ⟨n, _, rfl, hn, Or.inl (hle.trans (le_of_eq ?_))⟩
    have hscale : (2 : ℚ) ^ (e - 2) = 2 ^ e / 4 := by
      rw [zpow_sub₀ two_ne_zero]
      norm_num
    rw [roundingInterval]
    dsimp only
    rw [hscale]
    push_cast
    ring

/-! ### The layout of recorded data -/

open Json

variable {d : Decimal} (negative : Bool)

/-- The text of a decimal below one. -/
def smallText (d : Decimal) : NumberText :=
  { negative
    whole := ['0']
    fraction := List.replicate (-d.point).toNat '0' ++ d.digits
    exponent := none }

/-- The text of a decimal from one upwards. -/
def plainText (d : Decimal) : NumberText :=
  { negative
    whole := d.digits.take d.point.toNat ++
      List.replicate (d.point.toNat - (d.digits.take d.point.toNat).length) '0'
    fraction :=
      if (d.digits.drop d.point.toNat).isEmpty then ['0'] else d.digits.drop d.point.toNat
    exponent := none }

/-- The text of a decimal with an exponent. -/
def scientificText (d : Decimal) : NumberText :=
  { negative
    whole := d.digits.take 1
    fraction := d.digits.drop 1
    exponent := some (decide (d.point - 1 < 0), Nat.toDigits 10 (d.point - 1).natAbs) }

/-- The text of a decimal in recorded data. -/
def numberText (d : Decimal) : NumberText :=
  if -5 ≤ d.point - 1 ∧ d.point - 1 ≤ 15 then
    if d.point ≤ 0 then d.smallText negative else d.plainText negative
  else d.scientificText negative

/-- What the layouts have in common: the text is a proper one that denotes the decimal, and its
whole part and its exponent are small. -/
structure IsText (d : Decimal) (n : NumberText) : Prop where
  proper : n.IsProper
  length_whole : n.whole.length ≤ 19
  shift : n.shift ≤ max 0 (d.point - 1)
  value : n.value = d.value

variable {negative}

/-- A text denotes the decimal if its digits are those of the decimal between zeros, and its
exponent makes up for the zeros behind. -/
theorem value_eq_of_digits {n : NumberText} (before behind : Nat)
    (hdigits : n.whole ++ n.fraction =
      List.replicate before '0' ++ (d.digits ++ List.replicate behind '0'))
    (hexponent : behind + (n.shift - n.fraction.length) = d.point - d.digits.length) :
    n.value = d.value := by
  have hvalue : Nat.ofDigitChars 10 (n.whole ++ n.fraction) 0 =
      10 ^ behind * Nat.ofDigitChars 10 d.digits 0 := by
    rw [hdigits, Nat.ofDigitChars_append, Nat.ofDigitChars_replicate_zero, Nat.ofDigitChars_append,
      Nat.ofDigitChars_replicate_zero, Nat.mul_zero]
  rw [NumberText.value, Decimal.value, hvalue, ← hexponent, zpow_add₀ (by norm_num), zpow_natCast]
  push_cast
  ring

private theorem isText_smallText (h : d.IsProper) (hpoint : d.point ≤ 0) :
    d.IsText (d.smallText negative) where
  proper := {
    whole := by simp [smallText]
    someWhole := List.cons_ne_nil _ _
    leading := fun _ => rfl
    fraction := by
      intro c hc
      rcases List.mem_append.mp hc with hc | hc
      · rw [List.eq_of_mem_replicate hc]
        rfl
      · exact h.digits c hc
    exponent := nofun }
  length_whole := by simp [smallText]
  shift := le_max_left ..
  value := by
    refine value_eq_of_digits ((-d.point).toNat + 1) 0 ?_ ?_
    · rw [smallText, List.replicate_succ, List.replicate_zero, List.append_nil]
      rfl
    · have hshift : (d.smallText negative).shift = 0 := rfl
      rw [hshift, smallText, List.length_append, List.length_replicate]
      omega

private theorem plainText_of_le (h : d.digits.length ≤ d.point.toNat) :
    d.plainText negative =
      { negative
        whole := d.digits ++ List.replicate (d.point.toNat - d.digits.length) '0'
        fraction := ['0']
        exponent := none } := by
  rw [plainText, List.take_of_length_le h, List.drop_eq_nil_of_le h]
  rfl

private theorem plainText_of_lt (h : d.point.toNat < d.digits.length) :
    d.plainText negative =
      { negative
        whole := d.digits.take d.point.toNat
        fraction := d.digits.drop d.point.toNat
        exponent := none } := by
  have hdrop : (d.digits.drop d.point.toNat).isEmpty = false := by
    rw [List.isEmpty_eq_false_iff, Ne, List.drop_eq_nil_iff]
    omega
  rw [plainText, hdrop, List.length_take_of_le h.le, Nat.sub_self, List.replicate_zero,
    List.append_nil]
  rfl

/-- The whole part of a decimal from one upwards begins with the first digit. -/
theorem head?_whole_plainText (negative : Bool) (h : d.IsProper) (hpoint : 0 < d.point) :
    (d.plainText negative).whole.head? = d.digits.head? := by
  rcases le_or_gt d.digits.length d.point.toNat with hle | hlt
  · rw [plainText_of_le hle, List.head?_append_of_ne_nil _ h.some]
  · rw [plainText_of_lt hlt, List.head?_take, if_neg (by omega)]

private theorem isText_plainText (h : d.IsProper) (hpoint : 0 < d.point) (hplain : d.point ≤ 16) :
    d.IsText (d.plainText negative) where
  proper := {
    whole := by
      intro c hc
      rcases List.mem_append.mp hc with hc | hc
      · exact h.digits c (List.mem_of_mem_take hc)
      · rw [List.eq_of_mem_replicate hc]
        rfl
    someWhole := by
      intro hnone
      have hhead := head?_whole_plainText negative h hpoint
      rw [hnone] at hhead
      exact h.some (List.head?_eq_none_iff.mp hhead.symm)
    leading := fun hzero =>
      absurd ((head?_whole_plainText negative h hpoint).symm.trans hzero) h.leading
    fraction := by
      rcases le_or_gt d.digits.length d.point.toNat with hle | hlt
      · rw [plainText_of_le hle]
        simp
      · rw [plainText_of_lt hlt]
        exact fun c hc => h.digits c (List.mem_of_mem_drop hc)
    exponent := nofun }
  length_whole := by
    rw [plainText, List.length_append, List.length_replicate, List.length_take]
    omega
  shift := le_max_left ..
  value := by
    have hshift (n : NumberText) (hnone : n.exponent = none) : n.shift = 0 := by
      rw [NumberText.shift, hnone]
      rfl
    rcases le_or_gt d.digits.length d.point.toNat with hle | hlt
    · rw [plainText_of_le hle]
      refine value_eq_of_digits 0 (d.point.toNat - d.digits.length + 1) ?_ ?_
      · rw [List.replicate_succ']
        exact List.append_assoc ..
      · rw [hshift _ rfl, List.length_singleton]
        omega
    · rw [plainText_of_lt hlt]
      refine value_eq_of_digits 0 0 ?_ ?_
      · rw [List.take_append_drop, List.replicate_zero, List.append_nil]
        rfl
      · rw [hshift _ rfl, List.length_drop]
        omega

private theorem shift_scientificText (negative : Bool) (d : Decimal) :
    (d.scientificText negative).shift = d.point - 1 := by
  have hdigits : Binary64.digitsValue (Nat.toDigits 10 (d.point - 1).natAbs) =
      (d.point - 1).natAbs := Nat.ofDigitChars_ten_toDigits
  rw [NumberText.shift, scientificText, Option.elim_some]
  simp only [hdigits, decide_eq_true_eq]
  split_ifs <;> omega

private theorem isText_scientificText (h : d.IsProper) : d.IsText (d.scientificText negative) where
  proper := {
    whole := fun c hc => h.digits c (List.mem_of_mem_take hc)
    someWhole := by
      simp [scientificText, h.some]
    leading := by
      intro hhead
      rw [scientificText, List.head?_take, if_neg (by decide)] at hhead
      exact absurd hhead h.leading
    fraction := fun c hc => h.digits c (List.mem_of_mem_drop hc)
    exponent := by
      rintro down digits ⟨⟩
      exact ⟨Nat.toDigits_ne_nil, isDigit_toDigits _⟩ }
  length_whole := (List.length_take_le ..).trans (by decide)
  shift := by
    rw [shift_scientificText]
    exact le_max_right ..
  value := by
    refine value_eq_of_digits 0 0 ?_ ?_
    · rw [scientificText, List.take_append_drop, List.replicate_zero, List.append_nil]
      rfl
    · have hlength := List.length_pos_of_ne_nil h.some
      rw [shift_scientificText, scientificText, List.length_drop]
      omega

/-- **The text of a decimal** is a proper one that denotes the decimal. -/
theorem isText_numberText (negative : Bool) (h : d.IsProper) :
    d.IsText (d.numberText negative) := by
  rw [numberText]
  split_ifs with hplain hsmall
  · exact isText_smallText h hsmall
  · exact isText_plainText h (not_le.mp hsmall) (by omega)
  · exact isText_scientificText h

private theorem negative_numberText (negative : Bool) (d : Decimal) :
    (d.numberText negative).negative = negative := by
  rw [numberText]
  split_ifs <;> rfl

/-- **The layout of recorded data** arranges the digits as the parts of the text say. -/
theorem written_numberText (h : d.IsProper) :
    (d.numberText negative).written =
      (if negative then ['-'] else []) ++ FloatLayout.data.arrange d := by
  rw [NumberText.written, negative_numberText]
  congr 1
  rw [FloatLayout.arrange, numberText]
  simp only [FloatLayout.data, NumberText.fractionText, NumberText.exponentText]
  by_cases hplain : -5 ≤ d.point - 1 ∧ d.point - 1 ≤ 15
  · rw [if_pos hplain, if_pos hplain]
    by_cases hsmall : d.point ≤ 0
    · rw [if_pos hsmall, if_pos hsmall]
      simp [smallText, h.some]
    · rw [if_neg hsmall, if_neg hsmall]
      have hfraction : (d.plainText negative).fraction ≠ [] := by
        rw [plainText]
        dsimp only
        split_ifs with hnone
        · exact List.cons_ne_nil _ _
        · simpa using hnone
      rw [if_neg hfraction, plainText]
      simp
  · obtain ⟨c, cs, hdigits⟩ := List.exists_cons_of_ne_nil h.some
    rw [if_neg hplain, if_neg hplain, hdigits]
    cases cs <;> by_cases hneg : d.point - 1 < 0 <;> simp [scientificText, hdigits, hneg]

end Decimal

/-! ### Integers -/

namespace Json

open NumberText

/-- **Integers** are written as proper texts that read back. -/
theorem exists_ofInt_eq (i : Int64) :
    ∃ n : NumberText, n.IsProper ∧ ofInt i.toInt = .number n.written ∧ n.toInt64? = some i := by
  refine ⟨{ negative := decide (i.toInt < 0), whole := Nat.toDigits 10 i.toInt.natAbs,
            fraction := [], exponent := none }, ?_, ?_, ?_⟩
  · exact {
      whole := isDigit_toDigits _
      someWhole := Nat.toDigits_ne_nil
      leading := toDigits_eq_of_head?
      fraction := by simp
      exponent := nofun }
  · rw [ofInt, written]
    by_cases hneg : i.toInt < 0 <;> simp [hneg, fractionText, exponentText]
  · have hdigits : Binary64.digitsValue (Nat.toDigits 10 i.toInt.natAbs) = i.toInt.natAbs :=
      Nat.ofDigitChars_ten_toDigits
    have hmin := i.minValue_le_toInt
    have hmax := i.toInt_le
    have hvalue : (if decide (i.toInt < 0) then -(i.toInt.natAbs : ℤ) else i.toInt.natAbs) =
        i.toInt := by
      split_ifs with hneg <;> simp only [decide_eq_true_eq] at hneg <;> omega
    have hzero : (decide (i.toInt < 0) && (i.toInt.natAbs : ℤ) == 0) = false := by
      rw [Bool.and_eq_false_iff, decide_eq_false_iff_not, beq_eq_false_iff_ne]
      omega
    have hmin' : decide (Int64.minValue.toInt ≤ i.toInt) = true := decide_eq_true hmin
    have hmax' : decide (i.toInt ≤ Int64.maxValue.toInt) = true := decide_eq_true hmax
    rw [toInt64?]
    simp only [hdigits, hvalue, hzero, hmin', hmax', Int64.ofInt_toInt]
    rfl

end Json

/-! ### Floating-point numbers -/

namespace Binary64

open Json Decimal

/-- The greatest numbers, whose texts leave the range that is safe for all, are read nonetheless. -/
theorem isSome_toBinary64?_greatest : ∀ negative, ∀ m ∈ [2 ^ 53 - 3, 2 ^ 53 - 2, 2 ^ 53 - 1],
    (((shortest .even m maxExponent).numberText negative).toBinary64?).isSome = true := by
  decide +kernel

/-- All other numbers stay in the safe range with half of their last place added. -/
theorem le_safe_or {m : Nat} {e : ℤ} (hm : m < significandBound) (he : e ≤ maxExponent) :
    ((m + 1 / 2) * 2 ^ e : ℚ) ≤ safe ∨
      m ∈ [2 ^ 53 - 3, 2 ^ 53 - 2, 2 ^ 53 - 1] ∧ e = maxExponent := by
  have hbound : significandBound = 2 ^ 53 := rfl
  have hlast : (2 : ℚ) ^ maxExponent = 2 ^ 971 := zpow_natCast 2 971
  rw [hbound] at hm
  by_cases hlt : e < maxExponent
  · left
    have hcast : (m : ℚ) ≤ 2 ^ 53 - 1 := by
      have : m + 1 ≤ 2 ^ 53 := hm
      have hle : (m + 1 : ℚ) ≤ 2 ^ 53 := by exact_mod_cast this
      linarith
    calc ((m + 1 / 2) * 2 ^ e : ℚ) ≤ (2 ^ 53 - 1 + 1 / 2) * 2 ^ (maxExponent - 1) := by
          gcongr
          · norm_num
          · omega
      _ = (2 ^ 53 - 1 + 1 / 2) / 2 * 2 ^ 971 := by
          rw [zpow_sub_one₀ two_ne_zero, hlast, ← div_eq_mul_inv, mul_div_assoc',
            div_mul_eq_mul_div]
      _ ≤ safe := mul_le_mul_of_nonneg_right (by norm_num) (by positivity)
  · obtain rfl : e = maxExponent := le_antisymm he (not_lt.mp hlt)
    by_cases hsmall : m ≤ 2 ^ 53 - 4
    · left
      have hcast : (m : ℚ) ≤ 2 ^ 53 - 4 := by
        have hle : (m : ℚ) ≤ ((2 ^ 53 - 4 : ℕ) : ℚ) := Nat.cast_le.mpr hsmall
        norm_num at hle ⊢
        exact hle
      rw [hlast, safe]
      gcongr
      linarith
    · right
      simp only [List.mem_cons, List.not_mem_nil, or_false, and_true]
      omega

/-- The text of a decimal that is made of a positive number in the safe range is read. -/
theorem isSome_toBinary64?_numberText (negative : Bool) {n : Nat} (hn : n ≠ 0) {power : ℤ}
    (h : (n * 10 ^ power : ℚ) ≤ safe) :
    ((ofScaled n power).numberText negative).toBinary64?.isSome := by
  have htext := isText_numberText negative (isProper_ofScaled hn power)
  have hvalue : (ofScaled n power).value ≤ safe := (value_ofScaled n power).trans_le h
  have hpoint : (10 : ℚ) ^ ((ofScaled n power).point - 1) < 10 ^ (309 : ℤ) :=
    ((ten_zpow_le_value hn power).trans hvalue).trans_lt
      (by exact_mod_cast NumberText.safe_lt_ten_pow)
  have hshift := htext.shift
  rw [zpow_lt_zpow_iff_right₀ (by norm_num)] at hpoint
  refine NumberText.isSome_toBinary64? htext.proper.whole htext.length_whole ?_
    (htext.value.trans_le hvalue)
  rw [NumberText.maxExponent]
  omega

/-- **Finite numbers** are written as proper texts that read back. -/
theorem exists_dataText?_eq {s : Bool} {m : Nat} {e : ℤ} (h : IsRepresentable (finite s m e)) :
    ∃ n : NumberText, n.IsProper ∧ (finite s m e).dataText? = some (String.ofList n.written) ∧
      n.toBinary64?.isSome := by
  obtain ⟨hm, -, he⟩ := h
  rw [dataText?, FloatLayout.finiteText]
  by_cases hzero : m = 0
  · refine ⟨{ negative := s, whole := ['0'], fraction := ['0'], exponent := none }, ?_, ?_, ?_⟩
    · exact {
        whole := by simp
        someWhole := List.cons_ne_nil _ _
        leading := fun _ => rfl
        fraction := by simp
        exponent := nofun }
    · rw [if_pos hzero]
      rfl
    · cases s <;> rfl
  · obtain ⟨n, power, heq, hn, hle⟩ := exists_shortest_eq .even hzero e
    have hproper := isProper_ofScaled hn power
    refine ⟨(ofScaled n power).numberText s, (isText_numberText s hproper).proper, ?_, ?_⟩
    · rw [written_numberText hproper, if_neg hzero, ← heq]
      rfl
    · rcases hle with hle | heq'
      · rcases le_safe_or hm he with hsafe | ⟨hgreat, rfl⟩
        · exact isSome_toBinary64?_numberText s hn (hle.trans hsafe)
        · rw [← heq]
          exact isSome_toBinary64?_greatest s m hgreat
      · refine isSome_toBinary64?_numberText s hn (heq'.trans_le ?_)
        have hword : m ≤ NumberText.maxWord := hm.le.trans (by decide)
        exact (Nat.cast_le.mpr hword).trans NumberText.maxWord_le_safe

end Binary64

end MockAudit
