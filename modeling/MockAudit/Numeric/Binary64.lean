/-!
# Binary floating-point numbers of 64 bits

A finite number is a sign, a significand below `2 ^ 53` and a power of two. Comparison is exact,
and a quotient of natural numbers is rounded to the nearest representable number, a half going to
the even neighbour.
-/

namespace MockAudit

/-- A floating-point number; the two zeros differ in their sign only. -/
inductive Binary64
  | nan
  | infinite (negative : Bool)
  | finite (negative : Bool) (significand : Nat) (exponent : Int)
deriving DecidableEq

namespace Binary64

/-- The least exponent of a finite number. -/
def minExponent : Int := -1074

/-- The greatest exponent of a finite number. -/
def maxExponent : Int := 971

/-- Significands lie below this bound, and those of the numbers that are not tiny reach half. -/
def significandBound : Nat := Nat.pow 2 53

/-- Whether two significands with their powers of two denote one number. -/
def sameMagnitude (m : Nat) (e : Int) (m' : Nat) (e' : Int) : Bool :=
  m * Nat.pow 2 (e - e').toNat == m' * Nat.pow 2 (e' - e).toNat

/-- Numeric equality: the zeros are equal and nothing equals a number that is undefined. -/
def equal : Binary64 → Binary64 → Bool
  | infinite s, infinite s' => s == s'
  | finite s m e, finite s' m' e' =>
    (m == 0 && m' == 0) || (s == s' && sameMagnitude m e m' e')
  | _, _ => false

theorem sameMagnitude_comm (m : Nat) (e : Int) (m' : Nat) (e' : Int) :
    sameMagnitude m e m' e' = sameMagnitude m' e' m e := by
  simp only [sameMagnitude, Bool.beq_comm (a := m * _)]

/-- Numeric equality is symmetric. -/
theorem equal_comm (x y : Binary64) : x.equal y = y.equal x := by
  match x, y with
  | infinite s, infinite s' => exact Bool.beq_comm
  | finite s m e, finite s' m' e' =>
    simp only [equal]
    rw [sameMagnitude_comm, Bool.and_comm (m == 0), Bool.beq_comm (a := s)]
  | nan, nan | nan, infinite _ | nan, finite .. | infinite _, nan | infinite _, finite ..
  | finite .., nan | finite .., infinite _ => rfl

/-- A number that is defined equals itself. -/
theorem equal_self {x : Binary64} (h : x ≠ nan) : x.equal x = true := by
  cases x <;> simp_all [equal, sameMagnitude]

/-- A quotient rounded to an integer, a half going to the even neighbour. -/
def roundHalfEven (num den : Nat) : Nat :=
  let quotient := num / den
  let remainder := num % den
  if 2 * remainder < den then quotient
  else if den < 2 * remainder then quotient + 1
  else quotient + quotient % 2

/-- The exponent for which the quotient has a significand of full width. -/
def exponentFor (num den : Nat) : Int :=
  let a : Int := num.log2
  let b : Int := den.log2
  let fits := den * Nat.pow 2 (a - b).toNat ≤ num * Nat.pow 2 (b - a).toNat
  max minExponent (if fits then a - b - 52 else a - b - 53)

/-- The number nearest to a quotient of natural numbers with the given sign. -/
def ofRatio (negative : Bool) (num den : Nat) : Binary64 :=
  if num = 0 then finite negative 0 minExponent
  else
    let e := exponentFor num den
    let m := roundHalfEven (num * Nat.pow 2 (-e).toNat) (den * Nat.pow 2 e.toNat)
    let (m, e) := if m = significandBound then (significandBound / 2, e + 1) else (m, e)
    if maxExponent < e then infinite negative else finite negative m e

/-- The number nearest to an integer. -/
def ofInt (i : Int) : Binary64 :=
  ofRatio (decide (i < 0)) i.natAbs 1

/-- The number nearest to `digits * 10 ^ power`. Powers far outside the range of the format are
decided without being computed. -/
def ofDecimal (negative : Bool) (digits : Nat) (power : Int) : Binary64 :=
  let width : Int := (Nat.toDigits 10 digits).length
  if digits = 0 ∨ width + power < -400 then finite negative 0 minExponent
  else if 400 < width + power then infinite negative
  else ofRatio negative (digits * Nat.pow 10 power.toNat) (Nat.pow 10 (-power).toNat)

/-- The same number with the opposite sign. -/
def negate : Binary64 → Binary64
  | nan => nan
  | infinite s => infinite !s
  | finite s m e => finite (!s) m e

/-- Whether the number has a sign. -/
def isNegative : Binary64 → Bool
  | nan => false
  | infinite s => s
  | finite s _ _ => s

/-- Whether the number is one of the two zeros. -/
def isZero : Binary64 → Bool
  | finite _ m _ => m == 0
  | _ => false

/-- Whether the number is an infinity. -/
def isInfinite : Binary64 → Bool
  | infinite _ => true
  | _ => false

/-- The rounded product. -/
def mul (x y : Binary64) : Binary64 :=
  let sign := x.isNegative != y.isNegative
  match x, y with
  | finite _ m e, finite _ m' e' =>
    ofRatio sign (m * m' * Nat.pow 2 (e + e').toNat) (Nat.pow 2 (-(e + e')).toNat)
  | nan, _ | _, nan => nan
  | x, y => if x.isZero || y.isZero then nan else infinite sign

/-- The integer of 64 bits between zero and the number that is nearest to the number; zero if the
number is undefined. -/
def truncate : Binary64 → Int64
  | nan => 0
  | infinite s => if s then Int64.minValue else Int64.maxValue
  | finite s m e =>
    let size : Int := (m * Nat.pow 2 e.toNat / Nat.pow 2 (-e).toNat : Nat)
    let i := if s then -size else size
    Int64.ofInt (max Int64.minValue.toInt (min Int64.maxValue.toInt i))

/-- The rounded product with a power of ten. -/
def timesPowerOfTen (x : Binary64) (k : Nat) : Binary64 :=
  x.mul (ofRatio false (Nat.pow 10 k) 1)

/-- The rounded quotient of a number by a power of ten that is not negative. -/
def overPowerOfTen (x : Binary64) (k : Nat) : Binary64 :=
  match x, ofRatio false (Nat.pow 10 k) 1 with
  | finite s m e, finite _ m' e' =>
    ofRatio s (m * Nat.pow 2 (e - e').toNat) (m' * Nat.pow 2 (e' - e).toNat)
  | x, _ => x

end Binary64

end MockAudit
