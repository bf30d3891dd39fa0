import MockAudit.Numeric.Binary64

/-!
# Decimal texts of floating-point numbers

A finite number is written with the fewest digits that read back as the number, and of those the
nearest to it. Where the point stands and when an exponent is used is a matter of the layout, of
which there are two: one for people and one for recorded data.
-/

namespace MockAudit

/-- The decimal fraction `0.d₁d₂…dₙ · 10 ^ point`. -/
structure Decimal where
  digits : List Char
  point : Int

namespace Decimal

/-- The digits of a natural number without its trailing zeros, scaled by a power of ten. -/
def ofScaled (n : Nat) (power : Int) : Decimal :=
  let digits := Nat.toDigits 10 n
  { digits := (digits.reverse.dropWhile (· == '0')).reverse
    point := digits.length + power }

/-- The position of the point of a positive quotient: `10 ^ (p - 1) ≤ num / den < 10 ^ p`. -/
def pointOf (num den : Nat) : Int :=
  if den ≤ num then (Nat.toDigits 10 (num / den)).length
  else 1 - ((Nat.toDigits 10 ((den + num - 1) / num - 1)).length : Int)

/-- The reals that round to a positive number, in quarters of its last place. -/
structure RoundingInterval where
  lower : Nat
  value : Nat
  upper : Nat
  closed : Bool
  scale : Int

/-- The reals that round to `m · 2 ^ e`. Below a power of two the neighbours lie half as far
apart; the ends round to the number exactly if its significand is even. -/
def roundingInterval (m : Nat) (e : Int) : RoundingInterval :=
  let narrow := m = Binary64.significandBound / 2 ∧ Binary64.minExponent < e
  { lower := if narrow then 4 * m - 1 else 4 * m - 2
    value := 4 * m
    upper := 4 * m + 2
    closed := m % 2 == 0
    scale := e - 2 }

/-- Which way a number goes that lies half-way between two shortest candidates. -/
inductive Tie
  | up
  | even

/-- A decimal with the given number of digits that reads back as the number, if there is one; of
two such neighbours of the number the nearer one. -/
def candidate (r : RoundingInterval) (tie : Tie) (point : Int) (count : Nat) : Option Decimal :=
  let power := point - count
  -- With these factors `n * left` and `b * right` compare `n * 10 ^ power` with `b * 2 ^ scale`.
  let left := Nat.pow 10 power.toNat * Nat.pow 2 (-r.scale).toNat
  let right := Nat.pow 2 r.scale.toNat * Nat.pow 10 (-power).toNat
  let reads (n : Nat) : Bool :=
    if r.closed then r.lower * right ≤ n * left && n * left ≤ r.upper * right
    else r.lower * right < n * left && n * left < r.upper * right
  let below := r.value * right / left
  let above := below + 1
  let gapBelow := r.value * right - below * left
  let gapAbove := above * left - r.value * right
  match reads below, reads above with
  | false, false => none
  | true, false => some (ofScaled below power)
  | false, true => some (ofScaled above power)
  | true, true =>
    let takeAbove : Bool := match tie with
      | .up => gapAbove ≤ gapBelow
      | .even => gapAbove < gapBelow || (gapAbove == gapBelow && above % 2 == 0)
    some (ofScaled (if takeAbove then above else below) power)

/-- The shortest decimal that reads back as `m · 2 ^ e`, for a positive `m`. Seventeen digits are
always enough. -/
def shortest (tie : Tie) (m : Nat) (e : Int) : Decimal :=
  let point := pointOf (m * Nat.pow 2 e.toNat) (Nat.pow 2 (-e).toNat)
  let r := roundingInterval m e
  ((List.range 17).findSome? fun i => candidate r tie point (i + 1)).getD
    (ofScaled (m * Nat.pow 2 e.toNat) 0)

end Decimal

/-- How the digits of a finite number are laid out. -/
structure FloatLayout where
  /-- The least decimal exponent that is written with a point only. -/
  leastPlain : Int
  /-- The greatest decimal exponent that is written with a point only. -/
  greatestPlain : Int
  /-- Whether an exponent that is not negative has a sign. -/
  plusSign : Bool
  tie : Decimal.Tie

namespace FloatLayout

/-- The layout of numbers in messages: a point from `1e-4` up to `1e16`, and no plus sign. -/
def display : FloatLayout := ⟨-4, 15, false, .up⟩

/-- The layout of numbers in recorded data: a point from `1e-5` up to `1e16`, and a plus sign. -/
def data : FloatLayout := ⟨-5, 15, true, .even⟩

/-- The digits of a positive number with point and exponent; the point is never the last mark. -/
def arrange (layout : FloatLayout) (d : Decimal) : List Char :=
  let exponent := d.point - 1
  if layout.leastPlain ≤ exponent ∧ exponent ≤ layout.greatestPlain then
    if d.point ≤ 0 then
      ['0', '.'] ++ List.replicate (-d.point).toNat '0' ++ d.digits
    else
      let count := d.point.toNat
      let whole := d.digits.take count
      let fraction := d.digits.drop count
      whole ++ List.replicate (count - whole.length) '0' ++ ['.']
        ++ (if fraction.isEmpty then ['0'] else fraction)
  else
    let mantissa := match d.digits with
      | [] => []
      | [c] => [c]
      | c :: rest => c :: '.' :: rest
    let sign := if exponent < 0 then ['-'] else if layout.plusSign then ['+'] else []
    mantissa ++ ['e'] ++ sign ++ Nat.toDigits 10 exponent.natAbs

/-- The text of a finite number. -/
def finiteText (layout : FloatLayout) (negative : Bool) (m : Nat) (e : Int) : String :=
  let magnitude :=
    if m = 0 then ['0', '.', '0'] else layout.arrange (Decimal.shortest layout.tie m e)
  String.ofList ((if negative then ['-'] else []) ++ magnitude)

end FloatLayout

namespace Binary64

/-- The text of a number in messages. -/
def text : Binary64 → String
  | nan => "NaN"
  | infinite false => "inf"
  | infinite true => "-inf"
  | finite s m e => FloatLayout.display.finiteText s m e

/-- The text of a number in recorded data, which has none for infinities and for what is no
number. -/
def dataText? : Binary64 → Option String
  | finite s m e => some (FloatLayout.data.finiteText s m e)
  | _ => none

/-- The value of a list of decimal digits. -/
def digitsValue (cs : List Char) : Nat :=
  cs.foldl (fun n c => 10 * n + (c.toNat - '0'.toNat)) 0

/-- Splits a text into an optional sign and the rest. -/
def splitSign : List Char → Bool × List Char
  | '-' :: rest => (true, rest)
  | '+' :: rest => (false, rest)
  | rest => (false, rest)

/-- Reads decimal notation with an optional point and exponent, and the names of the special
numbers. -/
def parse? (s : String) : Option Binary64 :=
  let (negative, body) := splitSign s.toList
  if body = "inf".toList then some (infinite negative)
  else if body = "NaN".toList then some nan
  else
    let whole := body.takeWhile Char.isDigit
    let rest := body.dropWhile Char.isDigit
    let (fraction, rest) := match rest with
      | '.' :: tail => (tail.takeWhile Char.isDigit, tail.dropWhile Char.isDigit)
      | other => ([], other)
    let number := digitsValue (whole ++ fraction)
    if whole.isEmpty && fraction.isEmpty then none
    else match rest with
      | [] => some (ofDecimal negative number (-fraction.length))
      | mark :: tail =>
        let (down, digits) := splitSign tail
        if (mark = 'e' ∨ mark = 'E') ∧ digits.all Char.isDigit ∧ digits ≠ [] then
          let power : Int := digitsValue digits
          some (ofDecimal negative number ((if down then -power else power) - fraction.length))
        else none

end Binary64

end MockAudit
