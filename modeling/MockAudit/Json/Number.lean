import MockAudit.Json.Basic
import MockAudit.Numeric.Decimal

/-!
# Numbers in JSON documents

The text of a number is read as an integer of 64 bits or as a floating-point number. The latter
takes the leading digits that fit a word of 64 bits and scales them by a rounded power of ten, so
that long texts may miss the nearest number by a little.
-/

namespace MockAudit.Json

/-- The parts of the text of a number. -/
structure NumberText where
  negative : Bool
  whole : List Char
  fraction : List Char
  /-- Whether the exponent is negative, and its digits. -/
  exponent : Option (Bool × List Char)

namespace NumberText

/-- Takes the text of a number apart. -/
def ofText (text : List Char) : NumberText :=
  let (negative, body) := match text with
    | '-' :: rest => (true, rest)
    | other => (false, other)
  let whole := body.takeWhile Char.isDigit
  let (fraction, rest) := match body.dropWhile Char.isDigit with
    | '.' :: tail => (tail.takeWhile Char.isDigit, tail.dropWhile Char.isDigit)
    | other => ([], other)
  let exponent := match rest with
    | [] => none
    | _ :: tail => some (Binary64.splitSign tail)
  { negative, whole, fraction, exponent }

/-- Whether the number has neither fraction nor exponent. -/
def isWhole (n : NumberText) : Bool :=
  n.fraction.isEmpty && n.exponent.isNone

/-- The greatest word of 64 bits. -/
def maxWord : Nat := 18446744073709551615

/-- Appends digits to a word as long as the result is a word, and returns the digits left. -/
def appendDigits : Nat → List Char → Nat × List Char
  | word, [] => (word, [])
  | word, c :: cs =>
    let next := 10 * word + (c.toNat - '0'.toNat)
    if maxWord < next then (word, c :: cs) else appendDigits next cs

/-- The greatest exponent that is computed with. -/
def maxExponent : Int := 2147483647

/-- Scales a number by a power of ten in steps whose powers of ten are representable. -/
def scale (fuel : Nat) (x : Binary64) (exponent : Int) : Option Binary64 :=
  if exponent.natAbs ≤ 308 then
    if 0 ≤ exponent then
      let y := x.timesPowerOfTen exponent.toNat
      if y.isInfinite then none else some y
    else some (x.overPowerOfTen exponent.natAbs)
  else if x.isZero then some x
  else if 0 ≤ exponent then none
  else match fuel with
    | 0 => some x
    | fuel + 1 => scale fuel (x.overPowerOfTen 308) (exponent + 308)

/-- The floating-point number a text denotes, unless it is too large. -/
def toBinary64? (n : NumberText) : Option Binary64 := do
  let (word, restWhole) := appendDigits 0 n.whole
  let (word, restFraction) := appendDigits word n.fraction
  let power : Int := restWhole.length - (n.fraction.length - restFraction.length : Nat)
  let shift : Int := n.exponent.elim 0 fun (down, digits) =>
    let size : Int := Binary64.digitsValue digits
    if down then -size else size
  let magnitude ←
    if maxExponent < shift ∧ word ≠ 0 then none
    else if maxExponent < shift.natAbs then some (Binary64.ofRatio false 0 1)
    else
      scale 8 (Binary64.ofRatio false word 1)
        (max (-maxExponent) (min maxExponent (power + shift)))
  return if n.negative then magnitude.negate else magnitude

/-- The integer of 64 bits a text denotes. A zero with a sign is no integer. -/
def toInt64? (n : NumberText) : Option Int64 :=
  let size : Int := Binary64.digitsValue n.whole
  let value := if n.negative then -size else size
  if n.isWhole && !(n.negative && size == 0) && Int64.minValue.toInt ≤ value
      && value ≤ Int64.maxValue.toInt then
    some (Int64.ofInt value)
  else none

end NumberText

end MockAudit.Json
