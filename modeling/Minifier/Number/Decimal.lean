import Minifier.Number.Basic

/-!
# Decimals and the doubles nearest to them

A `Decimal` is a natural number times a power of ten. `Number.ofDecimal` is the double nearest to
it, a tie going to the even significand, and `Number.ofRadix` reads digits of a base that is a
power of two, rounding after each digit.
-/

set_option autoImplicit false

namespace Minifier

/-- The value `digits * 10 ^ exponent`. -/
structure Decimal where
  digits : Nat
  exponent : Int
deriving DecidableEq, Repr

/-- How many decimal digits a natural number has. -/
def digitCount (n : Nat) : Nat := (Nat.toDigits 10 n).length

namespace Number

/-- The quotient to the nearest natural number, a tie going to the even one. -/
def roundQuotient (num den : Nat) : Nat :=
  let quotient := num / den
  let twice := 2 * (num % den)
  if twice < den then quotient
  else if den < twice then quotient + 1
  else quotient + quotient % 2

/-- The exponent of the largest power of two that is at most `num / den`. -/
def floorLog2 (num den : Nat) : Int :=
  let guess : Int := (Nat.log2 num : Int) - Nat.log2 den
  if num * twoTo (-guess).toNat < den * twoTo guess.toNat then guess - 1 else guess

/-- The double nearest to the positive quotient `num / den`. -/
def ofRatio (num den : Nat) : Number :=
  let exponent := max (floorLog2 num den - 52) (-1074)
  let significand := roundQuotient (num * twoTo (-exponent).toNat) (den * twoTo exponent.toNat)
  let bits := (exponent + 1074).toNat * twoTo 52 + significand
  if infinity.bits.toNat ≤ bits then infinity else ⟨bits.toUInt64⟩

/-- The double nearest to a decimal. Decimals far outside the range of doubles are settled by
their size alone. -/
def ofDecimal (d : Decimal) : Number :=
  let size : Int := digitCount d.digits + d.exponent
  if d.digits = 0 then zero
  else if 310 < size then infinity
  else if size < -330 then zero
  else ofRatio (d.digits * tenTo d.exponent.toNat) (tenTo (-d.exponent).toNat)

/-- The whole part of a finite number. -/
def toNat (x : Number) : Nat :=
  x.significand * twoTo x.exponent.toNat / twoTo (-x.exponent).toNat

/-- Digits in a base that is a power of two, most significant first. The value is rounded after
each digit; past the largest double it stays infinite. -/
def ofRadix (radix : Nat) (digits : List Nat) : Number :=
  digits.foldl
    (fun acc digit =>
      if acc.isInfinite then acc
      else
        let next := acc.toNat * radix + digit
        if next = 0 then zero else ofRatio next 1)
    zero

end Number

end Minifier
