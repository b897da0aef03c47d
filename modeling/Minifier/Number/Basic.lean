/-!
# Numbers

A number of the language is an IEEE 754 double, held as its 64 bits. A finite number is its
significand times a power of two; every function here reads the bits and computes in exact natural
numbers, so nothing depends on the machine's floating point.
-/

set_option autoImplicit false

namespace Minifier

/-- The power `2 ^ exponent`. -/
def twoTo (exponent : Nat) : Nat := Nat.pow 2 exponent

/-- The power `10 ^ exponent`. -/
def tenTo (exponent : Nat) : Nat := Nat.pow 10 exponent

/-- A double, given by its bit pattern. -/
structure Number where
  bits : UInt64
deriving DecidableEq, Repr, Inhabited

namespace Number

/-- The sign bit; set also for negative zero. -/
def isNegative (x : Number) : Bool := twoTo 63 ≤ x.bits.toNat

/-- The eleven exponent bits. -/
def biasedExponent (x : Number) : Nat := x.bits.toNat / twoTo 52 % twoTo 11

/-- The 52 fraction bits. -/
def fraction (x : Number) : Nat := x.bits.toNat % twoTo 52

def isNaN (x : Number) : Bool := x.biasedExponent = 2047 && x.fraction ≠ 0

def isInfinite (x : Number) : Bool := x.biasedExponent = 2047 && x.fraction = 0

/-- Zero of either sign. -/
def isZero (x : Number) : Bool := x.biasedExponent = 0 && x.fraction = 0

/-- A finite number has magnitude `significand * 2 ^ exponent`. -/
def significand (x : Number) : Nat :=
  if x.biasedExponent = 0 then x.fraction else x.fraction + twoTo 52

/-- A finite number has magnitude `significand * 2 ^ exponent`. -/
def exponent (x : Number) : Int := (max x.biasedExponent 1 : Nat) - 1075

/-- The number with the other sign. -/
def negate (x : Number) : Number := ⟨x.bits ^^^ 0x8000000000000000⟩

def zero : Number := ⟨0⟩

def infinity : Number := ⟨0x7FF0000000000000⟩

/-- Whether the number counts as true in a condition. -/
def isTruthy (x : Number) : Bool := !x.isZero && !x.isNaN

end Number

end Minifier
