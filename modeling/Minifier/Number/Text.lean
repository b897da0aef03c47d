import Minifier.Number.Shortest

/-!
# Number texts

How a number is written: as the shortest literal of a program, and as a message shows it. Both
start from the shortest decimal that reads back.
-/

set_option autoImplicit false

namespace Minifier

namespace Decimal

/-- The digits of the decimal, most significant first. -/
def digitText (d : Decimal) : List Char := Nat.toDigits 10 d.digits

/-- The power of ten of the first digit. -/
def leading (d : Decimal) : Int := d.exponent + digitCount d.digits - 1

/-- Positional notation: `120`, `1.25`, `0.001`. -/
def positional (d : Decimal) : List Char :=
  let text := d.digitText
  let whole := d.exponent + text.length
  if 0 ≤ d.exponent then text ++ List.replicate d.exponent.toNat '0'
  else if 0 < whole then text.take whole.toNat ++ '.' :: text.drop whole.toNat
  else ['0', '.'] ++ List.replicate (-whole).toNat '0' ++ text

/-- The text of an integer. -/
def integerText (n : Int) : List Char :=
  if n < 0 then '-' :: Nat.toDigits 10 n.natAbs else Nat.toDigits 10 n.natAbs

/-- Scientific notation: `1e21`, `1.5e-7`. -/
def scientific (d : Decimal) : List Char :=
  match d.digitText with
  | [] => []
  | [digit] => digit :: 'e' :: integerText d.leading
  | digit :: rest => digit :: '.' :: rest ++ 'e' :: integerText d.leading

/-- The shortest literal for a positive decimal. A whole number below `10 ^ 21` is its digits, with
three or more trailing zeros as an exponent; any other is the shorter of positional notation
without a leading zero and scientific notation, positional on a tie. -/
def literal (d : Decimal) : List Char :=
  if 0 ≤ d.exponent && d.leading < 21 then
    if 2 < d.exponent then d.digitText ++ 'e' :: integerText d.exponent
    else d.positional
  else
    let plain := match d.positional with
      | '0' :: '.' :: rest => '.' :: rest
      | text => text
    let exponential := d.scientific
    if exponential.length < plain.length then exponential else plain

end Decimal

namespace Number

/-- The number as a literal of a program. -/
def literal (x : Number) : List Char :=
  if x.isNaN then "NaN".toList
  else if x.isZero then ['0']
  else
    let magnitude := if x.isInfinite then "Infinity".toList else x.shortest.literal
    if x.isNegative then '-' :: magnitude else magnitude

/-- The number as a message shows it: positional with at least one decimal place, or scientific
from `10 ^ 16` on and below `10 ^ -4`. -/
def shown (x : Number) : List Char :=
  let sign := if x.isNegative then ['-'] else []
  if x.isNaN then "NaN".toList
  else if x.isInfinite then sign ++ "inf".toList
  else if x.isZero then sign ++ "0.0".toList
  else
    let d := x.shortest
    if 16 ≤ d.leading || d.leading < -4 then sign ++ d.scientific
    else if 0 ≤ d.exponent then sign ++ d.positional ++ ['.', '0']
    else sign ++ d.positional

end Number

end Minifier
