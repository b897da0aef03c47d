import Minifier.Number.Decimal

/-!
# The fewest digits that read back

The decimals that read back as a given double form an interval around it. `Number.shortest` looks
for the coarsest decimal grid with a point in that interval and takes the point nearest to the
double, the larger one when two are equally near.
-/

set_option autoImplicit false

namespace Minifier.Number

/-- The interval of reals that round to a number, in quarters of its last place: the ends are
`low` and `high`, the number itself is `4 * significand`. Below a power of two the gap to the next
smaller double is half as wide. The ends belong to it when the significand is even. -/
structure RoundingInterval where
  low : Nat
  value : Nat
  high : Nat
  closed : Bool

def roundingInterval (x : Number) : RoundingInterval :=
  let value := 4 * x.significand
  let narrow := x.fraction = 0 && 1 < x.biasedExponent
  { low := if narrow then value - 1 else value - 2
    value
    high := value + 2
    closed := x.significand % 2 = 0 }

/-- The multiple of `10 ^ place` inside the rounding interval that is nearest to the number, as
the factor of `10 ^ place`. -/
def nearestOnGrid? (x : Number) (place : Int) : Option Nat :=
  let interval := x.roundingInterval
  let quarter := x.exponent - 2
  -- A grid point `n` and a bound `b` compare as `n * unit` and `b * scale`.
  let unit := tenTo place.toNat * twoTo (-quarter).toNat
  let scale := twoTo quarter.toNat * tenTo (-place).toNat
  let inside (n : Nat) : Bool :=
    let point := n * unit
    if interval.closed then interval.low * scale ≤ point && point ≤ interval.high * scale
    else interval.low * scale < point && point < interval.high * scale
  let target := interval.value * scale
  let below := target / unit
  let above := below + 1
  match inside below, inside above with
  | true, true => some (if target - below * unit < above * unit - target then below else above)
  | true, false => some below
  | false, true => some above
  | false, false => none

/-- The exponent of the largest power of ten that is at most the number. -/
def floorLog10 (x : Number) : Int :=
  let num := x.significand * twoTo x.exponent.toNat
  let den := twoTo (-x.exponent).toNat
  let guess : Int := (digitCount num : Int) - digitCount den
  if num * tenTo (-guess).toNat < den * tenTo guess.toNat then guess - 1 else guess

/-- Moves trailing zeros of the digits into the exponent. -/
def withoutTrailingZeros : Nat → Decimal → Decimal
  | 0, d => d
  | fuel + 1, d =>
    if d.digits ≠ 0 && d.digits % 10 = 0 then
      withoutTrailingZeros fuel ⟨d.digits / 10, d.exponent + 1⟩
    else d

/-- The shortest decimal that reads back as a finite nonzero number, its sign aside. Seventeen
digits always suffice. -/
def shortest (x : Number) : Decimal :=
  let top := x.floorLog10
  let grid (count : Nat) : Option Decimal :=
    let place := top - (count : Int)
    (x.nearestOnGrid? place).map fun digits => withoutTrailingZeros 20 ⟨digits, place⟩
  ((List.range 18).findSome? grid).getD ⟨x.significand, 0⟩

end Minifier.Number
