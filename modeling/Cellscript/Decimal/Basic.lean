/-!
Decimals: a sign, a whole coefficient and a power of ten. `Decimal.shortest` writes a binary
fraction with the fewest digits that still read back as it, and of those the nearest.
-/

set_option autoImplicit false

namespace Cellscript

/-- The number `coefficient * 10 ^ exponent`, with a sign that zero has too. -/
structure Decimal where
  negative : Bool
  coefficient : Nat
  exponent : Int
deriving DecidableEq

/-- Moves the trailing zeros of a coefficient into the exponent; at most `bound` of them. -/
def Decimal.trim (bound : Nat) (d : Decimal) : Decimal :=
  match bound with
  | 0 => d
  | n + 1 =>
    if d.coefficient ≠ 0 ∧ d.coefficient % 10 = 0 then
      Decimal.trim n { d with coefficient := d.coefficient / 10, exponent := d.exponent + 1 }
    else d

/-- The numbers that read as `center * 2 ^ scale`, up to a common factor: those between `low` and
`high` times `2 ^ scale`, the two ends with them if `closed`. -/
structure RoundingInterval where
  low : Nat
  center : Nat
  high : Nat
  scale : Int
  closed : Bool

/-- The interval around `mantissa * 2 ^ scale`, in quarters of its last place. Below a power of two
the gap is half as wide. An even mantissa owns both ends. -/
def RoundingInterval.around (mantissa : Nat) (scale : Int) (narrowBelow : Bool) :
    RoundingInterval where
  low := 4 * mantissa - (if narrowBelow then 1 else 2)
  center := 4 * mantissa
  high := 4 * mantissa + 2
  scale := scale - 2
  closed := mantissa % 2 = 0

/-- The power `base ^ exponent` as a numerator and a denominator, one of them 1. -/
def powerRatio (base : Nat) (exponent : Int) : Nat × Nat :=
  (Nat.pow base exponent.toNat, Nat.pow base (-exponent).toNat)

/-- The coefficient of a multiple of `10 ^ grid` inside the interval, the nearer one if both
neighbours of the center are inside, and the upper one if they are equally near. -/
def RoundingInterval.onGrid? (i : RoundingInterval) (grid : Int) : Option Nat :=
  let (twoUp, twoDown) := powerRatio 2 i.scale
  let (tenUp, tenDown) := powerRatio 10 grid
  let unit := twoUp * tenDown
  let step := twoDown * tenUp
  let inside (c : Nat) : Bool :=
    if i.closed then i.low * unit ≤ c * step && c * step ≤ i.high * unit
    else i.low * unit < c * step && c * step < i.high * unit
  let below := i.center * unit / step
  let above := below + 1
  match inside below, inside above with
  | true, true => some (if 2 * i.center * unit < (below + above) * step then below else above)
  | true, false => some below
  | false, true => some above
  | false, false => none

/-- An exponent of ten that no number below `2 ^ bits` exceeds. -/
def topGrid (bits : Int) : Int := bits * 30103 / 100000 + 1

/-- The decimal with the fewest digits inside the interval: grids are tried from the coarsest. -/
def RoundingInterval.shortest (i : RoundingInterval) : Nat × Int :=
  let top := topGrid (i.center.log2 + 1 + i.scale)
  let grids := (List.range 21).map fun n => top - Int.ofNat n
  (grids.findSome? fun grid => (i.onGrid? grid).map (·, grid)).getD (0, 0)

/-- What the bits of a number say. -/
inductive Numeral
  | undefined
  | infinite (negative : Bool)
  | finite (d : Decimal)
deriving DecidableEq

/-- Reads the fields of a 64-bit binary fraction: one bit of sign, eleven of exponent, and a
fraction of fifty-two. -/
def Numeral.ofBits (bits : Nat) : Numeral :=
  let implicitBit := Nat.pow 2 52
  let negative := bits / Nat.pow 2 63 % 2 = 1
  let exponent := bits / implicitBit % 2048
  let fraction := bits % implicitBit
  if exponent = 2047 then
    if fraction = 0 then .infinite negative else .undefined
  else if exponent = 0 ∧ fraction = 0 then .finite ⟨negative, 0, 0⟩
  else
    let mantissa := if exponent = 0 then fraction else fraction + implicitBit
    let scale : Int := Int.ofNat (max exponent 1) - 1075
    let interval := RoundingInterval.around mantissa scale (fraction = 0 ∧ 1 < exponent)
    let (coefficient, grid) := interval.shortest
    .finite (Decimal.trim 20 ⟨negative, coefficient, grid⟩)

def Numeral.ofFloat (x : Float) : Numeral := Numeral.ofBits x.toBits.toNat

end Cellscript
