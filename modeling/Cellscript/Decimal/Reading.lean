import Cellscript.Decimal.Basic

/-!
Reading numbers: a sign, digits with at most one point and an optional exponent, or one of the
words for infinity and for no number. The result is the nearest binary fraction.
-/

set_option autoImplicit false

namespace Cellscript

def digitsValue (digits : List Char) : Nat :=
  digits.foldl (fun n c => 10 * n + (c.toNat - '0'.toNat)) 0

/-- The nearest binary fraction. A number that is too large for all of them becomes infinite and one
that is too small zero, without its power of ten being computed. -/
def Decimal.toFloat (d : Decimal) : Float :=
  let size := Int.ofNat (Nat.toDigits 10 d.coefficient).length + d.exponent
  let magnitude :=
    if d.coefficient = 0 || size < -400 then 0
    else if 400 < size then 1 / 0
    else Float.ofScientific d.coefficient (d.exponent < 0) d.exponent.natAbs
  if d.negative then -magnitude else magnitude

def splitSign : List Char → Bool × List Char
  | '-' :: rest => (true, rest)
  | '+' :: rest => (false, rest)
  | cs => (false, cs)

def readExponent? : List Char → Option Int
  | [] => some 0
  | e :: rest =>
    if e == 'e' || e == 'E' then
      let (negative, digits) := splitSign rest
      if digits.isEmpty || !digits.all Char.isDigit then none
      else some (if negative then -Int.ofNat (digitsValue digits) else digitsValue digits)
    else none

def Decimal.readUnsigned? (negative : Bool) (cs : List Char) : Option Decimal :=
  let whole := cs.takeWhile Char.isDigit
  let afterWhole := cs.dropWhile Char.isDigit
  let (fraction, rest) :=
    match afterWhole with
    | '.' :: more => (more.takeWhile Char.isDigit, more.dropWhile Char.isDigit)
    | _ => ([], afterWhole)
  if whole.isEmpty && fraction.isEmpty then none
  else
    (readExponent? rest).map fun exponent =>
      ⟨negative, digitsValue (whole ++ fraction), exponent - Int.ofNat fraction.length⟩

def readNumber? (text : String) : Option Float :=
  let (negative, body) := splitSign text.toList
  let word := String.ofList (body.map Char.toLower)
  if word == "inf" || word == "infinity" then some (if negative then -(1 / 0) else 1 / 0)
  else if word == "nan" then some (0 / 0)
  else (Decimal.readUnsigned? negative body).map Decimal.toFloat

end Cellscript
