import Cellscript.Decimal.Basic

/-!
The two written forms of a number. The plain form has neither exponent nor needless point. The
tagged form always shows that it is a fraction and writes very large and very small numbers with an
exponent.
-/

set_option autoImplicit false

namespace Cellscript

/-- How decimals are written. The point of a decimal is where its first digit stands: the number is
`0.ddd * 10 ^ point`. -/
structure Decimal.Layout where
  /-- The points that are written without exponent. -/
  positional : Int → Bool
  /-- What follows a whole number. -/
  wholeEnd : String

/-- Writes `4`, `0.25`, `-0`, `1000000000000000000000`. -/
def Decimal.Layout.plain : Decimal.Layout := ⟨fun _ => true, ""⟩

/-- Writes `4.0`, `0.25`, `-0.0`, `1e21`: positional from one ten-thousandth to below ten to the
sixteenth. -/
def Decimal.Layout.tagged : Decimal.Layout := ⟨fun point => -3 ≤ point && point ≤ 16, ".0"⟩

def zeros (n : Nat) : List Char := List.replicate n '0'

/-- Digits with a point in front of the digit at `point`. -/
def Decimal.positionalText (digits : List Char) (point : Int) (wholeEnd : String) : List Char :=
  if point ≤ 0 then '0' :: '.' :: zeros (-point).toNat ++ digits
  else
    let whole := point.toNat
    if digits.length ≤ whole then digits ++ zeros (whole - digits.length) ++ wholeEnd.toList
    else digits.take whole ++ '.' :: digits.drop whole

/-- One digit, the others after a point, and the exponent. -/
def Decimal.exponentText (digits : List Char) (point : Int) : List Char :=
  let exponent := point - 1
  let mark := 'e' :: (if exponent < 0 then ['-'] else []) ++ Nat.toDigits 10 exponent.natAbs
  match digits with
  | first :: second :: more => first :: '.' :: second :: more ++ mark
  | _ => digits ++ mark

def Decimal.text (layout : Decimal.Layout) (d : Decimal) : String :=
  let digits := Nat.toDigits 10 d.coefficient
  let point := Int.ofNat digits.length + d.exponent
  let body :=
    if layout.positional point then Decimal.positionalText digits point layout.wholeEnd
    else Decimal.exponentText digits point
  String.ofList (if d.negative then '-' :: body else body)

def Numeral.text (layout : Decimal.Layout) : Numeral → String
  | .undefined => "NaN"
  | .infinite negative => if negative then "-inf" else "inf"
  | .finite d => d.text layout

/-- The plain form of a number, which is also its name. -/
def plainText (x : Float) : String := (Numeral.ofFloat x).text .plain

def taggedText (x : Float) : String := (Numeral.ofFloat x).text .tagged

end Cellscript
