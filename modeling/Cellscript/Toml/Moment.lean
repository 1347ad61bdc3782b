import Cellscript.Toml.Scalar

/-!
Dates and times of day. A date may have a time after it, and that one an offset from the time of
the prime meridian.
-/

set_option autoImplicit false

namespace Cellscript.Toml

/-- A number of exactly `count` digits that is at least `least` and at most `most`, and what follows
it. -/
def bounded? (count least most : Nat) (cs : List Char) : Option (Nat × List Char) :=
  let digits := cs.take count
  let n := digitsValue digits
  if digits.length = count ∧ digits.all Char.isDigit ∧ least ≤ n ∧ n ≤ most then
    some (n, cs.drop count)
  else none

def after? (c : Char) : List Char → Option (List Char)
  | d :: rest => if c = d then some rest else none
  | [] => none

def isLeapYear (year : Nat) : Bool := year % 4 = 0 && (year % 100 ≠ 0 || year % 400 = 0)

def daysIn (year month : Nat) : Nat :=
  if month = 2 then if isLeapYear year then 29 else 28
  else if month = 4 ∨ month = 6 ∨ month = 9 ∨ month = 11 then 30
  else 31

def date? (cs : List Char) : Option (List Char) := do
  let (year, cs) ← bounded? 4 0 9999 cs
  let (month, cs) ← bounded? 2 1 12 (← after? '-' cs)
  let (_, cs) ← bounded? 2 1 (daysIn year month) (← after? '-' cs)
  return cs

/-- What follows a fraction of a second, if there is one. -/
def skipFraction : List Char → List Char
  | '.' :: c :: rest =>
    if c.isDigit then rest.dropWhile Char.isDigit else '.' :: c :: rest
  | cs => cs

/-- What follows a time of day. The second may be an inserted one. -/
def time? (cs : List Char) : Option (List Char) := do
  let (_, cs) ← bounded? 2 0 23 cs
  let (_, cs) ← bounded? 2 0 59 (← after? ':' cs)
  let (_, cs) ← bounded? 2 0 60 (← after? ':' cs)
  return skipFraction cs

def offset? : List Char → Option (List Char)
  | [] => none
  | c :: rest =>
    if c == 'Z' || c == 'z' then some rest
    else if c == '+' || c == '-' then do
      let (_, cs) ← bounded? 2 0 23 rest
      let (_, cs) ← bounded? 2 0 59 (← after? ':' cs)
      return cs
    else none

/-- What follows the time after a date, if there is one. -/
def skipTime : List Char → List Char
  | [] => []
  | c :: rest =>
    if c == 'T' || c == 't' || c == ' ' then
      match time? rest with
      | some rest => (offset? rest).getD rest
      | none => c :: rest
    else c :: rest

/-- A date or a time of day, and what follows it. -/
def moment? (cs : List Char) : Option (Item × List Char) :=
  (date? cs |>.map skipTime |>.or (time? cs)).map fun rest =>
    (.moment (String.ofList (cs.take (cs.length - rest.length))), rest)

end Cellscript.Toml
