import Cellscript.Arena
import Cellscript.Decimal.Layout
import Cellscript.Text.Quoted

/-!
The values that scripts compute with, and their texts.
-/

set_option autoImplicit false

namespace Cellscript

abbrev Cell := Arena.Handle

/-- A value. A pointer is what taking an address gives, and a cell that holds one is an alias of
another cell. A boxed pointer is an address kept in a cell as an ordinary value. -/
inductive Value
  | number (x : Float)
  | truth (b : Bool)
  | text (s : String)
  | pointer (cell : Cell)
  | boxed (cell : Cell)
deriving DecidableEq

namespace Value

/-- Zero and `false` count as false, everything else as true. -/
def isFalsey : Value → Bool
  | number x => x == 0
  | truth b => !b
  | _ => false

def number? : Value → Option Float
  | number x => some x
  | _ => none

/-- The name that a value stands for: a text itself, a number by its plain form. -/
def name? : Value → Option String
  | text s => some s
  | number x => some (plainText x)
  | _ => none

def typeName : Value → String
  | number _ => "number"
  | truth _ => "bool"
  | text _ => "string"
  | pointer _ => "pointer"
  | boxed _ => "boxed pointer"

/-- Values of different types are never equal; numbers compare as numbers, so that no undefined
number equals itself and the two zeros are equal. -/
def equals : Value → Value → Bool
  | number x, number y => x == y
  | truth a, truth b => a == b
  | text s, text t => s == t
  | pointer c, pointer d => c == d
  | boxed c, boxed d => c == d
  | _, _ => false

/-- What printing a value writes. -/
def plain : Value → String
  | number x => plainText x
  | truth b => if b then "true" else "false"
  | text s => s
  | pointer c => "<pointer " ++ toString c.index.toNat ++ ">"
  | boxed c => "<boxed " ++ toString c.index.toNat ++ ">"

/-- A value with its type, as listings show it. -/
def tagged : Value → String
  | number x => "Number(" ++ taggedText x ++ ")"
  | truth b => if b then "Bool(true)" else "Bool(false)"
  | text s => "String(Symbol(" ++ quoted s ++ "))"
  | pointer c => "Pointer(#" ++ toString c.index.toNat ++ ")"
  | boxed c => "Boxed(#" ++ toString c.index.toNat ++ ")"

end Value

end Cellscript
