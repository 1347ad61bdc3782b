/-!
Sets of characters given as ordered lists of code ranges.
-/

set_option autoImplicit false

namespace Cellscript

/-- The codes from `first` to `last`, both with them. -/
abbrev CodeRange := Nat × Nat

/-- Whether a character's code lies in a table of ranges that are in increasing order. -/
def CodeRange.holds (table : Array CodeRange) (c : Char) : Bool :=
  match table.find? (c.toNat ≤ ·.2) with
  | some range => range.1 ≤ c.toNat
  | none => false

end Cellscript
