import Cellscript.Text.CodeRange

/-!
White space in the sense of Unicode, and trimming by it.
-/

set_option autoImplicit false

namespace Cellscript

/-- The codes with the property White_Space. -/
def whiteSpaceRanges : Array CodeRange :=
  #[(0x9, 0xd), (0x20, 0x20), (0x85, 0x85), (0xa0, 0xa0), (0x1680, 0x1680), (0x2000, 0x200a),
    (0x2028, 0x2029), (0x202f, 0x202f), (0x205f, 0x205f), (0x3000, 0x3000)]

def isWhiteSpace (c : Char) : Bool := CodeRange.holds whiteSpaceRanges c

def trimmed (cs : List Char) : List Char :=
  ((cs.dropWhile isWhiteSpace).reverse.dropWhile isWhiteSpace).reverse

end Cellscript
