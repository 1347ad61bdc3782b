/-!
Texts set into columns.
-/

set_option autoImplicit false

namespace Cellscript

/-- The text at the right end of a column, filled up from the left. -/
def rightAligned (width : Nat) (fill : Char) (text : String) : String :=
  String.ofList (List.replicate (width - text.length) fill) ++ text

def leftAligned (width : Nat) (text : String) : String :=
  text ++ String.ofList (List.replicate (width - text.length) ' ')

end Cellscript
