import Cellscript.Text.Cluster.Basic

/-!
What is left of a line that was typed with backspaces in it. Each takes back one cluster.
-/

set_option autoImplicit false

namespace Cellscript

/-- A line so far: its characters, the last one first, and the sizes in bytes of the clusters that
can be taken back. A size has eight bits, so of a longer cluster only a part is taken back. -/
structure Typed where
  reversed : List Char := []
  sizes : List UInt8 := []

namespace Typed

/-- Takes characters of so many bytes from the end of a line. -/
def dropBytes : Nat → List Char → List Char
  | 0, cs => cs
  | _, [] => []
  | n + 1, c :: cs => dropBytes (n + 1 - c.utf8Size) cs

def byteSize (cs : List Char) : Nat := cs.foldl (fun size c => size + c.utf8Size) 0

/-- Types one cluster. A backspace with nothing before it does nothing. -/
def type (line : Typed) (cluster : List Char) : Typed :=
  if cluster = ['\x08'] then
    match line.sizes with
    | [] => line
    | size :: sizes => ⟨dropBytes size.toNat line.reversed, sizes⟩
  else
    ⟨cluster.reverse ++ line.reversed, (byteSize cluster).toUInt8 :: line.sizes⟩

end Typed

def typedLine (line : String) : String :=
  let typed := (clusters line.toList).foldl Typed.type {}
  String.ofList typed.reversed.reverse

end Cellscript
