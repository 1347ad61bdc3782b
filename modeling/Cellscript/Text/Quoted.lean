import Cellscript.Text.Unprintable
import Cellscript.Text.Extending

/-!
Escaping: what cannot be seen in a text is written with a backslash. There are two rules. A quoted
text stands between double quotes and escapes every combining character. A lexeme in a diagnostic
stands between single quotes, which it escapes too, and lets a combining character stand unless it
comes first.
-/

set_option autoImplicit false

namespace Cellscript

/-- A character by its code: in braces, in lower-case hexadecimal digits without padding. -/
def codeEscape (c : Char) : List Char :=
  '\\' :: 'u' :: '\x7b' :: Nat.toDigits 16 c.toNat ++ ['\x7d']

/-- One character as it is written, given which characters need a code. -/
def escapeChar (coded : Char → Bool) (c : Char) : List Char :=
  match c with
  | '\x00' => ['\\', '0']
  | '\t' => ['\\', 't']
  | '\r' => ['\\', 'r']
  | '\n' => ['\\', 'n']
  | '\\' => ['\\', '\\']
  | '\x22' => ['\\', '\x22']
  | c => if coded c then codeEscape c else [c]

def quoted (text : String) : String :=
  let body := text.toList.flatMap (escapeChar fun c => isCombining c || !isPrintable c)
  String.ofList ('\x22' :: body ++ ['\x22'])

def escapeLexemeChar (first : Bool) (c : Char) : List Char :=
  if c == '\x27' then ['\\', '\x27']
  else escapeChar (fun c => first && isCombining c || !isPrintable c) c

/-- A lexeme as a diagnostic shows it. -/
def escapedLexeme (text : String) : String :=
  match text.toList with
  | [] => ""
  | c :: rest => String.ofList (escapeLexemeChar true c ++ rest.flatMap (escapeLexemeChar false))

end Cellscript
