import Cellscript.Decimal.Reading
import Cellscript.Toml.Basic

/-!
Values that stand on their own: numbers, truth values, and strings on one line or on several.
-/

set_option autoImplicit false

namespace Cellscript.Toml

/-! ## Numbers and truth values -/

/-- Digits without the underscores between them. An underscore has to stand between two digits. -/
def ungroup (isDigit : Char → Bool) : List Char → Option (List Char)
  | [] => none
  | [c] => if isDigit c then some [c] else none
  | c :: '_' :: rest => if isDigit c then (ungroup isDigit rest).map (c :: ·) else none
  | c :: rest => if isDigit c then (ungroup isDigit rest).map (c :: ·) else none

def digitValue (c : Char) : Nat :=
  if c.isDigit then c.toNat - '0'.toNat else c.toLower.toNat - 'a'.toNat + 10

def isHexDigit (c : Char) : Bool :=
  c.isDigit || 'a' ≤ c.toLower && c.toLower ≤ 'f'

def radixValue (radix : Nat) (digits : List Char) : Nat :=
  digits.foldl (fun n c => radix * n + digitValue c) 0

/-- Integers have 64 bits with a sign. -/
def integer? (n : Int) : Option Item :=
  if -9223372036854775808 ≤ n ∧ n ≤ 9223372036854775807 then some (.integer n) else none

/-- The digits of a whole number, which starts with a zero only if it is zero. -/
def wholeDigits? (cs : List Char) : Option (List Char) :=
  (ungroup Char.isDigit cs).filter fun digits => digits.head? != some '0' || digits.length == 1

def exponent? : List Char → Option (List Char)
  | [] => some []
  | mark :: rest =>
    if mark == 'e' || mark == 'E' then
      let (negative, digits) := splitSign rest
      (ungroup Char.isDigit digits).map fun digits =>
        'e' :: (if negative then '-' :: digits else digits)
    else none

def isGrouped (c : Char) : Bool := c.isDigit || c == '_'

/-- What follows the whole part of a fraction: a point and digits, an exponent, or both. -/
def fractionTail? : List Char → Option (List Char)
  | '.' :: rest =>
    match ungroup Char.isDigit (rest.takeWhile isGrouped), exponent? (rest.dropWhile isGrouped) with
    | some digits, some exponent => some ('.' :: digits ++ exponent)
    | _, _ => none
  | cs => exponent? cs

/-- A fraction. One too large for any finite number is refused. -/
def fraction? (negative : Bool) (whole tail : List Char) : Option Item :=
  match wholeDigits? whole, fractionTail? tail with
  | some whole, some tail =>
    match Decimal.readUnsigned? negative (whole ++ tail) with
    | some d => if d.toFloat == 1 / 0 then none else some (.float d.toFloat)
    | none => none
  | _, _ => none

def decimal? (negative : Bool) (cs : List Char) : Option Item :=
  let whole := cs.takeWhile isGrouped
  match cs.dropWhile isGrouped with
  | [] =>
    (wholeDigits? whole).bind fun digits =>
      let n := Int.ofNat (digitsValue digits)
      integer? (if negative then -n else n)
  | tail => fraction? negative whole tail

/-- A number or truth value that fills the whole text. -/
def word? (cs : List Char) : Option Item :=
  let (negative, unsigned) := splitSign cs
  if unsigned = ['i', 'n', 'f'] then some (.float (if negative then -(1 / 0) else 1 / 0))
  else if unsigned = ['n', 'a', 'n'] then some (.float (0 / 0))
  else
    match cs with
    | ['t', 'r', 'u', 'e'] => some (.boolean true)
    | ['f', 'a', 'l', 's', 'e'] => some (.boolean false)
    | '0' :: 'x' :: digits =>
      (ungroup isHexDigit digits).bind fun ds => integer? (radixValue 16 ds)
    | '0' :: 'o' :: digits =>
      (ungroup (fun c => '0' ≤ c && c ≤ '7') digits).bind fun ds => integer? (radixValue 8 ds)
    | '0' :: 'b' :: digits =>
      (ungroup (fun c => c == '0' || c == '1') digits).bind fun ds => integer? (radixValue 2 ds)
    | _ => decimal? negative unsigned

/-- The characters that numbers and truth values are made of. -/
def isWordChar (c : Char) : Bool := c.isAlphanum || c == '_' || c == '+' || c == '-' || c == '.'

/-! ## Strings -/

/-- Characters that may stand in strings and comments: no controls but the tab. -/
def isTextChar (c : Char) : Bool := c == '\t' || ' ' ≤ c && c != '\x7f'

def codeChar? (digits : List Char) : Option Char :=
  let code := radixValue 16 digits
  if digits.all isHexDigit && code.isValidChar then some (Char.ofNat code) else none

/-- What a backslash and one letter stand for. -/
def escape? : Char → Option Char
  | 'b' => some '\x08'
  | 't' => some '\t'
  | 'n' => some '\n'
  | 'f' => some '\x0c'
  | 'r' => some '\r'
  | '\x22' => some '\x22'
  | '\\' => some '\\'
  | _ => none

/-- The rest of a string in double quotes, and what follows it. -/
def basicTail : List Char → Option (List Char × List Char)
  | '\x22' :: rest => some ([], rest)
  | '\\' :: 'u' :: a :: b :: c :: d :: rest =>
    match codeChar? [a, b, c, d], basicTail rest with
    | some x, some (text, rest) => some (x :: text, rest)
    | _, _ => none
  | '\\' :: 'U' :: a :: b :: c :: d :: e :: f :: g :: h :: rest =>
    match codeChar? [a, b, c, d, e, f, g, h], basicTail rest with
    | some x, some (text, rest) => some (x :: text, rest)
    | _, _ => none
  | '\\' :: c :: rest =>
    match escape? c, basicTail rest with
    | some x, some (text, rest) => some (x :: text, rest)
    | _, _ => none
  | c :: rest =>
    if isTextChar c && c != '\\' then
      (basicTail rest).map fun (text, rest) => (c :: text, rest)
    else none
  | [] => none

/-- The rest of a string in single quotes, which has no escapes, and what follows it. -/
def literalTail (cs : List Char) : Option (List Char × List Char) :=
  let isInside (c : Char) : Bool := isTextChar c && c != '\x27'
  match cs.dropWhile isInside with
  | '\x27' :: rest => some (cs.takeWhile isInside, rest)
  | _ => none

def string? : List Char → Option (String × List Char)
  | '\x22' :: rest => (basicTail rest).map fun (text, rest) => (String.ofList text, rest)
  | '\x27' :: rest => (literalTail rest).map fun (text, rest) => (String.ofList text, rest)
  | _ => none

/-! ### Strings on several lines -/

def isSpace (c : Char) : Bool := c == ' ' || c == '\t'

def lineBreak? : List Char → Option (List Char)
  | '\n' :: rest => some rest
  | '\r' :: '\n' :: rest => some rest
  | _ => none

/-- The end of a string that `mark` closes three times. Up to two more marks before that belong to
the string. -/
def closing? (mark : Char) (cs : List Char) : Option (List Char × List Char) :=
  let marks := (cs.takeWhile (· == mark)).length
  if marks < 3 then none
  else
    let kept := min (marks - 3) 2
    some (List.replicate kept mark, cs.drop (kept + 3))

/-- Whether a backslash before these characters takes away the line break that ends their line. -/
def endsLine (cs : List Char) : Bool := (lineBreak? (cs.dropWhile isSpace)).isSome

/-- The rest of a string between three double quotes each, and what follows it. While `skipping`,
blanks and line breaks are passed over, as after a backslash at the end of a line. -/
def longBasicTail (skipping : Bool) : List Char → Option (List Char × List Char)
  | [] => none
  | '\r' :: '\n' :: rest =>
    if skipping then longBasicTail true rest
    else (longBasicTail false rest).map fun (text, rest) => ('\n' :: text, rest)
  | '\\' :: 'u' :: a :: b :: c :: d :: rest =>
    match codeChar? [a, b, c, d], longBasicTail false rest with
    | some x, some (text, rest) => some (x :: text, rest)
    | _, _ => none
  | '\\' :: 'U' :: a :: b :: c :: d :: e :: f :: g :: h :: rest =>
    match codeChar? [a, b, c, d, e, f, g, h], longBasicTail false rest with
    | some x, some (text, rest) => some (x :: text, rest)
    | _, _ => none
  | '\\' :: c :: rest =>
    if endsLine (c :: rest) then longBasicTail true (c :: rest)
    else
      match escape? c, longBasicTail false rest with
      | some x, some (text, rest) => some (x :: text, rest)
      | _, _ => none
  | c :: rest =>
    if skipping && (isSpace c || c == '\n') then longBasicTail true rest
    else
      match closing? '\x22' (c :: rest) with
      | some found => some found
      | none =>
        if (isTextChar c || c == '\n') && c != '\\' then
          (longBasicTail false rest).map fun (text, rest) => (c :: text, rest)
        else none

/-- The rest of a string between three single quotes each, and what follows it. -/
def longLiteralTail : List Char → Option (List Char × List Char)
  | [] => none
  | '\r' :: '\n' :: rest =>
    (longLiteralTail rest).map fun (text, rest) => ('\n' :: text, rest)
  | c :: rest =>
    match closing? '\x27' (c :: rest) with
    | some found => some found
    | none =>
      if isTextChar c || c == '\n' then
        (longLiteralTail rest).map fun (text, rest) => (c :: text, rest)
      else none

/-- What follows a line break that stands right at the start of a long string, which is not part of
it. -/
def skipFirstBreak (cs : List Char) : List Char := (lineBreak? cs).getD cs

/-- A string as a value, on one line or on several, and what follows it. -/
def anyString? : List Char → Option (String × List Char)
  | '\x22' :: '\x22' :: '\x22' :: rest =>
    (longBasicTail false (skipFirstBreak rest)).map fun (text, rest) => (String.ofList text, rest)
  | '\x27' :: '\x27' :: '\x27' :: rest =>
    (longLiteralTail (skipFirstBreak rest)).map fun (text, rest) => (String.ofList text, rest)
  | cs => string? cs

end Cellscript.Toml
