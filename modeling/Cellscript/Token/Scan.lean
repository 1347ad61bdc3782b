import Cellscript.Token.Basic

/-!
Scanning: a script is cut into pieces from left to right. Blanks and comments are dropped, then the
first character and what follows it decide the kind of the next token and how far it reaches. The
cut always takes the longest text that is a token.
-/

set_option autoImplicit false

namespace Cellscript.Token

def isBlank (c : Char) : Bool := c == ' ' || c == '\t' || c == '\r'

def startsName (c : Char) : Bool := c.isAlpha || c == '_'

def continuesName (c : Char) : Bool := startsName c || c.isDigit

theorem length_dropWhile_le (p : Char → Bool) (cs : List Char) :
    (cs.dropWhile p).length ≤ cs.length :=
  (List.dropWhile_sublist p).length_le

/-- The text without its leading blanks and comments. A comment starts with two slashes and reaches
up to the end of its line, which it leaves standing. -/
def afterBlanks : List Char → List Char
  | [] => []
  | c :: rest =>
    if isBlank c then afterBlanks rest
    else if c == '/' && rest.head? == some '/' then afterBlanks (rest.dropWhile (· != '\n'))
    else c :: rest
termination_by cs => cs.length
decreasing_by
  · simp
  · exact Nat.lt_succ_of_le (length_dropWhile_le _ rest)

theorem length_afterBlanks_le (cs : List Char) : (afterBlanks cs).length ≤ cs.length := by
  fun_induction afterBlanks cs with
  | case1 => simp
  | case2 c rest _ ih => exact Nat.le_succ_of_le ih
  | case3 c rest _ _ ih =>
    exact Nat.le_succ_of_le (Nat.le_trans ih (length_dropWhile_le _ rest))
  | case4 => simp

/-- How many characters of a number follow its first digit. A point belongs to the number only when
a digit follows it. -/
def numberTail (rest : List Char) : Nat :=
  let whole := (rest.takeWhile Char.isDigit).length
  match rest.drop whole with
  | '.' :: d :: more =>
    if d.isDigit then whole + 2 + (more.takeWhile Char.isDigit).length else whole
  | _ => whole

/-- Four words have kinds of their own. -/
def wordKind (word : List Char) : Kind :=
  if word = ['t', 'r', 'u', 'e'] then .yes
  else if word = ['f', 'a', 'l', 's', 'e'] then .no
  else if word = ['p', 'r', 'i', 'n', 't'] then .print
  else if word = ['p', 'r'] then .pr
  else .name

/-- A string runs from one double quote to the next on the same line. -/
def stringTail (rest : List Char) : Kind × Nat :=
  let text := (rest.takeWhile fun c => c != '\x22' && c != '\n').length
  if rest[text]? = some '\x22' then (.string, text + 1) else (.invalid .unterminatedString, text)

/-- The kind of the token that starts with `c`, and how many characters of `rest` belong to it. -/
def classify (c : Char) (rest : List Char) : Kind × Nat :=
  if c.isDigit then (.number, numberTail rest)
  else if startsName c then
    let tail := rest.takeWhile continuesName
    (wordKind (c :: tail), tail.length)
  else
    match c, rest with
    | '\n', _ => (.newline, 0)
    | ';', _ => (.divider, 0)
    | ',', _ => (.divider, 0)
    | '-', _ => (.minus, 0)
    | '+', _ => (.plus, 0)
    | '*', _ => (.star, 0)
    | '/', _ => (.slash, 0)
    | '(', _ => (.leftParen, 0)
    | ')', _ => (.rightParen, 0)
    | '\x7b', _ => (.leftCurly, 0)
    | '\x7d', _ => (.rightCurly, 0)
    | '|', _ => (.pipe, 0)
    | '\x27', _ => (.quote, 0)
    | '.', '.' :: '.' :: _ => (.dots, 2)
    | '.', _ => (.dot, 0)
    | '!', '=' :: _ => (.bangEqual, 1)
    | '!', _ => (.bang, 0)
    | '=', '=' :: _ => (.equalEqual, 1)
    | '=', '>' :: _ => (.equalGreater, 1)
    | '=', _ => (.equal, 0)
    | '<', '=' :: '>' :: _ => (.lessEqualGreater, 2)
    | '<', '=' :: _ => (.lessEqual, 1)
    | '<', _ => (.less, 0)
    | '>', '=' :: _ => (.greaterEqual, 1)
    | '>', _ => (.greater, 0)
    | '\x22', _ => stringTail rest
    | _, _ => (.invalid .unexpectedCharacter, 0)

/-- What a token of `kind` cut from `text` shows. -/
def lexemeOf (kind : Kind) (text : List Char) : String :=
  match kind with
  | .invalid flaw => flaw.message
  | _ => String.ofList text

structure Piece where
  token : Token
  rest : List Char

/-- Whether nothing at all, not even a blank, follows the token. -/
def Piece.atEnd (piece : Piece) : Bool := piece.rest.isEmpty

/-- The pieces of a text whose first line has number `line`, the finishing token included. -/
def pieces (line : Nat) (text : List Char) : List Piece :=
  match h : afterBlanks text with
  | [] => [⟨.finish line, []⟩]
  | c :: rest =>
    have : rest.length < text.length := by
      have bound := length_afterBlanks_le text
      rwa [h] at bound
    let (kind, tail) := classify c rest
    ⟨⟨kind, lexemeOf kind (c :: rest.take tail), line⟩, rest.drop tail⟩ ::
      pieces (if kind = .newline then line + 1 else line) (rest.drop tail)
termination_by text.length
decreasing_by
  simp only [List.length_drop]
  omega

/-- Every piece of a script, whose first line is line 1. -/
def scan (source : String) : List Piece := pieces 1 source.toList

end Cellscript.Token
