/-!
Tokens: the words of a script, each with the text it stands for and the line it is on.
-/

set_option autoImplicit false

namespace Cellscript

/-- Why a stretch of text is no token. -/
inductive Token.Flaw
  | unterminatedString
  | unexpectedCharacter
deriving DecidableEq

def Token.Flaw.message : Token.Flaw → String
  | .unterminatedString => "Unterminated string."
  | .unexpectedCharacter => "Unexpected character."

inductive Token.Kind
  | newline | divider
  | minus | plus | slash | star | dot
  | leftParen | rightParen | leftCurly | rightCurly | pipe | quote
  | bang | bangEqual | equal | equalEqual | equalGreater
  | greater | greaterEqual | less | lessEqual | lessEqualGreater | dots
  | name | number | string
  | yes | no | print | pr
  | invalid (flaw : Token.Flaw)
  | finish
deriving DecidableEq

/-- Kinds at which a statement may end. -/
def Token.Kind.isTerminator : Token.Kind → Bool
  | .newline | .divider | .finish => true
  | _ => false

/-- A token with its text. An invalid token carries its flaw's message instead of the text, and the
token that finishes a script carries nothing. -/
structure Token where
  kind : Token.Kind
  lexeme : String
  line : Nat
deriving DecidableEq

def Token.finish (line : Nat) : Token := ⟨.finish, "", line⟩

end Cellscript
