import Cellscript.Token.Scan

/-!
Substitutions: a table that replaces tokens by other tokens before a script is compiled.
-/

set_option autoImplicit false

namespace Cellscript

/-- What a substitution looks at: a kind and a text, on whatever line. -/
structure Token.Shape where
  kind : Token.Kind
  lexeme : String
deriving DecidableEq

def Token.shape (token : Token) : Token.Shape := ⟨token.kind, token.lexeme⟩

/-- The shape of the first token of `text`, if that is a valid one. -/
def Token.Shape.first? (text : String) : Option Token.Shape :=
  match (Token.scan text).head? with
  | none => none
  | some piece =>
    match piece.token.kind with
    | .invalid _ => none
    | .finish => none
    | _ => some piece.token.shape

structure Substitution where
  pattern : Token.Shape
  replacement : Token.Shape
deriving DecidableEq

/-- The substitution that two texts name, each by its first token. -/
def Substitution.ofTexts? (pattern replacement : String) : Option Substitution :=
  match Token.Shape.first? pattern, Token.Shape.first? replacement with
  | some p, some r => some ⟨p, r⟩
  | _, _ => none

/-- Replaces a token by the first rule that fits it. The line stays. -/
def Token.substitute (table : List Substitution) (token : Token) : Token :=
  match table.find? (·.pattern = token.shape) with
  | some rule => ⟨rule.replacement.kind, rule.replacement.lexeme, token.line⟩
  | none => token

/-- The pieces of a script with the table applied to their tokens. -/
def Token.scanThrough (table : List Substitution) (source : String) : List Token.Piece :=
  (Token.scan source).map fun piece => { piece with token := piece.token.substitute table }

/-- Two texts that should name a substitution, as settings spell it. -/
structure Substitution.Rule where
  pattern : String
  replacement : String
deriving DecidableEq

/-- The complaint about a rule one of whose texts does not start with a token. -/
def Substitution.Rule.message (rule : Substitution.Rule) : String :=
  "rewrite '" ++ rule.pattern ++ "' -> '" ++ rule.replacement ++ "' does not name two tokens"

/-- The table that a list of rules spells, or its first bad rule. -/
def Substitution.table : List Substitution.Rule → Except Substitution.Rule (List Substitution)
  | [] => .ok []
  | rule :: rest =>
    match Substitution.ofTexts? rule.pattern rule.replacement with
    | none => .error rule
    | some s => (Substitution.table rest).map (s :: ·)

end Cellscript
