import Cellscript.Opcode
import Cellscript.Token.Basic

/-!
Operators between two operands: how strongly they bind and which instructions they become.
-/

set_option autoImplicit false

namespace Cellscript

/-- How strongly an operator binds, from the weakest on. -/
inductive Level
  | reference | equality | comparison | term | factor | unary
deriving DecidableEq

def Level.rank : Level → Nat
  | .reference => 0
  | .equality => 1
  | .comparison => 2
  | .term => 3
  | .factor => 4
  | .unary => 5

/-- The next stronger level, at which the right operand of a left-associative operator is read. -/
def Level.stronger : Level → Level
  | .reference => .equality
  | .equality => .comparison
  | .comparison => .term
  | .term => .factor
  | .factor => .unary
  | .unary => .unary

structure Operator where
  level : Level
  code : List Opcode

/-- The operator that a token of this kind is. Three comparisons are written as the negation of
their opposite. -/
def Token.Kind.operator? : Token.Kind → Option Operator
  | .equalGreater => some ⟨.reference, [.setPointerInverse]⟩
  | .lessEqualGreater => some ⟨.reference, [.exchange]⟩
  | .equalEqual => some ⟨.equality, [.equal]⟩
  | .bangEqual => some ⟨.equality, [.equal, .not]⟩
  | .greater => some ⟨.comparison, [.greater]⟩
  | .greaterEqual => some ⟨.comparison, [.less, .not]⟩
  | .less => some ⟨.comparison, [.less]⟩
  | .lessEqual => some ⟨.comparison, [.greater, .not]⟩
  | .plus => some ⟨.term, [.add]⟩
  | .minus => some ⟨.term, [.subtract]⟩
  | .star => some ⟨.factor, [.multiply]⟩
  | .slash => some ⟨.factor, [.divide]⟩
  | _ => none

/-- The operator that a token of this kind is, if it binds at least as strongly as `level`. -/
def Token.Kind.operatorFrom? (kind : Token.Kind) (level : Level) : Option Operator :=
  kind.operator?.filter fun operator => level.rank ≤ operator.level.rank

def Token.Kind.startsOperand : Token.Kind → Bool
  | .leftParen | .minus | .bang | .quote | .name | .number | .string | .yes | .no => true
  | _ => false

end Cellscript
