import Cellscript.Compile.Operator
import Cellscript.Compile.Pass
import Cellscript.Decimal.Reading

/-!
Expressions are read by precedence climbing and written in postfix order. The functions that call
each other take a bound on the tokens left; every call reads a token first, so the number of tokens
left is bound enough.
-/

set_option autoImplicit false

namespace Cellscript

/-- The text between the quotes of a string token. A lexeme without quotes is the text itself. -/
def stringText (lexeme : String) : String :=
  match lexeme.toList with
  | [] => lexeme
  | first :: rest =>
    if first = '\x22' ∧ rest.getLast? = some '\x22' then String.ofList rest.dropLast else lexeme

namespace Pass

def emitNumber (p : Pass) (lexeme : String) : Pass :=
  match readNumber? lexeme with
  | some x => p.emitConstant (.number x)
  | none => p.complainBefore .invalidNumber

/-- Writes the operand that starts with the token just read. `inner` reads the expressions inside
it, and only an operand of the weakest level may be assigned to. -/
def operand (inner : Level → Pass → Pass) (level : Level) (p : Pass) : Pass :=
  match p.previous.kind with
  | .leftParen => (inner .reference p).expect .rightParen .unclosedGroup
  | .minus => (inner .unary p).emit .negate
  | .bang => (inner .unary p).emit .not
  | .quote =>
    let p := inner .unary p
    if level = .reference && p.sees .equal then (inner .reference p.advance).emit .setPointer
    else p.emit .getPointer
  | .name => p.emitConstant (.text p.previous.lexeme)
  | .number => p.emitNumber p.previous.lexeme
  | .string => p.emitConstant (.text (stringText p.previous.lexeme))
  | .yes => p.emit .yes
  | .no => p.emit .no
  | _ => p

/-- Reads the right operand of an operator and writes the operator. Operators of the weakest level
take no more than two operands. -/
def applyOperator (inner : Level → Pass → Pass) (operator : Operator) (p : Pass) : Pass :=
  let p := (inner operator.level.stronger p).emitAll operator.code
  if operator.level = .reference && (p.sees .equalGreater || p.sees .lessEqualGreater) then
    p.complainHere .chainedReference
  else p

/-- Nothing but an operand may be assigned to. -/
def refuseAssignment (level : Level) (p : Pass) : Pass :=
  if level = .reference && p.sees .equal then p.advance.complainBefore .invalidTarget else p

mutual

/-- Reads an expression whose operators bind at least as strongly as `level`. -/
def climb : Nat → Level → Pass → Pass
  | 0, _, p => p.advance.complainBefore .expectedExpression
  | bound + 1, level, p =>
    let p := p.advance
    if p.previous.kind.startsOperand then
      refuseAssignment level (climbOn bound level (operand (climb bound) level p))
    else p.complainBefore .expectedExpression

/-- Goes on with operators after an operand has been read. -/
def climbOn : Nat → Level → Pass → Pass
  | 0, _, p => p
  | bound + 1, level, p =>
    match p.current.kind.operatorFrom? level with
    | some operator => climbOn bound level (applyOperator (climb bound) operator p.advance)
    | none => p

end

def expression (p : Pass) : Pass := climb p.left .reference p

/-- Reads what may stand after a quote: an operand without operators. -/
def address (p : Pass) : Pass := climb p.left .unary p

end Pass

end Cellscript
