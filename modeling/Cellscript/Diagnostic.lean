import Cellscript.Chunk.Basic
import Cellscript.Token.Basic

/-!
Diagnostics: what a script is told about its mistakes, and where.
-/

set_option autoImplicit false

namespace Cellscript

inductive Complaint
  | lexical (flaw : Token.Flaw)
  | chunk (error : Chunk.Error)
  | expectedExpression
  | invalidNumber
  | invalidTarget
  | chainedReference
  | unclosedGroup
  | unclosedCondition
  | loopInBranch
  | unfinishedStatement
  | stepOpening
  | stepClosing
  | predicateClosing
  | endDot
  | parameterArrow
  | parameterQuote
  | partsClosing
  | bodyLabel
  | labelDivider
  | exitLabel
  | equalLabels
  | unclosedLoop (exit : String)
deriving DecidableEq

def Complaint.message : Complaint → String
  | .lexical flaw => flaw.message
  | .chunk error => error.message
  | .expectedExpression => "Expect expression."
  | .invalidNumber => "Invalid number literal."
  | .invalidTarget => "Invalid assignment target."
  | .chainedReference => "Reference operators cannot be chained."
  | .unclosedGroup => "Expected ')' after expression."
  | .unclosedCondition => "Expected '\x7d' after condition."
  | .loopInBranch => "Loops cannot appear inside a conditional branch."
  | .unfinishedStatement => "Expected end of statement."
  | .stepOpening => "Expected '(' before loop step."
  | .stepClosing => "Expected ')' after loop step."
  | .predicateClosing => "Expected '\x7d' after loop predicate."
  | .endDot => "Expected '.' after loop end condition."
  | .parameterArrow => "Expected '=>' before loop parameter."
  | .parameterQuote => "Expected a pointer as loop parameter."
  | .partsClosing => "Expected '\x7d' after loop parts."
  | .bodyLabel => "Expected loop body label."
  | .labelDivider => "Expected ',' between loop labels."
  | .exitLabel => "Expected loop exit label."
  | .equalLabels => "Loop body and exit labels must differ."
  | .unclosedLoop exit => "Expected '" ++ exit ++ "...' to close the loop body."

/-- Where a diagnostic points: at a token, at the end of the script, or at no token at all. -/
inductive Location
  | token (lexeme : String)
  | finish
  | nowhere
deriving DecidableEq

/-- A stretch that is no token cannot be pointed at. -/
def Token.location (token : Token) : Location :=
  match token.kind with
  | .finish => .finish
  | .invalid _ => .nowhere
  | _ => .token token.lexeme

structure Diagnostic where
  line : Nat
  location : Location
  complaint : Complaint
deriving DecidableEq

def Location.report (location : Location) (line : Nat) (message : String) : String :=
  let place :=
    match location with
    | .token lexeme => " at '" ++ escapedLexeme lexeme ++ "'"
    | .finish => " at end"
    | .nowhere => ""
  "[line " ++ toString line ++ "] Error" ++ place ++ ": " ++ message

def Diagnostic.text (d : Diagnostic) : String := d.location.report d.line d.complaint.message

def Diagnostic.summary (diagnostics : List Diagnostic) : String :=
  "compilation failed with " ++ toString diagnostics.length ++ " error(s)"

end Cellscript
