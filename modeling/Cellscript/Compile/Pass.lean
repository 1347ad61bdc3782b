import Cellscript.Chunk.Splice
import Cellscript.Diagnostic

/-!
A pass over the tokens of a script that writes code as it reads. It sees the token before and the
tokens ahead. After a complaint it panics: further complaints are dropped until it has recovered at
a place where a statement may start.
-/

set_option autoImplicit false

namespace Cellscript

structure Pass where
  /-- The token read last. -/
  previous : Token
  /-- The tokens not yet read, without the finishing one. -/
  ahead : List Token
  /-- The line on which the script finishes. -/
  lastLine : Nat
  diagnostics : List Diagnostic
  panicking : Bool
  chunk : Chunk
  /-- How many loops have been numbered. -/
  loopCount : Nat

namespace Pass

def current (p : Pass) : Token := p.ahead.headD (.finish p.lastLine)

def next (p : Pass) : Token := p.ahead.tail.headD (.finish p.lastLine)

/-- How many tokens are left before the script finishes. -/
def left (p : Pass) : Nat := p.ahead.length

def sees (p : Pass) (kind : Token.Kind) : Bool := p.current.kind == kind

def seesNext (p : Pass) (kind : Token.Kind) : Bool := p.next.kind == kind

def atEnd (p : Pass) : Bool := p.sees .finish

/-! ## Complaints -/

/-- Records a complaint about a token and panics, unless the pass panics already. -/
def complain (p : Pass) (token : Token) (complaint : Complaint) : Pass :=
  if p.panicking then p
  else
    { p with
      panicking := true
      diagnostics := p.diagnostics ++ [⟨token.line, token.location, complaint⟩] }

/-- Complains about the token read last. -/
def complainBefore (p : Pass) (complaint : Complaint) : Pass := p.complain p.previous complaint

/-- Complains about the token that comes next. -/
def complainHere (p : Pass) (complaint : Complaint) : Pass := p.complain p.current complaint

/-! ## Reading -/

/-- Goes on with `tokens`, whose invalid ones at the front are reported and dropped. -/
def resume (p : Pass) : List Token → Pass
  | [] => { p with ahead := [] }
  | token :: rest =>
    match token.kind with
    | .invalid flaw => (p.complain token (.lexical flaw)).resume rest
    | _ => { p with ahead := token :: rest }

/-- Reads one token. At the end the finishing token is read again and again. -/
def advance (p : Pass) : Pass := { p with previous := p.current }.resume p.ahead.tail

/-- Reads a token of the given kind or complains about another one. -/
def expect (p : Pass) (kind : Token.Kind) (complaint : Complaint) : Pass :=
  if p.sees kind then p.advance else p.complainHere complaint

/-- The pass before the first token of a script. -/
def start (tokens : List Token) (loopCount : Nat) : Pass :=
  let blank : Pass :=
    { previous := .finish 1
      ahead := []
      lastLine := (tokens.getLast?.map (·.line)).getD 1
      diagnostics := []
      panicking := false
      chunk := {}
      loopCount }
  blank.resume (tokens.takeWhile (·.kind != .finish))

/-- Whether the pass stands where a statement may start again: after a terminator, or in front of a
word or brace that starts one. -/
def atBoundary (p : Pass) : Bool :=
  p.previous.kind == .newline || p.previous.kind == .divider ||
    p.sees .print || p.sees .pr || p.sees .leftCurly

/-- Reads on up to a boundary or the end; at most `bound` tokens. -/
def skipToBoundary : Nat → Pass → Pass
  | 0, p => p
  | bound + 1, p =>
    if p.atEnd || p.atBoundary then p else skipToBoundary bound p.advance

/-- Ends a panic at the next boundary. -/
def recover (p : Pass) : Pass :=
  if p.panicking then skipToBoundary p.left { p with panicking := false } else p

/-! ## Writing -/

/-- Code belongs to the line of the token read last. -/
def line (p : Pass) : Nat := p.previous.line

def emit (p : Pass) (op : Opcode) : Pass := { p with chunk := p.chunk.emit op.byte p.line }

def emitAll (p : Pass) (ops : List Opcode) : Pass := ops.foldl emit p

/-- Takes over a chunk, or complains that there is none. -/
def adopt (p : Pass) : Except Chunk.Error Chunk → Pass
  | .ok chunk => { p with chunk }
  | .error e => p.complainBefore (.chunk e)

def emitConstant (p : Pass) (value : Value) : Pass :=
  match p.chunk.addConstant value with
  | .ok (index, chunk) => { p with chunk := chunk.emitPair .constant index p.line }
  | .error e => p.complainBefore (.chunk e)

/-- Transfers control to a label, which is looked up when that happens. -/
def emitGoto (p : Pass) (label : String) : Pass := (p.emitConstant (.text label)).emit .pop

/-- Writes a jump with a placeholder, and gives the place of the placeholder. -/
def emitJump (p : Pass) (op : Opcode) : Pass × Nat :=
  ({ p with chunk := p.chunk.emitJump op p.line }, p.chunk.size + 1)

def patchJump (p : Pass) (offset : Nat) : Pass := p.adopt (p.chunk.patchJump offset)

def defineLabel (p : Pass) (name : String) : Pass := p.adopt (p.chunk.defineLabel name)

/-- Copies code that was written apart. -/
def splice (p : Pass) (other : Chunk) : Pass :=
  match p.chunk.splice other with
  | (chunk, none) => { p with chunk }
  | (chunk, some e) => { p with chunk }.complainBefore (.chunk e)

/-- Lets `write` write into a chunk of its own. -/
def apart (p : Pass) (write : Pass → Pass) : Pass × Chunk :=
  let written := write { p with chunk := {} }
  ({ written with chunk := p.chunk }, written.chunk)

end Pass

end Cellscript
