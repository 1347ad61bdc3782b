import Cellscript.Compile.Program
import Cellscript.Proofs.Language.BlockLabels

/-!
The loops of a script. A statement is read first, and if it is the header of a loop, the blocks of
the loop are written then. So a pass can be asked for all the loops that it writes blocks for,
whether or not the script has mistakes.
-/

set_option autoImplicit false

namespace Cellscript

/-- The header of a loop as it was read, with the number that the loop got. -/
structure Heading where
  number : Nat
  parts : List LoopPart
  start : String
  exit : String

/-- The labels that are generated for a loop. -/
def Heading.labels (h : Heading) : List String := LoopBlock.labels h.number h.parts

namespace Pass

/-! ## Reading before writing -/

/-- Reads the rest of a loop's header and numbers the loop, if the header is sound. -/
def readHeader (p : Pass) (init : Chunk) : Pass × Option Heading :=
  let (p, first) := p.loopPart init
  let (p, rest) := moreParts p.left p
  let p := (p.expect .rightCurly .partsClosing).expect .name .bodyLabel
  let start := p.previous.lexeme
  let p := (p.expect .divider .labelDivider).expect .name .exitLabel
  let exit := p.previous.lexeme
  if p.panicking then (p, none)
  else if start = exit then (p.complainBefore .equalLabels, none)
  else
    ({ p.endStatement with loopCount := p.loopCount + 1 },
      some { number := p.loopCount, parts := first :: rest, start, exit })

/-- Writes the blocks of a loop whose header was read. -/
def writeBlocks : Pass × Option Heading → Pass × Option OpenLoop
  | (p, none) => (p, none)
  | (p, some h) =>
    (p.emitLoop h.number h.parts h.start h.exit, some { number := h.number, exit := h.exit })

theorem loopHeader_eq (p : Pass) (init : Chunk) :
    p.loopHeader init = writeBlocks (p.readHeader init) := by
  unfold loopHeader readHeader
  generalize p.loopPart init = part
  dsimp only
  generalize moreParts part.1.left part.1 = rest
  generalize (rest.1.expect .rightCurly .partsClosing).expect .name .bodyLabel = named
  generalize (named.expect .divider .labelDivider).expect .name .exitLabel = q
  by_cases panics : q.panicking = true
  · rw [if_pos panics, if_pos panics]
    rfl
  · rw [if_neg panics, if_neg panics]
    by_cases equal : named.previous.lexeme = q.previous.lexeme
    · rw [if_pos equal, if_pos equal]
      rfl
    · rw [if_neg equal, if_neg equal]
      rfl

/-- Reads what follows a brace, up to the blocks of a loop. -/
def readBrace (p : Pass) : Pass × Option Heading :=
  let (p, head) := p.apart expression
  if p.sees .leftParen then p.readHeader head
  else
    let p := p.expect .rightCurly .unclosedCondition
    ((conditional simpleStatement head p).endStatement, none)

theorem braceStatement_eq (p : Pass) : p.braceStatement = writeBlocks p.readBrace := by
  unfold braceStatement readBrace
  dsimp only
  split
  · exact loopHeader_eq _ _
  · rfl

/-- Reads a statement with the labels in front of it, up to the blocks of a loop. -/
def readWithin : Nat → Pass → Pass × Option Heading
  | 0, p => (p.simpleStatement.endStatement, none)
  | bound + 1, p =>
    if p.seesLabel then
      let named := p.advance
      let p := named.advance.defineLabel named.previous.lexeme
      if p.current.kind.isTerminator then (p.endStatement, none) else readWithin bound p
    else if p.sees .leftCurly then p.advance.readBrace
    else (p.simpleStatement.endStatement, none)

theorem statementWithin_eq (bound : Nat) (p : Pass) :
    statementWithin bound p = writeBlocks (readWithin bound p) := by
  induction bound generalizing p with
  | zero => rfl
  | succ bound ih =>
    unfold statementWithin readWithin
    dsimp only
    split
    · split
      · rfl
      · exact ih _
    · split
      · exact braceStatement_eq _
      · rfl

/-! ## All loops -/

/-- The loop that the declaration here is the header of, if it is one. -/
def heading? (p : Pass) : Option Heading :=
  if p.sees .newline || p.sees .divider then none else (readWithin p.left p).2

/-- The loops of all declarations that are left, in the order of their headers. -/
def headings : Nat → List OpenLoop → Pass → List Heading
  | 0, _, _ => []
  | bound + 1, [], p =>
    if p.atEnd then []
    else p.heading?.toList ++ headings bound p.declaration.2.toList p.declaration.1
  | bound + 1, loop :: outer, p =>
    if p.seesExit loop then headings bound outer (p.closeLoop loop).recover
    else if p.atEnd then headings bound outer (p.complainHere (.unclosedLoop loop.exit)).recover
    else
      p.heading?.toList ++ headings bound (p.declaration.2.toList ++ loop :: outer) p.declaration.1

end Pass

/-- The loops of a script, whether or not it compiles. -/
def Compiler.headings (compiler : Compiler) (source : String) : List Heading :=
  let tokens := (Token.scanThrough compiler.substitutions source).map (·.token)
  let p := Pass.start tokens compiler.loopCount
  Pass.headings (2 * p.left + 1) [] p

end Cellscript
