import Cellscript.Compile.Statement
import Cellscript.Token.Substitution

/-!
Whole scripts. Declarations are read one after the other, with the loops whose bodies are being read
on a stack, the innermost first.
-/

set_option autoImplicit false

namespace Cellscript

namespace Pass

/-- Whether the declaration of a loop's exit label comes next. -/
def seesExit (p : Pass) (loop : OpenLoop) : Bool :=
  p.seesLabel && p.current.lexeme == loop.exit

/-- Reads all declarations that are left, in at most `bound` steps. -/
def declarations : Nat → List OpenLoop → Pass → Pass
  | 0, _, p => p
  | bound + 1, [], p =>
    if p.atEnd then p.advance
    else
      let (p, opened) := p.declaration
      declarations bound opened.toList p
  | bound + 1, loop :: outer, p =>
    if p.seesExit loop then declarations bound outer (p.closeLoop loop).recover
    else if p.atEnd then
      declarations bound outer (p.complainHere (.unclosedLoop loop.exit)).recover
    else
      let (p, opened) := p.declaration
      declarations bound (opened.toList ++ loop :: outer) p

/-- Reads a script to its end. Every step reads a token or closes a loop, and no loop opens without
a token having been read. -/
def program (p : Pass) : Pass := (declarations (2 * p.left + 1) [] p).emit .halt

end Pass

/-- Compiles scripts one after the other. Loops are numbered across all of them. -/
structure Compiler where
  substitutions : List Substitution := []
  loopCount : Nat := 0

/-- Compiles a script into a finalized chunk, or says everything that is wrong with it. -/
def Compiler.compile (compiler : Compiler) (source : String) :
    Compiler × Except (List Diagnostic) Chunk :=
  let tokens := (Token.scanThrough compiler.substitutions source).map (·.token)
  let p := (Pass.start tokens compiler.loopCount).program
  ({ compiler with loopCount := p.loopCount },
    if p.diagnostics.isEmpty then .ok p.chunk.finalize else .error p.diagnostics)

end Cellscript
