import Cellscript.Proofs.Acceptance.Statements
import Cellscript.Proofs.Compile.WellFormed

/-!
The compiler accepts the language, all of it and nothing else.
-/

set_option autoImplicit false

namespace Cellscript

/-! ## Short scripts -/

namespace Script

theorem not_closes_of_separator {exit : Option String} {t : Token} {rest : List Token}
    (kind : t.kind = .newline ∨ t.kind = .divider) : ¬ Closes exit (t :: rest) := by
  cases exit with
  | none => nofun
  | some label =>
    rintro ⟨name, dots, tail, tokens, named, _⟩
    rw [(List.cons.inj tokens).1, named] at kind
    simp at kind

theorem short_marked (names : List String) (script : Script) :
    (marked names script).Short ↔ script.Short := by
  induction names with
  | nil => exact Iff.rfl
  | cons name rest ih => exact ih

theorem Short.startWith {s : Option Simple} {script : Script} (short : (startWith s script).Short) :
    (∀ simple, s = some simple → simple.Short) ∧ script.Short := by
  cases s with
  | none => exact ⟨nofun, short⟩
  | some simple =>
    refine ⟨?_, short.2⟩
    rintro _ ⟨⟩
    exact short.1

end Script

namespace Pass

/-! ## Declarations -/

/-- Reading declarations has come to where the script closes, with bound enough for what is left. -/
def Settles (bound : Nat) (loops : List OpenLoop) (p : Pass) (ts : List Token) (count : Nat)
    (lines more : List Line) : Prop :=
  ∃ smaller q, declarations bound loops p = declarations smaller loops q ∧
    2 * q.left + loops.length < smaller ∧ p.Proceeds ts count lines q more

section Declarations

variable {p q : Pass} {loops : List OpenLoop} {ts us : List Token} {m n : Nat}
  {lines next later more : List Line}

theorem Settles.after {bound smaller : Nat} (settles : Settles smaller loops q us n next more)
    (step : declarations bound loops p = declarations smaller loops q)
    (proceeds : p.Proceeds ts m lines q later) :
    Settles bound loops p (ts ++ us) (m + n) (lines ++ next) more := by
  obtain ⟨least, r, reached, enough, rest⟩ := settles
  exact ⟨least, r, step.trans reached, enough, proceeds.trans rest⟩

theorem declarations_declare (bound : Nat) (inside : ¬ Script.Closes (exitOf loops) p.ahead)
    (unfinished : kindAhead p.ahead ≠ .finish) :
    declarations (bound + 1) loops p =
      declarations bound (p.declaration.2.toList ++ loops) p.declaration.1 := by
  have goesOn : ¬ p.atEnd = true := by
    rw [atEnd, sees_iff]
    exact unfinished
  cases loops with
  | nil => rw [declarations, if_neg goesOn, List.append_nil]
  | cons loop outer =>
    have stays : ¬ p.seesExit loop = true := fun seen => inside (seesExit_iff.mp seen)
    rw [declarations, if_neg stays, if_neg goesOn]

theorem closeLoop_proceeds (loop : OpenLoop) (bound : Nat)
    (ready : p.Ready (gotoLines (LoopBlock.incr.label loop.number 0 0) ++ more))
    (closes : Script.Closes (some loop.exit) p.ahead) :
    declarations (bound + 1) (loop :: loops) p = declarations bound loops (p.closeLoop loop) ∧
      p.Proceeds [] 0 (gotoLines (LoopBlock.incr.label loop.number 0 0)) (p.closeLoop loop)
        more := by
  have back : p.Proceeds [] 0 _ (p.closeLoop loop) more := emitGoto_proceeds ready
  refine ⟨?_, back⟩
  rw [declarations, if_pos (seesExit_iff.mpr closes), recover_eq back.ready.honest back.ready.quiet]

theorem unfinished_of_starts {tokens : List Token}
    (starts : (kindAhead tokens).isTerminator = false) : kindAhead tokens ≠ .finish := by
  intro finish
  rw [finish] at starts
  cases starts

theorem Proceeds.left_lt_of_starts (proceeds : p.Proceeds ts m lines q more)
    (starts : (kindAhead ts).isTerminator = false) : q.left < p.left := by
  cases ts with
  | nil => cases starts
  | cons t ts => exact proceeds.left_lt

/-- A pass that has read tokens numbers the loops of what comes next from where it stands. -/
theorem Proceeds.room {script : Script}
    (proceeds : p.Proceeds ts m lines q (script.code (p.loopCount + m) ++ more)) :
    q.Ready (script.code q.loopCount ++ more) := by
  rw [proceeds.wrote.loopCount]
  exact proceeds.ready

/-- A body is read to its end, and its loop is closed there. -/
theorem Settles.close {loop : OpenLoop} {bound : Nat} {rest : List Token}
    (body : Settles bound (loop :: loops) p ts n lines
      (gotoLines (LoopBlock.incr.label loop.number 0 0) ++ more))
    (ahead : p.ahead = ts ++ rest) (closes : Script.Closes (some loop.exit) rest) :
    ∃ smaller q, declarations bound (loop :: loops) p = declarations smaller loops q ∧
      2 * q.left + loops.length < smaller ∧
      p.Proceeds ts n (lines ++ gotoLines (LoopBlock.incr.label loop.number 0 0)) q more := by
  obtain ⟨smaller, q, reached, least, read⟩ := body
  rw [List.length_cons] at least
  obtain ⟨smaller, rfl⟩ := Nat.exists_eq_succ_of_ne_zero (by omega : smaller ≠ 0)
  have atExit : q.ahead = rest := read.ahead ahead
  obtain ⟨close, back⟩ := closeLoop_proceeds loop smaller read.ready (atExit ▸ closes)
  have less := back.left_le
  refine ⟨smaller, q.closeLoop loop, reached.trans close, by omega, ?_⟩
  simpa using read.trans back

/-- The declarations of a script are read up to where it closes, inside any loops of which the
innermost has this exit. -/
def Settling (exit : Option String) (ts : List Token) (script : Script) (rest : List Token) :
    Prop :=
  ∀ (loops : List OpenLoop) (bound : Nat) (p : Pass) (more : List Line), exitOf loops = exit →
    script.Short → p.Ready (script.code p.loopCount ++ more) → p.ahead = ts ++ rest →
    2 * p.left + loops.length < bound →
    Settles bound loops p ts script.loops (script.code p.loopCount) more

variable {exit : Option String} {rest : List Token} {script : Script}

theorem Settling.separator {t : Token} (kind : t.kind = .newline ∨ t.kind = .divider)
    (settling : Settling exit ts script rest) : Settling exit (t :: ts) script rest := by
  intro loops bound p more innermost short ready ahead enough
  obtain ⟨declared, none⟩ := declaration_separator kind ready ahead
  have inside : ¬ Script.Closes (exitOf loops) p.ahead := by
    rw [ahead]
    exact Script.not_closes_of_separator kind
  have unfinished : kindAhead p.ahead ≠ .finish := by
    rw [ahead, List.cons_append, kindAhead_cons]
    rcases kind with kind | kind <;> rw [kind] <;> nofun
  obtain ⟨bound, rfl⟩ := Nat.exists_eq_succ_of_ne_zero (by omega : bound ≠ 0)
  have step := declarations_declare bound inside unfinished
  have shorter := declared.left_lt
  rw [none] at step
  have others := settling _ _ _ _ innermost short declared.room (declared.ahead ahead)
    (by omega : 2 * p.declaration.1.left + loops.length < bound)
  rw [declared.wrote.loopCount] at others
  simpa using others.after step declared

theorem Settling.statement {labels : List Token} {names : List String} {s : Option Simple}
    (labelled : LabelsSpelled labels names) (spelled : StatementSpelled ts s (us ++ rest))
    (something : names = [] → s.isSome) (inside : ¬ Script.Closes exit (labels ++ ts ++ us ++ rest))
    (settling : Settling exit us script rest) :
    Settling exit (labels ++ ts ++ us) (Script.marked names (Script.startWith s script)) rest := by
  intro loops bound p more innermost short ready ahead enough
  obtain ⟨statementShort, scriptShort⟩ := ((Script.short_marked names _).mp short).startWith
  rw [Script.code_marked, Script.code_startWith] at ready ⊢
  rw [List.append_assoc, List.append_assoc] at ready
  have tokens : p.ahead = labels ++ (ts ++ (us ++ rest)) := by simpa using ahead
  obtain ⟨declared, none⟩ := declaration_statement labelled spelled something statementShort ready
    tokens
  have stays : ¬ Script.Closes (exitOf loops) p.ahead := by
    rw [ahead, innermost]
    exact inside
  have starts := spelled.starts labelled something
  obtain ⟨bound, rfl⟩ := Nat.exists_eq_succ_of_ne_zero (by omega : bound ≠ 0)
  have step := declarations_declare bound stays (tokens ▸ unfinished_of_starts (starts _))
  rw [none] at step
  have shorter := declared.left_lt_of_starts (by simpa using starts [])
  have others := settling _ _ _ _ innermost scriptShort declared.room
    (declared.ahead (by simpa using tokens))
    (by omega : 2 * p.declaration.1.left + loops.length < bound)
  rw [declared.wrote.loopCount] at others
  rw [Script.loops_marked, Script.loops_startWith]
  simpa using others.after step declared

theorem Settling.loop {labels vs ws : List Token} {names : List String} {header : Header}
    {body : Script} (labelled : LabelsSpelled labels names) (spelled : header.Spelled ts)
    (ended : Terminator us (vs ++ ws ++ rest))
    (inside : ¬ Script.Closes exit (labels ++ ts ++ us ++ vs ++ ws ++ rest))
    (closes : Script.Closes (some header.exit) (ws ++ rest))
    (repeated : Settling (some header.exit) vs body (ws ++ rest))
    (settling : Settling exit ws script rest) :
    Settling exit (labels ++ ts ++ us ++ vs ++ ws)
      (Script.marked names (.loop header body script)) rest := by
  intro loops bound p more innermost short ready ahead enough
  obtain ⟨bodyShort, scriptShort⟩ := (Script.short_marked names _).mp short
  rw [Script.code_marked, Script.code] at ready ⊢
  simp only [List.append_assoc] at ready
  have tokens : p.ahead = labels ++ (ts ++ (us ++ (vs ++ (ws ++ rest)))) := by simpa using ahead
  rw [List.append_assoc] at ended
  obtain ⟨declared, opened⟩ := declaration_loop labelled spelled ended ready tokens
  have stays : ¬ Script.Closes (exitOf loops) p.ahead := by
    rw [tokens, innermost]
    simpa using inside
  have starts : ∀ more, (kindAhead (labels ++ (ts ++ more))).isTerminator = false := fun more =>
    labelled.starts (by rw [spelled.starts]; rfl)
  obtain ⟨bound, rfl⟩ := Nat.exists_eq_succ_of_ne_zero (by omega : bound ≠ 0)
  have step := declarations_declare bound stays (tokens ▸ unfinished_of_starts (starts _))
  rw [opened] at step
  have shorter := declared.left_lt_of_starts (by simpa using starts us)
  -- the body is read with the loop on the stack, up to the declaration of its exit label
  have inBody := declared.ahead (by simpa using tokens)
  have enough : 2 * p.declaration.1.left +
      (OpenLoop.mk p.loopCount header.exit :: loops).length < bound := by
    simp only [List.length_cons]
    omega
  obtain ⟨smaller, q, reached, least, bodyRead⟩ :=
    (repeated _ _ _ _ rfl bodyShort declared.room inBody enough).close inBody closes
  have before := declared.trans bodyRead
  -- what comes after the loop is numbered behind it and the loops of its body
  have number : q.loopCount = p.loopCount + 1 + body.loops := by
    rw [before.wrote.loopCount]
    omega
  have room := bodyRead.ready
  rw [← number] at room
  have others := settling _ _ _ _ innermost scriptShort room (bodyRead.ahead inBody) least
  have whole := others.after (step.trans reached) before
  rw [number, declared.wrote.loopCount] at whole
  rw [Script.loops_marked, Script.loops]
  simpa [Nat.add_assoc] using whole

end Declarations

theorem declarations_settle {exit : Option String} {ts rest : List Token} {script : Script}
    (spelled : Script.Spelled exit ts script rest) : Settling exit ts script rest := by
  induction spelled with
  | done closes => exact fun _ _ _ _ _ _ ready _ enough => ⟨_, _, rfl, enough, .refl ready⟩
  | separator kind after ih => exact .separator kind ih
  | statement labelled spelled something inside after ih =>
    exact .statement labelled spelled something inside ih
  | loop labelled spelled ended inside repeated after body others =>
    exact .loop labelled spelled ended inside repeated.closes body others

/-! ## Whole scripts -/

/-- A script is read to its end, and its code is written. -/
theorem program_settles {p : Pass} {script : Script}
    (spelled : Script.Spelled none p.ahead script []) (short : script.Short)
    (ready : p.Ready (script.program p.loopCount)) :
    p.program.diagnostics = [] ∧ ∀ {written : List Line}, p.chunk.Holds written →
      p.program.chunk.Holds (written ++ script.program p.loopCount) := by
  have whole : p.ahead = p.ahead ++ [] := (List.append_nil _).symm
  obtain ⟨smaller, q, reached, least, read⟩ :=
    declarations_settle spelled [] (2 * p.left + 1) p _ rfl short ready whole (Nat.lt_succ_self _)
  have empty := read.ahead whole
  obtain ⟨smaller, rfl⟩ := Nat.exists_eq_succ_of_ne_zero (by omega : smaller ≠ 0)
  have ended : q.atEnd = true := by
    rw [atEnd, sees_iff, empty]
    rfl
  have past : q.advance.diagnostics = q.diagnostics ∧ q.advance.chunk = q.chunk := by
    unfold advance
    rw [empty]
    exact ⟨rfl, rfl⟩
  have finished : declarations (2 * p.left + 1) [] p = q.advance := by
    rw [reached, declarations, if_pos ended]
  unfold program
  rw [finished]
  refine ⟨past.1.trans read.ready.quiet, fun holds => ?_⟩
  have halted : Opcode.halt.operandWidth = 0 := rfl
  have written := (past.2 ▸ read.wrote.writes holds).emit halted q.advance.previous.line
  rwa [List.append_assoc] at written

/-- A script starts with all of its tokens ahead, if they are valid. -/
theorem start_ready {tokens : List Token}
    (valid : ∀ t ∈ tokens.takeWhile (·.kind != .finish), t.Valid) {lines : List Line}
    (writable : Writable lines) (loopCount : Nat) :
    (start tokens loopCount).Ready lines ∧
      (start tokens loopCount).ahead = tokens.takeWhile (·.kind != .finish) ∧
      (start tokens loopCount).loopCount = loopCount ∧ (start tokens loopCount).chunk = {} := by
  unfold start
  dsimp only
  rw [resume_valid _ valid]
  exact ⟨⟨rfl, rfl, valid, [], Chunk.empty_holds, writable⟩, rfl, rfl, rfl⟩

end Pass

/-- A program has room where its script has. -/
theorem Script.program_writable {script : Script} {number : Nat}
    (distinct : (labelNames (script.code number)).Nodup)
    (few : (constantKeys (script.code number)).card ≤ Chunk.maxConstants) :
    Writable (script.program number) where
  distinct := by
    rw [program, labelNames_append, show labelNames (plainLines [.halt]) = [] from rfl,
      List.append_nil]
    exact distinct
  few := by
    refine (Finset.card_le_card fun key member => ?_).trans few
    obtain ⟨value, loaded, keyed⟩ := mem_constantKeys.mp member
    refine mem_constantKeys.mpr ⟨value, ?_, keyed⟩
    rcases List.mem_append.mp loaded with inside | halt
    · exact inside
    · simp [plainLines] at halt
  constant _ loaded := Script.program_constant loaded

/-- A script of the language compiles to its code. -/
theorem Compiler.Spells.compiles {compiler : Compiler} {source : String} {script : Script}
    (spells : compiler.Spells source script) (valid : ∀ t ∈ compiler.tokens source, t.Valid)
    (distinct : (labelNames (script.code compiler.loopCount)).Nodup)
    (few : (constantKeys (script.code compiler.loopCount)).card ≤ Chunk.maxConstants)
    (short : script.Short) :
    ∃ chunk, (compiler.compile source).2 = .ok chunk ∧
      chunk.Assembles (script.code compiler.loopCount ++ plainLines [.halt]) := by
  obtain ⟨ready, ahead, count, empty⟩ :=
    Pass.start_ready valid (Script.program_writable distinct few) compiler.loopCount
  unfold Spells tokens at spells
  rw [← ahead] at spells
  obtain ⟨quiet, writes⟩ := Pass.program_settles spells short (count.symm ▸ ready)
  have holds := writes (empty ▸ Chunk.empty_holds)
  rw [count] at holds
  refine ⟨_, ?_, holds.finalize.toAssembles⟩
  unfold compile
  dsimp only
  rw [quiet]
  rfl

/-- The compiler accepts exactly the language: valid tokens that spell a script, in which the two
labels of a loop differ, whose labels are declared once, which loads at most as many constants as an
operand can number, and whose conditionals are short enough to be jumped over. -/
theorem Compiler.compiles_iff_in_language (compiler : Compiler) (source : String) :
    (∃ chunk, (compiler.compile source).2 = .ok chunk) ↔
      (∀ t ∈ compiler.tokens source, t.Valid) ∧
        ∃ script, compiler.Spells source script ∧
          (labelNames (script.code compiler.loopCount)).Nodup ∧
          (constantKeys (script.code compiler.loopCount)).card ≤ Chunk.maxConstants ∧
          script.Short := by
  constructor
  · rintro ⟨chunk, compiled⟩
    obtain ⟨script, spells, holds, _⟩ := compile_holds compiled
    have within : script.code compiler.loopCount ⊆ script.program compiler.loopCount :=
      List.subset_append_left _ _
    have distinct : (labelNames (script.program compiler.loopCount)).Nodup :=
      holds.toAssembles.distinct_labels
    refine ⟨spells.valid, script, spells, ?_, ?_, ?_⟩
    · exact distinct.sublist ((List.sublist_append_left _ _).filterMap Line.name?)
    · exact (Finset.card_le_card (constantKeys_mono within)).trans holds.toAssembles.few_constants
    · exact Script.short_of_near (holds.toAssembles.near.mono within)
  · rintro ⟨valid, script, spells, distinct, few, short⟩
    obtain ⟨chunk, compiled, _⟩ := spells.compiles valid distinct few short
    exact ⟨chunk, compiled⟩

end Cellscript
