import Cellscript.Proofs.Compile.Inking
import Cellscript.Proofs.Compile.Statements
import Mathlib.Data.List.TakeWhile

/-!
Whole scripts: a script that compiles is spelled by its tokens, and the chunk holds its code.
-/

set_option autoImplicit false

namespace Cellscript

/-! ## Trees -/

namespace Script

theorem loops_marked (names : List String) (script : Script) :
    (marked names script).loops = script.loops := by
  induction names with
  | nil => rfl
  | cons name rest ih => exact ih

theorem code_marked (names : List String) (script : Script) (number : Nat) :
    (marked names script).code number = names.map .mark ++ script.code number := by
  induction names with
  | nil => rfl
  | cons name rest ih => exact congrArg (Line.mark name :: ·) ih

theorem loops_startWith (s : Option Simple) (script : Script) :
    (startWith s script).loops = script.loops := by
  cases s <;> rfl

theorem code_startWith (s : Option Simple) (script : Script) (number : Nat) :
    (startWith s script).code number = (s.map Simple.code).getD [] ++ script.code number := by
  cases s <;> rfl

end Script

/-! ## Statements take tokens -/

theorem Simple.Spelled.length_pos {ts rest : List Token} {s : Simple}
    (spelled : s.Spelled ts rest) : 0 < ts.length := by
  cases spelled with
  | perform performed => exact performed.length_pos
  | _ => exact Nat.succ_pos _

theorem LabelsSpelled.length_pos {ts : List Token} {names : List String}
    (spelled : LabelsSpelled ts names) (some : names ≠ []) : 0 < ts.length := by
  cases spelled with
  | none => exact absurd rfl some
  | more kind declared rest => exact Nat.succ_pos _

theorem StatementSpelled.labelled_length_pos {labels ts rest : List Token} {names : List String}
    {s : Option Simple} (labelled : LabelsSpelled labels names)
    (spelled : StatementSpelled ts s rest)
    (something : names = [] → s.isSome) : 0 < (labels ++ ts).length := by
  rw [List.length_append]
  by_cases bare : names = []
  · cases spelled with
    | bare ended => cases something bare
    | simple simple ended =>
      have positive := simple.length_pos
      rw [List.length_append]
      omega
  · have positive := labelled.length_pos bare
    omega

theorem Header.Spelled.length_pos {ts : List Token} {header : Header}
    (spelled : header.Spelled ts) : 0 < ts.length := by
  cases spelled
  exact Nat.succ_pos _

namespace Pass

theorem Stated.left_lt {p q : Pass} {opened : Option OpenLoop} (stated : Stated p q opened) :
    q.left < p.left := by
  cases stated with
  | statement labelled spelled something wrote =>
    have length := wrote.left_eq
    have positive := spelled.labelled_length_pos labelled something
    omega
  | loop labelled spelled ended wrote =>
    have length := wrote.left_eq
    have positive := spelled.length_pos
    rw [List.length_append, List.length_append] at length
    omega

/-! ## Declarations -/

/-- What the innermost of the open loops ends with. -/
def exitOf (loops : List OpenLoop) : Option String := loops.head?.map (·.exit)

theorem seesExit_iff {p : Pass} {loop : OpenLoop} :
    p.seesExit loop = true ↔ Script.Closes (some loop.exit) p.ahead := by
  constructor
  · intro seen
    obtain ⟨labelled, same⟩ := Bool.and_eq_true_iff.mp seen
    obtain ⟨name, dots, rest, ahead, kind, declared⟩ := ahead_of_seesLabel labelled
    refine ⟨name, dots, rest, ahead, kind, declared, ?_⟩
    rw [current, ahead] at same
    simpa using same
  · rintro ⟨name, dots, rest, ahead, kind, declared, same⟩
    simp [seesExit, seesLabel, sees, seesNext, current, next, ahead, kind, declared, same]

/-- Where nothing closes, one more declaration is read. -/
theorem declarations_step {p : Pass} {loops : List OpenLoop} {bound : Nat} (honest : p.Honest)
    (unfinished : p.Unfinished) (inside : ¬ Script.Closes (exitOf loops) p.ahead)
    (quiet : (declarations (bound + 1) loops p).diagnostics = []) :
    declarations (bound + 1) loops p =
      declarations bound (p.declaration.2.toList ++ loops) p.declaration.1 := by
  cases loops with
  | nil =>
    have more : ¬ p.atEnd = true := fun ended => inside (ahead_of_atEnd unfinished ended)
    rw [declarations, if_neg more, List.append_nil]
  | cons loop outer =>
    have goes : ¬ p.seesExit loop = true := fun seen => inside (seesExit_iff.mp seen)
    rw [declarations, if_neg goes] at quiet ⊢
    by_cases ended : p.atEnd = true
    · rw [if_pos ended] at quiet
      have complained := (declarations_follows _ _ _).quiet quiet
      exact absurd ((recover_follows _).quiet complained) (complain_loud honest _ _)
    · rw [if_neg ended]

/-- Where a loop closes, the way back is written. -/
theorem declarations_close {p : Pass} {loop : OpenLoop} {outer : List OpenLoop} {bound : Nat}
    (honest : p.Honest) (closes : Script.Closes (some loop.exit) p.ahead)
    (quiet : (declarations (bound + 1) (loop :: outer) p).diagnostics = []) :
    declarations (bound + 1) (loop :: outer) p = declarations bound outer (p.closeLoop loop) := by
  rw [declarations, if_pos (seesExit_iff.mpr closes)] at quiet ⊢
  have closedQuiet := (recover_follows _).quiet ((declarations_follows _ _ _).quiet quiet)
  rw [recover_eq ((heeding.closeLoop p loop).honest honest) closedQuiet]

/-- The way of a pass without complaints from `p` to `q`, declaration by declaration, where the
script or the body of a loop that it reads closes. -/
inductive Course : Option String → Pass → List Token → Script → Pass → Prop
  | done {exit : Option String} {p : Pass} (closes : Script.Closes exit p.ahead) :
      Course exit p [] .done p
  | separator {exit : Option String} {p q r : Pass} {t : Token} {ts : List Token} {script : Script}
      (kind : t.kind = .newline ∨ t.kind = .divider) (wrote : p.Wrote [t] 0 [] q)
      (inked : p.Inked [t] q) (after : Course exit q ts script r) : Course exit p (t :: ts) script r
  | statement {exit : Option String} {p q r : Pass} {labels ts us : List Token}
      {names : List String}
      {s : Option Simple} {script : Script} (inside : ¬ Script.Closes exit p.ahead)
      (labelled : LabelsSpelled labels names) (spelled : StatementSpelled ts s q.ahead)
      (something : names = [] → s.isSome)
      (wrote : p.Wrote (labels ++ ts) 0 (names.map .mark ++ (s.map Simple.code).getD []) q)
      (inked : p.Inked (labels ++ ts) q) (after : Course exit q us script r) :
      Course exit p (labels ++ ts ++ us) (.marked names (.startWith s script)) r
  | loop {exit : Option String} {p q r t : Pass} {labels ts us vs ws : List Token}
      {names : List String} {header : Header} {body script : Script}
      (inside : ¬ Script.Closes exit p.ahead) (labelled : LabelsSpelled labels names)
      (spelled : header.Spelled ts) (ended : Terminator us q.ahead)
      (wrote : p.Wrote (labels ++ ts ++ us) 1 (names.map .mark ++ header.code p.loopCount) q)
      (inked : p.Inked (labels ++ ts ++ us) q)
      (repeated : Course (some header.exit) q vs body r)
      (backWrote : r.Wrote [] 0 (gotoLines (LoopBlock.incr.label p.loopCount 0 0))
        (r.closeLoop ⟨p.loopCount, header.exit⟩))
      (after : Course exit (r.closeLoop ⟨p.loopCount, header.exit⟩) ws script t) :
      Course exit p (labels ++ ts ++ us ++ vs ++ ws) (.marked names (.loop header body script)) t

namespace Course

variable {exit : Option String} {p q : Pass} {ts : List Token} {script : Script}

theorem closes (course : Course exit p ts script q) : Script.Closes exit q.ahead := by
  induction course with
  | done closes => exact closes
  | separator _ _ _ _ ih => exact ih
  | statement _ _ _ _ _ _ _ ih => exact ih
  | loop _ _ _ _ _ _ _ _ _ _ ih => exact ih

theorem wrote (course : Course exit p ts script q) :
    p.Wrote ts script.loops (script.code p.loopCount) q := by
  induction course with
  | done _ => exact .refl _
  | separator _ wrote _ _ ih =>
    rw [wrote.loopCount] at ih
    simpa using wrote.trans ih
  | statement _ _ _ _ wrote _ _ ih =>
    rw [wrote.loopCount] at ih
    rw [Script.loops_marked, Script.loops_startWith, Script.code_marked, Script.code_startWith]
    simpa using wrote.trans ih
  | @loop _ p q r t labels ts us vs ws names header body script _ _ _ _ wrote _ _ backWrote
      _ repeated after =>
    have number : q.loopCount = p.loopCount + 1 := wrote.loopCount
    have total :
        (r.closeLoop ⟨p.loopCount, header.exit⟩).loopCount = p.loopCount + (1 + body.loops) :=
      ((wrote.trans repeated).trans backWrote).loopCount
    rw [number] at repeated
    rw [total, ← Nat.add_assoc] at after
    rw [Script.loops_marked, Script.code_marked]
    have whole := (wrote.trans repeated).trans (backWrote.trans after)
    simpa [Script.loops, Script.code, Nat.add_assoc] using whole

theorem spelled (course : Course exit p ts script q) : Script.Spelled exit ts script q.ahead := by
  induction course with
  | done closes => exact .done closes
  | separator kind _ _ _ ih => exact .separator kind ih
  | statement inside labelled spelled something wrote _ after ih =>
    rw [wrote.ahead, after.wrote.ahead, ← List.append_assoc] at inside
    rw [after.wrote.ahead] at spelled
    exact .statement labelled spelled something inside ih
  | @loop _ p q r t labels ts us vs ws names header body script inside labelled spelled
      ended wrote _ repeated backWrote after body_ih ih =>
    have rest : r.ahead = ws ++ t.ahead := backWrote.ahead.trans after.wrote.ahead
    have tail : q.ahead = vs ++ ws ++ t.ahead := by
      rw [repeated.wrote.ahead, rest, List.append_assoc]
    rw [wrote.ahead, tail] at inside
    rw [tail] at ended
    rw [rest] at body_ih
    exact .loop labelled spelled ended (by simpa using inside) body_ih ih

end Course

/-- The pass went on from `p` to a point where the innermost of the open loops closes, or the
script does; what is left of the bound is enough for the rest. -/
def Closed (bound : Nat) (loops : List OpenLoop) (p : Pass) : Prop :=
  ∃ smaller q ts script, smaller ≤ bound ∧ 2 * q.left + loops.length < smaller ∧ q.Honest ∧
    Course (exitOf loops) p ts script q ∧
    declarations bound loops p = declarations smaller loops q

/-- One more declaration in front. -/
theorem Closed.step {bound : Nat} {loops : List OpenLoop} {p q : Pass}
    (step : declarations (bound + 1) loops p = declarations bound loops q)
    (first : ∀ {ts script r}, Course (exitOf loops) q ts script r →
      ∃ us tree, Course (exitOf loops) p us tree r)
    (closed : Closed bound loops q) : Closed (bound + 1) loops p := by
  obtain ⟨smaller, r, ts, script, below, left, honest, course, reached⟩ := closed
  obtain ⟨us, tree, longer⟩ := first course
  exact ⟨smaller, r, us, tree, by omega, left, honest, longer, step.trans reached⟩

/-- Every step reads a token or closes a loop, so the bound never runs out. -/
theorem declarations_closed (bound : Nat) {loops : List OpenLoop} {p : Pass} (honest : p.Honest)
    (unfinished : p.Unfinished) (quiet : (declarations bound loops p).diagnostics = [])
    (enough : 2 * p.left + loops.length < bound) : Closed bound loops p := by
  induction bound using Nat.strongRecOn generalizing loops p with
  | ind bound ih =>
    by_cases closes : Script.Closes (exitOf loops) p.ahead
    · exact ⟨bound, p, [], .done, Nat.le_refl _, enough, honest, .done closes, rfl⟩
    cases bound with
    | zero => exact absurd enough (Nat.not_lt_zero _)
    | succ bound =>
      have step := declarations_step honest unfinished closes quiet
      have declaredHonest := (declaration_follows p).honest honest
      have declaredQuiet := (declarations_follows bound _ _).quiet (step ▸ quiet)
      have declared := declaration_stated honest unfinished declaredQuiet
      have inked {ts : List Token} (read : p.ahead = ts ++ p.declaration.1.ahead)
          (shorter : p.declaration.1.left < p.left) : p.Inked ts p.declaration.1 := by
        cases ts with
        | nil => exact absurd (congrArg List.length read) (Nat.ne_of_gt shorter)
        | cons t ts => exact declaration_inked honest declaredQuiet read
      generalize p.declaration = read at step declaredHonest declared inked
      obtain ⟨q, opened⟩ := read
      dsimp only at step declaredHonest declared inked
      rcases declared with ⟨t, kind, wrote, rfl⟩ | stated
      · have length := wrote.left_eq
        simp only [List.length_singleton] at length
        exact .step step
          (fun after => ⟨_, _, .separator kind wrote (inked wrote.ahead (by omega)) after⟩)
          (ih bound (Nat.lt_succ_self _) declaredHonest (wrote.unfinished unfinished)
            (step ▸ quiet) (by omega))
      · have shorter := stated.left_lt
        cases stated with
        | statement labelled spelled something wrote =>
          exact .step step
            (fun after => ⟨_, _, .statement closes labelled spelled something wrote
              (inked wrote.ahead shorter) after⟩)
            (ih bound (Nat.lt_succ_self _) declaredHonest (wrote.unfinished unfinished)
              (step ▸ quiet) (by omega))
        | @loop labels ts us names header labelled spelled ended wrote =>
          have unfinishedBody := wrote.unfinished unfinished
          obtain ⟨smaller, r, vs, body, below, left, rHonest, repeated, reached⟩ :=
            ih bound (Nat.lt_succ_self _) declaredHonest unfinishedBody (step ▸ quiet)
              (by simp only [Option.toList_some, List.singleton_append, List.length_cons]; omega)
          simp only [Option.toList_some, List.singleton_append, List.length_cons]
            at left reached step
          obtain ⟨smaller, rfl⟩ := Nat.exists_eq_succ_of_ne_zero (by omega : smaller ≠ 0)
          have bodyQuiet := reached ▸ step ▸ quiet
          have back := declarations_close rHonest repeated.closes bodyQuiet
          have backQuiet := back ▸ bodyQuiet
          have backWrote := emitGoto_wrote rHonest ((declarations_follows _ _ _).quiet backQuiet)
          have unfinishedRest :=
            backWrote.unfinished (repeated.wrote.unfinished unfinishedBody)
          have same : (r.closeLoop ⟨p.loopCount, header.exit⟩).left = r.left := by
            have length := backWrote.left_eq
            rw [List.length_nil, Nat.zero_add] at length
            exact length.symm
          obtain ⟨least, t, ws, script, under, enoughLeft, tHonest, after, finished⟩ :=
            ih smaller (by omega) ((heeding.closeLoop r _).honest rHonest) unfinishedRest
              backQuiet (by rw [same]; omega)
          exact ⟨least, t, _, _, by omega, enoughLeft, tHonest,
            .loop closes labelled spelled ended wrote (inked wrote.ahead shorter) repeated backWrote
              after, ((step.trans reached).trans back).trans finished⟩

/-! ## Whole scripts -/

/-- The line on which the script finishes is known from the start. -/
theorem finishing : Habit fun p q => q.lastLine = p.lastLine where
  refl _ := rfl
  trans first second := second.trans first
  advance _ := resume_lastLine _ _
  complain := complain_lastLine
  write _ _ _ := rfl

/-- A script is read to its end, and a return is written for the line on which it finishes. -/
theorem program_course {p : Pass} (honest : p.Honest) (unfinished : p.Unfinished)
    (quiet : p.program.diagnostics = []) :
    ∃ script q, Course none p p.ahead script q ∧
      p.program = Pass.emit { q with previous := .finish p.lastLine } .halt := by
  have readQuiet := (heeding.emit _ .halt).quiet quiet
  obtain ⟨smaller, q, ts, script, _, left, _, course, reached⟩ :=
    declarations_closed (2 * p.left + 1) honest unfinished readQuiet (Nat.lt_succ_self _)
  have empty : q.ahead = [] := course.closes
  have all : p.ahead = ts := by
    rw [course.wrote.ahead, empty, List.append_nil]
  obtain ⟨smaller, rfl⟩ := Nat.exists_eq_succ_of_ne_zero (by omega : smaller ≠ 0)
  have ended : q.atEnd = true := by
    unfold atEnd sees
    rw [current_kind, empty]
    rfl
  have finished : declarations (smaller + 1) [] q = { q with previous := .finish q.lastLine } := by
    rw [declarations, if_pos ended]
    unfold advance current
    rw [empty]
    rfl
  have same := finishing.declarations (fun _ => rfl) (2 * p.left + 1) [] p
  rw [reached, finished] at same
  refine ⟨script, q, all ▸ course, ?_⟩
  rw [← show q.lastLine = p.lastLine from same, ← finished, ← reached]
  rfl

theorem start_eq {tokens : List Token} {loopCount : Nat}
    (quiet : (start tokens loopCount).diagnostics = []) :
    start tokens loopCount =
      { previous := .finish 1
        ahead := tokens.takeWhile (·.kind != .finish)
        lastLine := (tokens.getLast?.map (·.line)).getD 1
        diagnostics := []
        panicking := false
        chunk := {}
        loopCount } := by
  unfold start at quiet ⊢
  exact resume_eq (by intro panics; cases panics) quiet

theorem start_honest (tokens : List Token) (loopCount : Nat) : (start tokens loopCount).Honest :=
  (resume_heeds _ _).honest nofun

end Pass

namespace Compiler

variable {compiler : Compiler} {source : String} {chunk : Chunk}

/-- The line of the last token of a script. -/
def lastLine (compiler : Compiler) (source : String) : Nat :=
  (((Token.scanThrough compiler.substitutions source).map (·.token)).getLast?.map (·.line)).getD 1

/-- The pass in front of a script. -/
def opening (compiler : Compiler) (source : String) : Pass where
  previous := .finish 1
  ahead := compiler.tokens source
  lastLine := compiler.lastLine source
  diagnostics := []
  panicking := false
  chunk := {}
  loopCount := compiler.loopCount

/-- A script that compiles is read from its first token to its last. -/
theorem compile_course (compiled : (compiler.compile source).2 = .ok chunk) :
    ∃ script q, Pass.Course none (compiler.opening source) (compiler.tokens source) script q ∧
      chunk = (q.chunk.emit Opcode.halt.byte (compiler.lastLine source)).finalize ∧
      (compiler.compile source).1.loopCount = q.loopCount := by
  unfold compile at compiled ⊢
  dsimp only at compiled ⊢
  have opened : (Pass.start ((Token.scanThrough compiler.substitutions source).map (·.token))
      compiler.loopCount).diagnostics = [] → _ = compiler.opening source := Pass.start_eq
  have honest := Pass.start_honest ((Token.scanThrough compiler.substitutions source).map (·.token))
    compiler.loopCount
  generalize Pass.start ((Token.scanThrough compiler.substitutions source).map (·.token))
    compiler.loopCount = p at compiled opened honest ⊢
  split at compiled
  · rename_i silent
    cases compiled
    have quiet : p.program.diagnostics = [] := List.isEmpty_iff.mp silent
    have starts : p = compiler.opening source := opened
      (((Pass.declarations_follows _ _ _).trans (Pass.heeding.emit _ .halt).follows).quiet quiet)
    have unfinished : p.Unfinished := by
      intro t member
      rw [starts] at member
      simpa using List.mem_takeWhile_imp member
    obtain ⟨script, q, course, program⟩ := Pass.program_course honest unfinished quiet
    rw [program]
    subst starts
    exact ⟨script, q, course, rfl, rfl⟩
  · cases compiled

/-- A script that compiles is spelled by its tokens, its chunk holds the code of the tree and no
other constants, and its loops are counted. -/
theorem compile_holds (compiled : (compiler.compile source).2 = .ok chunk) :
    ∃ script, compiler.Spells source script ∧
      chunk.Holds (script.code compiler.loopCount ++ plainLines [.halt]) ∧
      chunk.jumps = chunk.labels ∧
      (compiler.compile source).1.loopCount = compiler.loopCount + script.loops := by
  obtain ⟨script, q, course, rfl, count⟩ := compile_course compiled
  have empty : q.ahead = [] := course.closes
  have holds := course.wrote.writes (p := compiler.opening source) Chunk.empty_holds
  refine ⟨script, ?_, ?_, rfl, count.trans course.wrote.loopCount⟩
  · have spelled := course.spelled
    rwa [empty] at spelled
  · exact (holds.emit rfl _).finalize

theorem compile_assembles (compiled : (compiler.compile source).2 = .ok chunk) :
    ∃ script, compiler.Spells source script ∧
      chunk.Assembles (script.code compiler.loopCount ++ plainLines [.halt]) ∧
      chunk.jumps = chunk.labels ∧
      (compiler.compile source).1.loopCount = compiler.loopCount + script.loops := by
  obtain ⟨script, spells, holds, others⟩ := compile_holds compiled
  exact ⟨script, spells, holds.toAssembles, others⟩

end Compiler

end Cellscript
