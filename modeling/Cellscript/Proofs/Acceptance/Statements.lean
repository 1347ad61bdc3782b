import Cellscript.Proofs.Acceptance.Conditionals
import Cellscript.Proofs.Acceptance.Loops

/-!
Every spelled declaration is read, if its conditionals are short.
-/

set_option autoImplicit false

namespace Cellscript

open List (Forall₂)

namespace Pass

theorem endStatement_proceeds {p : Pass} {ts rest : List Token} {more : List Line}
    (ended : Terminator ts rest) (ready : p.Ready more) (ahead : p.ahead = ts ++ rest) :
    p.Proceeds ts 0 [] p.endStatement more :=
  (endStatement_took ended ahead).proceeds .nil ready

/-! ## Headers of loops -/

/-- Code that is about to be written can be compiled apart. -/
theorem Ready.writable {p : Pass} {lines more : List Line} (ready : p.Ready (lines ++ more))
    {e : Expression} (within : e.code ⊆ lines) : Writable e.code := by
  obtain ⟨written, _, writable⟩ := ready.room
  refine writable.of_unmarked e.code_unmarked fun line stands => ?_
  exact List.mem_append_right _ (List.mem_append_left _ (within stands))

/-- After a header the loop is numbered and its blocks are written. -/
theorem openLoop_proceeds {p : Pass} {header : Header} {sources : List LoopPart}
    {ts rest : List Token} {more : List Line} (ended : Terminator ts rest)
    (realized : Forall₂ LoopPart.Realizes sources header.parts)
    (ready : p.Ready (header.code p.loopCount ++ more)) (ahead : p.ahead = ts ++ rest) :
    p.Proceeds ts 1 (header.code p.loopCount)
      (emitLoop { p.endStatement with loopCount := p.loopCount + 1 } p.loopCount sources
        header.start header.exit) more := by
  have finished := endStatement_proceeds ended ready ahead
  have counted : p.endStatement.Proceeds [] 1 []
      { p.endStatement with loopCount := p.loopCount + 1 } (header.code p.loopCount ++ more) := by
    refine ⟨⟨rfl, ?_, fun holds => by rwa [List.append_nil]⟩, ?_⟩
    · exact congrArg (· + 1) finished.wrote.loopCount.symm
    · exact { finished.ready with }
  have blocks := emitLoop_proceeds realized counted.ready
  simpa using finished.trans (counted.trans blocks)

theorem braceStatement_header {p : Pass} {header : Header} {ts us rest : List Token}
    {more : List Line} (spelled : header.Spelled ts) (ended : Terminator us rest)
    (ready : p.Ready (header.code p.loopCount ++ more)) (ahead : p.ahead = ts ++ (us ++ rest)) :
    p.Proceeds (ts ++ us) 1 (header.code p.loopCount) p.advance.braceStatement.1 more ∧
      p.advance.braceStatement.2 = some { number := p.loopCount, exit := header.exit } := by
  cases spelled with
  | @header left right start divider exit ts parts opened driven closed first kind second differ =>
    have tokens : p.ahead = left :: (ts ++ right :: start :: divider :: exit :: (us ++ rest)) := by
      simpa using ahead
    obtain ⟨passed, _⟩ := advance_proceeds ready tokens
    have inside := passed.ahead tokens
    have writable : ∀ part ∈ parts, ∀ e ∈ part.expressions, Writable e.code := by
      intro part member e mentioned
      exact ready.writable
        (Header.code_of_expression member (driven.driven part member) mentioned p.loopCount)
    unfold braceStatement loopHeader
    dsimp only
    generalize reading :
      (p.advance.apart expression).1.loopPart (p.advance.apart expression).2 = part
    obtain ⟨paren, partsRead, realized⟩ := parts_proceed driven passed.ready writable inside closed
      reading (Nat.le_refl _)
    rw [if_pos paren]
    generalize moreParts part.1.left part.1 = others at partsRead realized ⊢
    have atRight := partsRead.ahead inside
    obtain ⟨rightRead, _⟩ := expect_proceeds partsRead.ready atRight closed .partsClosing
    have atStart := rightRead.ahead atRight
    obtain ⟨startRead, startPrevious⟩ := expect_proceeds rightRead.ready atStart first .bodyLabel
    have atDivider := startRead.ahead atStart
    obtain ⟨dividerRead, _⟩ := expect_proceeds startRead.ready atDivider kind .labelDivider
    have atExit := dividerRead.ahead atDivider
    obtain ⟨exitRead, exitPrevious⟩ := expect_proceeds dividerRead.ready atExit second .exitLabel
    rw [startPrevious, exitPrevious, if_neg (by rw [exitRead.ready.calm]; decide), if_neg differ]
    have before := passed.trans (partsRead.trans (rightRead.trans (startRead.trans
      (dividerRead.trans exitRead))))
    generalize (((others.1.expect .rightCurly .partsClosing).expect .name .bodyLabel).expect
      .divider .labelDivider).expect .name .exitLabel = headed at before ⊢
    have number : headed.loopCount = p.loopCount := before.wrote.loopCount
    have room := before.ready
    rw [← number] at room
    have blocks := openLoop_proceeds ended realized room (before.ahead (by simpa using tokens))
    rw [number] at blocks ⊢
    exact ⟨by simpa using before.trans blocks, rfl⟩

/-! ## Statements with labels -/

section Labels

variable {p : Pass} {labels rest : List Token} {names : List String} {more : List Line}
  {bound : Nat}

theorem label_proceeds {name dots : Token} (kind : name.kind = .name) (declared : dots.kind = .dots)
    (ready : p.Ready (.mark name.lexeme :: more)) (ahead : p.ahead = name :: dots :: rest) :
    p.seesLabel = true ∧ p.Proceeds [name, dots] 0 [.mark name.lexeme]
      (p.advance.advance.defineLabel p.advance.previous.lexeme) more := by
  obtain ⟨passed, previous⟩ := advance_proceeds ready ahead
  obtain ⟨again, _⟩ := advance_proceeds passed.ready (passed.ahead ahead)
  have seen : p.seesLabel = true := by
    simp [seesLabel, sees_iff, seesNext, next_kind ahead, ahead, kindAhead_cons, kind, declared]
  rw [previous]
  exact ⟨seen, passed.trans (again.trans (defineLabel_proceeds again.ready))⟩

/-- Labels in front of more than a terminator are read one by one. -/
theorem statementWithin_labels (labelled : LabelsSpelled labels names)
    (ready : p.Ready (names.map .mark ++ more)) (ahead : p.ahead = labels ++ rest)
    (small : p.left ≤ bound) (starts : (kindAhead rest).isTerminator = false) :
    ∃ smaller q, statementWithin bound p = statementWithin smaller q ∧ q.left ≤ smaller ∧
      p.Proceeds labels 0 (names.map .mark) q more := by
  induction labelled generalizing p bound with
  | none => exact ⟨bound, p, rfl, small, .refl ready⟩
  | @more name dots ts names kind declared others ih =>
    obtain ⟨seen, label⟩ := label_proceeds kind declared ready ahead
    have shorter := label.left_lt
    obtain ⟨bound, rfl⟩ := Nat.exists_eq_succ_of_ne_zero (by omega : bound ≠ 0)
    have next : _ = ts ++ rest := label.ahead ahead
    rw [statementWithin, if_pos seen]
    dsimp only
    generalize p.advance.advance.defineLabel p.advance.previous.lexeme = q at label shorter next ⊢
    have goesOn : ¬ q.current.kind.isTerminator = true := by
      rw [current_kind, next, others.starts starts]
      decide
    have less : q.left ≤ bound := by omega
    obtain ⟨smaller, r, reached, least, after⟩ := ih label.ready next less
    exact ⟨smaller, r, by rw [if_neg goesOn, reached], least, label.trans after⟩

/-- Labels may stand alone. -/
theorem statementWithin_bare {ts : List Token} (labelled : LabelsSpelled labels names)
    (some : names ≠ []) (ended : Terminator ts rest) (ready : p.Ready (names.map .mark ++ more))
    (ahead : p.ahead = labels ++ (ts ++ rest)) (small : p.left ≤ bound) :
    ∃ q, statementWithin bound p = (q.endStatement, none) ∧
      p.Proceeds labels 0 (names.map .mark) q more := by
  induction labelled generalizing p bound with
  | none => exact absurd rfl some
  | @more name dots us names kind declared others ih =>
    obtain ⟨seen, label⟩ := label_proceeds kind declared ready ahead
    have shorter := label.left_lt
    obtain ⟨bound, rfl⟩ := Nat.exists_eq_succ_of_ne_zero (by omega : bound ≠ 0)
    have next : _ = us ++ (ts ++ rest) := label.ahead ahead
    rw [statementWithin, if_pos seen]
    dsimp only
    generalize p.advance.advance.defineLabel p.advance.previous.lexeme = q at label shorter next ⊢
    cases others with
    | none =>
      have stops : q.current.kind.isTerminator = true := by
        rw [current_kind, next]
        exact ended.isTerminator
      exact ⟨q, if_pos stops, label⟩
    | more second =>
      have goesOn : ¬ q.current.kind.isTerminator = true := by
        rw [current_kind, next, List.cons_append, kindAhead_cons, second]
        decide
      have less : q.left ≤ bound := by omega
      obtain ⟨r, reached, after⟩ := ih (List.cons_ne_nil _ _) label.ready next less
      exact ⟨r, by rw [if_neg goesOn, reached], label.trans after⟩

end Labels

/-- A statement without labels and loops. -/
theorem statementWithin_simple {p : Pass} {ts us rest : List Token} {s : Simple} {more : List Line}
    {bound : Nat} (spelled : s.Spelled ts (us ++ rest)) (ended : Terminator us rest)
    (short : s.Short) (ready : p.Ready (s.code ++ more)) (ahead : p.ahead = ts ++ (us ++ rest))
    (small : p.left ≤ bound) :
    ∃ q, statementWithin bound p = (q.endStatement, none) ∧ p.Proceeds ts 0 s.code q more := by
  obtain ⟨q, reached, laid⟩ := statementWithin_laidOut spelled ended ready.fits ahead small
  cases laid with
  | whole _ took => exact ⟨q, reached, took.proceeds s.code_unmarked ready⟩
  | broken long _ => exact absurd short long

/-! ## Declarations -/

section Declarations

variable {p : Pass} {labels ts rest : List Token} {names : List String} {more : List Line}

theorem declaration_separator {t : Token} (kind : t.kind = .newline ∨ t.kind = .divider)
    (ready : p.Ready more) (ahead : p.ahead = t :: rest) :
    p.Proceeds [t] 0 [] p.declaration.1 more ∧ p.declaration.2 = none := by
  have separates : (p.sees .newline || p.sees .divider) = true := by
    rw [Bool.or_eq_true, sees_iff, sees_iff, ahead]
    exact kind
  rw [declaration, if_pos separates]
  exact ⟨(advance_proceeds ready ahead).1, rfl⟩

/-- Where no separator comes next, a declaration is a statement, and nothing needs recovery. -/
theorem declaration_eq {q : Pass} {opened : Option OpenLoop} (reading : p.statement = (q, opened))
    (ready : q.Ready more) (starts : (kindAhead p.ahead).isTerminator = false) :
    p.declaration = (q, opened) := by
  have unseparated : ¬ (p.sees .newline || p.sees .divider) = true := by
    rw [Bool.or_eq_true, sees_iff, sees_iff]
    rintro (kind | kind) <;> rw [kind] at starts <;> cases starts
  rw [declaration, if_neg unseparated, reading]
  cases opened with
  | none => exact congrArg (·, none) (recover_eq ready.honest ready.quiet)
  | some loop => rfl

theorem declaration_statement {s : Option Simple} (labelled : LabelsSpelled labels names)
    (spelled : StatementSpelled ts s rest) (something : names = [] → s.isSome)
    (short : ∀ simple, s = some simple → simple.Short)
    (ready : p.Ready (names.map .mark ++ ((s.map Simple.code).getD [] ++ more)))
    (ahead : p.ahead = labels ++ (ts ++ rest)) :
    p.Proceeds (labels ++ ts) 0 (names.map .mark ++ (s.map Simple.code).getD []) p.declaration.1
      more ∧ p.declaration.2 = none := by
  have starts : (kindAhead p.ahead).isTerminator = false := by
    rw [ahead]
    exact spelled.starts labelled something rest
  cases spelled with
  | @bare ts rest ended =>
    have named : names ≠ [] := fun empty => by cases something empty
    obtain ⟨q, reached, labels⟩ := statementWithin_bare labelled named ended ready ahead
      (Nat.le_refl _)
    have finished := endStatement_proceeds ended labels.ready (labels.ahead ahead)
    rw [declaration_eq reached finished.ready starts]
    exact ⟨labels.trans finished, rfl⟩
  | @simple ts us rest s spelled ended =>
    rw [List.append_assoc] at ahead
    obtain ⟨smaller, q, skipped, small, labels⟩ := statementWithin_labels labelled ready ahead
      (Nat.le_refl _) (spelled.starts _)
    have atStatement := labels.ahead ahead
    obtain ⟨r, reached, statement⟩ := statementWithin_simple spelled ended (short s rfl)
      labels.ready atStatement small
    have finished := endStatement_proceeds ended statement.ready (statement.ahead atStatement)
    rw [declaration_eq (skipped.trans reached) finished.ready starts]
    exact ⟨by simpa using labels.trans (statement.trans finished), rfl⟩

theorem declaration_loop {header : Header} {us : List Token} (labelled : LabelsSpelled labels names)
    (spelled : header.Spelled ts) (ended : Terminator us rest)
    (ready : p.Ready (names.map .mark ++ (header.code p.loopCount ++ more)))
    (ahead : p.ahead = labels ++ (ts ++ (us ++ rest))) :
    p.Proceeds (labels ++ ts ++ us) 1 (names.map .mark ++ header.code p.loopCount) p.declaration.1
      more ∧ p.declaration.2 = some { number := p.loopCount, exit := header.exit } := by
  have brace := spelled.starts (us ++ rest)
  obtain ⟨smaller, q, skipped, small, labels⟩ := statementWithin_labels labelled ready ahead
    (Nat.le_refl _) (by rw [brace]; rfl)
  have atHeader := labels.ahead ahead
  have number : q.loopCount = p.loopCount := labels.wrote.loopCount
  have room := labels.ready
  rw [← number] at room
  obtain ⟨headed, opened⟩ := braceStatement_header spelled ended room atHeader
  have seen : q.sees .leftCurly = true := by
    rw [sees_iff, atHeader]
    exact brace
  have unlabelled : ¬ q.seesLabel = true := by
    rw [seesLabel, Bool.and_eq_true, sees_iff, atHeader, brace]
    rintro ⟨name, _⟩
    cases name
  have positive : 0 < q.left := by
    rw [left, atHeader, List.length_append]
    cases spelled
    exact Nat.add_pos_left (Nat.succ_pos _) _
  obtain ⟨smaller, rfl⟩ := Nat.exists_eq_succ_of_ne_zero (by omega : smaller ≠ 0)
  rw [statementWithin, if_neg unlabelled, if_pos seen] at skipped
  have starts : (kindAhead p.ahead).isTerminator = false := by
    rw [ahead]
    exact labelled.starts (by rw [brace]; rfl)
  have reading : p.statement = (q.advance.braceStatement.1, q.advance.braceStatement.2) := skipped
  rw [declaration_eq reading headed.ready starts, ← number]
  exact ⟨by simpa using labels.trans headed, opened⟩

end Declarations

end Pass

end Cellscript
