import Cellscript.Compile.Program

/-!
Manners of a pass. A statement is put together from reading a token, complaining, writing, and
setting chunks aside until they are spliced. Whatever these keep true of a pass and of the chunks
set aside, statements keep true as a whole.
-/

set_option autoImplicit false

namespace Cellscript

/-! ## Chunks that are set aside -/

def LoopEnd.chunk : LoopEnd → Chunk
  | .value target => target
  | .condition predicate => predicate

def LoopPart.chunks (part : LoopPart) : List Chunk :=
  part.init :: part.step :: part.finish.chunk :: part.parameters

def LoopLink.chunks (l : LoopLink) : List Chunk := l.parameter :: l.source.chunks

/-- The links of a header need no other chunks than its parts. -/
theorem LoopLink.chunks_subset {parts : List LoopPart} {l : LoopLink}
    (member : l ∈ LoopLink.all parts) : l.chunks ⊆ parts.flatMap LoopPart.chunks := by
  obtain ⟨⟨source, part⟩, placed, inside⟩ := List.mem_flatMap.mp member
  obtain ⟨⟨parameter, link⟩, driven, rfl⟩ := List.mem_map.mp inside
  have among : source.chunks ⊆ parts.flatMap LoopPart.chunks :=
    fun c aside => List.mem_flatMap_of_mem (List.fst_mem_of_mem_zipIdx placed) aside
  refine List.cons_subset.mpr ⟨among ?_, among⟩
  have parameters := List.fst_mem_of_mem_zipIdx driven
  simp [LoopPart.chunks, parameters]

namespace Pass

/-! ## Reading -/

theorem not_atEnd_of_kind {p : Pass} {kind : Token.Kind} (same : p.current.kind = kind)
    (real : kind ≠ .finish) : ¬ p.atEnd = true := by
  intro ended
  exact real (same.symm.trans (beq_iff_eq.mp ended))

theorem not_atEnd_of_sees {p : Pass} {kind : Token.Kind} (seen : p.sees kind = true)
    (real : kind ≠ .finish) : ¬ p.atEnd = true :=
  not_atEnd_of_kind (beq_iff_eq.mp seen) real

theorem not_atEnd_of_either {p : Pass} {a b : Token.Kind} (seen : (p.sees a || p.sees b) = true)
    (first : a ≠ .finish) (second : b ≠ .finish) : ¬ p.atEnd = true := by
  rcases Bool.or_eq_true_iff.mp seen with here | here
  · exact not_atEnd_of_sees here first
  · exact not_atEnd_of_sees here second

theorem complain_chunk (p : Pass) (token : Token) (complaint : Complaint) :
    (p.complain token complaint).chunk = p.chunk := by
  unfold complain
  split <;> rfl

theorem complain_previous (p : Pass) (token : Token) (complaint : Complaint) :
    (p.complain token complaint).previous = p.previous := by
  unfold complain
  split <;> rfl

theorem resume_previous (p : Pass) (tokens : List Token) :
    (p.resume tokens).previous = p.previous := by
  induction tokens generalizing p with
  | nil => rfl
  | cons token rest ih =>
    unfold resume
    split
    · rw [ih, complain_previous]
    · rfl

theorem complain_lastLine (p : Pass) (token : Token) (complaint : Complaint) :
    (p.complain token complaint).lastLine = p.lastLine := by
  unfold complain
  split <;> rfl

theorem resume_lastLine (p : Pass) (tokens : List Token) :
    (p.resume tokens).lastLine = p.lastLine := by
  induction tokens generalizing p with
  | nil => rfl
  | cons token rest ih =>
    unfold resume
    split
    · rw [ih, complain_lastLine]
    · rfl

theorem advance_previous (p : Pass) : p.advance.previous = p.current := resume_previous _ _

/-- The token after the next one comes next when that one has been read. -/
theorem advance_sees {p : Pass} {kind : Token.Kind} (seen : p.seesNext kind = true)
    (real : kind ≠ .finish) (valid : ∀ flaw, kind ≠ .invalid flaw) :
    p.advance.sees kind = true := by
  have same : p.next.kind = kind := beq_iff_eq.mp seen
  unfold next at same
  unfold advance
  cases tail : p.ahead.tail with
  | nil =>
    rw [tail] at same
    exact absurd same.symm real
  | cons t rest =>
    rw [tail] at same
    have here : t.kind = kind := same
    unfold resume
    split
    · exact absurd (here.symm.trans ‹_›) (valid _)
    · exact beq_iff_eq.mpr here

/-- What reading, complaining and writing keep true of a pass and of the chunks that it has set
aside. -/
structure Manner {ι : Type} (J : ι → Pass → List Chunk → Prop) : Prop where
  advance : ∀ {i p cs}, ¬ p.atEnd = true → J i p cs → J i p.advance cs
  /-- At the end a token is read only to complain. -/
  balk : ∀ {i p cs} complaint, J i p cs → J i (p.advance.complainBefore complaint) cs
  complain : ∀ {i p cs} token complaint, J i p cs → J i (p.complain token complaint) cs
  emit : ∀ {i p cs} op, J i p cs → J i (p.emit op) cs
  emitConstant : ∀ {i p cs} value, J i p cs → J i (p.emitConstant value) cs
  emitJump : ∀ {i p cs} op, J i p cs → J i (p.emitJump op).1 cs
  patchJump : ∀ {i p cs} offset, J i p cs → J i (p.patchJump offset) cs
  defineLabel : ∀ {i p cs} name, J i p cs → J i (p.defineLabel name) cs
  count : ∀ {i p cs} loopCount, J i p cs → J i { p with loopCount } cs
  splice : ∀ {i p cs other}, other ∈ cs → J i p cs → J i (p.splice other) cs
  apart : ∀ {i p cs write}, (∀ {i p cs}, J i p cs → J i (write p) cs) → J i p cs →
    J i (p.apart write).1 ((p.apart write).2 :: cs)
  forget : ∀ {i p cs fewer}, fewer ⊆ cs → J i p cs → J i p fewer

namespace Manner

variable {ι : Type} {J : ι → Pass → List Chunk → Prop} (manner : Manner J) {i : ι} {p : Pass}
  {cs : List Chunk}

include manner

theorem expect (kind : Token.Kind) (real : kind ≠ .finish) (complaint : Complaint)
    (kept : J i p cs) : J i (p.expect kind complaint) cs := by
  unfold Pass.expect
  split
  · exact manner.advance (not_atEnd_of_sees ‹_› real) kept
  · exact manner.complain _ _ kept

/-! ## Writing -/

theorem emitAll (ops : List Opcode) (kept : J i p cs) : J i (p.emitAll ops) cs := by
  induction ops generalizing p with
  | nil => exact kept
  | cons op rest ih => exact ih (manner.emit op kept)

theorem emitGoto (label : String) (kept : J i p cs) : J i (p.emitGoto label) cs :=
  manner.emit _ (manner.emitConstant _ kept)

/-! ## Expressions -/

theorem emitNumber (lexeme : String) (kept : J i p cs) : J i (p.emitNumber lexeme) cs := by
  unfold Pass.emitNumber
  split
  · exact manner.emitConstant _ kept
  · exact manner.complain _ _ kept

section Inner

variable {inner : Level → Pass → Pass}

theorem operand (keeps : ∀ level {p}, J i p cs → J i (inner level p) cs) (level : Level)
    (kept : J i p cs) : J i (Pass.operand inner level p) cs := by
  unfold Pass.operand
  split
  · exact manner.expect .rightParen (by decide) _ (keeps _ kept)
  · exact manner.emit _ (keeps _ kept)
  · exact manner.emit _ (keeps _ kept)
  · dsimp only
    split
    · rename_i assigns
      have target := not_atEnd_of_sees (Bool.and_eq_true_iff.mp assigns).2 (by decide)
      exact manner.emit _ (keeps _ (manner.advance target (keeps _ kept)))
    · exact manner.emit _ (keeps _ kept)
  · exact manner.emitConstant _ kept
  · exact manner.emitNumber _ kept
  · exact manner.emitConstant _ kept
  · exact manner.emit _ kept
  · exact manner.emit _ kept
  · exact kept

theorem applyOperator (keeps : ∀ level {p}, J i p cs → J i (inner level p) cs)
    (operator : Operator) (kept : J i p cs) : J i (Pass.applyOperator inner operator p) cs := by
  have written := manner.emitAll operator.code (keeps operator.level.stronger kept)
  unfold Pass.applyOperator
  dsimp only
  split
  · exact manner.complain _ _ written
  · exact written

end Inner

theorem refuseAssignment (level : Level) (kept : J i p cs) :
    J i (Pass.refuseAssignment level p) cs := by
  unfold Pass.refuseAssignment
  split
  · exact manner.balk _ kept
  · exact kept

theorem climb (bound : Nat) :
    (∀ level {p}, J i p cs → J i (Pass.climb bound level p) cs) ∧
      ∀ level {p}, J i p cs → J i (Pass.climbOn bound level p) cs := by
  induction bound with
  | zero =>
    refine ⟨fun level p kept => ?_, fun level p kept => ?_⟩
    · unfold Pass.climb
      exact manner.balk _ kept
    · unfold Pass.climbOn
      exact kept
  | succ bound ih =>
    refine ⟨fun level p kept => ?_, fun level p kept => ?_⟩
    · unfold Pass.climb
      dsimp only
      split
      · rename_i starts
        rw [advance_previous] at starts
        have more : ¬ p.atEnd = true := by
          refine not_atEnd_of_kind rfl fun ended => ?_
          rw [ended] at starts
          cases starts
        have read := manner.operand ih.1 level (manner.advance more kept)
        exact manner.refuseAssignment level (ih.2 level read)
      · exact manner.balk _ kept
    · unfold Pass.climbOn
      split
      · rename_i operator found
        have more : ¬ p.atEnd = true := by
          refine not_atEnd_of_kind rfl fun ended => ?_
          rw [ended] at found
          cases found
        exact ih.2 level (manner.applyOperator ih.1 operator (manner.advance more kept))
      · exact kept

theorem expression (kept : J i p cs) : J i p.expression cs := (manner.climb _).1 _ kept

theorem address (kept : J i p cs) : J i p.address cs := (manner.climb _).1 _ kept

/-! ## Reading the header of a loop -/

theorem loopParameter (kept : J i p cs) : J i p.loopParameter.1 (p.loopParameter.2 :: cs) :=
  manner.apart manner.address (manner.expect .quote (by decide) _ kept)

theorem moreParameters (bound : Nat) (kept : J i p cs) :
    J i (Pass.moreParameters bound p).1 ((Pass.moreParameters bound p).2 ++ cs) := by
  induction bound generalizing p cs with
  | zero => exact kept
  | succ bound ih =>
    unfold Pass.moreParameters
    split
    · have first := manner.loopParameter (manner.advance (not_atEnd_of_sees ‹_› (by decide)) kept)
      exact manner.forget (by grind) (ih first)
    · exact kept

theorem loopEnd (kept : J i p cs) : J i p.loopEnd.1 (p.loopEnd.2.chunk :: cs) := by
  unfold Pass.loopEnd
  split
  · have left := manner.advance (not_atEnd_of_sees ‹_› (by decide)) kept
    exact manner.expect .rightCurly (by decide) _ (manner.apart manner.expression left)
  · exact manner.apart manner.expression kept

theorem loopPart {init : Chunk} (aside : init ∈ cs) (kept : J i p cs) :
    J i (p.loopPart init).1 ((p.loopPart init).2.chunks ++ cs) := by
  have step := manner.apart manner.expression
    (manner.expect .leftParen (by decide) .stepOpening kept)
  unfold Pass.loopPart
  generalize (p.expect .leftParen .stepOpening).apart Pass.expression = stepped at step ⊢
  have finish := manner.loopEnd (manner.expect .rightParen (by decide) .stepClosing step)
  dsimp only
  generalize (stepped.1.expect .rightParen .stepClosing).loopEnd = ended at finish ⊢
  have arrow := manner.expect .equalGreater (by decide) .parameterArrow
    (manner.expect .dot (by decide) .endDot finish)
  have parameters := manner.moreParameters
    ((ended.1.expect .dot .endDot).expect .equalGreater .parameterArrow).loopParameter.1.left
    (manner.loopParameter arrow)
  exact manner.forget (by grind [LoopPart.chunks]) parameters

theorem moreParts (bound : Nat) (kept : J i p cs) :
    J i (Pass.moreParts bound p).1 ((Pass.moreParts bound p).2.flatMap LoopPart.chunks ++ cs) := by
  induction bound generalizing p cs with
  | zero => exact kept
  | succ bound ih =>
    unfold Pass.moreParts
    split
    · have init := manner.apart manner.expression
        (manner.advance (not_atEnd_of_sees ‹_› (by decide)) kept)
      generalize p.advance.apart Pass.expression = read at init ⊢
      have part := manner.loopPart List.mem_cons_self init
      dsimp only
      generalize read.1.loopPart read.2 = first at part ⊢
      exact manner.forget (by grind) (ih part)
    · exact kept

/-! ## Writing the blocks of a loop -/

section Links

variable {l : LoopLink} (aside : l.chunks ⊆ cs)

include aside

theorem emitInit (number : Nat) (kept : J i p cs) : J i (Pass.emitInit number p l) cs := by
  have start : l.source.init ∈ cs := aside (by simp [LoopLink.chunks, LoopPart.chunks])
  have marked := manner.defineLabel (LoopBlock.init.label number l.part l.link) kept
  have value := manner.splice start marked
  exact manner.emitAll _ (manner.splice (aside List.mem_cons_self) value)

theorem emitIncr (number : Nat) (kept : J i p cs) : J i (Pass.emitIncr number p l) cs := by
  have parameter : l.parameter ∈ cs := aside List.mem_cons_self
  have marked := manner.defineLabel (LoopBlock.incr.label number l.part l.link) kept
  have read := manner.emit .getPointer (manner.splice parameter (manner.splice parameter marked))
  exact manner.emitAll _ (manner.splice (aside (by simp [LoopLink.chunks, LoopPart.chunks])) read)

theorem emitTest (kept : J i p cs) : J i (p.emitTest l) cs := by
  have finish : l.source.finish.chunk ∈ cs := aside (by simp [LoopLink.chunks, LoopPart.chunks])
  unfold Pass.emitTest
  cases ends : l.source.finish with
  | value target =>
    rw [ends] at finish
    have read := manner.emit .getPointer (manner.splice (aside List.mem_cons_self) kept)
    exact manner.emitAll _ (manner.splice finish read)
  | condition predicate =>
    rw [ends] at finish
    exact manner.splice finish kept

theorem emitCond (number : Nat) (exit : String) (kept : J i p cs) :
    J i (Pass.emitCond number exit p l) cs := by
  have marked := manner.defineLabel (LoopBlock.cond.label number l.part l.link) kept
  exact manner.emit _ (manner.emitConstant _ (manner.emitTest aside marked))

end Links

theorem emitLoop (number : Nat) {parts : List LoopPart} (aside : parts.flatMap LoopPart.chunks ⊆ cs)
    (start exit : String) (kept : J i p cs) : J i (p.emitLoop number parts start exit) cs := by
  have links {write : Pass → LoopLink → Pass} {p : Pass} (kept : J i p cs)
      (keeps : ∀ {l : LoopLink} {p : Pass}, l.chunks ⊆ cs → J i p cs → J i (write p l) cs) :
      J i ((LoopLink.all parts).foldl write p) cs := by
    refine List.foldlRecOn (motive := fun p => J i p cs) _ _ kept fun p kept l member => ?_
    exact keeps (List.Subset.trans (LoopLink.chunks_subset member) aside) kept
  have init := manner.emitGoto start (links kept fun aside => manner.emitInit aside number)
  have incr := links init fun aside => manner.emitIncr aside number
  have cond := links incr fun aside => manner.emitCond aside number exit
  exact manner.defineLabel _ (manner.emitGoto start cond)

/-! ## Statements -/

theorem endStatement (kept : J i p cs) : J i p.endStatement cs := by
  unfold Pass.endStatement
  split
  · exact kept
  · split
    · exact manner.advance ‹_› kept
    · exact manner.complain _ _ kept

theorem conditional {branch : Pass → Pass} (keeps : ∀ {p}, J i p cs → J i (branch p) cs)
    {predicate : Chunk} (aside : predicate ∈ cs) (kept : J i p cs) :
    J i (Pass.conditional branch predicate p) cs := by
  have asked := manner.emitJump .jumpIfFalse (manner.splice aside kept)
  have chosen := fun offset => manner.patchJump offset (manner.emitJump .jump (keeps asked))
  unfold Pass.conditional
  dsimp only
  split
  · have barred := manner.advance (not_atEnd_of_sees ‹_› (by decide)) (chosen _)
    exact manner.patchJump _ (keeps barred)
  · exact manner.patchJump _ (chosen _)

theorem expressionStatement (kept : J i p cs) : J i p.expressionStatement cs :=
  manner.emit _ (manner.expression kept)

theorem simpleWithin (bound : Nat) (kept : J i p cs) : J i (Pass.simpleWithin bound p) cs := by
  induction bound generalizing p cs with
  | zero => exact manner.expressionStatement kept
  | succ bound ih =>
    unfold Pass.simpleWithin
    split
    · have word := manner.advance (not_atEnd_of_either ‹_› (by decide) (by decide)) kept
      exact manner.emit _ (manner.expression word)
    · split
      · rename_i returns
        have bang := not_atEnd_of_sees (Bool.and_eq_true_iff.mp returns).1 (by decide)
        exact manner.emit _ (manner.advance bang kept)
      · split
        · have asked := manner.apart manner.expression
            (manner.advance (not_atEnd_of_sees ‹_› (by decide)) kept)
          generalize p.advance.apart Pass.expression = read at asked ⊢
          dsimp only
          split
          · exact manner.forget (List.subset_cons_self _ _) (manner.complain _ _ asked)
          · have closed := manner.expect .rightCurly (by decide) .unclosedCondition asked
            exact manner.forget (List.subset_cons_self _ _)
              (manner.conditional ih List.mem_cons_self closed)
        · exact manner.expressionStatement kept

theorem simpleStatement (kept : J i p cs) : J i p.simpleStatement cs :=
  manner.simpleWithin p.left kept

theorem loopHeader {init : Chunk} (aside : init ∈ cs) (kept : J i p cs) :
    J i (p.loopHeader init).1 cs := by
  have first := manner.loopPart aside kept
  unfold Pass.loopHeader
  generalize p.loopPart init = part at first ⊢
  have parts := manner.moreParts part.1.left first
  dsimp only
  generalize Pass.moreParts part.1.left part.1 = rest at parts ⊢
  have start := manner.expect .name (by decide) .bodyLabel
    (manner.expect .rightCurly (by decide) .partsClosing parts)
  generalize (rest.1.expect .rightCurly .partsClosing).expect .name .bodyLabel = named at start ⊢
  have exit := manner.expect .name (by decide) .exitLabel
    (manner.expect .divider (by decide) .labelDivider start)
  generalize (named.expect .divider .labelDivider).expect .name .exitLabel = q at exit ⊢
  have back {q : Pass} (kept : J i q (rest.2.flatMap LoopPart.chunks ++ (part.2.chunks ++ cs))) :
      J i q cs := manner.forget (by grind) kept
  split
  · exact back exit
  · split
    · exact back (manner.complain _ _ exit)
    · have ended := manner.count (q.loopCount + 1) (manner.endStatement exit)
      exact back (manner.emitLoop _ (by grind) _ _ ended)

theorem braceStatement (kept : J i p cs) : J i p.braceStatement.1 cs := by
  have head := manner.apart manner.expression kept
  unfold Pass.braceStatement
  generalize p.apart Pass.expression = read at head ⊢
  dsimp only
  refine manner.forget (List.subset_cons_self read.2 _) ?_
  split
  · exact manner.loopHeader List.mem_cons_self head
  · have closed := manner.expect .rightCurly (by decide) .unclosedCondition head
    exact manner.endStatement
      (manner.conditional manner.simpleStatement List.mem_cons_self closed)

theorem statementWithin (bound : Nat) (kept : J i p cs) :
    J i (Pass.statementWithin bound p).1 cs := by
  induction bound generalizing p with
  | zero => exact manner.endStatement (manner.simpleStatement kept)
  | succ bound ih =>
    unfold Pass.statementWithin
    split
    · rename_i labelled
      obtain ⟨name, dots⟩ := Bool.and_eq_true_iff.mp labelled
      have declared := advance_sees dots (by decide) (fun _ invalid => by cases invalid)
      have named := manner.advance (not_atEnd_of_sees name (by decide)) kept
      have marked := manner.defineLabel p.advance.previous.lexeme
        (manner.advance (not_atEnd_of_sees declared (by decide)) named)
      dsimp only
      split
      · exact manner.endStatement marked
      · exact ih marked
    · split
      · exact manner.braceStatement (manner.advance (not_atEnd_of_sees ‹_› (by decide)) kept)
      · exact manner.endStatement (manner.simpleStatement kept)

theorem statement (kept : J i p cs) : J i p.statement.1 cs := manner.statementWithin p.left kept

end Manner

end Pass

end Cellscript
