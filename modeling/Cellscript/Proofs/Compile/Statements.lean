import Cellscript.Proofs.Compile.Loops

/-!
Statements that are read without complaint. A conditional is written with two jumps whose distances
are filled in once the branches are there.
-/

set_option autoImplicit false

namespace Cellscript.Pass

open List (Forall₂)

/-! ## Conditionals -/

theorem emitJump_wrote (p : Pass) {op : Opcode} (isJump : op = .jump ∨ op = .jumpIfFalse) :
    p.Wrote [] 0 [.code (Chunk.jumpBy op 255)] (p.emitJump op).1 :=
  ⟨rfl, rfl, fun holds => holds.emitJump isJump p.line⟩

/-- Patching a jump leaves everything else that was written as it is. -/
theorem patchJump_wrote {p q : Pass} (honest : q.Honest) {ts : List Token} (front back : List Line)
    {op : Opcode} (isJump : op = .jump ∨ op = .jumpIfFalse)
    (wrote : p.Wrote ts 0 (front ++ .code (Chunk.jumpBy op 255) :: back) q) {place : Nat}
    (placed : ∀ {written : List Line}, p.chunk.Holds written →
      place = codeSize (written ++ front) + 1)
    (quiet : (q.patchJump place).diagnostics = []) :
    p.Wrote ts 0 (front ++ .code (Chunk.jumpBy op (codeSize back)) :: back)
      (q.patchJump place) := by
  unfold patchJump at quiet ⊢
  obtain ⟨chunk, patched, taken⟩ := adopt_eq honest quiet
  rw [taken]
  refine ⟨wrote.ahead, wrote.loopCount, fun holds => ?_⟩
  have before := wrote.writes holds
  rw [← List.append_assoc] at before ⊢
  rw [placed holds] at patched
  exact before.patchJump isJump patched

/-- What reads the branches of a conditional when so many tokens are left. -/
def Branches (bound : Nat) (branch : Pass → Pass) : Prop :=
  ∀ {p : Pass}, p.Honest → (branch p).diagnostics = [] → p.left ≤ bound →
    ∃ ts s, Simple.Spelled ts s (branch p).ahead ∧ p.Wrote ts 0 s.code (branch p)

section Conditional

variable {bound : Nat} {branch : Pass → Pass}

/-- The predicate, the first branch and the jump over the second one. The first jump is patched. -/
theorem firstBranch_wrote (heeds : ∀ p : Pass, p.Heeds (branch p))
    (branches : Branches bound branch) {predicate : Chunk} {e : Expression}
    (realizes : predicate.Realizes e) {p chosen patched : Pass} (honest : p.Honest)
    (small : p.left ≤ bound)
    (choosing : branch ((p.splice predicate).emitJump .jumpIfFalse).1 = chosen)
    (patching : (chosen.emitJump .jump).1.patchJump ((p.splice predicate).chunk.size + 1) = patched)
    (quiet : patched.diagnostics = []) :
    patched.Honest ∧ ∃ ts s, Simple.Spelled ts s patched.ahead ∧
      p.Wrote ts 0 (e.code ++ .code (.jumpIfFalse 255) :: s.code) chosen ∧
      p.Wrote ts 0 (e.code ++ .code (.jumpIfFalse (codeSize s.code + 2)) ::
        (s.code ++ [.code (.jump 255)])) patched := by
  generalize asking : p.splice predicate = asked at choosing patching
  have askedHonest : asked.Honest := asking ▸ (heeding.splice p predicate).honest honest
  have jumpHonest := (heeding.emitJump asked .jumpIfFalse).honest askedHonest
  have chosenHonest : chosen.Honest := choosing ▸ (heeds _).honest jumpHonest
  have overHonest := (heeding.emitJump chosen .jump).honest chosenHonest
  have overQuiet := (heeding.patchJump (chosen.emitJump .jump).1 _).quiet (patching ▸ quiet)
  have chosenQuiet := (heeding.emitJump chosen .jump).quiet overQuiet
  have jumpQuiet := (heeds _).quiet (choosing ▸ chosenQuiet)
  have askedQuiet := (heeding.emitJump asked .jumpIfFalse).quiet jumpQuiet
  have askedWrote := splice_realized honest realizes (asking ▸ askedQuiet)
  rw [asking] at askedWrote
  have jumpWrote := askedWrote.trans (emitJump_wrote asked (Or.inr rfl))
  have shorter : (asked.emitJump .jumpIfFalse).1.left ≤ bound := by
    have length := jumpWrote.left_eq
    simp only [List.append_nil, List.length_nil, Nat.zero_add] at length
    omega
  obtain ⟨ts, s, spelled, branchWrote⟩ := branches jumpHonest (choosing ▸ chosenQuiet) shorter
  rw [choosing] at spelled branchWrote
  have chosenWrote := jumpWrote.trans branchWrote
  have overWrote := chosenWrote.trans (emitJump_wrote chosen (Or.inl rfl))
  have patchedWrote := patchJump_wrote overHonest e.code (s.code ++ [.code (.jump 255)])
    (Or.inr rfl) (by simpa [Chunk.jumpBy] using overWrote)
    (fun holds => by rw [(askedWrote.writes holds).size_eq]) (patching ▸ quiet)
  rw [patching] at patchedWrote
  refine ⟨patching ▸ (heeding.patchJump _ _).honest overHonest, ts, s, ?_, ?_, ?_⟩
  · rw [patchedWrote.ahead_eq chosenWrote]
    exact spelled
  · simpa [Chunk.jumpBy] using chosenWrote
  · simpa [Chunk.jumpBy, Instruction.width] using patchedWrote

/-- The stages of a conditional. -/
theorem conditional_eq (predicate : Chunk) (p : Pass) :
    conditional branch predicate p =
      let chosen := branch ((p.splice predicate).emitJump .jumpIfFalse).1
      let patched := (chosen.emitJump .jump).1.patchJump ((p.splice predicate).chunk.size + 1)
      (if patched.sees .pipe then branch patched.advance else patched).patchJump
        (chosen.chunk.size + 1) := rfl

theorem conditional_wrote (heeds : ∀ p : Pass, p.Heeds (branch p))
    (branches : Branches bound branch) {predicate : Chunk} {e : Expression}
    (realizes : predicate.Realizes e) {p : Pass} (honest : p.Honest) (small : p.left ≤ bound)
    (quiet : (conditional branch predicate p).diagnostics = []) :
    ∃ us s, p.Wrote us 0 s.code (conditional branch predicate p) ∧
      ∀ {left right : Token} {ts : List Token}, left.kind = .leftCurly →
        Expression.Spelled .reference ts e → right.kind = .rightCurly →
        Simple.Spelled (left :: (ts ++ right :: us)) s (conditional branch predicate p).ahead := by
  generalize result : conditional branch predicate p = q at quiet ⊢
  rw [conditional_eq] at result
  dsimp only at result
  generalize choosing : branch ((p.splice predicate).emitJump .jumpIfFalse).1 = chosen at result
  generalize patching :
    (chosen.emitJump .jump).1.patchJump ((p.splice predicate).chunk.size + 1) = patched at result
  by_cases seen : patched.sees .pipe = true
  · rw [if_pos seen] at result
    have otherQuiet := (heeding.patchJump (branch patched.advance) _).quiet (result ▸ quiet)
    have barQuiet := (heeds _).quiet otherQuiet
    obtain ⟨patchedHonest, us, s, spelled, chosenWrote, patchedWrote⟩ := firstBranch_wrote heeds
      branches realizes honest small choosing patching ((heeding.advance _).quiet barQuiet)
    have barHonest := (heeding.advance patched).honest patchedHonest
    obtain ⟨bar, rest, ahead, kind⟩ := ahead_of_sees seen (by decide)
    have passed := (advance_wrote patchedHonest barQuiet ahead).1
    have shorter : patched.advance.left ≤ bound := by
      have length := (patchedWrote.trans passed).left_eq
      omega
    obtain ⟨vs, t, otherSpelled, otherWrote⟩ := branches barHonest otherQuiet shorter
    have bothWrote := patchedWrote.trans (passed.trans otherWrote)
    have whole := patchJump_wrote ((heeds _).honest barHonest)
      (e.code ++ .code (.jumpIfFalse (codeSize s.code + 2)) :: s.code) t.code (Or.inl rfl)
      (by simpa [Chunk.jumpBy] using bothWrote)
      (fun holds => by rw [(chosenWrote.writes holds).size_eq]; simp [Instruction.width])
      (result ▸ quiet)
    rw [result] at whole
    have after : q.ahead = (branch patched.advance).ahead := by
      have both := bothWrote
      rw [show us ++ ([bar] ++ vs) = us ++ bar :: vs by simp] at both
      exact whole.ahead_eq both
    refine ⟨us ++ bar :: vs, .choose e s t, ?_, ?_⟩
    · simpa [Simple.code, conditionalLines, Chunk.jumpBy] using whole
    · intro left right ts opened asked closed
      refine .choose opened asked closed ?_ kind ?_
      · rw [(passed.trans otherWrote).ahead, ← after] at spelled
        exact spelled
      · rw [after]
        exact otherSpelled
  · rw [if_neg seen] at result
    obtain ⟨patchedHonest, us, s, spelled, chosenWrote, patchedWrote⟩ := firstBranch_wrote heeds
      branches realizes honest small choosing patching
      ((heeding.patchJump patched _).quiet (result ▸ quiet))
    have whole := patchJump_wrote patchedHonest
      (e.code ++ .code (.jumpIfFalse (codeSize s.code + 2)) :: s.code) [] (Or.inl rfl)
      (by simpa [Chunk.jumpBy] using patchedWrote)
      (fun holds => by rw [(chosenWrote.writes holds).size_eq]; simp [Instruction.width])
      (result ▸ quiet)
    rw [result] at whole
    have after : q.ahead = patched.ahead := whole.ahead_eq patchedWrote
    refine ⟨us, .when e s, ?_, ?_⟩
    · simpa [Simple.code, conditionalLines, Chunk.jumpBy] using whole
    · intro left right ts opened asked closed
      refine .when opened asked closed (after ▸ spelled) ?_
      rw [after, ← current_kind]
      intro bar
      exact seen (by simp [sees, bar])

end Conditional

/-! ## Statements without loops -/

theorem expressionStatement_wrote {p : Pass} (honest : p.Honest)
    (quiet : p.expressionStatement.diagnostics = []) :
    ∃ ts s, Simple.Spelled ts s p.expressionStatement.ahead ∧
      p.Wrote ts 0 s.code p.expressionStatement := by
  obtain ⟨ts, e, spelled, wrote⟩ := expression_wrote honest ((heeding.emit _ .pop).quiet quiet)
  refine ⟨ts, .perform e, .perform spelled, ?_⟩
  simpa [Simple.code, expressionStatement] using wrote.trans (emit_wrote _ .pop rfl)

/-- A lone bang. -/
theorem return_wrote {p : Pass} (honest : p.Honest) (seen : p.seesReturn = true)
    (quiet : (p.advance.emit .halt).diagnostics = []) :
    ∃ ts s, Simple.Spelled ts s (p.advance.emit .halt).ahead ∧
      p.Wrote ts 0 s.code (p.advance.emit .halt) := by
  obtain ⟨bang, alone⟩ := Bool.and_eq_true_iff.mp seen
  obtain ⟨t, rest, ahead, kind⟩ := ahead_of_sees bang (by decide)
  have passed := (advance_wrote honest quiet ahead).1
  have after : p.advance.ahead = rest := by
    rw [advance_eq honest quiet ahead]
  have next : p.next.kind = kindAhead rest := by
    unfold Pass.next kindAhead
    rw [ahead]
    cases rest <;> rfl
  refine ⟨[t], .stop, .stop kind ?_, passed.trans (emit_wrote _ .halt rfl)⟩
  change _ = true ∨ kindAhead p.advance.ahead = .pipe
  rw [seesNext, next] at alone
  rw [show (p.advance.emit .halt).ahead = rest from after, after]
  simpa using alone

/-- A statement that may be a branch, when so many tokens are left. -/
theorem simpleWithin_branches (bound : Nat) : Branches bound (simpleWithin bound) := by
  induction bound with
  | zero =>
    intro p honest quiet _
    exact expressionStatement_wrote honest quiet
  | succ bound ih =>
    intro p honest quiet small
    unfold simpleWithin at quiet ⊢
    by_cases prints : (p.sees .print || p.sees .pr) = true
    · rw [if_pos prints] at quiet ⊢
      have wordHonest := (heeding.advance p).honest honest
      have shownQuiet := (heeding.emit _ .print).quiet quiet
      have wordQuiet := (heeding.expression _).quiet shownQuiet
      obtain ⟨t, rest, ahead, kind⟩ := ahead_of_either prints (by decide) (by decide)
      have passed := (advance_wrote honest wordQuiet ahead).1
      obtain ⟨ts, e, spelled, wrote⟩ := expression_wrote wordHonest shownQuiet
      refine ⟨t :: ts, .print e, .print kind spelled, ?_⟩
      simpa [Simple.code] using (passed.trans wrote).trans (emit_wrote _ .print rfl)
    rw [if_neg prints] at quiet ⊢
    by_cases returns : p.seesReturn = true
    · rw [if_pos returns] at quiet ⊢
      exact return_wrote honest returns quiet
    rw [if_neg returns] at quiet ⊢
    by_cases brace : p.sees .leftCurly = true
    · rw [if_pos brace] at quiet ⊢
      dsimp only at quiet ⊢
      have leftHonest := (heeding.advance p).honest honest
      generalize asking : p.advance.apart expression = asked at quiet ⊢
      have askedHonest : asked.1.Honest :=
        asking ▸ (heeding.apart heeding.expression _).honest leftHonest
      by_cases paren : asked.1.sees .leftParen = true
      · rw [if_pos paren] at quiet
        exact absurd quiet (complain_loud askedHonest _ _)
      rw [if_neg paren] at quiet ⊢
      have rightHonest := (heeding.expect asked.1 .rightCurly .unclosedCondition).honest askedHonest
      have rightQuiet := (heeding.conditional (heeding.simpleWithin bound) _ _).quiet quiet
      have askedQuiet := (heeding.expect _ _ _).quiet rightQuiet
      have leftQuiet := (heeding.apart heeding.expression p.advance).quiet (asking ▸ askedQuiet)
      obtain ⟨left, rest, ahead, opened⟩ := ahead_of_sees brace (by decide)
      have passed := (advance_wrote honest leftQuiet ahead).1
      obtain ⟨ts, e, spelled, askedWrote, realizes⟩ :=
        apart_expression leftHonest (asking ▸ askedQuiet)
      rw [asking] at askedWrote realizes
      obtain ⟨right, closed, rightWrote, _⟩ :=
        expect_wrote askedHonest .rightCurly .unclosedCondition rightQuiet (by decide)
      have before := (passed.trans askedWrote).trans rightWrote
      have shorter : (asked.1.expect .rightCurly .unclosedCondition).left ≤ bound := by
        have length := before.left_eq
        simp only [List.length_append, List.length_singleton] at length
        omega
      obtain ⟨us, s, wrote, spells⟩ := conditional_wrote (heeding.simpleWithin bound) ih realizes
        rightHonest shorter quiet
      refine ⟨_, s, spells opened spelled closed, ?_⟩
      simpa using before.trans wrote
    · rw [if_neg brace] at quiet ⊢
      exact expressionStatement_wrote honest quiet

theorem simpleStatement_branches (bound : Nat) : Branches bound simpleStatement := by
  intro p honest quiet _
  exact simpleWithin_branches p.left honest quiet (Nat.le_refl _)

theorem endStatement_wrote {p : Pass} (honest : p.Honest) (unfinished : p.Unfinished)
    (quiet : p.endStatement.diagnostics = []) :
    ∃ ts, Terminator ts p.endStatement.ahead ∧ p.Wrote ts 0 [] p.endStatement := by
  unfold endStatement at quiet ⊢
  by_cases ended : p.atEnd = true
  · rw [if_pos ended]
    refine ⟨[], ?_, .refl p⟩
    rw [ahead_of_atEnd unfinished ended]
    exact .finish
  rw [if_neg ended] at quiet ⊢
  by_cases separated : (p.sees .newline || p.sees .divider) = true
  · rw [if_pos separated] at quiet ⊢
    obtain ⟨t, rest, ahead, kind⟩ := ahead_of_either separated (by decide) (by decide)
    exact ⟨[t], .token kind, (advance_wrote honest quiet ahead).1⟩
  · rw [if_neg separated] at quiet
    exact absurd quiet (complain_loud honest _ _)

/-! ## Loops and labels -/

/-- All parts of a header, of which the first start value has been read. -/
theorem loopParts_wrote {p : Pass} {init : Chunk} {part : Pass × LoopPart}
    {rest : Pass × List LoopPart} (honest : p.Honest) (parting : p.loopPart init = part)
    (gathering : moreParts part.1.left part.1 = rest) (quiet : rest.1.diagnostics = [])
    {ts : List Token} {e : Expression} (spelled : Expression.Spelled .reference ts e)
    (realizes : init.Realizes e) :
    ∃ us parts, PartsSpelled (ts ++ us) parts ∧ p.Wrote us 0 [] rest.1 ∧
      Forall₂ LoopPart.Realizes (part.2 :: rest.2) parts := by
  have partHonest : part.1.Honest := parting ▸ (heeding.loopPart p init).honest honest
  have partQuiet : part.1.diagnostics = [] :=
    (heeding.moreParts part.1.left part.1).quiet (gathering ▸ quiet)
  obtain ⟨us, first, firstSpelled, partWrote, realizesFirst⟩ :=
    loopPart_wrote honest (parting ▸ partQuiet) spelled realizes
  obtain ⟨vs, others, restWrote, realizesRest, chain⟩ :=
    moreParts_wrote partHonest (gathering ▸ quiet)
  rw [parting] at partWrote realizesFirst
  rw [gathering] at restWrote realizesRest
  refine ⟨us ++ vs, first :: others, ?_, partWrote.trans restWrote,
    .cons realizesFirst realizesRest⟩
  rw [← List.append_assoc]
  exact chain firstSpelled

/-- The end of a header: a brace and the labels of the body and of the exit. -/
theorem loopLabels_wrote {p named exited : Pass} (honest : p.Honest)
    (naming : (p.expect .rightCurly .partsClosing).expect .name .bodyLabel = named)
    (exiting : (named.expect .divider .labelDivider).expect .name .exitLabel = exited)
    (quiet : exited.diagnostics = []) :
    ∃ right divider, right.kind = .rightCurly ∧ named.previous.kind = .name ∧
      divider.kind = .divider ∧ exited.previous.kind = .name ∧
      p.Wrote [right, named.previous, divider, exited.previous] 0 [] exited := by
  have closedHonest := (heeding.expect p .rightCurly .partsClosing).honest honest
  have namedHonest : named.Honest := naming ▸ (heeding.expect _ _ _).honest closedHonest
  have dividedHonest := (heeding.expect named .divider .labelDivider).honest namedHonest
  have dividedQuiet := (heeding.expect (named.expect .divider .labelDivider) _ _).quiet
    (exiting ▸ quiet)
  have namedQuiet : named.diagnostics = [] := (heeding.expect _ _ _).quiet dividedQuiet
  have closedQuiet := (heeding.expect (p.expect .rightCurly .partsClosing) _ _).quiet
    (naming ▸ namedQuiet)
  obtain ⟨right, rightKind, closedWrote, _⟩ :=
    expect_wrote honest .rightCurly .partsClosing closedQuiet (by decide)
  obtain ⟨start, startKind, namedWrote, startPrevious⟩ :=
    expect_wrote closedHonest .name .bodyLabel (naming ▸ namedQuiet) (by decide)
  obtain ⟨divider, dividerKind, dividedWrote, _⟩ :=
    expect_wrote namedHonest .divider .labelDivider dividedQuiet (by decide)
  obtain ⟨exit, exitKind, exitWrote, exitPrevious⟩ :=
    expect_wrote dividedHonest .name .exitLabel (exiting ▸ quiet) (by decide)
  rw [naming] at namedWrote startPrevious
  rw [exiting] at exitWrote exitPrevious
  subst startPrevious exitPrevious
  exact ⟨right, divider, rightKind, startKind, dividerKind, exitKind,
    (closedWrote.trans namedWrote).trans (dividedWrote.trans exitWrote)⟩

/-- After a header the loop is numbered and its blocks are written. -/
theorem openLoop_wrote {p q r : Pass} (header : Header) (honest : p.Honest)
    (unfinished : p.Unfinished) {sources : List LoopPart}
    (realized : Forall₂ LoopPart.Realizes sources header.parts)
    (counting : { p.endStatement with loopCount := p.loopCount + 1 } = q)
    (writing : q.emitLoop p.loopCount sources header.start header.exit = r)
    (quiet : r.diagnostics = []) :
    ∃ ts, Terminator ts r.ahead ∧ p.Wrote ts 1 (header.code p.loopCount) r := by
  have endHonest := (heeding.endStatement p).honest honest
  have countedHonest : q.Honest := counting ▸ endHonest
  have countedQuiet : q.diagnostics = [] :=
    (heeding.emitLoop q p.loopCount sources header.start header.exit).quiet (writing ▸ quiet)
  have endQuiet : p.endStatement.diagnostics = [] := by
    rw [← counting] at countedQuiet
    exact countedQuiet
  obtain ⟨ts, ended, endWrote⟩ := endStatement_wrote honest unfinished endQuiet
  have counted : p.endStatement.Wrote [] 1 [] q := by
    rw [← counting]
    exact ⟨rfl, congrArg (· + 1) endWrote.loopCount.symm, fun holds => by rwa [List.append_nil]⟩
  have blocks := emitLoop_wrote countedHonest realized (writing ▸ quiet)
  rw [writing] at blocks
  refine ⟨ts, ?_, ?_⟩
  · have after := (counted.trans blocks).ahead
    rw [List.append_nil, List.nil_append] at after
    rw [← after]
    exact ended
  · simpa using endWrote.trans (counted.trans blocks)

theorem loopHeader_wrote {p : Pass} (honest : p.Honest) (unfinished : p.Unfinished) {init : Chunk}
    (quiet : (p.loopHeader init).1.diagnostics = []) {left : Token} {ts : List Token}
    {e : Expression} (opened : left.kind = .leftCurly)
    (spelled : Expression.Spelled .reference ts e) (realizes : init.Realizes e) :
    ∃ us vs header, Header.Spelled (left :: (ts ++ us)) header ∧
      Terminator vs (p.loopHeader init).1.ahead ∧
      p.Wrote (us ++ vs) 1 (header.code p.loopCount) (p.loopHeader init).1 ∧
      (p.loopHeader init).2 = some { number := p.loopCount, exit := header.exit } := by
  unfold loopHeader at quiet ⊢
  dsimp only at quiet ⊢
  generalize parting : p.loopPart init = part at quiet ⊢
  generalize gathering : moreParts part.1.left part.1 = rest at quiet ⊢
  have partHonest : part.1.Honest := parting ▸ (heeding.loopPart p init).honest honest
  have restHonest : rest.1.Honest := gathering ▸ (heeding.moreParts _ _).honest partHonest
  generalize naming : (rest.1.expect .rightCurly .partsClosing).expect .name .bodyLabel = named
    at quiet ⊢
  generalize exiting : (named.expect .divider .labelDivider).expect .name .exitLabel = exited
    at quiet ⊢
  have labelHeeds := (heeding.expect rest.1 .rightCurly .partsClosing).trans
    ((heeding.expect _ .name .bodyLabel).trans ((heeding.expect _ .divider .labelDivider).trans
      (heeding.expect _ .name .exitLabel)))
  rw [naming, exiting] at labelHeeds
  have exitHonest := labelHeeds.honest restHonest
  by_cases panics : exited.panicking = true
  · rw [if_pos panics] at quiet
    exact absurd quiet (exitHonest panics)
  rw [if_neg panics] at quiet ⊢
  by_cases same : named.previous.lexeme = exited.previous.lexeme
  · rw [if_pos same] at quiet
    exact absurd quiet (complain_loud exitHonest _ _)
  rw [if_neg same] at quiet ⊢
  dsimp only at quiet ⊢
  generalize counting : { exited.endStatement with loopCount := exited.loopCount + 1 } = counted
    at quiet ⊢
  generalize writing : counted.emitLoop exited.loopCount (part.2 :: rest.2) named.previous.lexeme
    exited.previous.lexeme = written at quiet ⊢
  have countedQuiet : counted.diagnostics = [] :=
    (heeding.emitLoop counted exited.loopCount (part.2 :: rest.2) _ _).quiet (writing ▸ quiet)
  have exitQuiet : exited.diagnostics = [] := by
    rw [← counting] at countedQuiet
    exact (heeding.endStatement exited).quiet countedQuiet
  obtain ⟨us, trees, driven, partsWrote, realized⟩ := loopParts_wrote honest parting gathering
    (labelHeeds.quiet exitQuiet) spelled realizes
  obtain ⟨right, divider, rightKind, startKind, dividerKind, exitKind, labelsWrote⟩ :=
    loopLabels_wrote restHonest naming exiting exitQuiet
  have headerWrote := partsWrote.trans labelsWrote
  have number : exited.loopCount = p.loopCount := headerWrote.loopCount
  obtain ⟨vs, ended, wrote⟩ := openLoop_wrote
    ⟨trees, named.previous.lexeme, exited.previous.lexeme⟩ exitHonest
    (headerWrote.unfinished unfinished) realized counting writing quiet
  rw [number] at wrote ⊢
  refine ⟨us ++ [right, named.previous, divider, exited.previous], vs,
    ⟨trees, named.previous.lexeme, exited.previous.lexeme⟩, ?_, ended, ?_, rfl⟩
  · rw [← List.append_assoc]
    exact .header opened driven rightKind startKind dividerKind exitKind same
  · simpa using headerWrote.trans wrote

/-- What a statement comes to: labels and perhaps a statement without loops, or labels and the
header of a loop that is open from then on. -/
inductive Stated (p q : Pass) : Option OpenLoop → Prop
  | statement {labels ts : List Token} {names : List String} {s : Option Simple}
      (labelled : LabelsSpelled labels names) (spelled : StatementSpelled ts s q.ahead)
      (something : names = [] → s.isSome)
      (wrote : p.Wrote (labels ++ ts) 0 (names.map .mark ++ (s.map Simple.code).getD []) q) :
      Stated p q none
  | loop {labels ts us : List Token} {names : List String} {header : Header}
      (labelled : LabelsSpelled labels names) (spelled : header.Spelled ts)
      (ended : Terminator us q.ahead)
      (wrote : p.Wrote (labels ++ ts ++ us) 1 (names.map .mark ++ header.code p.loopCount) q) :
      Stated p q (some { number := p.loopCount, exit := header.exit })

/-- One more label in front of a statement. -/
theorem Stated.label {p q r : Pass} {opened : Option OpenLoop} {name dots : Token}
    (kind : name.kind = .name) (declared : dots.kind = .dots)
    (wrote : p.Wrote [name, dots] 0 [.mark name.lexeme] q) (stated : Stated q r opened) :
    Stated p r opened := by
  cases stated with
  | statement labelled spelled something later =>
    refine .statement (.more kind declared labelled) spelled nofun ?_
    simpa using wrote.trans later
  | loop labelled spelled ended later =>
    have number : q.loopCount = p.loopCount := wrote.loopCount
    rw [number] at later ⊢
    refine .loop (.more kind declared labelled) spelled ended ?_
    simpa using wrote.trans later

/-- A statement without loops and its end. -/
theorem Stated.simple {p q : Pass} {ts : List Token} {s : Simple} (honest : q.Honest)
    (unfinished : p.Unfinished) (spelled : s.Spelled ts q.ahead) (wrote : p.Wrote ts 0 s.code q)
    (quiet : q.endStatement.diagnostics = []) : Stated p q.endStatement none := by
  obtain ⟨us, ended, endWrote⟩ := endStatement_wrote honest (wrote.unfinished unfinished) quiet
  rw [endWrote.ahead] at spelled
  refine .statement (s := some s) .none (.simple spelled ended) (fun _ => rfl) ?_
  simpa using wrote.trans endWrote

theorem simpleStatement_stated {p : Pass} (honest : p.Honest) (unfinished : p.Unfinished)
    (quiet : p.simpleStatement.endStatement.diagnostics = []) :
    Stated p p.simpleStatement.endStatement none := by
  have simpleQuiet := (heeding.endStatement _).quiet quiet
  obtain ⟨ts, s, spelled, wrote⟩ :=
    simpleStatement_branches p.left honest simpleQuiet (Nat.le_refl _)
  exact .simple ((heeding.simpleStatement p).honest honest) unfinished spelled wrote quiet

theorem braceStatement_stated {p q : Pass} {left : Token} (opened : left.kind = .leftCurly)
    (read : p.Wrote [left] 0 [] q) (honest : q.Honest) (unfinished : p.Unfinished)
    (quiet : q.braceStatement.1.diagnostics = []) :
    Stated p q.braceStatement.1 q.braceStatement.2 := by
  unfold braceStatement at quiet ⊢
  dsimp only at quiet ⊢
  generalize asking : q.apart expression = asked at quiet ⊢
  have askedHonest : asked.1.Honest := asking ▸ (heeding.apart heeding.expression _).honest honest
  have unfinishedHere := read.unfinished unfinished
  by_cases paren : asked.1.sees .leftParen = true
  · rw [if_pos paren] at quiet ⊢
    have askedQuiet := (heeding.loopHeader _ _).quiet quiet
    obtain ⟨ts, e, spelled, askedWrote, realizes⟩ := apart_expression honest (asking ▸ askedQuiet)
    rw [asking] at askedWrote realizes
    obtain ⟨us, vs, header, headed, ended, wrote, loop⟩ := loopHeader_wrote askedHonest
      (askedWrote.unfinished unfinishedHere) quiet opened spelled realizes
    have number : asked.1.loopCount = p.loopCount := (read.trans askedWrote).loopCount
    rw [number] at wrote loop
    rw [loop]
    refine .loop .none headed ended ?_
    simpa using (read.trans askedWrote).trans wrote
  · rw [if_neg paren] at quiet ⊢
    have branchQuiet := (heeding.endStatement _).quiet quiet
    have rightQuiet := (heeding.conditional heeding.simpleStatement _ _).quiet branchQuiet
    have rightHonest := (heeding.expect asked.1 .rightCurly .unclosedCondition).honest askedHonest
    have askedQuiet := (heeding.expect _ _ _).quiet rightQuiet
    obtain ⟨ts, e, spelled, askedWrote, realizes⟩ := apart_expression honest (asking ▸ askedQuiet)
    rw [asking] at askedWrote realizes
    obtain ⟨right, closed, rightWrote, _⟩ :=
      expect_wrote askedHonest .rightCurly .unclosedCondition rightQuiet (by decide)
    obtain ⟨us, s, wrote, spells⟩ := conditional_wrote heeding.simpleStatement
      (simpleStatement_branches _) realizes rightHonest (Nat.le_refl _) branchQuiet
    refine .simple ((heeding.conditional heeding.simpleStatement _ _).honest rightHonest) unfinished
      (spells opened spelled closed) ?_ quiet
    simpa using ((read.trans askedWrote).trans rightWrote).trans wrote

theorem ahead_of_seesLabel {p : Pass} (seen : p.seesLabel = true) :
    ∃ name dots rest, p.ahead = name :: dots :: rest ∧ name.kind = .name ∧ dots.kind = .dots := by
  obtain ⟨here, next⟩ := Bool.and_eq_true_iff.mp seen
  obtain ⟨name, tail, ahead, kind⟩ := ahead_of_sees here (by decide)
  have dotted : p.next.kind = .dots := by simpa [seesNext] using next
  unfold Pass.next at dotted
  rw [ahead] at dotted
  cases tail with
  | nil => cases dotted
  | cons dots rest => exact ⟨name, dots, rest, ahead, kind, dotted⟩

/-- A label is read as two tokens and marks the place. -/
theorem label_wrote {p : Pass} (honest : p.Honest) {name dots : Token} {rest : List Token}
    (ahead : p.ahead = name :: dots :: rest)
    (quiet : (p.advance.advance.defineLabel p.advance.previous.lexeme).diagnostics = []) :
    p.Wrote [name, dots] 0 [.mark name.lexeme]
      (p.advance.advance.defineLabel p.advance.previous.lexeme) := by
  have nameHonest := (heeding.advance p).honest honest
  have dotsQuiet := (heeding.defineLabel _ _).quiet quiet
  have nameQuiet := (heeding.advance _).quiet dotsQuiet
  obtain ⟨nameWrote, previous⟩ := advance_wrote honest nameQuiet ahead
  have next : p.advance.ahead = dots :: rest := by
    rw [advance_eq honest nameQuiet ahead]
  have dotsWrote := (advance_wrote nameHonest dotsQuiet next).1
  have mark := defineLabel_wrote ((heeding.advance _).honest nameHonest) quiet
  rw [previous] at mark ⊢
  exact (nameWrote.trans dotsWrote).trans mark

theorem statementWithin_stated (bound : Nat) {p : Pass} (honest : p.Honest)
    (unfinished : p.Unfinished) (quiet : (statementWithin bound p).1.diagnostics = []) :
    Stated p (statementWithin bound p).1 (statementWithin bound p).2 := by
  induction bound generalizing p with
  | zero => exact simpleStatement_stated honest unfinished quiet
  | succ bound ih =>
    unfold statementWithin at quiet ⊢
    by_cases labelled : p.seesLabel = true
    · rw [if_pos labelled] at quiet ⊢
      dsimp only at quiet ⊢
      obtain ⟨name, dots, rest, ahead, kind, declared⟩ := ahead_of_seesLabel labelled
      have label := label_wrote honest ahead
      have markHonest := (((heeding.advance p).trans (heeding.advance _)).trans
        (heeding.defineLabel _ p.advance.previous.lexeme)).honest honest
      generalize p.advance.advance.defineLabel p.advance.previous.lexeme = marked
        at label markHonest quiet ⊢
      by_cases bare : marked.current.kind.isTerminator = true
      · rw [if_pos bare] at quiet ⊢
        have wrote := label ((heeding.endStatement _).quiet quiet)
        obtain ⟨ts, ended, endWrote⟩ :=
          endStatement_wrote markHonest (wrote.unfinished unfinished) quiet
        refine .statement (s := none) (.more kind declared .none) (.bare ended)
          (fun empty => by cases empty) ?_
        simpa using wrote.trans endWrote
      · rw [if_neg bare] at quiet ⊢
        have wrote := label ((heeding.statementWithin bound _).quiet quiet)
        exact .label kind declared wrote (ih markHonest (wrote.unfinished unfinished) quiet)
    rw [if_neg labelled] at quiet ⊢
    by_cases brace : p.sees .leftCurly = true
    · rw [if_pos brace] at quiet ⊢
      obtain ⟨left, rest, ahead, opened⟩ := ahead_of_sees brace (by decide)
      have passed := (advance_wrote honest ((heeding.braceStatement _).quiet quiet) ahead).1
      exact braceStatement_stated opened passed ((heeding.advance p).honest honest) unfinished quiet
    · rw [if_neg brace] at quiet ⊢
      exact simpleStatement_stated honest unfinished quiet

/-- A declaration is a separator or a statement. -/
theorem declaration_stated {p : Pass} (honest : p.Honest) (unfinished : p.Unfinished)
    (quiet : p.declaration.1.diagnostics = []) :
    (∃ t, (t.kind = .newline ∨ t.kind = .divider) ∧ p.Wrote [t] 0 [] p.declaration.1 ∧
        p.declaration.2 = none) ∨
      Stated p p.declaration.1 p.declaration.2 := by
  unfold declaration at quiet ⊢
  by_cases separated : (p.sees .newline || p.sees .divider) = true
  · rw [if_pos separated] at quiet ⊢
    obtain ⟨t, rest, ahead, kind⟩ := ahead_of_either separated (by decide) (by decide)
    exact Or.inl ⟨t, kind, (advance_wrote honest quiet ahead).1, rfl⟩
  · rw [if_neg separated] at quiet ⊢
    have stated := statementWithin_stated p.left honest unfinished
    have statedHonest := (heeding.statement p).honest honest
    change (p.statement.1.diagnostics = [] → Stated p p.statement.1 p.statement.2) at stated
    generalize p.statement = read at stated statedHonest quiet ⊢
    obtain ⟨q, opened⟩ := read
    cases opened with
    | none =>
      dsimp only at stated statedHonest quiet ⊢
      have readQuiet := (recover_follows q).quiet quiet
      rw [recover_eq statedHonest readQuiet]
      exact Or.inr (stated readQuiet)
    | some loop => exact Or.inr (stated quiet)

end Cellscript.Pass
