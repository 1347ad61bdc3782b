import Cellscript.Proofs.Acceptance.Expressions
import Cellscript.Proofs.Code.Regrouping

/-!
Statements without loops, whatever the pass has been through. Jumps are written with placeholders
while those around them are still waiting. As long as every distance fits into its operand, the
tokens of a statement are read and its code is appended; the first distance that does not is
reported.
-/

set_option autoImplicit false

namespace Cellscript

/-- What can come after a statement. -/
def Ends (rest : List Token) : Prop :=
  (kindAhead rest).isTerminator = true ∨ kindAhead rest = .pipe

namespace Ends

variable {rest : List Token}

theorem delimits (ends : Ends rest) : Delimits rest := by
  unfold Ends at ends
  constructor <;> revert ends <;> cases kindAhead rest <;>
    simp [Token.Kind.isTerminator, Token.Kind.binary?]

theorem sound (ends : Ends rest) : validAhead rest = rest := by
  refine validAhead_eq fun flaw invalid => ?_
  rw [Ends, invalid] at ends
  rcases ends with terminates | bar
  · cases terminates
  · cases bar

end Ends

namespace Simple.Spelled

/-- A statement that comes next is not passed over. -/
theorem validAhead_append {s : Simple} {ts rest : List Token} (spelled : s.Spelled ts rest) :
    validAhead (ts ++ rest) = ts ++ rest := by
  have positive := spelled.length_pos
  cases ts with
  | nil => cases positive
  | cons t ts => exact Token.Valid.validAhead_cons (spelled.valid t List.mem_cons_self) _

end Simple.Spelled

namespace Pass

/-! ## Jumps -/

namespace Took

variable {p q r : Pass} {ts rest : List Token} {lines front back : List Line} {op : Opcode}
  {place distance : Nat}

/-- Nothing is read, so far. -/
theorem refl (ahead : p.ahead = rest) (sound : Cellscript.validAhead rest = rest) :
    p.Took [] [] rest p := by
  refine ⟨ahead, p.chunk, .refl, ?_⟩
  rw [resume_sound _ sound, ← ahead]
  rfl

/-- What is reported later is reported. -/
theorem reported (took : p.Took ts lines rest q) (kept : q.ahead = rest) {complaint : Complaint}
    (reported : q.Reported complaint r) : p.Reported complaint r :=
  reported.of_same (by rw [took.eq_of_ahead kept])

theorem calm (took : p.Took ts lines rest q) (kept : q.ahead = rest) (calm : p.panicking = false) :
    q.panicking = false := by
  rw [took.eq_of_ahead kept, calm]

theorem size_eq (took : p.Took ts lines rest q)
    (numbered : p.chunk.constants.size ≤ Chunk.maxConstants) :
    q.chunk.size = p.chunk.size + codeSize lines :=
  (took.appends numbered).size_eq

theorem emitJump (took : p.Took ts lines rest q) (isJump : op = .jump ∨ op = .jumpIfFalse) :
    p.Took ts (lines ++ [.code (Chunk.jumpBy op 255)]) rest (q.emitJump op).1 :=
  took.write fun numbered => .emitJump numbered isJump q.line

/-- A jump that leads over what was written behind it. -/
theorem patchJump (took : p.Took ts (front ++ .code (Chunk.jumpBy op distance) :: back) rest q)
    (isJump : op = .jump ∨ op = .jumpIfFalse)
    (numbered : p.chunk.constants.size ≤ Chunk.maxConstants) (near : codeSize back ≤ 255) :
    p.Took ts (front ++ .code (Chunk.jumpBy op (codeSize back)) :: back) rest
      (q.patchJump (p.chunk.size + codeSize front + 1)) := by
  obtain ⟨chunk, patched, extended⟩ := (took.appends numbered).patchJump isJump near
  refine ⟨took.ahead, chunk, fun _ => extended, ?_⟩
  rw [Pass.patchJump, patched]
  obtain ⟨_, old, _, rfl⟩ := took
  exact resume_write _ rest chunk

/-- A jump that would have to lead too far. -/
theorem patchJump_far
    (took : p.Took ts (front ++ .code (Chunk.jumpBy op distance) :: back) rest q)
    (numbered : p.chunk.constants.size ≤ Chunk.maxConstants) (far : 255 < codeSize back)
    (calm : q.panicking = false) :
    q.Reported (.chunk (.jumpTooLarge (codeSize back)))
      (q.patchJump (p.chunk.size + codeSize front + 1)) := by
  have refused : q.chunk.patchJump (p.chunk.size + codeSize front + 1) =
      .error (.jumpTooLarge (codeSize back)) := by
    rw [Chunk.patchJump, (took.appends numbered).reach]
    exact if_neg (by omega)
  rw [Pass.patchJump, refused]
  exact complain_reported calm _ _

end Took

/-! ## Predicates -/

/-- What is written apart leaves no trace here. -/
theorem apart_took {p : Pass} {write : Pass → Pass} {ts rest : List Token} {lines : List Line}
    (took : Took { p with chunk := {} } ts lines rest (write { p with chunk := {} })) :
    p.Took ts [] rest (p.apart write).1 ∧ ({} : Chunk).Extends lines (p.apart write).2 := by
  refine ⟨⟨took.ahead, p.chunk, .refl, ?_⟩, took.appends (Nat.zero_le _)⟩
  obtain ⟨_, chunk, _, same⟩ := took
  rw [Pass.apart, same]
  exact resume_write _ rest p.chunk

/-- The predicate in braces. What follows it is a brace, not the step of a loop. -/
theorem predicate_took {p : Pass} {left right : Token} {ts rest : List Token} {e : Expression}
    (fits : Chunk.Fits #[] e.code) (ahead : p.ahead = left :: (ts ++ right :: rest))
    (asked : e.Spelled .reference ts) (closed : right.kind = .rightCurly) :
    ¬ (p.advance.apart expression).1.sees .leftParen = true ∧
      p.Took (left :: (ts ++ [right])) [] rest
        ((p.advance.apart expression).1.expect .rightCurly .unclosedCondition) ∧
      (p.advance.apart expression).2.Realizes e := by
  have passed := Took.advance ahead
  have inside : p.advance.ahead = ts ++ right :: rest :=
    passed.validAhead.trans (asked.validAhead_append _)
  have shut : validAhead (right :: rest) = right :: rest :=
    (Token.Valid.of_kind closed fun _ invalid => by cases invalid).validAhead_cons rest
  have delimits : Delimits (validAhead (right :: rest)) := by
    rw [shut]
    exact .of_kind closed rfl (by decide)
  obtain ⟨read, extended⟩ := apart_took
    (took_expression (p := { p.advance with chunk := {} }) fits inside asked delimits)
  have atRight := read.validAhead.trans shut
  refine ⟨?_, ?_, (extended.holds e.code_unmarked Chunk.empty_holds).toAssembles⟩
  · rw [sees_iff, atRight, kindAhead_cons, closed]
    decide
  · simpa using (passed.trans read).trans (.expect atRight closed .unclosedCondition)

/-- Code that was written apart is appended by a splice. -/
theorem Took.splice {p q : Pass} {ts rest : List Token} {lines : List Line} {other : Chunk}
    {e : Expression} (took : p.Took ts lines rest q) (realizes : other.Realizes e)
    (fits : Chunk.Fits p.chunk.constants (lines ++ e.code)) :
    p.Took ts (lines ++ e.code) rest (q.splice other) := by
  obtain ⟨es, code, renders⟩ := Chunk.exists_renders realizes.encodes e.code_unmarked
  have unlabelled : other.labels = [] := by
    rw [realizes.labels, e.code_unmarked.labelsFrom_eq]
  have room := took.fits fits
  rw [← code] at room ⊢
  obtain ⟨chunk, written⟩ := Chunk.writeAll_of_fits room
  rw [Pass.splice, Chunk.splice_of_unlabelled renders unlabelled, written]
  exact took.write fun numbered => (Chunk.writeAll_appends numbered written).extension

/-! ## Conditionals -/

/-- A jump is reported that would have to lead too far. -/
def Overshoots (p q : Pass) : Prop :=
  p.panicking = false → ∃ distance, 255 < distance ∧
    p.Reported (.chunk (.jumpTooLarge distance)) q

theorem Overshoots.heeds {p q r : Pass} (overshoots : p.Overshoots q) (heeds : q.Heeds r) :
    p.Overshoots r := by
  intro calm
  obtain ⟨distance, far, reported⟩ := overshoots calm
  exact ⟨distance, far, reported.heeds heeds⟩

theorem Took.overshoots {p q r : Pass} {ts rest : List Token} {lines : List Line}
    (took : p.Took ts lines rest q) (kept : q.ahead = rest) (overshoots : q.Overshoots r) :
    p.Overshoots r := by
  intro calm
  obtain ⟨distance, far, reported⟩ := overshoots (took.calm kept calm)
  exact ⟨distance, far, took.reported kept reported⟩

/-- A statement has been read. Its code was appended if its jumps are short; otherwise the first one
that is not was reported. -/
inductive LaidOut (p : Pass) (ts : List Token) (s : Simple) (rest : List Token) (q : Pass) : Prop
  | whole (short : s.Short) (took : p.Took ts s.code rest q)
  | broken (long : ¬ s.Short) (overshoots : p.Overshoots q)

/-- The branch lays out these tokens as this statement when so many tokens are left. -/
def Lays (bound : Nat) (branch : Pass → Pass) (ts : List Token) (s : Simple) (rest : List Token) :
    Prop :=
  ∀ {p : Pass}, Chunk.Fits p.chunk.constants s.code → p.ahead = ts ++ rest → p.left ≤ bound →
    p.LaidOut ts s rest (branch p)

/-- How far its jumps lead does not matter for the constants of a conditional. -/
theorem fits_branches {pool : Array Value} {predicate body other : List Line} (skip leap : Nat) :
    Chunk.Fits pool (predicate ++ .code (.jumpIfFalse skip) ::
        (body ++ .code (.jump leap) :: other)) ↔
      Chunk.Fits pool (predicate ++ body ++ other) := by
  have first : Chunk.Fits pool (predicate ++ .code (.jumpIfFalse skip) ::
      (body ++ .code (.jump leap) :: other)) ↔ _ := Chunk.fits_jumpBy .jumpIfFalse skip
  have second : Chunk.Fits pool (predicate ++ body ++ .code (.jump leap) :: other) ↔ _ :=
    Chunk.fits_jumpBy .jump leap
  rw [List.append_assoc] at second
  exact first.trans second

section Conditional

variable {bound : Nat} {branch : Pass → Pass} {predicate : Chunk} {e : Expression} {body : Simple}
  {p : Pass} {us rest : List Token} {other : List Line}

/-- The predicate, the first branch and the jump over the second one. Both jumps are open while the
branch is read, and the first one is filled in behind it. -/
theorem firstBranch_took (lays : Lays bound branch us body rest) (realizes : predicate.Realizes e)
    (fits : Chunk.Fits p.chunk.constants (conditionalLines e.code body.code other))
    (ahead : p.ahead = us ++ rest) (small : p.left ≤ bound)
    (starts : validAhead (us ++ rest) = us ++ rest) (sound : validAhead rest = rest)
    {chosen patched : Pass}
    (choosing : branch ((p.splice predicate).emitJump .jumpIfFalse).1 = chosen)
    (patching : (chosen.emitJump .jump).1.patchJump ((p.splice predicate).chunk.size + 1) =
      patched) :
    (body.Short ∧ codeSize body.code ≤ 253 ∧
      p.Took us (e.code ++ .code (.jumpIfFalse 255) :: body.code) rest chosen ∧
      p.Took us (e.code ++ .code (.jumpIfFalse (codeSize body.code + 2)) ::
        (body.code ++ [.code (.jump 255)])) rest patched) ∨
    (¬ (codeSize body.code ≤ 253 ∧ body.Short) ∧ p.Overshoots patched) := by
  have room : Chunk.Fits p.chunk.constants (e.code ++ body.code) :=
    ((fits_branches _ _).mp fits).of_append.1
  have asked := (Took.refl ahead starts).splice realizes room.of_append.1
  have jumped := asked.emitJump (Or.inr rfl)
  have kept := jumped.validAhead.trans starts
  have shorter := jumped.left_le
  have inside :
      Chunk.Fits ((p.splice predicate).emitJump .jumpIfFalse).1.chunk.constants body.code :=
    jumped.fits (by simpa using (Chunk.fits_jumpBy .jumpIfFalse 255).mpr room)
  have place : (p.splice predicate).chunk.size = p.chunk.size + codeSize e.code :=
    asked.size_eq room.numbered
  rw [place] at patching
  have branched := lays inside kept (by rw [List.length_nil] at shorter; omega)
  rw [choosing] at branched
  cases branched with
  | broken long overshoots =>
    refine Or.inr ⟨fun short => long short.2, ?_⟩
    rw [← patching]
    exact ((jumped.overshoots kept overshoots).heeds (heeding.emitJump chosen .jump)).heeds
      (heeding.patchJump _ _)
  | whole short took =>
    have first : p.Took us (e.code ++ .code (.jumpIfFalse 255) :: body.code) rest chosen := by
      simpa [Chunk.jumpBy] using jumped.trans took
    have second : p.Took us _ rest (chosen.emitJump .jump).1 := first.emitJump (Or.inl rfl)
    have waiting : p.Took us (e.code ++ .code (Chunk.jumpBy .jumpIfFalse 255) ::
        (body.code ++ [.code (.jump 255)])) rest (chosen.emitJump .jump).1 := by
      simpa [Chunk.jumpBy] using second
    have size : codeSize (body.code ++ [.code (.jump 255)]) = codeSize body.code + 2 := by
      simp [Instruction.width]
    by_cases near : codeSize body.code ≤ 253
    · have filled := waiting.patchJump (Or.inr rfl) room.numbered (by omega)
      rw [patching, size] at filled
      exact Or.inl ⟨short, near, first, filled⟩
    · refine Or.inr ⟨fun short => near short.1, fun calm => ?_⟩
      have atEnd := waiting.validAhead.trans sound
      have reported := waiting.patchJump_far room.numbered (by omega) (waiting.calm atEnd calm)
      rw [patching] at reported
      exact ⟨_, by omega, waiting.reported atEnd reported⟩

/-- The second jump stands behind the first branch. -/
theorem leap_place {chosen : Pass} {near far : Nat}
    (took : p.Took us (e.code ++ .code (.jumpIfFalse near) :: body.code) rest chosen)
    (numbered : p.chunk.constants.size ≤ Chunk.maxConstants) :
    chosen.chunk.size + 1 =
      p.chunk.size + codeSize (e.code ++ .code (.jumpIfFalse far) :: body.code) + 1 := by
  rw [took.size_eq numbered]
  simp [Instruction.width]

theorem secondBranch_heeds (heeds : ∀ p : Pass, p.Heeds (branch p)) (patched : Pass) (place : Nat) :
    patched.Heeds
      ((if patched.sees .pipe then branch patched.advance else patched).patchJump place) := by
  split
  · exact ((heeding.advance _).trans (heeds _)).trans (heeding.patchJump _ _)
  · exact heeding.patchJump _ _

/-- A conditional with one branch. -/
theorem conditional_when (heeds : ∀ p : Pass, p.Heeds (branch p))
    (lays : Lays bound branch us body rest) (realizes : predicate.Realizes e)
    (fits : Chunk.Fits p.chunk.constants (Simple.when e body).code) (ahead : p.ahead = us ++ rest)
    (small : p.left ≤ bound) (chosen : body.Spelled us rest) (ends : Ends rest)
    (lone : kindAhead rest ≠ .pipe) :
    p.LaidOut us (.when e body) rest (conditional branch predicate p) := by
  rw [conditional_eq]
  dsimp only
  generalize choosing : branch ((p.splice predicate).emitJump .jumpIfFalse).1 = chosenPass
  generalize patching :
    (chosenPass.emitJump .jump).1.patchJump ((p.splice predicate).chunk.size + 1) = patched
  have first := firstBranch_took lays realizes fits ahead small chosen.validAhead_append
    ends.sound choosing patching
  rcases first with ⟨short, near, took, filled⟩ | ⟨long, overshoots⟩
  · have alone : ¬ patched.sees .pipe = true := by
      rw [sees_iff, filled.validAhead, ends.sound]
      exact lone
    have waiting : p.Took us ((e.code ++ .code (.jumpIfFalse (codeSize body.code + 2)) ::
        body.code) ++ .code (Chunk.jumpBy .jump 255) :: []) rest patched := by
      simpa [Chunk.jumpBy] using filled
    have whole := waiting.patchJump (Or.inl rfl) fits.numbered (Nat.zero_le _)
    rw [if_neg alone, leap_place took fits.numbered]
    exact .whole ⟨near, short⟩ (by simpa [Simple.code, conditionalLines, Chunk.jumpBy] using whole)
  · exact .broken long (overshoots.heeds (secondBranch_heeds heeds patched _))

/-- A conditional with two branches. -/
theorem conditional_choose {vs : List Token} {bar : Token} {second : Simple}
    (heeds : ∀ p : Pass, p.Heeds (branch p))
    (lays : Lays bound branch us body (bar :: (vs ++ rest)))
    (laysOther : Lays bound branch vs second rest) (realizes : predicate.Realizes e)
    (fits : Chunk.Fits p.chunk.constants (Simple.choose e body second).code)
    (ahead : p.ahead = us ++ bar :: (vs ++ rest)) (small : p.left ≤ bound)
    (chosen : body.Spelled us (bar :: (vs ++ rest))) (kind : bar.kind = .pipe)
    (otherwise : second.Spelled vs rest) (ends : Ends rest) :
    p.LaidOut (us ++ bar :: vs) (.choose e body second) rest (conditional branch predicate p) := by
  rw [conditional_eq]
  dsimp only
  generalize choosing : branch ((p.splice predicate).emitJump .jumpIfFalse).1 = chosenPass
  generalize patching :
    (chosenPass.emitJump .jump).1.patchJump ((p.splice predicate).chunk.size + 1) = patched
  have barred : Ends (bar :: (vs ++ rest)) := Or.inr kind
  have first := firstBranch_took lays realizes fits ahead small chosen.validAhead_append
    barred.sound choosing patching
  rcases first with ⟨short, near, took, filled⟩ | ⟨long, overshoots⟩
  · have atBar := filled.validAhead.trans barred.sound
    have seen : patched.sees .pipe = true := by
      rw [sees_iff, atBar]
      exact kind
    have passed := filled.advanced atBar
    have atOther := passed.validAhead.trans otherwise.validAhead_append
    have shorter := passed.left_le
    have room : Chunk.Fits patched.advance.chunk.constants second.code := by
      refine passed.fits ?_
      simpa using (fits_branches (codeSize body.code + 2) 255).mpr ((fits_branches _ _).mp fits)
    have branched := laysOther room atOther (by rw [List.length_append] at shorter; omega)
    rw [if_pos seen, leap_place took fits.numbered]
    cases branched with
    | broken longOther overshoots =>
      refine .broken (fun short => longOther short.2.2.2) ?_
      exact (passed.overshoots atOther overshoots).heeds (heeding.patchJump _ _)
    | whole shortOther tookOther =>
      have waiting : p.Took (us ++ bar :: vs)
          ((e.code ++ .code (.jumpIfFalse (codeSize body.code + 2)) :: body.code) ++
            .code (Chunk.jumpBy .jump 255) :: second.code) rest (branch patched.advance) := by
        simpa [Chunk.jumpBy] using passed.trans tookOther
      by_cases nearOther : codeSize second.code ≤ 255
      · have whole := waiting.patchJump (Or.inl rfl) fits.numbered nearOther
        refine .whole ⟨near, nearOther, short, shortOther⟩ ?_
        simpa [Simple.code, conditionalLines, Chunk.jumpBy] using whole
      · refine .broken (fun short => nearOther short.2.1) fun calm => ?_
        have atEnd := waiting.validAhead.trans ends.sound
        have reported := waiting.patchJump_far fits.numbered (Nat.lt_of_not_le nearOther)
          (waiting.calm atEnd calm)
        exact ⟨_, Nat.lt_of_not_le nearOther, waiting.reported atEnd reported⟩
  · exact .broken (fun short => long ⟨short.1, short.2.2.1⟩)
      (overshoots.heeds (secondBranch_heeds heeds patched _))

end Conditional

/-! ## Statements without loops -/

/-- What was read before a statement belongs to it if nothing was written. -/
theorem LaidOut.behind {p q r : Pass} {ts us rest : List Token} {s : Simple}
    (took : p.Took ts [] (us ++ rest) q) (kept : q.ahead = us ++ rest)
    (laid : q.LaidOut us s rest r) : p.LaidOut (ts ++ us) s rest r := by
  cases laid with
  | whole short later => exact .whole short (took.trans later)
  | broken long overshoots => exact .broken long (took.overshoots kept overshoots)

/-- A statement that starts with a brace is a conditional, whose branches are read by anything that
reads statements. -/
theorem conditional_laidOut {bound : Nat} {branch : Pass → Pass}
    (heeds : ∀ p : Pass, p.Heeds (branch p))
    (lays : ∀ {ts rest : List Token} {s : Simple}, s.Spelled ts rest → Ends rest →
      Lays bound branch ts s rest)
    {p : Pass} {ts rest : List Token} {s : Simple} (spelled : s.Spelled ts rest) (ends : Ends rest)
    (fits : Chunk.Fits p.chunk.constants s.code) (ahead : p.ahead = ts ++ rest)
    (brace : kindAhead p.ahead = .leftCurly) (small : p.left ≤ bound + 1) :
    ¬ (p.advance.apart expression).1.sees .leftParen = true ∧
      p.LaidOut ts s rest (conditional branch (p.advance.apart expression).2
        ((p.advance.apart expression).1.expect .rightCurly .unclosedCondition)) := by
  cases spelled with
  | print kind _ =>
    rw [ahead, List.cons_append, kindAhead_cons] at brace
    simp [brace] at kind
  | stop kind _ =>
    rw [ahead, List.cons_append, kindAhead_cons, kind] at brace
    cases brace
  | perform performed =>
    have starts := performed.starts rest
    rw [← ahead, brace] at starts
    cases starts
  | @when left right ts us _ predicate body opened asked closed chosen lone =>
    have tokens : p.ahead = left :: (ts ++ right :: (us ++ rest)) := by simpa using ahead
    obtain ⟨condition, read, realizes⟩ := predicate_took fits.of_append.1.alone tokens asked closed
    have kept := read.validAhead.trans chosen.validAhead_append
    have shorter := read.left_le
    rw [List.length_cons] at shorter
    have branch := conditional_when heeds (lays chosen ends) realizes (read.fits fits) kept
      (by omega) chosen ends lone
    exact ⟨condition, by simpa using branch.behind read kept⟩
  | @choose left right bar ts us vs _ predicate body other opened asked closed chosen kind
      otherwise =>
    have tokens : p.ahead = left :: (ts ++ right :: (us ++ bar :: (vs ++ rest))) := by
      simpa using ahead
    obtain ⟨condition, read, realizes⟩ := predicate_took fits.of_append.1.alone tokens asked closed
    have kept := read.validAhead.trans chosen.validAhead_append
    have shorter := read.left_le
    rw [List.length_cons] at shorter
    have branches := conditional_choose heeds (lays chosen (Or.inr kind)) (lays otherwise ends)
      realizes (read.fits fits) kept (by omega) chosen kind otherwise ends
    have whole := branches.behind (by simpa using read) (by simpa using kept)
    exact ⟨condition, by simpa using whole⟩

theorem next_kind {p : Pass} {t : Token} {rest : List Token} (ahead : p.ahead = t :: rest) :
    p.next.kind = kindAhead rest := by
  unfold Pass.next kindAhead
  rw [ahead]
  cases rest <;> rfl

theorem seesReturn_iff {p : Pass} {t : Token} {rest : List Token} (ahead : p.ahead = t :: rest) :
    p.seesReturn = true ↔ t.kind = .bang ∧ Ends rest := by
  simp [seesReturn, sees_iff, ahead, kindAhead_cons, seesNext, next_kind ahead, Ends]

/-- A brace that may stand in a branch starts a conditional. -/
theorem simpleWithin_brace {p : Pass} (bound : Nat) (brace : kindAhead p.ahead = .leftCurly)
    (condition : ¬ (p.advance.apart expression).1.sees .leftParen = true) :
    simpleWithin (bound + 1) p = conditional (simpleWithin bound) (p.advance.apart expression).2
      ((p.advance.apart expression).1.expect .rightCurly .unclosedCondition) := by
  have wordless : ¬ (p.sees .print || p.sees .pr) = true := by
    simp [sees_iff, brace]
  have goesOn : ¬ p.seesReturn = true := by
    simp [seesReturn, sees_iff, brace]
  rw [simpleWithin, if_neg wordless, if_neg goesOn, if_pos (sees_iff.mpr brace)]
  exact if_neg condition

/-- An expression is not taken for another statement. -/
theorem simpleWithin_expression {p : Pass} {ts rest : List Token} {e : Expression} (bound : Nat)
    (ahead : p.ahead = ts ++ rest) (performed : e.Spelled .reference ts) :
    simpleWithin (bound + 1) p = p.expressionStatement := by
  have starts := performed.starts rest
  rw [← ahead] at starts
  have unseen : ∀ {kind : Token.Kind}, kind.startsOperand = false → ¬ p.sees kind = true := by
    intro kind other
    rw [sees_iff]
    rintro rfl
    rw [starts] at other
    cases other
  have goesOn : ¬ p.seesReturn = true := by
    intro returns
    cases ts with
    | nil => exact absurd performed.length_pos (Nat.lt_irrefl 0)
    | cons bang us =>
      rw [List.cons_append] at ahead
      obtain ⟨kind, ends⟩ := (seesReturn_iff ahead).mp returns
      have operand := performed.after_bang rfl kind rest
      revert operand
      rcases ends with terminates | bar
      · revert terminates
        cases kindAhead (us ++ rest) <;> simp [Token.Kind.isTerminator, Token.Kind.startsOperand]
      · rw [bar]
        decide
  have wordless : ¬ (p.sees .print || p.sees .pr) = true := by
    rw [Bool.or_eq_true]
    exact fun word => word.elim (unseen rfl) (unseen rfl)
  rw [simpleWithin, if_neg wordless, if_neg goesOn, if_neg (unseen rfl)]

theorem simpleWithin_lays (bound : Nat) {ts rest : List Token} {s : Simple}
    (spelled : s.Spelled ts rest) (ends : Ends rest) :
    Lays bound (simpleWithin bound) ts s rest := by
  have delimits : Delimits (validAhead rest) := by
    rw [ends.sound]
    exact ends.delimits
  induction bound generalizing ts rest s with
  | zero =>
    intro p fits ahead small
    have positive := spelled.length_pos
    rw [left, ahead, List.length_append] at small
    omega
  | succ bound ih =>
    intro p fits ahead small
    by_cases brace : kindAhead p.ahead = .leftCurly
    · obtain ⟨condition, laid⟩ := conditional_laidOut (heeding.simpleWithin bound)
        (fun spelled ends => ih spelled ends (ends.sound.symm ▸ ends.delimits)) spelled ends fits
        ahead brace small
      rw [simpleWithin_brace bound brace condition]
      exact laid
    cases spelled with
    | @print t ts _ e kind shown =>
      have word : (p.sees .print || p.sees .pr) = true := by
        rw [Bool.or_eq_true, sees_iff, sees_iff, ahead]
        exact kind
      have passed := Took.advance ahead
      have inside := passed.validAhead.trans (shown.validAhead_append rest)
      have read := took_expression (passed.fits fits.of_append.1) inside shown delimits
      rw [simpleWithin, if_pos word]
      exact .whole trivial ((passed.trans read).emit .print rfl)
    | stop kind _ =>
      have wordless : ¬ (p.sees .print || p.sees .pr) = true := by
        simp [sees_iff, ahead, kindAhead_cons, kind]
      rw [simpleWithin, if_neg wordless, if_pos ((seesReturn_iff ahead).mpr ⟨kind, ends⟩)]
      exact .whole trivial ((Took.advance ahead).emit .halt rfl)
    | perform performed =>
      rw [simpleWithin_expression bound ahead performed]
      exact .whole trivial ((took_expression fits.of_append.1 ahead performed delimits).emit
        .pop rfl)
    | when opened => exact absurd (ahead ▸ opened) brace
    | choose opened => exact absurd (ahead ▸ opened) brace

theorem simpleStatement_lays (bound : Nat) {ts rest : List Token} {s : Simple}
    (spelled : s.Spelled ts rest) (ends : Ends rest) : Lays bound simpleStatement ts s rest :=
  fun fits ahead _ => simpleWithin_lays _ spelled ends fits ahead (Nat.le_refl _)

theorem endStatement_took {p : Pass} {ts rest : List Token} (ended : Terminator ts rest)
    (ahead : p.ahead = ts ++ rest) : p.Took ts [] rest p.endStatement := by
  unfold endStatement
  cases ended with
  | @token t rest kind =>
    have unfinished : ¬ p.atEnd = true := by
      rw [atEnd, sees_iff, ahead]
      intro finish
      rw [List.singleton_append, kindAhead_cons] at finish
      simp [finish] at kind
    have separates : (p.sees .newline || p.sees .divider) = true := by
      rw [Bool.or_eq_true, sees_iff, sees_iff, ahead]
      exact kind
    rw [if_neg unfinished, if_pos separates]
    exact .advance ahead
  | finish =>
    have finished : p.atEnd = true := by
      rw [atEnd, sees_iff, ahead]
      rfl
    rw [if_pos finished]
    exact .refl ahead rfl

/-- A statement without labels and loops. -/
theorem statementWithin_laidOut {p : Pass} {ts us rest : List Token} {s : Simple} {bound : Nat}
    (spelled : s.Spelled ts (us ++ rest)) (ended : Terminator us rest)
    (fits : Chunk.Fits p.chunk.constants s.code) (ahead : p.ahead = ts ++ (us ++ rest))
    (small : p.left ≤ bound) :
    ∃ q, statementWithin bound p = (q.endStatement, none) ∧ p.LaidOut ts s (us ++ rest) q := by
  have ends : Ends (us ++ rest) := Or.inl ended.isTerminator
  have unlabelled : ¬ p.seesLabel = true := by
    intro seen
    obtain ⟨name, dots, tail, tokens, kind, declared⟩ := ahead_of_seesLabel seen
    refine spelled.not_closes ended name.lexeme ⟨name, dots, tail, ?_, kind, declared, rfl⟩
    rw [← tokens, ahead, List.append_assoc]
  have positive : 0 < p.left := by
    rw [left, ahead, List.length_append]
    exact Nat.add_pos_left spelled.length_pos _
  obtain ⟨bound, rfl⟩ := Nat.exists_eq_succ_of_ne_zero (by omega : bound ≠ 0)
  rw [statementWithin, if_neg unlabelled]
  by_cases brace : p.sees .leftCurly = true
  · obtain ⟨condition, laid⟩ := conditional_laidOut heeding.simpleStatement
      (simpleStatement_lays p.left) spelled ends fits ahead (sees_iff.mp brace) (Nat.le_succ _)
    rw [if_pos brace, braceStatement]
    dsimp only
    rw [if_neg condition]
    exact ⟨_, rfl, laid⟩
  · rw [if_neg brace]
    exact ⟨_, rfl, simpleStatement_lays p.left spelled ends fits ahead (Nat.le_refl _)⟩

end Pass

end Cellscript
