import Cellscript.Proofs.Acceptance.Conditionals
import Cellscript.Proofs.Machine.Decoding

/-!
Where the branches of nested conditionals stand, where their jumps lead, and to which conditional a
bar belongs. A jump has one byte for its distance, so a branch that is too long is reported.
-/

set_option autoImplicit false

namespace Cellscript

/-! ## Conditionals and their places -/

/-- Without a bar there is no second branch. -/
structure Conditional where
  predicate : Expression
  body : Simple
  other : Option Simple

namespace Conditional

def otherCode (c : Conditional) : List Line := (c.other.map Simple.code).getD []

def code (c : Conditional) : List Line :=
  conditionalLines c.predicate.code c.body.code c.otherCode

/-- Where the jump over the first branch stands if the predicate starts at `start`. -/
def skip (c : Conditional) (start : Nat) : Nat := start + codeSize c.predicate.code

def first (c : Conditional) (start : Nat) : Nat := c.skip start + 2

/-- Where the jump over the second branch stands. -/
def leap (c : Conditional) (start : Nat) : Nat := c.first start + codeSize c.body.code

def second (c : Conditional) (start : Nat) : Nat := c.leap start + 2

/-- The first offset behind both branches. -/
def after (c : Conditional) (start : Nat) : Nat := c.second start + codeSize c.otherCode

/-- The first jump leads over the first branch and the second jump, the second jump over the second
branch. One of them would have to lead too far. -/
def TooLong (c : Conditional) : Prop :=
  255 < codeSize c.body.code + 2 ∨ 255 < codeSize c.otherCode

end Conditional

namespace Simple

/-- The conditionals of a statement whose code starts at `start`, each with the offset of its
predicate. -/
def conditionals : Nat → Simple → List (Nat × Conditional)
  | start, when predicate body =>
    let c : Conditional := ⟨predicate, body, none⟩
    (start, c) :: body.conditionals (c.first start)
  | start, choose predicate body other =>
    let c : Conditional := ⟨predicate, body, some other⟩
    (start, c) :: (body.conditionals (c.first start) ++ other.conditionals (c.second start))
  | _, _ => []

theorem short_iff (s : Simple) (start : Nat) :
    s.Short ↔ ∀ placed ∈ s.conditionals start, ¬ placed.2.TooLong := by
  induction s generalizing start with
  | print => simp [conditionals, Short]
  | stop => simp [conditionals, Short]
  | perform => simp [conditionals, Short]
  | when predicate body ih =>
    rw [conditionals, List.forall_mem_cons, ← ih, Short]
    refine and_congr ?_ Iff.rfl
    simp only [Conditional.TooLong, Conditional.otherCode, Option.map_none, Option.getD_none,
      codeSize_nil]
    omega
  | choose predicate body other chosen otherwise =>
    rw [conditionals, List.forall_mem_cons, List.forall_mem_append, ← chosen, ← otherwise, Short,
      ← and_assoc]
    refine and_congr ?_ Iff.rfl
    simp only [Conditional.TooLong, Conditional.otherCode, Option.map_some, Option.getD_some]
    omega

end Simple

/-! ## Code of conditionals -/

/-- The code of a conditional stands at `start`. Its jumps lead to the second branch
and behind it. -/
structure Chunk.Branches (chunk : Chunk) (start : Nat) (c : Conditional) : Prop where
  predicate : chunk.HasAt start c.predicate.code
  skip : chunk.byteAt? (c.skip start) = some Opcode.jumpIfFalse.byte
  skips : Machine.step chunk (c.skip start) = do
    let value ← Machine.pop
    return some (if value.isFalsey then c.second start else c.first start)
  body : chunk.HasAt (c.first start) c.body.code
  leap : chunk.byteAt? (c.leap start) = some Opcode.jump.byte
  leaps : Machine.step chunk (c.leap start) = return some (c.after start)
  other : chunk.HasAt (c.second start) c.otherCode

namespace Chunk.HasAt

variable {chunk : Chunk} {start : Nat}

/-- Behind an instruction stand the lines behind its line. -/
theorem of_cons {i : Instruction} {back : List Line}
    (stands : chunk.HasAt start (.code i :: back)) : chunk.HasAt (start + i.width) back := by
  rw [← List.singleton_append] at stands
  simpa using stands.of_append.2

theorem branches {c : Conditional} (stands : chunk.HasAt start c.code) :
    chunk.Branches start c := by
  obtain ⟨predicate, skipping⟩ := stands.of_append
  obtain ⟨body, leaping⟩ := skipping.of_cons.of_append
  refine ⟨predicate, skipping.opcode_at, ?_, body, leaping.opcode_at, ?_,
    leaping.of_cons⟩
  · have place : c.first start + (codeSize c.body.code + 2) = c.second start := by
      unfold Conditional.second Conditional.leap
      omega
    rw [← place]
    exact skipping.step_eq
  · exact leaping.step_eq

/-- At every depth, the code of a statement has its conditionals where they belong. -/
theorem conditionals {s : Simple} (stands : chunk.HasAt start s.code) :
    ∀ placed ∈ s.conditionals start, chunk.Branches placed.1 placed.2 := by
  induction s generalizing start with
  | print => simp [Simple.conditionals]
  | stop => simp [Simple.conditionals]
  | perform => simp [Simple.conditionals]
  | when predicate body ih =>
    have here := branches (c := ⟨predicate, body, none⟩) stands
    exact List.forall_mem_cons.mpr ⟨here, ih here.body⟩
  | choose predicate body other chosen otherwise =>
    have here := branches (c := ⟨predicate, body, some other⟩) stands
    exact List.forall_mem_cons.mpr
      ⟨here, List.forall_mem_append.mpr ⟨chosen here.body, otherwise here.other⟩⟩

end Chunk.HasAt

/-- The chunk has been written on. -/
structure Chunk.Continues (c later : Chunk) : Prop where
  code : c.bytes <+: later.bytes
  constants : Grows c.constants later.constants

theorem Chunk.Continues.refl (c : Chunk) : c.Continues c := ⟨List.prefix_rfl, .refl c.constants⟩

theorem Chunk.HasAt.continues {c later : Chunk} {offset : Nat} {lines : List Line}
    (stands : c.HasAt offset lines) (continues : c.Continues later) : later.HasAt offset lines := by
  obtain ⟨before, bytes, after, split, size, encoded⟩ := stands
  obtain ⟨more, code⟩ := continues.code
  refine ⟨before, bytes, after ++ more, ?_, size, encoded.mono continues.constants⟩
  rw [← code, split, List.append_assoc]

/-- What was appended stands behind what was there. -/
theorem Chunk.Extends.hasAt {c d : Chunk} {lines : List Line} (extended : c.Extends lines d) :
    d.HasAt c.size lines := by
  obtain ⟨new, code, encoded⟩ := extended.code
  refine ⟨c.bytes, new.map (·.value), [], ?_, ?_, encoded⟩
  · simp [Chunk.bytes, code]
  · simp [Chunk.bytes, Chunk.size]

/-! ## Bars -/

/-- To which conditional each bar belongs. Conditionals are numbered from `n` in the order of their
braces; those that still wait for a bar are listed from the inside out, and a bar goes to the
innermost. -/
def attach : Nat → List Nat → List Token → Option (List Nat)
  | _, _, [] => some []
  | n, waiting, t :: ts =>
    match t.kind with
    | .leftCurly => attach (n + 1) (n :: waiting) ts
    | .pipe =>
      match waiting with
      | [] => none
      | c :: waiting => (attach n waiting ts).map (c :: ·)
    | _ => attach n waiting ts

section Attach

variable {n : Nat} {waiting : List Nat} {t : Token} {ts : List Token}

theorem attach_brace (kind : t.kind = .leftCurly) :
    attach n waiting (t :: ts) = attach (n + 1) (n :: waiting) ts := by
  simp only [attach, kind]

theorem attach_bar {c : Nat} (kind : t.kind = .pipe) :
    attach n (c :: waiting) (t :: ts) = (attach n waiting ts).map (c :: ·) := by
  simp only [attach, kind]

theorem attach_cons (unbraced : t.kind ≠ .leftCurly) (unbarred : t.kind ≠ .pipe) :
    attach n waiting (t :: ts) = attach n waiting ts := by
  simp only [attach]

/-- An expression has neither braces nor bars. -/
theorem attach_expression {e : Expression} {level : Level} {us : List Token}
    (spelled : e.Spelled level us) : attach n waiting (us ++ ts) = attach n waiting ts := by
  have inside := spelled.inExpression
  clear spelled
  induction us with
  | nil => rfl
  | cons t us ih =>
    obtain ⟨here, later⟩ := List.forall_mem_cons.mp inside
    have unbraced : t.kind ≠ .leftCurly := by
      intro kind
      rw [kind] at here
      cases here
    have unbarred : t.kind ≠ .pipe := by
      intro kind
      rw [kind] at here
      cases here
    rw [List.cons_append, attach_cons unbraced unbarred, ih later]

end Attach

namespace Simple

/-- How many conditionals a statement has. -/
def braces : Simple → Nat
  | when _ body => 1 + body.braces
  | choose _ body other => 1 + body.braces + other.braces
  | _ => 0

/-- For each bar of a statement, the conditional whose branches it divides, if its conditionals are
numbered from `n`. -/
def bars : Nat → Simple → List Nat
  | n, when _ body => body.bars (n + 1)
  | n, choose _ body other => body.bars (n + 1) ++ n :: other.bars (n + 1 + body.braces)
  | _, _ => []

/-- The conditionals that have no bar, from the inside out. -/
def barless : Nat → Simple → List Nat
  | n, when _ body => body.barless (n + 1) ++ [n]
  | n, choose _ body other => other.barless (n + 1 + body.braces) ++ body.barless (n + 1)
  | _, _ => []

/-- In front of a bar, no conditional of the statement is without one. -/
theorem Spelled.barless_eq {s : Simple} {ts rest : List Token} (spelled : s.Spelled ts rest)
    (barred : kindAhead rest = .pipe) (n : Nat) : s.barless n = [] := by
  induction spelled generalizing n with
  | print => rfl
  | stop => rfl
  | perform => rfl
  | when _ _ _ _ lone _ => exact absurd barred lone
  | choose _ _ _ _ kind _ first second =>
    rw [barless, second barred, first kind, List.append_nil]

/-- The induction is on the spelling: what a statement leaves waiting is what it has no bar for. -/
theorem Spelled.attach_append {s : Simple} {ts rest : List Token} (spelled : s.Spelled ts rest)
    (n : Nat) (waiting : List Nat) (more : List Token) :
    attach n waiting (ts ++ more) =
      (attach (n + s.braces) (s.barless n ++ waiting) more).map (s.bars n ++ ·) := by
  induction spelled generalizing n waiting more with
  | print kind shown =>
    rw [List.cons_append, attach_cons (by rcases kind with kind | kind <;> simp [kind])
      (by rcases kind with kind | kind <;> simp [kind]), attach_expression shown]
    simp [braces, barless, bars]
  | stop kind _ =>
    rw [List.cons_append, attach_cons (by simp [kind]) (by simp [kind])]
    simp [braces, barless, bars]
  | perform performed =>
    rw [attach_expression performed]
    simp [braces, barless, bars]
  | when opened asked closed _ _ ih =>
    simp only [List.cons_append, List.append_assoc]
    rw [attach_brace opened, attach_expression asked,
      attach_cons (by simp [closed]) (by simp [closed]), ih]
    simp [braces, barless, bars, Nat.add_assoc]
  | @choose left right bar ts us vs rest predicate body other opened asked closed chosen
      kind _ first second =>
    simp only [List.cons_append, List.append_assoc]
    rw [attach_brace opened, attach_expression asked,
      attach_cons (by simp [closed]) (by simp [closed]), first, chosen.barless_eq kind,
      List.nil_append, attach_bar kind, second]
    simp [braces, barless, bars, chosen.barless_eq kind, Nat.add_assoc, Function.comp_def]

end Simple

namespace Pass

/-- Every bar belongs to the innermost conditional still without one. The jump over a branch is too
large exactly if some conditional has a branch that is too long, and then this is all that is
reported. Otherwise the code of the statement is appended and nothing is reported, and whatever is
written later, both jumps of every conditional lead where they should. -/
theorem conditionals_are_laid_out_exactly {p : Pass} {ts us rest : List Token} {s : Simple}
    (calm : p.panicking = false) (ahead : p.ahead = ts ++ (us ++ rest))
    (spelled : s.Spelled ts (us ++ rest)) (ended : Terminator us rest)
    (sound : validAhead rest = rest) (fits : Chunk.Fits p.chunk.constants s.code) :
    attach 0 [] ts = some (s.bars 0) ∧
    ((∃ distance, p.Reported (.chunk (.jumpTooLarge distance)) p.statement.1) ↔
      ∃ placed ∈ s.conditionals p.chunk.size, placed.2.TooLong) ∧
    ((¬ ∃ placed ∈ s.conditionals p.chunk.size, placed.2.TooLong) →
      ∃ chunk, p.statement =
          ({ p with previous := (ts ++ us).getLastD p.previous, ahead := rest, chunk }, none) ∧
        p.chunk.Extends s.code chunk ∧
        ∀ later : Chunk, chunk.Continues later →
          ∀ placed ∈ s.conditionals p.chunk.size, later.Branches placed.1 placed.2) := by
  obtain ⟨q, read, laid⟩ := statementWithin_laidOut spelled ended fits ahead (Nat.le_refl p.left)
  have bars := spelled.attach_append 0 [] []
  rw [List.append_nil] at bars
  refine ⟨by simpa [attach] using bars, ?_⟩
  have exact : s.Short ↔ ¬ ∃ placed ∈ s.conditionals p.chunk.size, placed.2.TooLong := by
    simpa using s.short_iff p.chunk.size
  rw [show p.statement = (q.endStatement, none) from read, ← exact, ← not_iff_not, ← exact]
  cases laid with
  | broken long overshoots =>
    obtain ⟨distance, _, reported⟩ := overshoots calm
    have kept := reported.heeds (heeding.endStatement q)
    exact ⟨⟨fun quiet => absurd ⟨distance, kept⟩ quiet, fun short => absurd short long⟩,
      fun short => absurd short long⟩
  | whole short took =>
    have terminates : Ends (us ++ rest) := Or.inl ended.isTerminator
    have closed := endStatement_took ended (took.validAhead.trans terminates.sound)
    have whole : p.Took (ts ++ us) s.code rest q.endStatement := by
      simpa using took.trans closed
    have same := whole.eq_of_ahead (whole.validAhead.trans sound)
    refine ⟨⟨fun _ => short, fun _ => ?_⟩, fun _ => ?_⟩
    · rintro ⟨distance, panics, _⟩
      rw [same, calm] at panics
      cases panics
    · have extended := whole.appends fits.numbered
      exact ⟨q.endStatement.chunk, congrArg (·, none) same, extended,
        fun later continues => (extended.hasAt.continues continues).conditionals⟩

/-- In front of a line, with an instruction written. -/
def facing (ts : List Token) : Pass where
  previous := ⟨.newline, "\n", 1⟩
  ahead := ts ++ ([⟨.newline, "\n", 2⟩] ++ [])
  lastLine := 2
  diagnostics := []
  panicking := false
  chunk := { code := #[⟨Opcode.halt.byte, 1⟩] }
  loopCount := 0

/-- `{a} {b} x | y | !` -/
def nested : List Token :=
  [⟨.leftCurly, "\x7b", 2⟩, ⟨.name, "a", 2⟩, ⟨.rightCurly, "\x7d", 2⟩, ⟨.leftCurly, "\x7b", 2⟩,
    ⟨.name, "b", 2⟩, ⟨.rightCurly, "\x7d", 2⟩, ⟨.name, "x", 2⟩, ⟨.pipe, "|", 2⟩, ⟨.name, "y", 2⟩,
    ⟨.pipe, "|", 2⟩, ⟨.bang, "!", 2⟩]

/-- So many bangs in front of a name. -/
def denials : Nat → List Token
  | 0 => [⟨.name, "x", 2⟩]
  | n + 1 => ⟨.bang, "!", 2⟩ :: denials n

def denied : Nat → Expression
  | 0 => .text "x"
  | n + 1 => .unary .not (denied n)

theorem denied_spelled (n : Nat) : (denied n).Spelled .unary (denials n) := by
  induction n with
  | zero => exact .name rfl
  | succ n ih => exact .unary rfl ih

/-- `{a} !…!x` -/
def guarded (n : Nat) : List Token :=
  ⟨.leftCurly, "\x7b", 2⟩ :: ([⟨.name, "a", 2⟩] ++ ⟨.rightCurly, "\x7d", 2⟩ :: denials n)

theorem guarded_spelled (n : Nat) (rest : List Token) (lone : kindAhead rest ≠ .pipe) :
    (Simple.when (.text "a") (.perform (denied n))).Spelled (guarded n) rest :=
  .when rfl (.of_stronger (Nat.zero_le _) (.name rfl)) rfl
    (.perform (.of_stronger (Nat.zero_le _) (denied_spelled n))) lone

/-- Of two bars the first belongs to the inner conditional. A branch of 253 bytes is the longest
that a jump leads over. -/
theorem conditionals_are_laid_out_exactly_at_the_limit :
    (attach 0 [] nested = some [1, 0] ∧
      ∃ chunk, (facing nested).statement = ({ facing nested with
          previous := ⟨.newline, "\n", 2⟩, ahead := [], chunk }, none) ∧
        chunk.Branches 1 ⟨.text "a", .choose (.text "b") (.perform (.text "x"))
          (.perform (.text "y")), some .stop⟩ ∧
        chunk.Branches 5 ⟨.text "b", .perform (.text "x"), some (.perform (.text "y"))⟩) ∧
    (¬ ∃ distance, (facing (guarded 250)).Reported (.chunk (.jumpTooLarge distance))
      (facing (guarded 250)).statement.1) ∧
    (∃ distance, (facing (guarded 251)).Reported (.chunk (.jumpTooLarge distance))
      (facing (guarded 251)).statement.1) := by
  have word {t : Token} (kind : t.kind = .name) :
      (Expression.text t.lexeme).Spelled .reference [t] :=
    .of_stronger (Nat.zero_le _) (.name kind)
  have ended : Terminator [⟨.newline, "\n", 2⟩] [] := .token (Or.inl rfl)
  have limit (n : Nat)
      (fits : Chunk.Fits #[] (Simple.when (.text "a") (.perform (denied n))).code) :=
    conditionals_are_laid_out_exactly (p := facing (guarded n)) rfl rfl
      (guarded_spelled n _ (by decide)) ended rfl fits
  refine ⟨?_, ?_, ?_⟩
  · have spelled : (Simple.choose (.text "a") (.choose (.text "b") (.perform (.text "x"))
        (.perform (.text "y"))) .stop).Spelled nested ([⟨.newline, "\n", 2⟩] ++ []) :=
      @Simple.Spelled.choose _ _ _ [_] [_, _, _, _, _, _] [_] _ _ _ _ rfl (word rfl) rfl
        (@Simple.Spelled.choose _ _ _ [_] [_] [_] _ _ _ _ rfl (word rfl) rfl
          (.perform (word rfl)) rfl (.perform (word rfl))) rfl (.stop rfl (Or.inl rfl))
    obtain ⟨bars, _, whole⟩ := conditionals_are_laid_out_exactly (p := facing nested) rfl
      rfl spelled ended rfl (by unfold Chunk.Fits; decide +kernel)
    obtain ⟨chunk, read, _, branches⟩ := whole (by
      simp [Simple.conditionals, Conditional.TooLong, Conditional.otherCode, Simple.code,
        Expression.code, plainLines, conditionalLines, Instruction.width])
    have here := branches chunk (.refl chunk)
    refine ⟨bars, chunk, read, here (1, _) ?_, here (5, _) ?_⟩
    · exact List.mem_cons_self
    · exact List.mem_cons_of_mem _ List.mem_cons_self
  · have short : codeSize (Simple.perform (denied 250)).code = 253 := by decide +kernel
    obtain ⟨_, reports, _⟩ := limit 250 (by unfold Chunk.Fits; decide +kernel)
    rw [reports]
    simp [Simple.conditionals, Conditional.TooLong, Conditional.otherCode, short]
  · have long : codeSize (Simple.perform (denied 251)).code = 254 := by decide +kernel
    obtain ⟨_, reports, _⟩ := limit 251 (by unfold Chunk.Fits; decide +kernel)
    rw [reports]
    simp [Simple.conditionals, Conditional.TooLong, long]

end Pass

end Cellscript
