import Cellscript.Proofs.Compile.Taking

/-!
An expression that is read without complaint is spelled by the tokens read, and what is written is
its code. Climbing keeps an expression that can still become the left operand of what comes next.
-/

set_option autoImplicit false

namespace Cellscript

/-! ## Levels and operators -/

theorem Level.rank_le_unary (level : Level) : level.rank ≤ Level.unary.rank := by
  cases level <;> decide

theorem Level.rank_stronger (level : Level) (weak : level.rank < Level.unary.rank) :
    level.stronger.rank = level.rank + 1 := by
  cases level <;> first | rfl | exact absurd weak (by decide)

theorem Level.eq_of_rank {a b : Level} (same : a.rank = b.rank) : a = b := by
  cases a <;> cases b <;> first | rfl | cases same

theorem BinaryOperator.rank_lt_unary (op : BinaryOperator) : op.level.rank < Level.unary.rank := by
  cases op <;> decide

theorem BinaryOperator.code_single (op : BinaryOperator) :
    ∀ o ∈ op.code, o.operandWidth = 0 := by
  cases op <;> decide

theorem UnaryOperator.code_single (op : UnaryOperator) : op.code.operandWidth = 0 := by
  cases op <;> rfl

theorem Token.Kind.operator?_eq (kind : Token.Kind) :
    kind.operator? = kind.binary?.map fun op => ⟨op.level, op.code⟩ := by
  cases kind <;> rfl

theorem Token.Kind.operatorFrom?_eq_some {kind : Token.Kind} {level : Level} {operator : Operator}
    (found : kind.operatorFrom? level = some operator) :
    ∃ op, kind.binary? = some op ∧ operator = ⟨op.level, op.code⟩ ∧
      level.rank ≤ op.level.rank := by
  obtain ⟨found, strong⟩ := Option.filter_eq_some_iff.mp found
  rw [operator?_eq] at found
  obtain ⟨op, binary, rfl⟩ := Option.map_eq_some_iff.mp found
  exact ⟨op, binary, rfl, of_decide_eq_true strong⟩

theorem Token.Kind.operatorFrom?_eq_none {kind : Token.Kind} {level : Level}
    (missing : kind.operatorFrom? level = none) {op : BinaryOperator}
    (binary : kind.binary? = some op) : op.level.rank < level.rank := by
  rw [operatorFrom?, operator?_eq, binary] at missing
  simpa using missing

/-- Only two kinds of tokens are operators of the weakest level. -/
theorem Token.Kind.reference_of_binary? {kind : Token.Kind} {op : BinaryOperator}
    (binary : kind.binary? = some op) (weakest : op.level = .reference) :
    kind = .equalGreater ∨ kind = .lessEqualGreater := by
  cases kind <;> cases binary <;> cases weakest <;> decide

namespace Expression.Spelled

theorem of_stronger {weak strong : Level} {ts : List Token} {e : Expression}
    (below : weak.rank ≤ strong.rank) (spelled : Spelled strong ts e) : Spelled weak ts e := by
  induction gap : strong.rank - weak.rank generalizing weak with
  | zero =>
    have same : weak = strong := Level.eq_of_rank (by omega)
    rwa [same]
  | succ gap ih =>
    have strongest := strong.rank_le_unary
    have next := weak.rank_stronger (by omega)
    exact .weaken (ih (by omega) (by omega))

theorem length_pos {level : Level} {ts : List Token} {e : Expression}
    (spelled : Spelled level ts e) : 0 < ts.length := by
  induction spelled with
  | weaken strong ih => exact ih
  | binary kind chains first second before =>
    rw [List.length_append]
    exact Nat.add_pos_left before _
  | reference kind weakest first second before =>
    rw [List.length_append]
    exact Nat.add_pos_left before _
  | _ => exact Nat.succ_pos _

end Expression.Spelled

/-! ## What comes next -/

/-- An expression of this strength can stand in front of the tokens: the operator that comes next,
if there is one, takes it as its left operand. -/
def Precedes (strength : Level) (rest : List Token) : Prop :=
  ∀ op, (kindAhead rest).binary? = some op → op.level.rank ≤ strength.rank ∧ strength ≠ .reference

theorem Precedes.of_unary (rest : List Token) : Precedes .unary rest :=
  fun op _ => ⟨Nat.le_of_lt op.rank_lt_unary, nofun⟩

/-- An expression of this level ends in front of the tokens: no operator of the level comes next,
and no equals sign where it could belong to an assignment. -/
structure Stops (level : Level) (rest : List Token) : Prop where
  operator : ∀ op, (kindAhead rest).binary? = some op → op.level.rank < level.rank
  equal : level = .reference → kindAhead rest ≠ .equal

namespace Pass

/-! ## Operands and operators -/

/-- What reads expressions when so many tokens are left. -/
def Reads (bound : Nat) (inner : Level → Pass → Pass) : Prop :=
  ∀ {level : Level} {p : Pass}, (inner level p).panicking = false → p.left ≤ bound →
    ∃ ts rest e, Expression.Spelled level ts e ∧ p.Took ts e.code rest (inner level p) ∧
      Stops level rest

/-- An expression of the level has been read. If an operator follows, the expression can be its left
operand. -/
def Pending (level : Level) (p q : Pass) : Prop :=
  ∃ strength ts rest e, level.rank ≤ strength.rank ∧ Expression.Spelled strength ts e ∧
    p.Took ts e.code rest q ∧ Precedes strength rest

/-- An operand can stand left of every operator. -/
theorem Pending.of_unary {level : Level} {p q : Pass} {ts rest : List Token} {e : Expression}
    (spelled : Expression.Spelled .unary ts e) (took : p.Took ts e.code rest q) :
    Pending level p q :=
  ⟨.unary, ts, rest, e, level.rank_le_unary, spelled, took, .of_unary rest⟩

section Inner

variable {bound : Nat} {inner : Level → Pass → Pass} {level : Level} {p q : Pass} {t : Token}
  {rest : List Token}

/-- An operator in front of an operand. -/
theorem unary_pending (heeds : ∀ (level : Level) (p : Pass), p.Heeds (inner level p))
    (reads : Reads bound inner) (op : UnaryOperator) (read : p.Took [t] [] rest q)
    (kind : t.kind.unary? = some op) (small : q.left ≤ bound)
    (calm : ((inner .unary q).emit op.code).panicking = false) :
    Pending level p ((inner .unary q).emit op.code) := by
  obtain ⟨ts, later, e, spelled, took, _⟩ := reads calm small
  have whole := (read.andThen ((heeds _ _).calm calm) took).emit op.code op.code_single
  exact .of_unary (.unary kind spelled) whole

/-- A quote starts an assignment if a target and an equals sign follow where one may stand. -/
theorem assign_pending (heeds : ∀ (level : Level) (p : Pass), p.Heeds (inner level p))
    (reads : Reads bound inner) (read : p.Took [t] [] rest q) (kind : t.kind = .quote)
    (small : q.left ≤ bound) (assigned : (inner .unary q).sees .equal = true)
    (calm : ((inner .reference (inner .unary q).advance).emit .setPointer).panicking = false) :
    Pending .reference p ((inner .reference (inner .unary q).advance).emit .setPointer) := by
  have equalCalm := (heeds .reference (inner .unary q).advance).calm calm
  have targetCalm := (heeding.advance _).calm equalCalm
  obtain ⟨ts, _, target, first, tookTarget, _⟩ := reads targetCalm small
  obtain ⟨equal, later, ahead, equalKind⟩ := ahead_of_sees assigned nofun
  have passed := Took.advance ahead
  have shorter : (inner .unary q).advance.left ≤ bound := by
    have before := tookTarget.left_le
    have after := passed.left_le
    omega
  obtain ⟨us, last, value, second, tookValue, stops⟩ := reads calm shorter
  refine ⟨.reference, _, last, _, Nat.le_refl _, .assign kind first equalKind second, ?_, ?_⟩
  · have whole := ((read.andThen ((heeds _ _).calm targetCalm) tookTarget).andThen targetCalm
      (passed.andThen equalCalm tookValue)).emit .setPointer rfl
    simpa [Expression.code, BinaryOperator.code] using whole
  · intro op binary
    exact absurd (stops.operator op binary) (Nat.not_lt_zero _)

theorem operand_pending (heeds : ∀ (level : Level) (p : Pass), p.Heeds (inner level p))
    (reads : Reads bound inner) (read : p.Took [t] [] rest q)
    (starts : t.kind.startsOperand = true) (small : q.left ≤ bound)
    (calm : (operand inner level q).panicking = false) :
    Pending level p (operand inner level q) := by
  have previous : q.previous = t := read.previous
  unfold operand at calm ⊢
  subst previous
  split at calm
  · rename_i kind
    have innerCalm := (heeding.expect _ _ _).calm calm
    obtain ⟨ts, _, e, spelled, took, _⟩ := reads innerCalm small
    obtain ⟨right, later, closed, passed⟩ := expect_took calm nofun
    have whole := (read.andThen ((heeds _ _).calm innerCalm) took).andThen innerCalm passed
    exact .of_unary (.group kind spelled closed) (by simpa using whole)
  · rename_i kind
    exact unary_pending heeds reads .negate read (by rw [kind]; rfl) small calm
  · rename_i kind
    exact unary_pending heeds reads .not read (by rw [kind]; rfl) small calm
  · rename_i kind
    dsimp only at calm ⊢
    by_cases asked : (decide (level = .reference) && (inner .unary q).sees .equal) = true
    · rw [if_pos asked] at calm ⊢
      obtain ⟨weakest, assigned⟩ := Bool.and_eq_true_iff.mp asked
      rw [of_decide_eq_true weakest]
      exact assign_pending heeds reads read kind small assigned calm
    · rw [if_neg asked] at calm ⊢
      exact unary_pending heeds reads .read read (by rw [kind]; rfl) small calm
  · rename_i kind
    obtain ⟨index, chunk, added⟩ := added_of_calm calm
    exact .of_unary (.name kind) (read.emitConstant added)
  · rename_i kind
    unfold emitNumber at calm ⊢
    split at calm
    · rename_i x number
      obtain ⟨index, chunk, added⟩ := added_of_calm calm
      exact .of_unary (.number kind number) (read.emitConstant added)
    · rw [complainBefore, complain_panics] at calm
      cases calm
  · rename_i kind
    obtain ⟨index, chunk, added⟩ := added_of_calm calm
    exact .of_unary (.string kind (stringText_quotes _)) (read.emitConstant added)
  · rename_i kind
    exact .of_unary (.truth (b := true) kind) (read.emit _ rfl)
  · rename_i kind
    exact .of_unary (.truth (b := false) kind) (read.emit _ rfl)
  · rename_i kind
    revert starts
    cases shape : q.previous.kind <;> simp_all [Token.Kind.startsOperand]

/-- What follows the operator is its right operand, up to an operator that binds no stronger. -/
theorem applyOperator_pending (heeds : ∀ (level : Level) (p : Pass), p.Heeds (inner level p))
    (reads : Reads bound inner) {op : BinaryOperator} (pending : Pending level p q)
    (found : q.current.kind.binary? = some op) (strong : level.rank ≤ op.level.rank)
    (small : q.left ≤ bound + 1)
    (calm : (applyOperator inner ⟨op.level, op.code⟩ q.advance).panicking = false) :
    Pending level p (applyOperator inner ⟨op.level, op.code⟩ q.advance) ∧
      (applyOperator inner ⟨op.level, op.code⟩ q.advance).left < q.left := by
  unfold applyOperator at calm ⊢
  dsimp only at calm ⊢
  generalize written : (inner op.level.stronger q.advance).emitAll op.code = r at calm ⊢
  by_cases chained : (decide (op.level = .reference) &&
      (r.sees .equalGreater || r.sees .lessEqualGreater)) = true
  · rw [if_pos chained, complainHere, complain_panics] at calm
    cases calm
  rw [if_neg chained] at calm ⊢
  subst written
  have rightCalm := (heeding.emitAll _ op.code).calm calm
  have operatorCalm := (heeds _ _).calm rightCalm
  have leftCalm := (heeding.advance q).calm operatorCalm
  obtain ⟨strength, ts, rest, left, _, spelled, took, linkable⟩ := pending
  rw [current_kind, took.ahead_of_calm leftCalm] at found
  obtain ⟨below, notReference⟩ := linkable op found
  cases rest with
  | nil => cases found
  | cons t rest =>
  have passed := Took.advance (took.ahead_of_calm leftCalm)
  have first := passed.left_le
  rw [List.length_singleton] at first
  obtain ⟨us, later, right, second, tookRight, stops⟩ := reads rightCalm (by omega)
  have emitted := tookRight.emitAll op.code_single
  have last := emitted.left_le
  have rank := op.level.rank_stronger op.rank_lt_unary
  refine ⟨⟨op.level, ts ++ t :: us, later, .binary op left right, strong, ?_, ?_, ?_⟩, by omega⟩
  · by_cases weakest : op.level = .reference
    · have positive : Level.equality.rank ≤ strength.rank :=
        Nat.pos_of_ne_zero fun zero => notReference (Level.eq_of_rank zero)
      rw [weakest] at second ⊢
      exact .reference found weakest (.of_stronger positive spelled) second
    · exact .binary found weakest (.of_stronger below spelled) second
  · simpa [Expression.code] using (took.andThen leftCalm passed).andThen operatorCalm emitted
  · intro next binary
    have weaker := stops.operator next binary
    refine ⟨by omega, fun weakest => chained ?_⟩
    have reference : next.level = .reference := by
      rw [weakest] at weaker rank
      exact Level.eq_of_rank (Nat.lt_one_iff.mp weaker)
    refine Bool.and_eq_true_iff.mpr ⟨decide_eq_true weakest, ?_⟩
    rw [← emitted.ahead_of_calm calm, ← current_kind] at binary
    rcases Token.Kind.reference_of_binary? binary reference with arrow | swap
    · simp [sees, arrow]
    · simp [sees, swap]

end Inner

/-! ## Climbing -/

theorem Pending.spelled {level : Level} {p q : Pass} (pending : Pending level p q) :
    ∃ ts rest e, Expression.Spelled level ts e ∧ p.Took ts e.code rest q := by
  obtain ⟨strength, ts, rest, e, above, spelled, took, _⟩ := pending
  exact ⟨ts, rest, e, .of_stronger above spelled, took⟩

theorem Pending.left_lt {level : Level} {p q : Pass} (pending : Pending level p q) :
    q.left < p.left := by
  obtain ⟨ts, rest, e, spelled, took⟩ := pending.spelled
  have positive := spelled.length_pos
  have length := took.left_le
  omega

theorem climbOn_reads {bound : Nat} (reads : ∀ smaller < bound, Reads smaller (climb smaller))
    {level : Level} {p q : Pass} (pending : Pending level p q)
    (calm : (climbOn bound level q).panicking = false) (small : q.left ≤ bound) :
    ∃ ts rest e, Expression.Spelled level ts e ∧ p.Took ts e.code rest (climbOn bound level q) ∧
      ∀ op, (kindAhead rest).binary? = some op → op.level.rank < level.rank := by
  induction bound generalizing q with
  | zero =>
    obtain ⟨ts, rest, e, spelled, took⟩ := pending.spelled
    unfold climbOn at calm ⊢
    refine ⟨ts, rest, e, spelled, took, fun op binary => ?_⟩
    have empty : q.ahead = [] := List.length_eq_zero_iff.mp (Nat.le_zero.mp small)
    rw [← took.ahead_of_calm calm, empty] at binary
    cases binary
  | succ bound ih =>
    unfold climbOn at calm ⊢
    cases found : q.current.kind.operatorFrom? level with
    | none =>
      rw [found] at calm
      obtain ⟨ts, rest, e, spelled, took⟩ := pending.spelled
      refine ⟨ts, rest, e, spelled, took, fun op binary => ?_⟩
      rw [← took.ahead_of_calm calm, ← current_kind] at binary
      exact Token.Kind.operatorFrom?_eq_none found binary
    | some operator =>
      rw [found] at calm
      dsimp only at calm ⊢
      obtain ⟨op, binary, rfl, strong⟩ := Token.Kind.operatorFrom?_eq_some found
      have heeds := (heeding.climb bound).1
      have appliedCalm := ((heeding.climb bound).2 level _).calm calm
      obtain ⟨applied, shorter⟩ := applyOperator_pending heeds (reads bound (Nat.lt_succ_self _))
        pending binary strong small appliedCalm
      exact ih (fun smaller below => reads smaller (by omega)) applied calm (by omega)

theorem climb_reads (bound : Nat) : Reads bound (climb bound) := by
  induction bound using Nat.strongRecOn with
  | ind bound ih =>
    intro level p calm small
    cases bound with
    | zero =>
      rw [climb, complainBefore, complain_panics] at calm
      cases calm
    | succ bound =>
      unfold climb at calm ⊢
      dsimp only at calm ⊢
      by_cases starts : p.advance.previous.kind.startsOperand = true
      · rw [if_pos starts] at calm ⊢
        have heeds := (heeding.climb bound).1
        have climbedCalm := (heeding.refuseAssignment level _).calm calm
        have operandCalm := ((heeding.climb bound).2 level _).calm climbedCalm
        cases tokens : p.ahead with
        | nil =>
          have finish : p.advance.previous = .finish p.lastLine := by
            simp [advance, current, tokens, resume]
          rw [finish] at starts
          cases starts
        | cons t rest =>
          have passed := Took.advance tokens
          have previous : p.advance.previous = t := passed.previous
          have length := passed.left_le
          rw [List.length_singleton] at length
          have pending := operand_pending heeds (ih bound (Nat.lt_succ_self _)) passed
            (previous ▸ starts) (by omega) operandCalm
          have shorter := pending.left_lt
          obtain ⟨ts, later, e, spelled, took, stops⟩ := climbOn_reads
            (fun smaller below => ih smaller (by omega)) pending climbedCalm (by omega)
          -- nothing complained, so no assignment was refused
          unfold refuseAssignment at calm ⊢
          split at calm
          · rw [complainBefore, complain_panics] at calm
            cases calm
          · rename_i allowed
            rw [if_neg allowed]
            refine ⟨ts, later, e, spelled, took, stops, fun weakest equal => allowed ?_⟩
            subst weakest
            rw [← took.ahead_of_calm climbedCalm, ← current_kind] at equal
            simp [sees, equal]
      · rw [if_neg starts, complainBefore, complain_panics] at calm
        cases calm

/-! ## Whole expressions -/

section Whole

variable {p : Pass}

theorem expression_took (calm : p.expression.panicking = false) :
    ∃ ts rest e, Expression.Spelled .reference ts e ∧ p.Took ts e.code rest p.expression ∧
      Stops .reference rest :=
  climb_reads p.left calm (Nat.le_refl _)

theorem expression_wrote (honest : p.Honest) (quiet : p.expression.diagnostics = []) :
    ∃ ts e, Expression.Spelled .reference ts e ∧ p.Wrote ts 0 e.code p.expression := by
  have calm := ((heeding.expression p).honest honest).calm quiet
  obtain ⟨ts, rest, e, spelled, took, _⟩ := expression_took calm
  exact ⟨ts, e, spelled, took.wrote e.code_unmarked (took.ahead_of_calm calm)⟩

theorem address_wrote (honest : p.Honest) (quiet : p.address.diagnostics = []) :
    ∃ ts e, Expression.Spelled .unary ts e ∧ p.Wrote ts 0 e.code p.address := by
  have calm := ((heeding.address p).honest honest).calm quiet
  obtain ⟨ts, rest, e, spelled, took, _⟩ := climb_reads p.left calm (Nat.le_refl _)
  exact ⟨ts, e, spelled, took.wrote e.code_unmarked (took.ahead_of_calm calm)⟩

/-- An expression whose code is written apart. -/
theorem apart_expression (honest : p.Honest) (quiet : (p.apart expression).1.diagnostics = []) :
    ∃ ts e, Expression.Spelled .reference ts e ∧ p.Wrote ts 0 [] (p.apart expression).1 ∧
      (p.apart expression).2.Assembles e.code := by
  obtain ⟨ts, e, spelled, wrote⟩ := expression_wrote (p := { p with chunk := {} }) honest quiet
  exact ⟨ts, e, spelled, apart_wrote wrote⟩

end Whole

end Pass

end Cellscript
