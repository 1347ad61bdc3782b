import Cellscript.Proofs.Acceptance.Ready
import Cellscript.Proofs.Compile.Walks

/-!
Every spelled expression is read, whatever a pass has been through. The induction follows the
derivation; it says where climbing stands after the tokens of the expression, since the operators
that come next belong to a larger expression. Main statement: climbing follows the grammar.
-/

set_option autoImplicit false

namespace Cellscript

theorem validAhead_eq {tokens : List Token} (valid : ∀ flaw, kindAhead tokens ≠ .invalid flaw) :
    validAhead tokens = tokens := by
  cases tokens with
  | nil => rfl
  | cons t rest => exact validAhead_stops valid rest

theorem Token.Valid.validAhead_cons {t : Token} (valid : t.Valid) (rest : List Token) :
    validAhead (t :: rest) = t :: rest :=
  validAhead_eq valid

/-- An expression that comes next is not passed over. -/
theorem Expression.Spelled.validAhead_append {level : Level} {ts : List Token} {e : Expression}
    (spelled : Spelled level ts e) (rest : List Token) : validAhead (ts ++ rest) = ts ++ rest := by
  refine validAhead_eq fun flaw invalid => ?_
  have starts := spelled.starts rest
  rw [invalid] at starts
  cases starts

theorem kindAhead_operator {t : Token} {op : BinaryOperator} {rest : List Token}
    (kind : t.kind.binary? = some op) : kindAhead (t :: rest) ≠ .equal := by
  rw [kindAhead_cons]
  intro equal
  rw [equal] at kind
  cases kind

/-- Neither an operator nor an equals sign comes next, so every expression ends here. -/
structure Delimits (rest : List Token) : Prop where
  operator : (kindAhead rest).binary? = none
  equal : kindAhead rest ≠ .equal

namespace Precedes

/-- The left operand of an operator. -/
theorem operator {strength : Level} {t : Token} {op : BinaryOperator} {rest : List Token}
    (kind : t.kind.binary? = some op) (chains : strength ≠ .reference)
    (below : op.level.rank ≤ strength.rank) : Precedes strength (t :: rest) := by
  intro next binary
  rw [kindAhead_cons, kind] at binary
  cases binary
  exact ⟨below, chains⟩

theorem stronger {level : Level} {rest : List Token} (precedes : Precedes level rest) :
    Precedes level.stronger rest := by
  intro op binary
  obtain ⟨below, _⟩ := precedes op binary
  refine ⟨?_, by cases level <;> nofun⟩
  cases level <;> first | exact below | exact Nat.le_succ_of_le below

end Precedes

theorem Stops.of_unary (rest : List Token) : Stops .unary rest :=
  ⟨fun op _ => op.rank_lt_unary, nofun⟩

namespace Delimits

variable {rest : List Token}

theorem of_kind {kind : Token.Kind} {t : Token} (same : t.kind = kind)
    (operator : kind.binary? = none) (equal : kind ≠ .equal) : Delimits (t :: rest) := by
  subst same
  exact ⟨operator, equal⟩

theorem precedes (delimits : Delimits rest) (strength : Level) : Precedes strength rest := by
  intro op binary
  rw [delimits.operator] at binary
  cases binary

theorem of_stops (stops : Stops .reference rest) : Delimits rest where
  operator := by
    rw [Option.eq_none_iff_forall_not_mem]
    exact fun op binary => absurd (stops.operator op binary) (Nat.not_lt_zero _)
  equal := stops.equal rfl

theorem stops (delimits : Delimits rest) (level : Level) : Stops level rest := by
  refine ⟨fun op binary => ?_, fun _ => delimits.equal⟩
  rw [delimits.operator] at binary
  cases binary

end Delimits

namespace Pass

/-- Climbing goes through a walk and looks for operators next. -/
def Climbs (bound : Nat) (level : Level) (walk : Pass → Pass) (p : Pass) : Prop :=
  ∃ smaller, climb bound level p = refuseAssignment level (climbOn smaller level (walk p)) ∧
    (walk p).left ≤ smaller

section Climbing

variable {bound : Nat} {level : Level} {p : Pass} {ts us rest : List Token} {t : Token}
  {lines more : List Line} {f g : Pass → Pass}

/-- Climbing starts with an operand. -/
theorem Climbs.of_operand (walk : Walk f (t :: us) lines) (ahead : p.ahead = t :: us ++ rest)
    (small : p.left ≤ bound) (starts : t.kind.startsOperand = true)
    (same : ∀ {smaller : Nat}, p.advance.left ≤ smaller → p.advance.previous = t →
      operand (climb smaller) level p.advance = f p) : Climbs bound level f p := by
  have passed := Took.advance ahead
  have previous : p.advance.previous = t := passed.previous
  have shorter := passed.left_le
  rw [List.length_singleton] at shorter
  obtain ⟨smaller, rfl⟩ := Nat.exists_eq_succ_of_ne_zero (by omega : bound ≠ 0)
  refine ⟨smaller, ?_, ?_⟩
  · rw [climb, previous, if_pos starts, same (by omega) previous]
  · have less := walk.left_le ahead
    rw [List.length_cons] at less
    omega

/-- Climbing is done where the level stops. -/
theorem Climbs.done (climbs : Climbs bound level f p) (walk : Walk f ts lines)
    (ahead : p.ahead = ts ++ rest) (stops : Stops level (validAhead rest)) :
    climb bound level p = f p := by
  obtain ⟨smaller, reached, _⟩ := climbs
  have next := walk.ahead ahead
  have missing : (f p).current.kind.operatorFrom? level = none := by
    rw [current_kind, next, Option.eq_none_iff_forall_not_mem]
    intro operator found
    obtain ⟨op, binary, _, strong⟩ := Token.Kind.operatorFrom?_eq_some found
    exact absurd (stops.operator op binary) (Nat.not_lt.mpr strong)
  have ended : climbOn smaller level (f p) = f p := by
    cases smaller with
    | zero => rw [climbOn]
    | succ smaller => rw [climbOn, missing]
  have unassigned : ¬ (decide (level = .reference) && (f p).sees .equal) = true := by
    rw [Bool.and_eq_true, decide_eq_true_iff, sees_iff, next]
    exact fun both => stops.equal both.1 both.2
  rw [reached, ended, refuseAssignment, if_neg unassigned]

/-- Climbing goes on with an operator and its right operand. -/
theorem Climbs.operator {op : BinaryOperator} (climbs : Climbs bound level f p)
    (first : Walk f ts lines) (second : Walk g us more) (ahead : p.ahead = ts ++ t :: us ++ rest)
    (kind : t.kind.binary? = some op) (strong : level.rank ≤ op.level.rank)
    (starts : validAhead (us ++ rest) = us ++ rest)
    (unchained : op.level = .reference → (kindAhead (validAhead rest)).binary? = none)
    (reads : ∀ {q : Pass} {smaller : Nat}, q.ahead = us ++ rest → q.left ≤ smaller →
      climb smaller op.level.stronger q = g q) :
    Climbs bound level (fun p => (g (f p).advance).emitAll op.code) p := by
  obtain ⟨smaller, reached, small⟩ := climbs
  rw [List.append_assoc] at ahead
  have tokens : (f p).ahead = t :: (us ++ rest) := by
    rw [first.ahead ahead]
    exact (Token.Valid.of_binary kind).validAhead_cons (us ++ rest)
  have passed := Took.advance tokens
  have within : (f p).advance.ahead = us ++ rest := passed.validAhead.trans starts
  have shorter := passed.left_le
  rw [List.length_singleton] at shorter
  obtain ⟨least, rfl⟩ := Nat.exists_eq_succ_of_ne_zero (by omega : smaller ≠ 0)
  have found : (f p).current.kind.operatorFrom? level = some ⟨op.level, op.code⟩ := by
    rw [current_kind, tokens, Token.Kind.operatorFrom?, Token.Kind.operator?_eq,
      kindAhead_cons, kind]
    simpa using strong
  have applied := second.writeAll op.code_single
  have lone : ¬ (decide (op.level = .reference) &&
      (((g (f p).advance).emitAll op.code).sees .equalGreater ||
        ((g (f p).advance).emitAll op.code).sees .lessEqualGreater)) = true := by
    rw [Bool.and_eq_true, decide_eq_true_iff, Bool.or_eq_true, sees_iff, sees_iff,
      applied.ahead within]
    rintro ⟨weakest, arrow | swap⟩
    · simpa [arrow, Token.Kind.binary?] using unchained weakest
    · simpa [swap, Token.Kind.binary?] using unchained weakest
  have operand : climb least op.level.stronger (f p).advance = g (f p).advance :=
    reads within (by omega)
  refine ⟨least, ?_, ?_⟩
  · rw [reached, climbOn, found]
    simp only [applyOperator, operand, if_neg lone]
  · have less := applied.left_le within
    dsimp only at less ⊢
    omega

/-- An operator between its operands. -/
theorem Walk.operator {op : BinaryOperator} {left right : Expression} (first : Walk f ts left.code)
    (second : Walk g us right.code) (kind : t.kind.binary? = some op) :
    Walk (fun p => (g (f p).advance).emitAll op.code) (ts ++ t :: us)
      (Expression.binary op left right).code := by
  have whole := ((first.read (.of_binary kind)).trans second).writeAll op.code_single
  rwa [List.append_assoc] at whole

end Climbing

/-- Reading a spelled expression at a level that it may have. The walk depends on
the tokens only. -/
structure Climbed (strength : Level) (ts : List Token) (e : Expression) (f : Pass → Pass) :
    Prop where
  walk : Walk f ts e.code
  climbs : ∀ {bound : Nat} {level : Level} {p : Pass} {rest : List Token}, p.ahead = ts ++ rest →
    p.left ≤ bound → level.rank ≤ strength.rank → Precedes strength (validAhead rest) →
    (level = .reference → kindAhead (validAhead rest) ≠ .equal) → Climbs bound level f p

namespace Climbed

variable {strength : Level} {ts us : List Token} {t : Token} {e left right : Expression}
  {f g : Pass → Pass}

/-- An operand is read to its end, whatever follows. -/
theorem address {bound : Nat} {p : Pass} {rest : List Token} (climbed : Climbed .unary ts e f)
    (ahead : p.ahead = ts ++ rest) (small : p.left ≤ bound) : climb bound .unary p = f p :=
  (climbed.climbs ahead small (Nat.le_refl _) (.of_unary _) fun weakest => by cases weakest).done
    climbed.walk ahead (.of_unary _)

/-- An expression is read to its end, if what follows does not go on with it. -/
theorem whole {bound : Nat} {p : Pass} {rest : List Token} (climbed : Climbed .reference ts e f)
    (ahead : p.ahead = ts ++ rest) (small : p.left ≤ bound)
    (delimits : Delimits (validAhead rest)) : climb bound .reference p = f p :=
  (climbed.climbs ahead small (Nat.le_refl _) (delimits.precedes _) fun _ => delimits.equal).done
    climbed.walk ahead (delimits.stops _)

/-- An operand of one token. -/
theorem token (starts : t.kind.startsOperand = true)
    (walk : Walk (fun p => f p.advance) [t] e.code)
    (same : ∀ {inner : Level → Pass → Pass} {level : Level} {p : Pass}, p.previous = t →
      operand inner level p = f p) : Climbed .unary [t] e fun p => f p.advance where
  walk := walk
  climbs ahead small _ _ _ := .of_operand walk ahead small starts fun _ previous => same previous

theorem number {x : Float} (kind : t.kind = .number) (read : readNumber? t.lexeme = some x) :
    Climbed .unary [t] (.number x) fun p => p.advance.emitConstant (.number x) := by
  have valid : t.Valid := .of_kind kind fun _ invalid => by cases invalid
  refine token (f := (emitConstant · (.number x))) (by rw [kind]; rfl) ((Walk.start valid).load _)
    fun previous => ?_
  simp only [operand, previous, kind, emitNumber, read]

theorem string {text : String} (kind : t.kind = .string) (quotes : Quotes t.lexeme text) :
    Climbed .unary [t] (.text text) fun p => p.advance.emitConstant (.text text) := by
  have valid : t.Valid := .of_kind kind fun _ invalid => by cases invalid
  refine token (f := (emitConstant · (.text text))) (by rw [kind]; rfl) ((Walk.start valid).load _)
    fun previous => ?_
  simp only [operand, previous, kind, quotes.eq_stringText]

theorem name (kind : t.kind = .name) :
    Climbed .unary [t] (.text t.lexeme) fun p => p.advance.emitConstant (.text t.lexeme) := by
  have valid : t.Valid := .of_kind kind fun _ invalid => by cases invalid
  refine token (f := (emitConstant · (.text t.lexeme))) (by rw [kind]; rfl)
    ((Walk.start valid).load _) fun previous => ?_
  simp only [operand, previous, kind]

theorem truth {b : Bool} (kind : t.kind = if b then .yes else .no) :
    Climbed .unary [t] (.truth b) fun p => p.advance.emit (truthCode b) := by
  have valid : t.Valid := by cases b <;> exact .of_kind kind fun _ invalid => by cases invalid
  have walk := (Walk.start valid).write (truthCode b) (by cases b <;> rfl)
  refine token (f := (emit · (truthCode b))) (by cases b <;> rw [kind] <;> rfl) walk
    fun previous => ?_
  cases b <;> simp only [operand, previous, kind, truthCode, ↓reduceIte, Bool.false_eq_true]

theorem group {opening closing : Token} (opened : opening.kind = .leftParen)
    (inner : e.Spelled .reference ts) (closed : closing.kind = .rightParen)
    (climbed : Climbed .reference ts e f) :
    Climbed .unary (opening :: (ts ++ [closing])) e fun p => (f p.advance).advance := by
  have shut : closing.Valid := .of_kind closed fun _ invalid => by cases invalid
  have walk : Walk (fun p => (f p.advance).advance) (opening :: (ts ++ [closing])) e.code :=
    ((Walk.start (.of_kind opened fun _ invalid => by cases invalid)).trans climbed.walk).read shut
  refine ⟨walk, fun {bound level p rest} ahead small _ _ _ => ?_⟩
  refine .of_operand walk ahead small (by rw [opened]; rfl) fun small previous => ?_
  have ahead : p.ahead = opening :: (ts ++ closing :: rest) := by simpa using ahead
  have tokens : p.advance.ahead = ts ++ closing :: rest :=
    (Took.advance ahead).validAhead.trans (inner.validAhead_append _)
  have next : validAhead (closing :: rest) = closing :: rest := shut.validAhead_cons rest
  have delimits : Delimits (validAhead (closing :: rest)) := by
    rw [next]
    exact .of_kind closed rfl (by decide)
  simp only [operand, previous, opened, climbed.whole tokens small delimits]
  exact expect_of_ahead ((climbed.walk.ahead tokens).trans next) closed

theorem unary {op : UnaryOperator} (kind : t.kind.unary? = some op) (inner : e.Spelled .unary ts)
    (climbed : Climbed .unary ts e f) :
    Climbed .unary (t :: ts) (.unary op e) fun p => (f p.advance).emit op.code := by
  have starts : t.kind.startsOperand = true := by
    simpa [kindAhead_cons] using (Expression.Spelled.unary kind inner).starts []
  have valid : t.Valid := (Expression.Spelled.unary kind inner).valid t List.mem_cons_self
  have walk : Walk (fun p => (f p.advance).emit op.code) (t :: ts) (Expression.unary op e).code :=
    ((Walk.start valid).trans climbed.walk).write op.code op.code_single
  refine ⟨walk, fun {bound level p rest} ahead small _ _ free => ?_⟩
  refine .of_operand walk ahead small starts fun {smaller} small previous => ?_
  have tokens : p.advance.ahead = ts ++ rest :=
    (Took.advance ahead).validAhead.trans (inner.validAhead_append rest)
  have read := climbed.address tokens small
  -- behind a quote an equals sign would make this the target of an assignment
  have unassigned : ¬ (decide (level = .reference) && (f p.advance).sees .equal) = true := by
    rw [Bool.and_eq_true, decide_eq_true_iff, sees_iff, climbed.walk.ahead tokens]
    exact fun both => free both.1 both.2
  cases shape : t.kind <;> rw [shape] at kind <;> cases kind <;>
    simp only [operand, previous, shape, read, if_neg unassigned, UnaryOperator.code]

/-- The left operand is read at the level of the whole, the right one at the next stronger level. -/
theorem binary {op : BinaryOperator} (kind : t.kind.binary? = some op)
    (chains : op.level ≠ .reference) (second : right.Spelled op.level.stronger us)
    (leftward : Climbed op.level ts left f) (rightward : Climbed op.level.stronger us right g) :
    Climbed op.level (ts ++ t :: us) (.binary op left right)
      fun p => (g (f p).advance).emitAll op.code := by
  refine ⟨leftward.walk.operator rightward.walk kind, ?_⟩
  intro bound level p rest ahead small below precedes _
  have rank := op.level.rank_stronger op.rank_lt_unary
  have strong : op.level.stronger ≠ .reference := by
    intro weakest
    rw [weakest] at rank
    cases rank
  have next := (Token.Valid.of_binary kind).validAhead_cons (us ++ rest)
  have front : p.ahead = ts ++ (t :: (us ++ rest)) := by simpa using ahead
  have before : Climbs bound level f p := leftward.climbs front small below
    (by rw [next]; exact .operator kind chains (Nat.le_refl _))
    (by rw [next]; exact fun _ => kindAhead_operator kind)
  refine before.operator leftward.walk rightward.walk ahead kind below
    (second.validAhead_append rest) (fun weakest => absurd weakest chains) fun tokens small => ?_
  refine (rightward.climbs tokens small (Nat.le_refl _) precedes.stronger
    fun weakest => absurd weakest strong).done rightward.walk tokens ⟨fun after binary => ?_,
    fun weakest => absurd weakest strong⟩
  have least := (precedes after binary).1
  omega

/-- Both operands of a reference are stronger than the whole, so none of them is a reference. -/
theorem reference {op : BinaryOperator} (kind : t.kind.binary? = some op)
    (weakest : op.level = .reference) (second : right.Spelled .equality us)
    (leftward : Climbed .equality ts left f) (rightward : Climbed .equality us right g) :
    Climbed .reference (ts ++ t :: us) (.binary op left right)
      fun p => (g (f p).advance).emitAll op.code := by
  refine ⟨leftward.walk.operator rightward.walk kind, ?_⟩
  intro bound level p rest ahead small below precedes _
  have alone : (kindAhead (validAhead rest)).binary? = none := by
    rw [Option.eq_none_iff_forall_not_mem]
    exact fun next binary => (precedes next binary).2 rfl
  have next := (Token.Valid.of_binary kind).validAhead_cons (us ++ rest)
  have front : p.ahead = ts ++ (t :: (us ++ rest)) := by simpa using ahead
  have before : Climbs bound level f p := leftward.climbs front small (Nat.le_succ_of_le below)
    (by rw [next]; exact .operator kind (by decide) (by rw [weakest]; decide))
    (by rw [next]; exact fun _ => kindAhead_operator kind)
  refine before.operator leftward.walk rightward.walk ahead kind (by rw [weakest]; exact below)
    (second.validAhead_append rest) (fun _ => alone) fun tokens small => ?_
  rw [weakest]
  refine (rightward.climbs tokens small (Nat.le_refl _) precedes.stronger
    fun weakest => by cases weakest).done rightward.walk tokens ⟨fun after binary => ?_,
    fun weakest => by cases weakest⟩
  rw [alone] at binary
  cases binary

theorem assign {quote equal : Token} {target value : Expression} (opened : quote.kind = .quote)
    (first : target.Spelled .unary ts) (kind : equal.kind = .equal)
    (second : value.Spelled .reference us) (leftward : Climbed .unary ts target f)
    (rightward : Climbed .reference us value g) :
    Climbed .reference (quote :: (ts ++ equal :: us)) (.binary .assign target value)
      fun p => (g (f p.advance).advance).emit .setPointer := by
  have sign : equal.Valid := .of_kind kind fun _ invalid => by cases invalid
  have start : quote.Valid := .of_kind opened fun _ invalid => by cases invalid
  have walk : Walk (fun p => (g (f p.advance).advance).emit .setPointer)
      (quote :: (ts ++ equal :: us)) (Expression.binary .assign target value).code := by
    have whole := ((((Walk.start start).trans leftward.walk).read sign).trans rightward.walk).write
      .setPointer rfl
    simpa [Expression.code, BinaryOperator.code] using whole
  refine ⟨walk, fun {bound level p rest} ahead small below precedes free => ?_⟩
  have weakest : level = .reference := Level.eq_of_rank (Nat.le_zero.mp below)
  subst weakest
  refine .of_operand walk ahead small (by rw [opened]; rfl) fun {smaller} small previous => ?_
  have ahead : p.ahead = quote :: (ts ++ equal :: (us ++ rest)) := by simpa using ahead
  have tokens : p.advance.ahead = ts ++ equal :: (us ++ rest) :=
    (Took.advance ahead).validAhead.trans (first.validAhead_append _)
  have named := leftward.address tokens small
  have next : (f p.advance).ahead = equal :: (us ++ rest) :=
    (leftward.walk.ahead tokens).trans (sign.validAhead_cons _)
  have assigned : (f p.advance).sees .equal = true := by
    rw [sees_iff, next]
    exact kind
  have moved := Took.advance next
  have later : (f p.advance).advance.ahead = us ++ rest :=
    moved.validAhead.trans (second.validAhead_append rest)
  have shorter : (f p.advance).advance.left ≤ smaller := by
    have before := leftward.walk.left_le tokens
    have after := moved.left_le
    omega
  have read := (rightward.climbs later shorter (Nat.le_refl _) precedes free).done rightward.walk
    later ⟨fun op binary => absurd rfl (precedes op binary).2, free⟩
  simp only [operand, previous, opened, named, assigned, read, decide_true, Bool.and_self,
    ↓reduceIte]

theorem weaken {level : Level} (climbed : Climbed level.stronger ts e f) :
    Climbed level ts e f := by
  refine ⟨climbed.walk, fun ahead small below precedes free => ?_⟩
  refine climbed.climbs ahead small (below.trans ?_) precedes.stronger free
  cases level <;> decide

end Climbed

theorem climb_spelled {strength : Level} {ts : List Token} {e : Expression}
    (spelled : Expression.Spelled strength ts e) : ∃ walk, Climbed strength ts e walk := by
  induction spelled with
  | number kind read => exact ⟨_, .number kind read⟩
  | string kind quotes => exact ⟨_, .string kind quotes⟩
  | name kind => exact ⟨_, .name kind⟩
  | truth kind => exact ⟨_, .truth kind⟩
  | group opened inner closed ih =>
    obtain ⟨f, climbed⟩ := ih
    exact ⟨_, climbed.group opened inner closed⟩
  | unary kind inner ih =>
    obtain ⟨f, climbed⟩ := ih
    exact ⟨_, climbed.unary kind inner⟩
  | binary kind chains _ second ihFirst ihSecond =>
    obtain ⟨f, leftward⟩ := ihFirst
    obtain ⟨g, rightward⟩ := ihSecond
    exact ⟨_, leftward.binary kind chains second rightward⟩
  | reference kind weakest _ second ihFirst ihSecond =>
    obtain ⟨f, leftward⟩ := ihFirst
    obtain ⟨g, rightward⟩ := ihSecond
    exact ⟨_, leftward.reference kind weakest second rightward⟩
  | assign opened first kind second ihFirst ihSecond =>
    obtain ⟨f, leftward⟩ := ihFirst
    obtain ⟨g, rightward⟩ := ihSecond
    exact ⟨_, leftward.assign opened first kind second rightward⟩
  | weaken _ ih =>
    obtain ⟨f, climbed⟩ := ih
    exact ⟨f, climbed.weaken⟩

/-! ## Whole expressions -/

section Whole

variable {p : Pass} {ts rest : List Token} {e : Expression} {more : List Line}

/-- Reading an expression is a walk, if what follows does not go on with it. -/
theorem expression_walks (spelled : e.Spelled .reference ts) : ∃ walk, Walk walk ts e.code ∧
    ∀ {p : Pass} {rest : List Token}, p.ahead = ts ++ rest → Delimits (validAhead rest) →
      p.expression = walk p := by
  obtain ⟨f, climbed⟩ := climb_spelled spelled
  exact ⟨f, climbed.walk, fun ahead delimits => climbed.whole ahead (Nat.le_refl _) delimits⟩

/-- An expression is read whatever follows it, if that does not go on with it. -/
theorem took_expression (fits : Chunk.Fits p.chunk.constants e.code) (ahead : p.ahead = ts ++ rest)
    (spelled : e.Spelled .reference ts) (delimits : Delimits (validAhead rest)) :
    p.Took ts e.code rest p.expression := by
  obtain ⟨f, walk, same⟩ := expression_walks spelled
  rw [same ahead delimits]
  exact walk.took fits ahead

/-- Nothing that comes next can belong to an operand. -/
theorem took_address (fits : Chunk.Fits p.chunk.constants e.code) (ahead : p.ahead = ts ++ rest)
    (spelled : e.Spelled .unary ts) : p.Took ts e.code rest p.address := by
  obtain ⟨f, climbed⟩ := climb_spelled spelled
  rw [address, climbed.address ahead (Nat.le_refl _)]
  exact climbed.walk.took fits ahead

/-- Climbing follows the grammar, whatever was written and complained about before. If an expression
is spelled ahead, the next valid token after it does not go on with it and there is room for its
constants, then its tokens are read, its code is appended, and the pass looks for the next valid
token: that is all. So nothing is complained about if that token comes next; if an invalid one does,
it is reported. And if an expression is read without complaint, the tokens read spell one, and its
code was appended. -/
theorem expression_follows_grammar (p : Pass) :
    (∀ ts rest (e : Expression), p.ahead = ts ++ rest → e.Spelled .reference ts →
      Delimits (validAhead rest) → Chunk.Fits p.chunk.constants e.code →
      ∃ chunk, p.chunk.Extends e.code chunk ∧
        p.expression = { p with previous := ts.getLastD p.previous, chunk }.resume rest ∧
        (validAhead rest = rest →
          p.expression = { p with previous := ts.getLastD p.previous, ahead := rest, chunk }) ∧
        ∀ t later flaw, p.panicking = false → rest = t :: later → t.kind = .invalid flaw →
          p.expression =
            { p with
              previous := ts.getLastD p.previous
              ahead := validAhead later
              chunk
              panicking := true
              diagnostics := p.diagnostics ++ [⟨t.line, t.location, .lexical flaw⟩] }) ∧
    (p.panicking = false → p.chunk.constants.size ≤ Chunk.maxConstants →
      p.expression.diagnostics = p.diagnostics →
      ∃ ts rest, ∃ e : Expression, ∃ chunk, p.ahead = ts ++ rest ∧ e.Spelled .reference ts ∧
        Delimits rest ∧ p.chunk.Extends e.code chunk ∧
        p.expression = { p with previous := ts.getLastD p.previous, ahead := rest, chunk }) := by
  constructor
  · intro ts rest e ahead spelled delimits fits
    obtain ⟨_, chunk, extended, same⟩ := took_expression fits ahead spelled delimits
    refine ⟨chunk, extended fits.numbered, same, fun kept => ?_,
      fun t later flaw calm next invalid => ?_⟩
    · rw [same]
      exact resume_of_ahead ((resume_validAhead _ rest).trans kept)
    · rw [same, next]
      exact resume_of_invalid (p := { p with previous := ts.getLastD p.previous, chunk })
        calm invalid later
  · intro calm numbered quiet
    have still := (heeding.expression p).calm_of_same calm quiet
    obtain ⟨ts, rest, e, spelled, took, stops⟩ := expression_took still
    exact ⟨ts, rest, e, p.expression.chunk, took.ahead, spelled, .of_stops stops,
      took.appends numbered, took.eq_of_ahead (took.ahead_of_calm still)⟩

/-- Tokens of `'a = b - c - d != (e => f)`. -/
def juggled : List Token :=
  [⟨.quote, "'", 1⟩, ⟨.name, "a", 1⟩, ⟨.equal, "=", 1⟩, ⟨.name, "b", 1⟩, ⟨.minus, "-", 1⟩,
    ⟨.name, "c", 1⟩, ⟨.minus, "-", 1⟩, ⟨.name, "d", 1⟩, ⟨.bangEqual, "!=", 1⟩, ⟨.leftParen, "(", 1⟩,
    ⟨.name, "e", 1⟩, ⟨.equalGreater, "=>", 1⟩, ⟨.name, "f", 1⟩, ⟨.rightParen, ")", 1⟩]

/-- Differences associate to the left, and the assignment takes the whole comparison. Before it
there was a complaint, and one of its constants is in the pool. -/
theorem expression_follows_grammar_on_juggled :
    let p : Pass :=
      { previous := .finish 1
        ahead := juggled ++ [⟨.divider, ",", 1⟩]
        lastLine := 1
        diagnostics := [⟨1, .finish, .expectedExpression⟩]
        panicking := false
        chunk := { constants := #[.text "d"] }
        loopCount := 0 }
    let difference : Expression :=
      .binary .subtract (.binary .subtract (.text "b") (.text "c")) (.text "d")
    let e : Expression := .binary .assign (.text "a")
      (.binary .notEqual difference (.binary .refer (.text "e") (.text "f")))
    e.Spelled .reference juggled ∧ Chunk.Fits p.chunk.constants e.code ∧
      (∃ chunk, p.chunk.Extends e.code chunk ∧ p.expression =
        { p with previous := ⟨.rightParen, ")", 1⟩, ahead := [⟨.divider, ",", 1⟩], chunk }) ∧
      ∃ ts rest, ∃ f : Expression, p.ahead = ts ++ rest ∧ f.Spelled .reference ts := by
  intro p difference e
  have name (level : Level) (s : String) : Expression.Spelled level [⟨.name, s, 1⟩] (.text s) :=
    .of_stronger level.rank_le_unary (.name rfl)
  have minus : (⟨.minus, "-", 1⟩ : Token).kind.binary? = some .subtract := rfl
  have differs : (⟨.bangEqual, "!=", 1⟩ : Token).kind.binary? = some .notEqual := rfl
  have opened : (⟨.leftParen, "(", 1⟩ : Token).kind = .leftParen := rfl
  have closed : (⟨.rightParen, ")", 1⟩ : Token).kind = .rightParen := rfl
  have arrow : (⟨.equalGreater, "=>", 1⟩ : Token).kind.binary? = some .refer := rfl
  have spelled : e.Spelled .reference juggled := by
    have left := Expression.Spelled.binary minus (by decide)
      (.binary minus (by decide) (name _ "b") (name _ "c")) (name _ "d")
    have right := Expression.Spelled.reference arrow rfl (name _ "e") (name _ "f")
    have whole := Expression.Spelled.binary differs (by decide) (.weaken (.weaken left))
      (.of_stronger (by decide) (.group opened right closed))
    exact .assign rfl (name .unary "a") rfl (.weaken whole)
  have fits : Chunk.Fits p.chunk.constants e.code := by
    unfold Chunk.Fits
    decide +kernel
  obtain ⟨forward, backward⟩ := expression_follows_grammar p
  obtain ⟨chunk, extended, _, same, _⟩ := forward juggled [⟨.divider, ",", 1⟩] e rfl spelled
    (.of_kind rfl rfl (by decide)) fits
  have read := same rfl
  obtain ⟨ts, rest, f, _, ahead, again, _⟩ := backward rfl (by decide) (by rw [read])
  exact ⟨spelled, fits, ⟨chunk, extended, read⟩, ts, rest, f, ahead, again⟩

/-- An invalid token does not end an expression. Here a name is spelled in front of one, which is
neither an operator nor an equals sign; but reading goes on with the operator behind it, and takes
the parenthesis on the next line as well. -/
theorem expression_goes_on_behind_invalid_token :
    let p := start ((Token.scan "a @ + (\n)").map (·.token)) 0
    ∃ rest, p.ahead = ⟨.name, "a", 1⟩ :: rest ∧
      Expression.Spelled .reference [⟨.name, "a", 1⟩] (.text "a") ∧ Delimits rest ∧
      Chunk.Fits p.chunk.constants (Expression.text "a").code ∧ p.panicking = false ∧
      p.expression.ahead = [] ∧
      p.expression.diagnostics = [⟨1, .nowhere, .lexical .unexpectedCharacter⟩] := by
  intro p
  refine ⟨p.ahead.tail, by decide +kernel, .of_stronger (Nat.zero_le _) (.name rfl), ?_, ?_⟩
  · exact ⟨by decide +kernel, by decide +kernel⟩
  · unfold Chunk.Fits
    decide +kernel

/-- A pass that is ready passes over nothing. -/
theorem Ready.validAhead (ready : p.Ready more) (ahead : p.ahead = ts ++ rest) :
    validAhead rest = rest := by
  apply validAhead_eq
  cases rest with
  | nil => nofun
  | cons t rest =>
    refine ready.valid t ?_
    rw [ahead]
    exact List.mem_append_right _ List.mem_cons_self

theorem Ready.fits {lines : List Line} (ready : p.Ready (lines ++ more)) :
    Chunk.Fits p.chunk.constants lines := by
  obtain ⟨written, holds, writable⟩ := ready.room
  rw [← List.append_assoc] at writable
  exact holds.fits writable.of_append_left

/-- A pass that is ready goes on with what it reads and writes. -/
theorem Took.proceeds {lines : List Line} {q : Pass} (took : p.Took ts lines rest q)
    (unmarked : Unmarked lines) (ready : p.Ready (lines ++ more)) :
    p.Proceeds ts 0 lines q more := by
  have kept : q.ahead = rest := by rw [took.validAhead, ready.validAhead took.ahead]
  have same := took.eq_of_ahead kept
  refine ready.proceeds ?_ (took.wrote unmarked kept) ?_
  · rw [same]
    exact ready.honest
  · rw [same]
    exact ready.quiet

theorem expression_proceeds (ready : p.Ready (e.code ++ more)) (ahead : p.ahead = ts ++ rest)
    (spelled : e.Spelled .reference ts) (delimits : Delimits rest) :
    p.Proceeds ts 0 e.code p.expression more := by
  rw [← ready.validAhead ahead] at delimits
  exact (took_expression ready.fits ahead spelled delimits).proceeds e.code_unmarked ready

theorem address_proceeds (ready : p.Ready (e.code ++ more)) (ahead : p.ahead = ts ++ rest)
    (spelled : e.Spelled .unary ts) : p.Proceeds ts 0 e.code p.address more :=
  (took_address ready.fits ahead spelled).proceeds e.code_unmarked ready

theorem apart_expression_proceeds (ready : p.Ready more) (writable : Writable e.code)
    (ahead : p.ahead = ts ++ rest) (spelled : e.Spelled .reference ts) (delimits : Delimits rest) :
    p.Proceeds ts 0 [] (p.apart expression).1 more ∧ (p.apart expression).2.Realizes e := by
  have room : Ready { p with chunk := {} } (e.code ++ []) := by
    rw [List.append_nil]
    exact ready.empty writable
  exact apart_proceeds ready (expression_proceeds room ahead spelled delimits)

end Whole

end Pass

end Cellscript
