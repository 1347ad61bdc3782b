import Cellscript.Proofs.Compile.Recovery

/-!
The recursion of a pass without its bounds. Whatever part of a pass calls itself, it reads a token
first, or closes a loop; at the end of the script it does not call itself. So the bounds never show:
each part is the solution of an equation without them.
-/

set_option autoImplicit false

namespace Cellscript

/-! ## Recursion below a measure -/

/-- The function solves a recursive equation that asks for its values only where the measure is
smaller. -/
def Recurses {σ α : Type} (measure : σ → Nat) (body : (σ → α) → σ → α) (f : σ → α) : Prop :=
  ∀ (h : σ → α) (s : σ), (∀ t, measure t < measure s → h t = f t) → body h s = f s

/-- A function with a bound that is used up by one at each call, and is not needed where the measure
is zero. -/
structure CountsDown {σ α : Type} (measure : σ → Nat) (body : (σ → α) → σ → α)
    (f : Nat → σ → α) : Prop where
  step : ∀ n s, f (n + 1) s = body (f n) s
  stops : ∀ h s, measure s = 0 → f 0 s = body h s
  local_of_smaller : ∀ n h s, (∀ t, measure t < measure s → h t = f n t) → body h s = body (f n) s

namespace CountsDown

variable {σ α : Type} {measure : σ → Nat} {body : (σ → α) → σ → α} {f : Nat → σ → α}
  (counts : CountsDown measure body f)

include counts

/-- All bounds that are large enough are alike. -/
theorem bound_irrelevant {n m : Nat} {s : σ} (enough : measure s ≤ n) (also : measure s ≤ m) :
    f n s = f m s := by
  induction n generalizing m s with
  | zero =>
    have zero : measure s = 0 := Nat.le_zero.mp enough
    cases m with
    | zero => rfl
    | succ m => rw [counts.step m, counts.stops (f m) s zero]
  | succ n ih =>
    cases m with
    | zero => rw [counts.step n, counts.stops (f n) s (Nat.le_zero.mp also)]
    | succ m =>
      rw [counts.step n, counts.step m]
      refine counts.local_of_smaller m (f n) s fun t smaller => ih ?_ ?_
      · omega
      · omega

theorem recurses : Recurses measure body fun s => f (measure s) s := by
  intro h s same
  dsimp only
  cases size : measure s with
  | zero => exact (counts.stops h s size).symm
  | succ n =>
    rw [counts.step n]
    refine counts.local_of_smaller n h s fun t smaller => ?_
    rw [same t smaller]
    exact counts.bound_irrelevant (Nat.le_refl _) (by omega)

end CountsDown

namespace Pass

/-! ## Tokens left -/

section Left

variable {p : Pass}

theorem left_le {q : Pass} (shorter : q.ahead <:+ p.ahead) : q.left ≤ p.left := shorter.length_le

/-- Fewer tokens stay fewer. -/
theorem left_lt {q r : Pass} (read : q.left < p.left) (shorter : r.ahead <:+ q.ahead) :
    r.left < p.left := Nat.lt_of_le_of_lt (left_le shorter) read

theorem advance_left_le (p : Pass) : p.advance.left ≤ p.left := left_le (advance_ahead p)

/-- Reading takes a token away. -/
theorem advance_left_lt (some : 0 < p.left) : p.advance.left < p.left := by
  have shorter : p.advance.ahead.length ≤ p.ahead.tail.length := (resume_ahead _ _).length_le
  rw [List.length_tail] at shorter
  unfold left at some ⊢
  omega

theorem current_of_left_eq_zero (none : p.left = 0) : p.current = .finish p.lastLine := by
  unfold current
  rw [List.length_eq_zero_iff.mp none]
  rfl

theorem left_pos_of_current {kind : Token.Kind} (here : p.current.kind = kind)
    (goesOn : kind ≠ .finish) : 0 < p.left := by
  refine Nat.pos_of_ne_zero fun none => goesOn ?_
  rw [← here, current_of_left_eq_zero none]
  rfl

theorem left_pos_of_sees {kind : Token.Kind} (seen : p.sees kind = true) (goesOn : kind ≠ .finish) :
    0 < p.left := left_pos_of_current (beq_iff_eq.mp seen) goesOn

theorem left_pos (unfinished : p.atEnd = false) : 0 < p.left := by
  refine Nat.pos_of_ne_zero fun none => ?_
  rw [atEnd, sees, current_of_left_eq_zero none] at unfinished
  cases unfinished

theorem sees_eq_false (none : p.left = 0) (kind : Token.Kind) (goesOn : kind ≠ .finish) :
    p.sees kind = false := by
  cases seen : p.sees kind with
  | false => rfl
  | true => exact absurd (left_pos_of_sees seen goesOn) (by omega)

end Left

/-! ## Expressions -/

/-- What is read next in an expression: an operand and all that follows it, or only what follows. -/
inductive Climbing
  | operand (level : Level) (p : Pass)
  | operators (level : Level) (p : Pass)

namespace Climbing

def left : Climbing → Nat
  | operand _ p => p.left
  | operators _ p => p.left

def within (bound : Nat) : Climbing → Pass
  | operand level p => climb bound level p
  | operators level p => climbOn bound level p

/-- Reads on without a bound. -/
def body (h : Climbing → Pass) : Climbing → Pass
  | operand level p =>
    let p := p.advance
    if p.previous.kind.startsOperand then
      refuseAssignment level
        (h (operators level (Pass.operand (fun l q => h (operand l q)) level p)))
    else p.complainBefore .expectedExpression
  | operators level p =>
    match p.current.kind.operatorFrom? level with
    | some operator =>
      h (operators level (applyOperator (fun l q => h (operand l q)) operator p.advance))
    | none => p

end Climbing

section Inner

variable {f g : Level → Pass → Pass} {p : Pass}

theorem operand_congr (shortens : ∀ level q, (g level q).left ≤ q.left)
    (same : ∀ level q, q.left ≤ p.left → f level q = g level q) (level : Level) :
    operand f level p = operand g level p := by
  have here (level : Level) : f level p = g level p := same level p (Nat.le_refl _)
  have target : f .reference (g .unary p).advance = g .reference (g .unary p).advance :=
    same _ _ (Nat.le_trans (advance_left_le _) (shortens _ _))
  unfold operand
  simp only [here, target]

theorem applyOperator_congr (same : ∀ level q, q.left ≤ p.left → f level q = g level q)
    (operator : Operator) : applyOperator f operator p = applyOperator g operator p := by
  unfold applyOperator
  rw [same _ p (Nat.le_refl _)]

end Inner

theorem climbing_countsDown : CountsDown Climbing.left Climbing.body Climbing.within where
  step n s := by
    cases s <;> rfl
  stops h s none := by
    cases s with
    | operand level p =>
      have last : p.advance.previous.kind = .finish := by
        rw [advance_previous, current_of_left_eq_zero none]
        rfl
      simp only [Climbing.within, Climbing.body, climb, last, Token.Kind.startsOperand,
        Bool.false_eq_true, ↓reduceIte]
    | operators level p =>
      have last : p.current.kind = .finish := by
        rw [current_of_left_eq_zero none]
        rfl
      simp only [Climbing.within, Climbing.body, climbOn, last]
      rfl
  local_of_smaller n h s same := by
    have shortens (level : Level) (q : Pass) : (climb n level q).left ≤ q.left :=
      left_le ((shortening.climb n).1 level q)
    cases s with
    | operand level p =>
      unfold Climbing.body
      dsimp only
      split
      · rename_i starts
        have read : p.advance.left < p.left := by
          refine advance_left_lt (left_pos_of_current rfl ?_)
          rw [advance_previous] at starts
          intro last
          rw [last] at starts
          cases starts
        have inner : Pass.operand (fun l q => h (.operand l q)) level p.advance =
            Pass.operand (climb n) level p.advance :=
          operand_congr shortens
            (fun l q small => same (.operand l q) (Nat.lt_of_le_of_lt small read)) level
        have shorter : (Pass.operand (climb n) level p.advance).left < p.left :=
          left_lt read (shortening.operand (shortening.climb n).1 level _)
        rw [inner, same (.operators level _) shorter]
        rfl
      · rfl
    | operators level p =>
      unfold Climbing.body
      dsimp only
      split
      · rename_i operator found
        have read : p.advance.left < p.left := by
          refine advance_left_lt (left_pos_of_current rfl ?_)
          intro last
          rw [last] at found
          cases found
        have inner : applyOperator (fun l q => h (.operand l q)) operator p.advance =
            applyOperator (climb n) operator p.advance :=
          applyOperator_congr
            (fun l q small => same (.operand l q) (Nat.lt_of_le_of_lt small read)) operator
        have shorter : (applyOperator (climb n) operator p.advance).left < p.left :=
          left_lt read (shortening.applyOperator (shortening.climb n).1 operator _)
        rw [inner, same (.operators level _) shorter]
        rfl
      · rfl

/-- What comes first is read. -/
theorem climb_left_lt {p : Pass} (some : 0 < p.left) (bound : Nat) (level : Level) :
    (climb bound level p).left < p.left := by
  have read := advance_left_lt some
  cases bound with
  | zero =>
    unfold climb
    exact left_lt read (shortening.complain _ _ _)
  | succ bound =>
    unfold climb
    dsimp only
    split
    · have operand := shortening.operand (shortening.climb bound).1 level p.advance
      have operators := shortening.trans operand ((shortening.climb bound).2 level _)
      exact left_lt read (shortening.trans operators (shortening.refuseAssignment level _))
    · exact left_lt read (shortening.complain _ _ _)

/-! ## Headers of loops -/

/-- Reads further parameters without a bound. -/
def parametersBody (h : Pass → Pass × List Chunk) (p : Pass) : Pass × List Chunk :=
  if p.sees .equalGreater then
    let (p, parameter) := p.advance.loopParameter
    let (p, rest) := h p
    (p, parameter :: rest)
  else (p, [])

theorem parameters_countsDown : CountsDown left parametersBody moreParameters where
  step _ _ := rfl
  stops h p none := by
    unfold parametersBody moreParameters
    rw [sees_eq_false none .equalGreater (by decide)]
    rfl
  local_of_smaller n h p same := by
    unfold parametersBody
    split
    · rename_i arrow
      have read := advance_left_lt (left_pos_of_sees arrow (by decide))
      dsimp only
      rw [same _ (left_lt read (shortening.loopParameter p.advance))]
    · rfl

/-- Reads further parts without a bound. -/
def partsBody (h : Pass → Pass × List LoopPart) (p : Pass) : Pass × List LoopPart :=
  if p.sees .divider then
    let (p, init) := p.advance.apart expression
    let (p, part) := p.loopPart init
    let (p, rest) := h p
    (p, part :: rest)
  else (p, [])

theorem parts_countsDown : CountsDown left partsBody moreParts where
  step _ _ := rfl
  stops h p none := by
    unfold partsBody moreParts
    rw [sees_eq_false none .divider (by decide)]
    rfl
  local_of_smaller n h p same := by
    unfold partsBody
    split
    · rename_i divided
      have read := advance_left_lt (left_pos_of_sees divided (by decide))
      have init := shortening.apart shortening.expression p.advance
      have part := shortening.trans init (shortening.loopPart _ (p.advance.apart expression).2)
      dsimp only
      rw [same _ (left_lt read part)]
    · rfl

/-! ## Statements -/

theorem conditional_congr {f g : Pass → Pass} {p : Pass}
    (shortens : ∀ q, (g q).ahead <:+ q.ahead) (same : ∀ q, q.left ≤ p.left → f q = g q)
    (predicate : Chunk) : conditional f predicate p = conditional g predicate p := by
  have asked :=
    shortening.trans (shortening.splice p predicate) (shortening.emitJump _ .jumpIfFalse)
  have chosen :=
    shortening.trans asked (shortening.trans (shortens _) (shortening.emitJump _ .jump))
  have barred (offset : Nat) := shortening.trans chosen
    (shortening.trans (shortening.patchJump _ offset) (shortening.advance _))
  unfold conditional
  dsimp only
  rw [same _ (left_le asked), same _ (left_le (barred _))]

/-- Reads a branch of a conditional without a bound. -/
def simpleBody (h : Pass → Pass) (p : Pass) : Pass :=
  if p.sees .print || p.sees .pr then p.advance.expression.emit .print
  else if p.seesReturn then p.advance.emit .halt
  else if p.sees .leftCurly then
    let (p, predicate) := p.advance.apart expression
    if p.sees .leftParen then p.complainHere .loopInBranch
    else conditional h predicate (p.expect .rightCurly .unclosedCondition)
  else p.expressionStatement

theorem simple_countsDown : CountsDown left simpleBody simpleWithin where
  step _ _ := rfl
  stops h p none := by
    simp [simpleBody, simpleWithin, seesReturn, sees_eq_false none]
  local_of_smaller n h p same := by
    unfold simpleBody
    split
    · rfl
    split
    · rfl
    split
    · rename_i opens
      have read := advance_left_lt (left_pos_of_sees opens (by decide))
      have asked := shortening.apart shortening.expression p.advance
      generalize p.advance.apart expression = condition at asked ⊢
      dsimp only
      split
      · rfl
      · have closed := shortening.trans asked
          (shortening.expect condition.1 .rightCurly .unclosedCondition)
        refine conditional_congr (shortening.simpleWithin n) (fun q small => same q ?_) condition.2
        exact Nat.lt_of_le_of_lt (Nat.le_trans small (left_le closed)) read
    · rfl

theorem simpleWithin_left_lt {p : Pass} (some : 0 < p.left) (bound : Nat) :
    (simpleWithin bound p).left < p.left := by
  have read := advance_left_lt some
  have stated : p.expressionStatement.left < p.left :=
    left_lt (climb_left_lt some _ _) (shortening.emit _ _)
  cases bound with
  | zero => exact stated
  | succ bound =>
    unfold simpleWithin
    split
    · exact left_lt read (shortening.trans (shortening.expression _) (shortening.emit _ _))
    split
    · exact left_lt read (shortening.emit _ _)
    split
    · have asked := shortening.apart shortening.expression p.advance
      generalize p.advance.apart expression = condition at asked ⊢
      refine left_lt read (shortening.trans asked ?_)
      dsimp only
      split
      · exact shortening.complain _ _ _
      · exact shortening.trans (shortening.expect _ _ _)
          (shortening.conditional (shortening.simpleWithin bound) _ _)
    · exact stated

/-- Reads a statement with its labels without a bound. -/
def statementBody (h : Pass → Pass × Option OpenLoop) (p : Pass) : Pass × Option OpenLoop :=
  if p.seesLabel then
    let named := p.advance
    let p := named.advance.defineLabel named.previous.lexeme
    if p.current.kind.isTerminator then (p.endStatement, none) else h p
  else if p.sees .leftCurly then p.advance.braceStatement
  else (p.simpleStatement.endStatement, none)

theorem sees_of_seesLabel {p : Pass} (seen : p.seesLabel = true) : p.sees .name = true :=
  (Bool.and_eq_true_iff.mp seen).1

/-- A label is read before what it stands in front of. -/
theorem label_left_lt {p : Pass} (seen : p.seesLabel = true) :
    (p.advance.advance.defineLabel p.advance.previous.lexeme).left < p.left := by
  have read := advance_left_lt (left_pos_of_sees (sees_of_seesLabel seen) (by decide))
  exact left_lt read (shortening.trans (shortening.advance _) (shortening.defineLabel _ _))

theorem statement_countsDown : CountsDown left statementBody statementWithin where
  step _ _ := rfl
  stops h p none := by
    simp [statementBody, statementWithin, seesLabel, sees_eq_false none]
  local_of_smaller n h p same := by
    unfold statementBody
    split
    · rename_i labelled
      dsimp only
      rw [same _ (label_left_lt labelled)]
    · rfl

theorem statementWithin_left_lt {p : Pass} (some : 0 < p.left) (bound : Nat) :
    (statementWithin bound p).1.left < p.left := by
  have stated : p.simpleStatement.endStatement.left < p.left :=
    left_lt (simpleWithin_left_lt some _) (shortening.endStatement _)
  cases bound with
  | zero => exact stated
  | succ bound =>
    unfold statementWithin
    split
    · rename_i labelled
      refine left_lt (label_left_lt labelled) ?_
      dsimp only
      split
      · exact shortening.endStatement _
      · exact shortening.statementWithin bound _
    split
    · exact left_lt (advance_left_lt some) (shortening.braceStatement _)
    · exact stated

/-! ## Declarations -/

/-- Reads on to a boundary without a bound. -/
def skipBody (h : Pass → Pass) (p : Pass) : Pass :=
  if p.atEnd || p.atBoundary then p else h p.advance

theorem skip_countsDown : CountsDown left skipBody skipToBoundary where
  step _ _ := rfl
  stops h p none := by
    have ends : p.atEnd = true := by
      rw [atEnd, sees, current_of_left_eq_zero none]
      rfl
    simp [skipBody, skipToBoundary, ends]
  local_of_smaller n h p same := by
    unfold skipBody
    split
    · rfl
    · rename_i goesOn
      have unfinished : p.atEnd = false := by
        cases ends : p.atEnd with
        | false => rfl
        | true => simp [ends] at goesOn
      exact same _ (advance_left_lt (left_pos unfinished))

theorem shortening_woken (p : Pass) : { p with panicking := false }.ahead <:+ p.ahead :=
  List.suffix_rfl

/-- Every declaration reads a token, whatever is wrong with it and wherever recovery stops. -/
theorem declaration_left_lt {p : Pass} (unfinished : p.atEnd = false) :
    p.declaration.1.left < p.left := by
  have stated : p.statement.1.left < p.left := statementWithin_left_lt (left_pos unfinished) _
  unfold declaration
  split
  · exact advance_left_lt (left_pos unfinished)
  split
  · rename_i q read
    rw [read] at stated
    exact left_lt stated (shortening.recover shortening_woken q)
  · rename_i q loop read
    rw [read] at stated
    exact stated

/-- How many steps may be left: each reads a token or closes a loop. -/
def stepsLeft (s : List OpenLoop × Pass) : Nat := 2 * s.2.left + s.1.length

/-- Reads all declarations that are left without a bound. -/
def declarationsBody (h : List OpenLoop × Pass → Pass) : List OpenLoop × Pass → Pass
  | ([], p) =>
    if p.atEnd then p.advance
    else
      let (p, opened) := p.declaration
      h (opened.toList, p)
  | (loop :: outer, p) =>
    if p.seesExit loop then h (outer, (p.closeLoop loop).recover)
    else if p.atEnd then h (outer, (p.complainHere (.unclosedLoop loop.exit)).recover)
    else
      let (p, opened) := p.declaration
      h (opened.toList ++ loop :: outer, p)

theorem stepsLeft_declaration {p : Pass} (unfinished : p.atEnd = false) (loops : List OpenLoop) :
    stepsLeft (p.declaration.2.toList ++ loops, p.declaration.1) < stepsLeft (loops, p) := by
  have read := declaration_left_lt unfinished
  have opened : p.declaration.2.toList.length ≤ 1 := by cases p.declaration.2 <;> simp
  unfold stepsLeft
  rw [List.length_append]
  dsimp only
  omega

theorem stepsLeft_close {p q : Pass} (shorter : q.ahead <:+ p.ahead) (loop : OpenLoop)
    (outer : List OpenLoop) : stepsLeft (outer, q.recover) < stepsLeft (loop :: outer, p) := by
  have kept := left_le (shortening.trans shorter (shortening.recover shortening_woken q))
  unfold stepsLeft
  rw [List.length_cons]
  dsimp only
  omega

theorem declarations_countsDown :
    CountsDown stepsLeft declarationsBody fun n s => declarations (n + 1) s.1 s.2 where
  step n s := by
    obtain ⟨loops, p⟩ := s
    cases loops <;> rfl
  stops h s none := by
    obtain ⟨loops, p⟩ := s
    unfold stepsLeft at none
    dsimp only at none
    have outside : loops = [] := List.length_eq_zero_iff.mp (by omega)
    have ends : p.atEnd = true := by
      rw [atEnd, sees, current_of_left_eq_zero (by omega)]
      rfl
    subst outside
    simp only [declarationsBody, declarations, ends, ↓reduceIte]
  local_of_smaller n h s same := by
    obtain ⟨loops, p⟩ := s
    cases loops with
    | nil =>
      unfold declarationsBody
      dsimp only
      split
      · rfl
      · rename_i unfinished
        have smaller := stepsLeft_declaration (Bool.eq_false_iff.mpr unfinished) []
        rw [List.append_nil] at smaller
        exact same _ smaller
    | cons loop outer =>
      unfold declarationsBody
      dsimp only
      split
      · exact same _ (stepsLeft_close (shortening.closeLoop p loop) loop outer)
      split
      · exact same _ (stepsLeft_close (shortening.complain p _ _) loop outer)
      · rename_i unfinished
        exact same _ (stepsLeft_declaration (Bool.eq_false_iff.mpr unfinished) (loop :: outer))

/-- Every part of a pass that calls itself reads a token before it does so, or closes a loop. -/
structure Descends : Prop where
  expressions : Recurses Climbing.left Climbing.body fun s => Climbing.within s.left s
  parameters : Recurses left parametersBody fun p => moreParameters p.left p
  parts : Recurses left partsBody fun p => moreParts p.left p
  branches : Recurses left simpleBody simpleStatement
  statements : Recurses left statementBody statement
  recovery : Recurses left skipBody fun p => skipToBoundary p.left p
  declarations : Recurses stepsLeft declarationsBody fun s => declarations (stepsLeft s + 1) s.1 s.2

theorem descends : Descends where
  expressions := climbing_countsDown.recurses
  parameters := parameters_countsDown.recurses
  parts := parts_countsDown.recurses
  branches := simple_countsDown.recurses
  statements := statement_countsDown.recurses
  recovery := skip_countsDown.recurses
  declarations := declarations_countsDown.recurses

end Pass

end Cellscript
