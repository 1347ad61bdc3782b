import Cellscript.Proofs.Machine.Frames
import Cellscript.Proofs.Machine.Travel

/-!
The code of an expression carries out what the expression means, and leaves its value on the stack.
-/

set_option autoImplicit false

namespace Cellscript

namespace Machine

variable {α β : Type} {chunk : Chunk} {max : Nat} {front back : List Line} {stack rest : List Value}

/-- One instruction that changes nothing but the store and the stack. -/
theorem Carries.of_step {i : Instruction} {value : Store.Action α} {place : α → Nat × List Value}
    (assembled : chunk.Assembles (front ++ .code i :: back))
    (performs : ∀ m : Machine, m.limits.stackMax = max → m.stack = stack →
      match value m.store with
      | .ok a s => i.perform chunk (codeSize front + i.width) m =
          .ok (some (place a).1) { m with stack := (place a).2, store := s }
      | .error fault s => ∃ u, i.perform chunk (codeSize front + i.width) m = .error fault u ∧
          u.world = ⟨s, m.sink⟩) :
    Carries chunk max 1 (codeSize front, stack) value place := by
  intro m limited stacked
  have performed := performs m limited stacked
  rw [← assembled.step_eq] at performed
  cases done : value m.store with
  | ok a s =>
    rw [done] at performed
    exact .of_step performed
  | error fault s =>
    rw [done] at performed
    obtain ⟨u, failed, left⟩ := performed
    exact ⟨0, codeSize front, m, u, rfl, failed, left⟩

theorem push_apply (value : Value) {m : Machine} (room : m.stack.length < m.limits.stackMax) :
    push value m = .ok () (m.withStack (value :: m.stack)) :=
  if_neg (Nat.not_le.mpr room)

theorem onStore_ok {action : Store.Action α} {m : Machine} {a : α} {s : Store}
    (done : action m.store = .ok a s) : onStore action m = .ok a { m with store := s } := by
  unfold onStore
  rw [done]

theorem onStore_error {action : Store.Action α} {m : Machine} {fault : Fault} {s : Store}
    (failed : action m.store = .error fault s) :
    onStore action m = .error fault { m with store := s } := by
  unfold onStore
  rw [failed]

theorem onStore_map {γ : Type} (f : α → β) (action : Store.Action α) (next : β → Action γ)
    (m : Machine) :
    (onStore (f <$> action) >>= next) m = (onStore action >>= fun a => next (f a)) m := by
  simp only [bind_apply, onStore, map_apply]
  cases action m.store <;> rfl

theorem onStore_look (operand : Value) :
    (onStore (Store.look operand) : Action Value) = ofStore (·.read operand) := by
  funext m
  simp only [onStore, ofStore, Store.look]
  cases m.store.read operand <;> rfl

/-! ## Stretches -/

/-- The run from `start` carries out the lines one after the other. A line that fails is the last
one that it comes to. -/
def Performs (chunk : Chunk) (lines : List Line) (start : Nat) (m : Machine)
    (leaves : α → List Value) : EStateM.Result Fault Store α → Prop
  | .ok a s => ∃ log, after chunk lines.length (start, m) =
      some (start + codeSize lines, { m with stack := leaves a, store := s, log })
  | .error fault s => ∃ n < lines.length, ∃ t u,
      after chunk n (start, m) = some (start + codeSize (lines.take n), t) ∧
        step chunk (start + codeSize (lines.take n)) t = .error fault u ∧ u.world = ⟨s, m.sink⟩

/-- Lines that carry out an action wherever their code stands. -/
def Stretch (chunk : Chunk) (max : Nat) (lines : List Line) (stack : List Value)
    (value : Store.Action α) (leaves : α → List Value) : Prop :=
  ∀ (start : Nat) (m : Machine), chunk.HasAt start lines → m.limits.stackMax = max →
    m.stack = stack → Performs chunk lines start m leaves (value m.store)

namespace Stretch

variable {lines others : List Line}

/-- One instruction that changes nothing but the store and the stack. -/
theorem of_step {i : Instruction} {value : Store.Action α} {leaves : α → List Value}
    (performs : ∀ (m : Machine) (next : Nat), m.limits.stackMax = max → m.stack = stack →
      match value m.store with
      | .ok a s => i.perform chunk next m = .ok (some next) { m with stack := leaves a, store := s }
      | .error fault s => ∃ u, i.perform chunk next m = .error fault u ∧ u.world = ⟨s, m.sink⟩) :
    Stretch chunk max [.code i] stack value leaves := by
  intro start m stands limited stacked
  have performed := performs m (start + i.width) limited stacked
  rw [← stands.step_eq] at performed
  cases done : value m.store with
  | ok a s =>
    rw [done] at performed
    obtain ⟨log, noted⟩ := step_note chunk start m m.log
    rw [performed] at noted
    exact ⟨log, after_succ noted 0⟩
  | error fault s =>
    rw [done] at performed
    obtain ⟨u, failed, left⟩ := performed
    exact ⟨0, Nat.one_pos, m, u, rfl, failed, left⟩

/-- What comes second is needed only where the first part succeeds. -/
theorem append {value : Store.Action α} {middle : α → List Value} {next : α → Store.Action β}
    {leaves : β → List Value} (first : Stretch chunk max lines stack value middle)
    (second : ∀ a s t, value s = .ok a t → Stretch chunk max others (middle a) (next a) leaves) :
    Stretch chunk max (lines ++ others) stack (value >>= next) leaves := by
  intro start m stands limited stacked
  obtain ⟨front, back⟩ := stands.of_append
  have before := first start m front limited stacked
  rw [bind_apply]
  cases done : value m.store with
  | error fault s =>
    rw [done] at before
    obtain ⟨n, inside, t, u, reached, failed, left⟩ := before
    have taken : (lines ++ others).take n = lines.take n :=
      List.take_append_of_le_length (Nat.le_of_lt inside)
    rw [← taken] at reached failed
    exact ⟨n, by rw [List.length_append]; omega, t, u, reached, failed, left⟩
  | ok a s =>
    rw [done] at before
    obtain ⟨log, reached⟩ := before
    have later := second a m.store s done _ { m with stack := middle a, store := s, log } back
      limited rfl
    dsimp only at later ⊢
    cases last : next a s with
    | ok b t =>
      rw [last] at later
      obtain ⟨final, arrived⟩ := later
      refine ⟨final, ?_⟩
      rw [List.length_append, after_add, reached, codeSize_append, ← Nat.add_assoc]
      exact arrived
    | error fault t =>
      rw [last] at later
      obtain ⟨n, inside, v, u, arrived, failed, left⟩ := later
      have place : start + codeSize ((lines ++ others).take (lines.length + n)) =
          start + codeSize lines + codeSize (others.take n) := by
        rw [List.take_length_add_append, codeSize_append, Nat.add_assoc]
      refine ⟨lines.length + n, by rw [List.length_append]; omega, v, u, ?_, ?_, left⟩
      · rw [place, after_add, reached]
        exact arrived
      · rw [place]
        exact failed

/-- An instruction that takes its operands, works on the store and puts the result
in their place. -/
theorem of_operation {i : Instruction} {value : Store.Action Value} (room : rest.length < max)
    (operates : ∀ (m : Machine) (next : Nat), m.stack = stack → i.perform chunk next m =
      (onStore value >>= fun result => do push result; return some next) (m.withStack rest)) :
    Stretch chunk max [.code i] stack value fun result => result :: rest := by
  refine of_step fun m next limited stacked => ?_
  rw [operates m next stacked]
  cases done : value m.store with
  | error fault s =>
    exact ⟨_, bind_apply_error (onStore_error (m := m.withStack rest) done) _, rfl⟩
  | ok result s =>
    dsimp only
    rw [bind_apply_ok (onStore_ok (m := m.withStack rest) done),
      bind_apply_ok (push_apply result _)]
    · rfl
    · exact limited ▸ room

/-- An instruction that pushes a value fails where the stack is full. -/
theorem of_push {i : Instruction} {value : Value}
    (pushes : ∀ next, i.perform chunk next = do push value; return some next) :
    Stretch chunk max [.code i] stack (Expression.enter max stack.length value)
      fun value => value :: stack := by
  refine of_step fun m next limited stacked => ?_
  rw [pushes]
  subst limited stacked
  by_cases room : m.stack.length < m.limits.stackMax
  · rw [Expression.enter_of_lt room]
    exact bind_apply_ok (push_apply value room) _
  · rw [Expression.enter, if_neg room]
    have full : push value m = .error .stackOverflow m := if_pos (Nat.not_lt.mp room)
    exact ⟨m, bind_apply_error full _, rfl⟩

end Stretch

/-! ## Blocks -/

/-- Lines that carry out an action wherever they stand, and go on behind themselves. -/
def Block (chunk : Chunk) (max least : Nat) (lines : List Line) (stack : List Value)
    (value : Store.Action α) (after : α → List Value) : Prop :=
  ∀ front back, chunk.Assembles (front ++ lines ++ back) →
    Carries chunk max least (codeSize front, stack) value
      fun a => (codeSize (front ++ lines), after a)

namespace Block

variable {least more : Nat} {lines others : List Line}

theorem mark (name : String) :
    Block chunk max 0 [.mark name] stack (Pure.pure ()) fun _ => stack := by
  intro front back _
  have size : codeSize (front ++ [.mark name]) = codeSize front := by simp
  rw [size]
  exact .pure () fun _ => (codeSize front, stack)

theorem nil (a : α) (after : α → List Value) :
    Block chunk max 0 [] (after a) (Pure.pure a) after := by
  intro front back _
  rw [List.append_nil]
  exact .pure a fun a => (codeSize front, after a)

theorem append {value : Store.Action α} {middle : α → List Value} {next : α → Store.Action β}
    {after : β → List Value} (first : Block chunk max least lines stack value middle)
    (second : ∀ a, Block chunk max more others (middle a) (next a) after) :
    Block chunk max (least + more) (lines ++ others) stack (value >>= next) after := by
  intro front back assembled
  rw [← List.append_assoc] at assembled ⊢
  have left :=
    first front (others ++ back) (by rw [List.append_assoc] at assembled; exact assembled)
  exact left.bind fun a => second a (front ++ lines) back assembled

/-- What the action gives does not matter. -/
theorem ignore {value : Store.Action α}
    (block : Block chunk max least lines stack value fun _ => rest) :
    Block chunk max least lines stack (value >>= fun _ => Pure.pure ()) fun _ => rest := by
  have dropped := block.append fun _ => Block.nil () fun _ => rest
  rw [List.append_nil] at dropped
  exact dropped

theorem weaken {value : Store.Action α} {after : α → List Value}
    (block : Block chunk max least lines stack value after) {fewer : Nat} (less : fewer ≤ least) :
    Block chunk max fewer lines stack value after :=
  fun front back assembled => (block front back assembled).weaken less

theorem uncounted {value : Store.Action α} {after : α → List Value}
    (block : Block chunk max least lines stack value after) :
    Block chunk max 0 lines stack value after := block.weaken (Nat.zero_le least)

/-- A stretch that stands among the lines of a chunk. -/
theorem of_stretch {value : Store.Action α} {leaves : α → List Value}
    (stretch : Stretch chunk max lines stack value leaves) :
    Block chunk max lines.length lines stack value leaves := by
  intro front back assembled m limited stacked
  rw [List.append_assoc] at assembled
  have performed := stretch (codeSize front) m assembled.hasAt.of_append.1 limited stacked
  rw [codeSize_append]
  cases done : value m.store with
  | ok a s =>
    rw [done] at performed
    obtain ⟨log, reached⟩ := performed
    exact ⟨lines.length, log, Nat.le_refl _, reached⟩
  | error fault s =>
    rw [done] at performed
    obtain ⟨n, _, t, u, reached, failed, left⟩ := performed
    exact ⟨n, _, t, u, reached, failed, left⟩

theorem of_push {i : Instruction} {value : Value}
    (pushes : ∀ next, i.perform chunk next = do push value; return some next)
    (room : stack.length < max) :
    Block chunk max 1 [.code i] stack (Pure.pure value) fun value => value :: stack := by
  rw [← Expression.enter_of_lt room value]
  exact .of_stretch (.of_push pushes)

end Block

end Machine

open Machine

section Operators

variable {chunk : Chunk} {max : Nat} {stack rest : List Value}

theorem UnaryOperator.stretch (op : UnaryOperator) (room : rest.length < max) (value : Value) :
    Stretch chunk max (plainLines [op.code]) (value :: rest) (op.apply value)
      fun result => result :: rest := by
  refine .of_operation room fun m next stacked => ?_
  obtain ⟨limits, stack, store, sink, log⟩ := m
  cases stacked
  cases op with
  | negate => cases value <;> rfl
  | not => rfl
  | read =>
    rw [UnaryOperator.apply, onStore_look]
    rfl

/-- The operators that are one instruction. -/
theorem BinaryOperator.stretch_single {op : BinaryOperator} {code : Opcode}
    (single : op.code = [code]) (room : rest.length < max) (left right : Value) :
    Stretch chunk max (plainLines [code]) (right :: left :: rest) (op.apply left right)
      fun result => result :: rest := by
  refine .of_operation room fun m next stacked => ?_
  obtain ⟨limits, stack, store, sink, log⟩ := m
  cases stacked
  cases op with
  | assign | refer | exchange =>
    cases single
    rw [BinaryOperator.apply, onStore_map]
    rfl
  | equal =>
    cases single
    rw [BinaryOperator.apply, Value.decide_equal]
    rfl
  | greater | less | add | subtract | multiply | divide =>
    cases single
    cases left <;> cases right <;> rfl
  | notEqual | greaterEqual | lessEqual => cases single

/-- Another operator and a negation. -/
theorem BinaryOperator.stretch_negated {op other : BinaryOperator} {code : Opcode}
    (single : other.code = [code]) (double : op.code = [code, .not]) (room : rest.length < max)
    {left right : Value}
    (same : other.apply left right >>= UnaryOperator.not.apply = op.apply left right) :
    Stretch chunk max (plainLines op.code) (right :: left :: rest) (op.apply left right)
      fun result => result :: rest := by
  have first : Stretch chunk max _ _ _ _ := stretch_single single room left right
  rw [double, ← same]
  exact first.append fun value _ _ _ => UnaryOperator.not.stretch room value

theorem BinaryOperator.stretch (op : BinaryOperator) (room : rest.length < max)
    (left right : Value) :
    Stretch chunk max (plainLines op.code) (right :: left :: rest) (op.apply left right)
      fun result => result :: rest := by
  cases op with
  | notEqual => exact stretch_negated (rfl : BinaryOperator.equal.code = _) rfl room rfl
  | greaterEqual =>
    refine stretch_negated (rfl : BinaryOperator.less.code = _) rfl room ?_
    cases left <;> cases right <;> rfl
  | lessEqual =>
    refine stretch_negated (rfl : BinaryOperator.greater.code = _) rfl room ?_
    cases left <;> cases right <;> rfl
  | _ => exact stretch_single rfl room left right

/-- The code of an expression puts its value on the stack, or fails as the expression does. -/
theorem Expression.stretch (e : Expression) :
    Stretch chunk max e.code stack (e.evalAbove max stack.length) fun value => value :: stack := by
  induction e generalizing stack with
  | number x => exact .of_push fun _ => rfl
  | text s => exact .of_push fun _ => rfl
  | truth b => cases b <;> exact .of_push fun _ => rfl
  | unary op e ih => exact ih.append fun a _ _ done => op.stretch (lt_of_evalAbove done) a
  | binary op left right leftward rightward =>
    rw [Expression.code, List.append_assoc]
    refine leftward.append fun a _ _ done => ?_
    have above : (a :: stack).length = stack.length + 1 := rfl
    rw [← above]
    exact rightward.append fun b _ _ _ => op.stretch (lt_of_evalAbove done) a b

theorem UnaryOperator.block (op : UnaryOperator) (room : rest.length < max) (value : Value) :
    Block chunk max 1 (plainLines [op.code]) (value :: rest) (op.apply value)
      fun result => result :: rest := .of_stretch (op.stretch room value)

theorem BinaryOperator.block (op : BinaryOperator) (room : rest.length < max) (left right : Value) :
    Block chunk max 1 (plainLines op.code) (right :: left :: rest) (op.apply left right)
      fun result => result :: rest := by
  have filled : 1 ≤ (plainLines op.code).length := by cases op <;> decide
  exact (Block.of_stretch (op.stretch room left right)).weaken filled

/-- Where there is room, the code of an expression puts its value on the stack. -/
theorem Expression.block (e : Expression) (room : stack.length + e.room ≤ max) :
    Block chunk max 1 e.code stack e.eval fun value => value :: stack := by
  have filled : 1 ≤ e.code.length := by
    refine List.length_pos_iff.mpr fun empty => ?_
    have size := Nat.lt_of_lt_of_le e.room_pos e.room_le_codeSize
    rw [empty] at size
    exact Nat.lt_irrefl 0 size
  rw [← evalAbove_of_room room]
  exact (Block.of_stretch e.stretch).weaken filled

end Operators

end Cellscript
