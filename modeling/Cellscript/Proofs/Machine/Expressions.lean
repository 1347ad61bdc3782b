import Cellscript.Proofs.Machine.Evaluation

/-!
Expressions wherever their code stands. On every machine the code does what a recursive evaluation
from left to right does: it gives the same value and leaves the same store, or it fails with the
same fault. The stack overflows exactly where the evaluation comes to a literal and the stack is
full.
-/

set_option autoImplicit false

namespace Cellscript

open Machine

/-! ## Full stacks -/

theorem Fault.OfStore.ne_stackOverflow {fault : Fault} (met : fault.OfStore) :
    fault ≠ .stackOverflow := by
  rintro rfl
  exact met

theorem onNumbers_fault {f : Float → Float → Value} {left right : Value} {s t : Store}
    {fault : Fault}
    (failed : onNumbers f left right s = .error fault t) : fault = .numberOperands := by
  unfold onNumbers at failed
  split at failed <;> cases failed
  rfl

/-- An operator has a place for its result, since it has taken its operands. -/
theorem UnaryOperator.apply_fault {op : UnaryOperator} {value : Value} {s t : Store} {fault : Fault}
    (failed : op.apply value s = .error fault t) : fault ≠ .stackOverflow := by
  cases op with
  | negate =>
    cases value with
    | number x => cases failed
    | _ =>
      cases failed
      exact Fault.noConfusion
  | not => cases failed
  | read =>
    change Store.look value s = .error fault t at failed
    unfold Store.look at failed
    split at failed
    · cases failed
    · rename_i missing
      cases failed
      exact (Store.read_fault missing).ne_stackOverflow

theorem BinaryOperator.apply_fault {op : BinaryOperator} {left right : Value} {s t : Store}
    {fault : Fault} (failed : op.apply left right s = .error fault t) : fault ≠ .stackOverflow := by
  cases op with
  | assign | refer => exact (Store.assign_fault (map_eq_error failed)).ne_stackOverflow
  | exchange => exact (Store.exchange_fault (map_eq_error failed)).ne_stackOverflow
  | equal | notEqual => cases failed
  | greater | greaterEqual | less | lessEqual | add | subtract | multiply | divide =>
    rw [onNumbers_fault failed]
    exact Fault.noConfusion

namespace Expression

/-- The evaluation of an expression from `s`, on a stack with `live` values, comes to a literal
while `waiting` values are on the stack. -/
inductive MeetsLiteral (max : Nat) : Expression → (live : Nat) → (s : Store) →
    (waiting : Nat) → Prop
  | number (x : Float) (live : Nat) (s : Store) : MeetsLiteral max (.number x) live s live
  | text (t : String) (live : Nat) (s : Store) : MeetsLiteral max (.text t) live s live
  | truth (b : Bool) (live : Nat) (s : Store) : MeetsLiteral max (.truth b) live s live
  | operand {e : Expression} {live waiting : Nat} {s : Store} (op : UnaryOperator)
      (meets : MeetsLiteral max e live s waiting) : MeetsLiteral max (.unary op e) live s waiting
  | left {left : Expression} {live waiting : Nat} {s : Store} (op : BinaryOperator)
      (right : Expression) (meets : MeetsLiteral max left live s waiting) :
      MeetsLiteral max (.binary op left right) live s waiting
  | right {left right : Expression} {live waiting : Nat} {s t : Store} {a : Value}
      (op : BinaryOperator) (done : left.evalAbove max live s = .ok a t)
      (meets : MeetsLiteral max right (live + 1) t waiting) :
      MeetsLiteral max (.binary op left right) live s waiting

variable {e : Expression} {max live : Nat} {s : Store}

theorem eq_of_enter_overflow {value : Value} {t : Store} (within : live ≤ max)
    (failed : enter max live value s = .error .stackOverflow t) : live = max := by
  unfold enter at failed
  split at failed
  · cases failed
  · omega

/-- Only literals find no place. -/
theorem meetsLiteral_of_overflow {t : Store} (within : live ≤ max)
    (failed : e.evalAbove max live s = .error .stackOverflow t) :
    e.MeetsLiteral max live s max := by
  induction e generalizing live s t with
  | number x =>
    rw [eq_of_enter_overflow within failed]
    exact .number x max s
  | text name =>
    rw [eq_of_enter_overflow within failed]
    exact .text name max s
  | truth b =>
    rw [eq_of_enter_overflow within failed]
    exact .truth b max s
  | unary op e ih =>
    rcases bind_eq_error failed with inside | ⟨a, u, _, applied⟩
    · exact .operand op (ih within inside)
    · exact absurd rfl (op.apply_fault applied)
  | binary op left right leftward rightward =>
    rcases bind_eq_error failed with inside | ⟨a, u, done, later⟩
    · exact .left op right (leftward within inside)
    · have room : live < max := lt_of_evalAbove done
      rcases bind_eq_error later with inside | ⟨b, v, _, applied⟩
      · exact .right op done (rightward room inside)
      · exact absurd rfl (op.apply_fault applied)

theorem overflow_of_meetsLiteral {waiting : Nat} (meets : e.MeetsLiteral max live s waiting)
    (full : max ≤ waiting) : ∃ t, e.evalAbove max live s = .error .stackOverflow t := by
  induction meets with
  | number x live s => exact ⟨s, by rw [evalAbove, enter, if_neg (by omega)]; rfl⟩
  | text name live s => exact ⟨s, by rw [evalAbove, enter, if_neg (by omega)]; rfl⟩
  | truth b live s => exact ⟨s, by rw [evalAbove, enter, if_neg (by omega)]; rfl⟩
  | operand op _ ih =>
    obtain ⟨t, failed⟩ := ih full
    exact ⟨t, bind_apply_error failed _⟩
  | left op right _ ih =>
    obtain ⟨t, failed⟩ := ih full
    exact ⟨t, bind_apply_error failed _⟩
  | right op done _ ih =>
    obtain ⟨t, failed⟩ := ih full
    exact ⟨t, by rw [evalAbove, bind_apply_ok done, bind_apply_error failed]⟩

theorem overflow_iff (within : live ≤ max) :
    (∃ t, e.evalAbove max live s = .error .stackOverflow t) ↔ e.MeetsLiteral max live s max :=
  ⟨fun ⟨_, failed⟩ => meetsLiteral_of_overflow within failed,
    fun meets => overflow_of_meetsLiteral meets (Nat.le_refl max)⟩

end Expression

/-! ## Runs -/

namespace Machine

/-- Wherever the code of an expression stands, it takes one instruction after the other and puts the
value of the expression on top of whatever is on the stack, with the effects of a recursive
evaluation from left to right. Where that fails, the run fails with the same fault, at an
instruction of the expression. The stack overflows exactly if the evaluation comes to a literal on a
full stack. -/
theorem expression_code_evaluates (e : Expression) (chunk : Chunk) (start : Nat)
    (stands : chunk.HasAt start e.code) (m : Machine)
    (within : m.stack.length ≤ m.limits.stackMax) :
    let result := e.evalAbove m.limits.stackMax m.stack.length m.store
    (∀ value s, result = .ok value s → ∃ log, after chunk e.code.length (start, m) =
      some (start + codeSize e.code, { m with stack := value :: m.stack, store := s, log })) ∧
    (∀ fault s, result = .error fault s → ∃ n < e.code.length, ∃ t u,
      after chunk n (start, m) = some (start + codeSize (e.code.take n), t) ∧
      runFrom chunk (n + 1) start m =
        (u, .failed ⟨fault, chunk.lineAt (start + codeSize (e.code.take n))⟩) ∧
      u.world = ⟨s, m.sink⟩) ∧
    ((∃ s, result = .error .stackOverflow s) ↔
      e.MeetsLiteral m.limits.stackMax m.stack.length m.store m.limits.stackMax) := by
  intro result
  have performs : Performs chunk e.code start m (· :: m.stack) result :=
    e.stretch start m stands rfl rfl
  refine ⟨?_, ?_, Expression.overflow_iff within⟩
  · intro value s done
    rw [done] at performs
    exact performs
  · intro fault s failing
    rw [failing] at performs
    obtain ⟨n, inside, t, u, reached, failed, left⟩ := performs
    obtain ⟨v, ended, same⟩ := runFrom_of_failing reached failed
    exact ⟨n, inside, t, v, reached, ended, same.trans left⟩

/-- Two assignments, the values of which change places. -/
def crossing : Expression :=
  .binary .exchange (.binary .assign (.text "a") (.text "x"))
    (.binary .assign (.text "b") (.text "y"))

def crossingBytes : List UInt8 :=
  [Opcode.constant.byte, 0, Opcode.constant.byte, 1, Opcode.setPointer.byte,
    Opcode.constant.byte, 2, Opcode.constant.byte, 3, Opcode.setPointer.byte, Opcode.exchange.byte]

/-- The code of the crossing between two bytes that are no instructions. -/
def hemmed : Chunk where
  code := (([0xEE] ++ crossingBytes ++ [0xFF]).map fun byte => CodeByte.mk byte 1).toArray
  constants := #[.text "a", .text "x", .text "b", .text "y"]

theorem hemmed_hasAt : hemmed.HasAt 1 crossing.code := by
  refine ⟨[0xEE], crossingBytes, [0xFF], rfl, rfl, ?_⟩
  have load (value : Value) (index : UInt8) (found : hemmed.constants[index.toNat]? = some value) :
      Encodes hemmed.constants [Opcode.constant.byte, index] [.code (.load value)] :=
    .code ⟨index, found, rfl⟩
  have plain (op : Opcode) (single : op.operandWidth = 0) :
      Encodes hemmed.constants [op.byte] (plainLines [op]) := .code ⟨single, rfl⟩
  have left := ((load _ 0 rfl).append (load _ 1 rfl)).append (plain .setPointer rfl)
  have right := ((load _ 2 rfl).append (load _ 3 rfl)).append (plain .setPointer rfl)
  exact (left.append right).append (plain .exchange rfl)

/-- A machine that has one value on its stack already. -/
def busy (stackMax : Nat) : Machine := (Machine.new { stackMax } {}).withStack [.truth true]

/-- The crossing takes three more places. With two of them, its last literal is one too many. -/
theorem expression_code_evaluates_between_strays :
    (∃ log, after hemmed 7 (1, busy 4) = some (12, { busy 4 with
      stack := [.pointer ⟨0⟩, .truth true]
      store := ⟨⟨1024, #[.text "y", .text "x"]⟩, [("b", ⟨1⟩), ("a", ⟨0⟩)]⟩, log })) ∧
    ∃ n line u, runFrom hemmed n 1 (busy 3) = (u, .failed ⟨.stackOverflow, line⟩) ∧
      u.store = ⟨⟨1024, #[.text "x"]⟩, [("a", ⟨0⟩)]⟩ := by
  constructor
  · exact (expression_code_evaluates crossing hemmed 1 hemmed_hasAt (busy 4) (by decide)).1 _ _ rfl
  · obtain ⟨n, _, _, u, _, ended, left⟩ :=
      (expression_code_evaluates crossing hemmed 1 hemmed_hasAt (busy 3) (by decide)).2.1 _ _ rfl
    exact ⟨n + 1, _, u, ended, congrArg World.store left⟩

end Machine

end Cellscript
