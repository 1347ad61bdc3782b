import Cellscript.Machine.Basic
import Cellscript.Proofs.Action
import Cellscript.Proofs.Language.Tree

/-!
What expressions mean: they give a value and change the store on the way.
-/

set_option autoImplicit false

namespace Cellscript

/-- What a program changes for good: the store, and what is printed. -/
structure World where
  store : Store
  sink : Sink

/-- Values are equal only if they are of one type. Numbers compare as numbers, so that no undefined
number equals itself and the two zeros are equal. -/
inductive Value.Equal : Value → Value → Prop
  | number {x y : Float} (same : (x == y) = true) : Equal (.number x) (.number y)
  | truth (b : Bool) : Equal (.truth b) (.truth b)
  | text (s : String) : Equal (.text s) (.text s)
  | pointer (c : Cell) : Equal (.pointer c) (.pointer c)
  | boxed (c : Cell) : Equal (.boxed c) (.boxed c)

theorem Value.equals_iff {a b : Value} : a.equals b = true ↔ a.Equal b := by
  constructor
  · intro same
    cases a <;> cases b <;> simp only [equals, beq_iff_eq, Bool.false_eq_true] at same <;>
      first | exact .number same | (subst same; constructor)
  · intro equal
    cases equal with
    | number same => exact same
    | truth | text | pointer | boxed => exact beq_self_eq_true _

instance (a b : Value) : Decidable (a.Equal b) := decidable_of_iff _ Value.equals_iff

theorem Value.decide_equal (a b : Value) : decide (a.Equal b) = a.equals b := by
  rw [Bool.eq_iff_iff, decide_eq_true_iff, equals_iff]

/-- Reads through an operand. -/
def Store.look (operand : Value) : Store.Action Value := fun s =>
  match s.read operand with
  | .ok value => .ok value s
  | .error fault => .error fault s

/-- The result of an operation that is there for numbers only. -/
def onNumbers (f : Float → Float → Value) (left right : Value) : Store.Action Value :=
  match left, right with
  | .number x, .number y => return f x y
  | _, _ => throw .numberOperands

def UnaryOperator.apply (op : UnaryOperator) (value : Value) : Store.Action Value :=
  match op with
  | negate =>
    match value with
    | .number x => return .number (-x)
    | _ => throw .numberOperand
  | not => return .truth value.isFalsey
  | read => Store.look value

def BinaryOperator.apply (op : BinaryOperator) (left right : Value) : Store.Action Value :=
  match op with
  | assign => .pointer <$> Store.assign left right
  | refer => .pointer <$> Store.assign right left
  | exchange => .pointer <$> Store.exchange left right
  | equal => return .truth (decide (left.Equal right))
  | notEqual => return .truth (!decide (left.Equal right))
  | greater => onNumbers (fun x y => .truth (x > y)) left right
  | greaterEqual => onNumbers (fun x y => .truth (!(x < y))) left right
  | less => onNumbers (fun x y => .truth (x < y)) left right
  | lessEqual => onNumbers (fun x y => .truth (!(x > y))) left right
  | add => onNumbers (fun x y => .number (x + y)) left right
  | subtract => onNumbers (fun x y => .number (x - y)) left right
  | multiply => onNumbers (fun x y => .number (x * y)) left right
  | divide => onNumbers (fun x y => .number (x / y)) left right

namespace Expression

/-- The value of an expression. The left operand comes first. -/
def eval : Expression → Store.Action Value
  | number x => return .number x
  | text s => return .text s
  | truth b => return .truth b
  | unary op e => do op.apply (← e.eval)
  | binary op left right => do
    let a ← left.eval
    let b ← right.eval
    op.apply a b

/-- How many entries of the stack it takes to evaluate an expression. -/
def room : Expression → Nat
  | number _ | text _ | truth _ => 1
  | unary _ e => e.room
  | binary _ left right => max left.room (right.room + 1)

theorem room_pos (e : Expression) : 0 < e.room := by
  induction e with
  | number x | text s | truth b => exact Nat.one_pos
  | unary op e ih => exact ih
  | binary op left right leftward rightward =>
    exact Nat.lt_of_lt_of_le leftward (Nat.le_max_left _ _)

/-- A stack as long as the code is long enough. -/
theorem room_le_codeSize (e : Expression) : e.room ≤ codeSize e.code := by
  induction e with
  | number x | text s => exact Nat.le_succ 1
  | truth b => exact Nat.le_refl 1
  | unary op e ih =>
    rw [code, codeSize_append]
    exact Nat.le_trans ih (Nat.le_add_right _ _)
  | binary op left right leftward rightward =>
    have filled := left.room_pos
    rw [room, code, codeSize_append, codeSize_append]
    omega

/-! ## Stacks that may be full -/

/-- A literal takes one more place on a stack with `live` values, of which there may be `max`. -/
def enter (max live : Nat) (value : Value) : Store.Action Value :=
  if live < max then return value else throw .stackOverflow

/-- The value of an expression on a stack with `live` values, of which there may be `max`. Operands
wait there for their operator: the left one first, then the right one above it. -/
def evalAbove (max : Nat) : Nat → Expression → Store.Action Value
  | live, number x => enter max live (.number x)
  | live, text s => enter max live (.text s)
  | live, truth b => enter max live (.truth b)
  | live, unary op e => do op.apply (← e.evalAbove max live)
  | live, binary op left right => do
    let a ← left.evalAbove max live
    let b ← right.evalAbove max (live + 1)
    op.apply a b

theorem enter_of_lt {max live : Nat} (room : live < max) (value : Value) :
    enter max live value = return value := if_pos room

theorem lt_of_enter {max live : Nat} {value result : Value} {s t : Store}
    (entered : enter max live value s = .ok result t) : live < max := by
  unfold enter at entered
  split at entered
  · assumption
  · cases entered

/-- What has been evaluated has found a place. -/
theorem lt_of_evalAbove {max live : Nat} {e : Expression} {value : Value} {s t : Store}
    (done : e.evalAbove max live s = .ok value t) : live < max := by
  induction e generalizing live value s t with
  | number x | text s | truth b => exact lt_of_enter done
  | unary op e ih =>
    obtain ⟨a, u, first, _⟩ := bind_eq_ok done
    exact ih first
  | binary op left right leftward _ =>
    obtain ⟨a, u, first, _⟩ := bind_eq_ok done
    exact leftward first

/-- On a stack that is large enough, its size does not matter. -/
theorem evalAbove_of_room {max live : Nat} {e : Expression} (room : live + e.room ≤ max) :
    e.evalAbove max live = e.eval := by
  induction e generalizing live with
  | number x | text s | truth b => exact enter_of_lt room _
  | unary op e ih =>
    rw [evalAbove, eval, ih room]
  | binary op left right leftward rightward =>
    rw [Expression.room] at room
    rw [evalAbove, eval, leftward (by omega), rightward (by omega)]

end Expression

end Cellscript
