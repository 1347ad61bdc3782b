import Cellscript.Machine.Run
import Cellscript.Proofs.Action

/-!
Habits of a machine. Every instruction is put together from changes of the stack, printing,
assignments and exchanges; whatever these keep to, an instruction keeps to, and so does a run. Most
instructions do without assignments and exchanges, and keep to what the other changes keep to.
-/

set_option autoImplicit false

namespace Cellscript

/-- Whether an instruction assigns or exchanges. -/
def Opcode.changesStore : Opcode → Bool
  | .setPointer | .setPointerNoPush | .setPointerInverse | .exchange => true
  | _ => false

namespace Machine

/-- What the parts of instructions keep to that leave the store alone. The stack never grows past
its limit. -/
structure Manner (R : Machine → Machine → Prop) : Prop where
  refl : ∀ m, R m m
  trans : ∀ {m n o}, R m n → R n o → R m o
  stack : ∀ (m : Machine) (stack : List Value),
    stack.length ≤ max m.stack.length m.limits.stackMax → R m { m with stack }
  sink : ∀ (m : Machine) (sink : Sink), R m { m with sink }

/-- What all parts of instructions keep to. -/
structure Habit (R : Machine → Machine → Prop) : Prop extends Manner R where
  assign : ∀ (m : Machine) (operand value : Value),
    R m { m with store := stateAfter (Store.assign operand value m.store) }
  exchange : ∀ (m : Machine) (left right : Value),
    R m { m with store := stateAfter (Store.exchange left right m.store) }

variable {R : Machine → Machine → Prop}

namespace Manner

variable (manner : Manner R)

include manner

theorem pure {α : Type} (a : α) : Within R (Pure.pure a : Action α) := Within.pure manner.refl a

theorem throw {α : Type} (fault : Fault) : Within R (MonadExcept.throw fault : Action α) :=
  Within.throw manner.refl fault

theorem andThen {α β : Type} {first : Action α} {next : α → Action β} (before : Within R first)
    (after : ∀ a, Within R (next a)) : Within R (first >>= next) :=
  Within.bind (R := R) manner.trans before after

/-! ## The parts of instructions -/

theorem push (value : Value) : Within R (Machine.push value) := by
  intro m
  unfold Machine.push
  split
  · exact manner.refl m
  · refine manner.stack m (value :: m.stack) ?_
    rw [List.length_cons]
    omega

theorem pop : Within R Machine.pop := by
  intro m
  unfold Machine.pop
  split
  · rename_i value stack found
    refine manner.stack m stack ?_
    rw [found, List.length_cons]
    omega
  · exact manner.refl m

theorem popNumbers (number? : Value → Option Float) : Within R (Machine.popNumbers number?) := by
  refine manner.andThen manner.pop fun b => manner.andThen manner.pop fun a => ?_
  split
  · exact manner.pure _
  · exact manner.throw _

theorem ofStore {α : Type} (read : Store → Except Fault α) : Within R (Machine.ofStore read) := by
  intro m
  unfold Machine.ofStore
  split <;> exact manner.refl m

theorem print (text : String) : Within R (Machine.print text) := by
  intro m
  unfold Machine.print
  split <;> exact manner.sink m _

theorem fetch (chunk : Chunk) (offset : Nat) : Within R (Machine.fetch chunk offset) := by
  intro m
  unfold Machine.fetch
  split <;> exact manner.refl m

theorem labelOffset (chunk : Chunk) (label : Value) :
    Within R (Machine.labelOffset chunk label) := by
  intro m
  unfold Machine.labelOffset
  split <;> exact manner.refl m

/-! ## Instructions -/

theorem pushAnd (value : Value) (next : Option Nat) :
    Within R (do Machine.push value; return next) :=
  manner.andThen (manner.push value) fun _ => manner.pure next

theorem perform (chunk : Chunk) {op : Opcode} (ip : Nat) (aside : op.changesStore = false) :
    Within R (Machine.perform chunk op ip) := by
  cases op with
  | halt => exact manner.pure none
  | constant =>
    refine manner.andThen (manner.fetch chunk ip) fun index => ?_
    split
    · exact manner.pushAnd _ _
    · exact manner.andThen (manner.throw _) fun _ => manner.pure _
  | yes => exact manner.pushAnd _ _
  | no => exact manner.pushAnd _ _
  | negate =>
    refine manner.andThen manner.pop fun value => ?_
    split
    · exact manner.pushAnd _ _
    · exact manner.andThen (manner.throw _) fun _ => manner.pure _
  | not => exact manner.andThen manner.pop fun value => manner.pushAnd _ _
  | add | subtract | multiply | divide | less | greater =>
    exact manner.andThen (manner.popNumbers _) fun numbers => manner.pushAnd _ _
  | equal =>
    exact manner.andThen manner.pop fun b => manner.andThen manner.pop fun a => manner.pushAnd _ _
  | print =>
    refine manner.andThen manner.pop fun value => manner.andThen (Within.get manner.refl)
      fun m => ?_
    exact manner.andThen (manner.print _) fun _ => manner.pure _
  | pop =>
    exact manner.andThen manner.pop fun value =>
      manner.andThen (manner.ofStore _) fun target => manner.pure _
  | setPointer => cases aside
  | setPointerNoPush => cases aside
  | setPointerInverse => cases aside
  | exchange => cases aside
  | getPointer =>
    exact manner.andThen manner.pop fun operand =>
      manner.andThen (manner.ofStore (·.read operand)) fun value => manner.pushAnd _ _
  | jumpIfFalseToLabel =>
    refine manner.andThen manner.pop fun label => manner.andThen manner.pop fun predicate => ?_
    split
    · exact manner.andThen (manner.labelOffset chunk label) fun offset => manner.pure _
    · exact manner.pure _
  | jump => exact manner.andThen (manner.fetch chunk ip) fun distance => manner.pure _
  | jumpIfFalse =>
    exact manner.andThen (manner.fetch chunk ip) fun distance =>
      manner.andThen manner.pop fun predicate => manner.pure _

end Manner

namespace Habit

/-- What an action does to the store is all that it does. -/
theorem onStore {α : Type} {action : Store.Action α}
    (kept : ∀ m : Machine, R m { m with store := stateAfter (action m.store) }) :
    Within R (Machine.onStore action) := by
  intro m
  have after := kept m
  unfold Machine.onStore
  cases done : action m.store with
  | ok a store =>
    rw [done] at after
    exact after
  | error fault store =>
    rw [done] at after
    exact after

variable (habit : Habit R)

include habit

theorem perform (chunk : Chunk) (op : Opcode) (ip : Nat) :
    Within R (Machine.perform chunk op ip) := by
  have assigned (operand value : Value) : Within R (Machine.onStore (Store.assign operand value)) :=
    onStore fun m => habit.assign m operand value
  cases op with
  | setPointer | setPointerInverse =>
    refine habit.andThen habit.pop fun first => habit.andThen habit.pop fun second => ?_
    exact habit.andThen (assigned _ _) fun c => habit.pushAnd _ _
  | setPointerNoPush =>
    refine habit.andThen habit.pop fun first => habit.andThen habit.pop fun second => ?_
    exact habit.andThen (assigned _ _) fun c => habit.pure _
  | exchange =>
    refine habit.andThen habit.pop fun right => habit.andThen habit.pop fun left => ?_
    exact habit.andThen (onStore fun m => habit.exchange m left right)
      fun c => habit.pushAnd _ _
  | _ => exact habit.toManner.perform chunk ip rfl

theorem step (chunk : Chunk) (ip : Nat) : Within R (Machine.step chunk ip) := by
  refine habit.andThen (habit.fetch chunk ip) fun byte => ?_
  split
  · exact habit.perform chunk _ (ip + 1)
  · exact habit.throw _

/-! ## Runs -/

section Logging

variable (logs : ∀ (m : Machine) (log : Array TraceEntry), R m { m with log })

include logs

theorem note (m : Machine) (chunk : Chunk) (ip : Nat) : R m (m.note chunk ip) := by
  unfold MachineOf.note
  split
  · exact logs m _
  · exact habit.refl m

theorem runFrom (chunk : Chunk) (steps ip : Nat) (m : Machine) :
    R m (Machine.runFrom chunk steps ip m).1 := by
  induction steps generalizing ip m with
  | zero => exact habit.refl m
  | succ steps ih =>
    have after := habit.trans (habit.note logs m chunk ip) (habit.step chunk ip (m.note chunk ip))
    cases stepped : Machine.step chunk ip (m.note chunk ip) with
    | ok next n =>
      rw [stepped] at after
      cases next with
      | none =>
        rw [runFrom_returned stepped]
        exact after
      | some target =>
        rw [runFrom_next stepped]
        exact habit.trans after (ih target n)
    | error fault n =>
      rw [stepped] at after
      rw [runFrom_failed stepped]
      exact habit.trans after (habit.stack n [] (Nat.zero_le _))

end Logging

end Habit

end Machine

end Cellscript
