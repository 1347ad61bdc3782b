import Cellscript.Proofs.Machine.Decoding
import Cellscript.Proofs.Store.Faults

/-!
Frames: what an instruction does to the upper entries of the stack, whatever lies below them.
-/

set_option autoImplicit false

namespace Cellscript

namespace Machine

variable {α β : Type}

def withStack (m : Machine) (stack : List Value) : Machine := { m with stack }

/-- The result of an action that leaves the machine `m`. -/
def leaving (m : Machine) : Except Fault α → EStateM.Result Fault Machine α
  | .ok a => .ok a m
  | .error fault => .error fault m

/-- On a stack with the entries `top` above `size` others, the action leaves `rest` above the
others. It does the same whatever the others are. -/
def Does (action : Action α) (m : Machine) (top : List Value) (size : Nat)
    (result : Except Fault α) (after : Machine) (rest : List Value) : Prop :=
  ∀ below : List Value, below.length = size →
    action (m.withStack (top ++ below)) = leaving (after.withStack (rest ++ below)) result

namespace Does

variable {m middle final : Machine} {top rest last : List Value} {size : Nat}

theorem pure (a : α) (m : Machine) (top : List Value) (size : Nat) :
    Does (Pure.pure a) m top size (.ok a) m top := fun _ _ => rfl

theorem pop (value : Value) (m : Machine) (top : List Value) (size : Nat) :
    Does Machine.pop m (value :: top) size (.ok value) m top := fun _ _ => rfl

theorem push_full (value : Value) (full : m.limits.stackMax ≤ top.length + size) :
    Does (Machine.push value) m top size (.error .stackOverflow) m top := by
  intro below length
  refine if_pos ?_
  change m.limits.stackMax ≤ (top ++ below).length
  rw [List.length_append, length]
  exact full

theorem push (value : Value) (room : ¬ m.limits.stackMax ≤ top.length + size) :
    Does (Machine.push value) m top size (.ok ()) m (value :: top) := by
  intro below length
  refine if_neg ?_
  change ¬ m.limits.stackMax ≤ (top ++ below).length
  rw [List.length_append, length]
  exact room

/-- What the action does on a stack that is known. -/
theorem at_stack {action : Action α} {result : Except Fault α} {below : List Value}
    (does : Does action m top size result final rest) (stack : m.stack = top ++ below)
    (length : below.length = size) :
    action m = leaving (final.withStack (rest ++ below)) result := by
  have same : m.withStack (top ++ below) = m := by
    rw [← stack]
    rfl
  rw [← does below length, same]

theorem andThen {first : Action α} {next : α → Action β} {a : α} {result : Except Fault β}
    (before : Does first m top size (.ok a) middle rest)
    (after : Does (next a) middle rest size result final last) :
    Does (first >>= next) m top size result final last := by
  intro below length
  rw [bind_apply_ok (before below length)]
  exact after below length

theorem failing {first : Action α} {fault : Fault}
    (before : Does first m top size (.error fault) final rest) (next : α → Action β) :
    Does (first >>= next) m top size (.error fault) final rest := by
  intro below length
  rw [bind_apply_error (before below length)]
  rfl

end Does

/-- The action takes so many entries and gives so many, if it does not fail. -/
def Frame (take give : Nat) (allowed : α → Prop) (action : Action α) : Prop :=
  ∀ (m : Machine) (top : List Value) (size : Nat), take ≤ top.length →
    ∃ result after rest, Does action m top size result after rest ∧
      (∀ a, result = .ok a → rest.length + take = top.length + give ∧ allowed a) ∧
      ∀ fault, result = .error fault → ¬ fault.Structural

namespace Frame

theorem pure (a : α) : Frame 0 0 (· = a) (Pure.pure a : Action α) := by
  intro m top size _
  exact ⟨.ok a, m, top, .pure a m top size, fun b same => ⟨rfl, by cases same; rfl⟩, nofun⟩

theorem throw {fault : Fault} (plain : ¬ fault.Structural) (take give : Nat) (allowed : α → Prop) :
    Frame take give allowed (throw fault : Action α) := by
  intro m top size _
  refine ⟨.error fault, m, top, fun _ _ => rfl, nofun, ?_⟩
  intro other same
  cases same
  exact plain

theorem pop : Frame 1 0 (fun _ => True) Machine.pop := by
  intro m top size enough
  cases top with
  | nil => cases enough
  | cons value rest =>
    exact ⟨.ok value, m, rest, .pop value m rest size, fun _ _ => ⟨rfl, trivial⟩, nofun⟩

theorem push (value : Value) : Frame 0 1 (fun _ => True) (Machine.push value) := by
  intro m top size _
  by_cases full : m.limits.stackMax ≤ top.length + size
  · refine ⟨.error .stackOverflow, m, top, .push_full value full, nofun, ?_⟩
    intro fault same
    cases same
    exact id
  · exact ⟨.ok (), m, value :: top, .push value full, fun _ _ => ⟨rfl, trivial⟩, nofun⟩

/-- One action after another. -/
theorem bind {t₁ g₁ t₂ g₂ : Nat} {allowed : α → Prop} {permitted : β → Prop} {first : Action α}
    {next : α → Action β} (before : Frame t₁ g₁ allowed first)
    (after : ∀ a, allowed a → Frame t₂ g₂ permitted (next a)) :
    Frame (t₁ + (t₂ - g₁)) (g₁ - t₂ + g₂) permitted (first >>= next) := by
  intro m top size enough
  obtain ⟨result, middle, rest, does, fine, faults⟩ := before m top size (by omega)
  cases result with
  | error fault =>
    refine ⟨.error fault, middle, rest, does.failing next, nofun, fun other same => ?_⟩
    cases same
    exact faults fault rfl
  | ok a =>
    obtain ⟨length, good⟩ := fine a rfl
    obtain ⟨result, final, last, later, fine', faults'⟩ := after a good middle rest size (by omega)
    refine ⟨result, final, last, does.andThen later, fun b same => ?_, faults'⟩
    obtain ⟨length', good'⟩ := fine' b same
    exact ⟨by omega, good'⟩

/-- Something done to the store. -/
theorem onStore {action : Store.Action α}
    (faults : ∀ {s t : Store} {fault : Fault}, action s = .error fault t → fault.OfStore) :
    Frame 0 0 (fun _ => True) (Machine.onStore action) := by
  intro m top size _
  cases done : action m.store with
  | ok a store =>
    refine ⟨.ok a, { m with store }, top, fun below _ => ?_, fun _ _ => ⟨rfl, trivial⟩, nofun⟩
    unfold Machine.onStore
    rw [show (m.withStack (top ++ below)).store = m.store from rfl, done]
    rfl
  | error fault store =>
    refine ⟨.error fault, { m with store }, top, fun below _ => ?_, nofun, fun other same => ?_⟩
    · unfold Machine.onStore
      rw [show (m.withStack (top ++ below)).store = m.store from rfl, done]
      rfl
    · cases same
      exact (faults done).not_structural

/-- Something read from the store. -/
theorem ofStore {read : Store → Except Fault α}
    (faults : ∀ {s : Store} {fault : Fault}, read s = .error fault → fault.OfStore) :
    Frame 0 0 (fun _ => True) (Machine.ofStore read) := by
  intro m top size _
  refine ⟨read m.store, m, top, fun below _ => ?_, fun _ _ => ⟨rfl, trivial⟩,
    fun _ failed => (faults failed).not_structural⟩
  unfold Machine.ofStore
  rw [show (m.withStack (top ++ below)).store = m.store from rfl]
  cases read m.store <;> rfl

theorem print (text : String) : Frame 0 0 (fun _ => True) (Machine.print text) := by
  intro m top size _
  cases written : m.sink.write (text ++ "\n").toUTF8 with
  | mk sink all =>
    have result : ∀ below, Machine.print text (m.withStack (top ++ below)) =
        leaving (withStack { m with sink } (top ++ below))
          (if all then .ok () else .error (.output "sink full")) := by
      intro below
      unfold Machine.print
      rw [show (m.withStack (top ++ below)).sink = m.sink from rfl, written]
      cases all <;> rfl
    refine ⟨_, { m with sink }, top, fun below _ => result below, fun _ _ => ⟨rfl, trivial⟩, ?_⟩
    intro fault same
    cases all <;> cases same
    exact id

/-- What is printed of a value depends on the store alone. -/
theorem printShown (value : Value) : Frame 0 0 (fun _ => True)
    (do Machine.print (shown (← EStateM.get).store value).plain) := by
  intro m top size enough
  obtain ⟨result, after, rest, does, fine, faults⟩ :=
    print (shown m.store value).plain m top size enough
  refine ⟨result, after, rest, fun below length => ?_, fine, faults⟩
  rw [bind_apply_ok (get_apply _), show (m.withStack (top ++ below)).store = m.store from rfl]
  exact does below length

theorem mono {take give : Nat} {allowed permitted : α → Prop} {action : Action α}
    (frame : Frame take give allowed action) (weaker : ∀ a, allowed a → permitted a) :
    Frame take give permitted action := by
  intro m top size enough
  obtain ⟨result, after, rest, does, fine, faults⟩ := frame m top size enough
  exact ⟨result, after, rest, does, fun a same =>
    ⟨(fine a same).1, weaker a (fine a same).2⟩, faults⟩

/-- An action that leaves the stack alone, and another one. -/
theorem andThen {take give : Nat} {allowed : α → Prop} {permitted : β → Prop} {first : Action α}
    {next : α → Action β} (before : Frame 0 0 allowed first)
    (after : ∀ a, allowed a → Frame take give permitted (next a)) :
    Frame take give permitted (first >>= next) := by
  simpa using before.bind after

theorem popThen {take give : Nat} {permitted : β → Prop} {next : Value → Action β}
    (after : ∀ value, Frame take give permitted (next value)) :
    Frame (take + 1) give permitted (Machine.pop >>= next) := by
  simpa [Nat.add_comm] using pop.bind fun value _ => after value

/-- Pushing a value is the last thing that most instructions do. -/
theorem pushAnd (value : Value) (a : α) :
    Frame 0 1 (· = a) (do Machine.push value; return a) := by
  simpa using (push value).bind fun _ _ => pure a

end Frame

theorem popNumbers_frame (number? : Value → Option Float) :
    Frame 2 0 (fun _ => True) (popNumbers number?) := by
  unfold popNumbers
  refine Frame.popThen fun b => Frame.popThen fun a => ?_
  split
  · exact (Frame.pure _).mono fun _ _ => trivial
  · exact Frame.throw id 0 0 _

/-- Instructions that go on with the next one take and give what their opcode says. -/
theorem perform_frame (chunk : Chunk) {op : Opcode} (ip : Nat) (plain : op.operandWidth = 0)
    (straight : (Instruction.plain op).Straight) :
    Frame op.takes op.gives (· = some ip) (perform chunk op ip) := by
  have arithmetics : Frame 2 1 (· = some ip) (do
      let pair ← popNumbers Value.number?
      push ((dialect chunk).arithmetic op pair.1 pair.2)
      return some ip) := by
    simpa using (popNumbers_frame Value.number?).bind fun (pair : Float × Float) _ =>
      Frame.pushAnd ((dialect chunk).arithmetic op pair.1 pair.2) (some ip)
  have assigned (operand value : Value) :
      Frame 0 0 (fun _ => True) ((dialect chunk).assign operand value) :=
    Frame.onStore Store.assign_fault
  cases op with
  | halt => exact absurd rfl straight.1
  | constant => cases plain
  | jump => cases plain
  | jumpIfFalse => cases plain
  | pop => exact absurd rfl straight.2.1
  | jumpIfFalseToLabel => exact absurd rfl straight.2.2
  | yes => exact Frame.pushAnd _ _
  | no => exact Frame.pushAnd _ _
  | add => exact arithmetics
  | subtract => exact arithmetics
  | multiply => exact arithmetics
  | divide => exact arithmetics
  | less => exact arithmetics
  | greater => exact arithmetics
  | not => exact Frame.popThen fun value => Frame.pushAnd _ _
  | negate =>
    refine Frame.popThen fun value => ?_
    cases value with
    | number x => exact Frame.pushAnd _ _
    | _ => exact Frame.throw id 0 1 _
  | equal => exact Frame.popThen fun b => Frame.popThen fun a => Frame.pushAnd _ _
  | print =>
    refine Frame.popThen fun value => ?_
    exact (Frame.printShown value).andThen fun _ _ => Frame.pure _
  | setPointer =>
    refine Frame.popThen fun value => Frame.popThen fun operand => ?_
    exact (assigned operand value).andThen fun c _ => Frame.pushAnd _ _
  | setPointerInverse =>
    refine Frame.popThen fun operand => Frame.popThen fun value => ?_
    exact (assigned operand value).andThen fun c _ => Frame.pushAnd _ _
  | setPointerNoPush =>
    refine Frame.popThen fun value => Frame.popThen fun operand => ?_
    exact (assigned operand value).andThen fun c _ => Frame.pure _
  | getPointer =>
    refine Frame.popThen fun operand => ?_
    have read : Frame 0 0 (fun _ => True) (ofStore (·.read operand)) :=
      Frame.ofStore Store.read_fault
    exact read.andThen fun value _ => Frame.pushAnd _ _
  | exchange =>
    refine Frame.popThen fun right => Frame.popThen fun left => ?_
    have exchanged : Frame 0 0 (fun _ => True) ((dialect chunk).exchange left right) :=
      Frame.onStore Store.exchange_fault
    exact exchanged.andThen fun c _ => Frame.pushAnd _ _

end Machine

end Cellscript
