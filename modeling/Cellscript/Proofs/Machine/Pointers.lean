import Cellscript.Proofs.Compile.WellFormed
import Cellscript.Proofs.Machine.Histories
import Cellscript.Proofs.Store.Pointers

/-!
Scripts never come by a dangling pointer. Each instruction, whatever bytes it was read from, keeps
every address on the stack and in the store at a cell, as long as the constants of the code hold no
addresses; and no compiled chunk has such constants.
-/

set_option autoImplicit false

namespace Cellscript

theorem Value.Constant.live {value : Value} (constant : value.Constant) (s : Store) :
    value.Live s := by
  cases constant <;> trivial

namespace Machine

/-- Every address on the stack and in the store is that of a cell. -/
structure Safe (m : Machine) : Prop where
  store : m.store.Grounded
  stack : ∀ value ∈ m.stack, value.Live m.store

variable {α β : Type} {m n : Machine}

/-- The machine stays safe and finds every cell that it asks for; `post` holds unless it fails. -/
def Ensures (action : Action α) (m : Machine) (post : α → Machine → Prop) : Prop :=
  match action m with
  | .ok a n => n.Safe ∧ post a n
  | .error fault n => n.Safe ∧ ¬ fault.Dangling

/-- The machine stays safe and finds every cell that it asks for. -/
def Harmless (action : Action α) (m : Machine) : Prop := Ensures action m fun _ _ => True

theorem Harmless.pure (safe : m.Safe) (a : α) : Harmless (pure a) m := ⟨safe, trivial⟩

theorem Harmless.throw (safe : m.Safe) {fault : Fault} (known : ¬ fault.Dangling) :
    Harmless (throw fault : Action α) m := ⟨safe, known⟩

theorem Harmless.get (safe : m.Safe) : Harmless EStateM.get m := ⟨safe, trivial⟩

theorem Ensures.bind {first : Action α} {next : α → Action β} {middle : α → Machine → Prop}
    {post : β → Machine → Prop} (before : Ensures first m middle)
    (after : ∀ a n, n.Safe → middle a n → Ensures (next a) n post) :
    Ensures (first >>= next) m post := by
  unfold Ensures at before ⊢
  rw [bind_apply]
  cases done : first m with
  | ok a n =>
    rw [done] at before
    exact after a n before.1 before.2
  | error fault n =>
    rw [done] at before
    exact before

theorem Harmless.bind {first : Action α} {next : α → Action β} (before : Harmless first m)
    (after : ∀ a n, n.Safe → Harmless (next a) n) : Harmless (first >>= next) m :=
  Ensures.bind before fun a n safe _ => after a n safe

/-! ## The parts of instructions -/

theorem fetch_harmless (safe : m.Safe) (chunk : Chunk) (offset : Nat) :
    Harmless (fetch chunk offset) m := by
  unfold Harmless Ensures fetch
  cases chunk.byteAt? offset with
  | none => exact ⟨safe, nofun⟩
  | some byte => exact ⟨safe, trivial⟩

theorem labelOffset_harmless (safe : m.Safe) (chunk : Chunk) (label : Value) :
    Harmless (labelOffset chunk label) m := by
  unfold Harmless Ensures labelOffset
  cases label.name?.bind chunk.resolve? with
  | none => exact ⟨safe, nofun⟩
  | some offset => exact ⟨safe, trivial⟩

theorem print_harmless (safe : m.Safe) (text : String) : Harmless (print text) m := by
  unfold Harmless Ensures print
  obtain ⟨sink, all⟩ := m.sink.write (text ++ "\n").toUTF8
  cases all with
  | true => exact ⟨⟨safe.store, safe.stack⟩, trivial⟩
  | false => exact ⟨⟨safe.store, safe.stack⟩, nofun⟩

/-- What comes off the stack is live. -/
theorem pop_ensures (safe : m.Safe) :
    Ensures pop m fun value n => value.Live n.store ∧ n.store = m.store := by
  unfold Ensures pop
  cases stack : m.stack with
  | nil => exact ⟨safe, nofun⟩
  | cons value rest =>
    have live := safe.stack
    rw [stack] at live
    refine ⟨⟨safe.store, fun other member => ?_⟩, live value List.mem_cons_self, rfl⟩
    exact live other (List.mem_cons_of_mem value member)

theorem pushAnd_harmless (safe : m.Safe) {value : Value} (live : value.Live m.store)
    (next : Option Nat) : Harmless (do push value; return next) m := by
  refine Harmless.bind ?_ fun _ n safe => Harmless.pure safe next
  unfold Harmless Ensures push
  by_cases full : m.limits.stackMax ≤ m.stack.length
  · rw [if_pos full]
    exact ⟨safe, nofun⟩
  · rw [if_neg full]
    refine ⟨⟨safe.store, fun other member => ?_⟩, trivial⟩
    rcases List.mem_cons.mp member with rfl | below
    · exact live
    · exact safe.stack other below

/-- Two operands come off the stack. -/
theorem popTwo_harmless (safe : m.Safe) {next : Value → Value → Action α}
    (after : ∀ a b n, n.Safe → a.Live n.store → b.Live n.store → Harmless (next a b) n) :
    Harmless (do let a ← pop; let b ← pop; next a b) m := by
  refine Ensures.bind (pop_ensures safe) fun a n safe ⟨live, _⟩ => ?_
  refine Ensures.bind (pop_ensures safe) fun b o safe ⟨lives, same⟩ => ?_
  exact after a b o safe (same ▸ live) lives

theorem popNumbers_harmless (safe : m.Safe) (number? : Value → Option Float) :
    Harmless (popNumbers number?) m := by
  refine popTwo_harmless safe fun b a n safe _ _ => ?_
  split
  · exact Harmless.pure safe _
  · exact Harmless.throw safe nofun

theorem onStore_ensures {action : Store.Action α} {post : α → Store → Prop} (safe : m.Safe)
    (tame : m.store.Tame post (action m.store)) :
    Ensures (onStore action) m fun a n => post a n.store := by
  unfold Ensures onStore
  cases done : action m.store with
  | ok a store =>
    rw [done] at tame
    obtain ⟨grounded, grows, holds⟩ := tame
    exact ⟨⟨grounded, fun value member => Store.live_mono grows (safe.stack value member)⟩, holds⟩
  | error fault store =>
    rw [done] at tame
    obtain ⟨grounded, grows, known⟩ := tame
    exact ⟨⟨grounded, fun value member => Store.live_mono grows (safe.stack value member)⟩, known⟩

theorem read_ensures (safe : m.Safe) {operand : Value} (live : operand.Live m.store) :
    Ensures (ofStore (·.read operand)) m fun value n => value.Live n.store := by
  unfold Ensures ofStore
  dsimp only
  rcases Store.read_live safe.store live with ⟨value, done, lives⟩ | ⟨fault, failed, known⟩
  · rw [done]
    exact ⟨safe, lives⟩
  · rw [failed]
    exact ⟨safe, known⟩

theorem gotoTarget_never_dangles {s : Store} (grounded : s.Grounded) {chunk : Chunk} {value : Value}
    {fault : Fault} (failed : gotoTarget chunk value s = .error fault) : ¬ fault.Dangling := by
  unfold gotoTarget at failed
  split at failed
  · cases failed
  · split at failed
    · cases failed
    · cases failed
    · rename_i c _ bound
      have live := grounded.sound.root_live (grounded.sound.bound_live bound)
      obtain ⟨held, found, _⟩ := Store.get_live grounded live
      rw [found] at failed
      split at failed
      · rename_i missing
        cases missing
      · split at failed
        · cases failed
        · cases failed
          exact nofun
      · cases failed

theorem goto_harmless (safe : m.Safe) (chunk : Chunk) (value : Value) :
    Harmless (ofStore (gotoTarget chunk value)) m := by
  unfold Harmless Ensures ofStore
  cases done : gotoTarget chunk value m.store with
  | ok target => exact ⟨safe, trivial⟩
  | error fault => exact ⟨safe, gotoTarget_never_dangles safe.store done⟩

/-- An assignment whose cell goes onto the stack. -/
theorem assignAnd_harmless (safe : m.Safe) {operand value : Value} (first : operand.Live m.store)
    (second : value.Live m.store) (next : Option Nat) :
    Harmless (do push (.pointer (← onStore (Store.assign operand value))); return next) m :=
  Ensures.bind (onStore_ensures safe (Store.assign_tame safe.store first second))
    fun c _ safe live => pushAnd_harmless safe (show (Value.pointer c).Live _ from live) next

/-! ## Instructions -/

section Code

variable {chunk : Chunk} (constants : ∀ value ∈ chunk.constants, value.Constant)

include constants

theorem perform_harmless (safe : m.Safe) (op : Opcode) (ip : Nat) :
    Harmless (perform chunk op ip) m := by
  cases op with
  | halt => exact Harmless.pure safe none
  | constant =>
    refine Harmless.bind (fetch_harmless safe chunk ip) fun index n safe => ?_
    split
    · rename_i value found
      have constant := constants value (Array.mem_of_getElem? found)
      exact pushAnd_harmless safe (constant.live _) _
    · exact Harmless.bind (.throw safe nofun) fun _ _ safe => Harmless.pure safe _
  | yes => exact pushAnd_harmless safe (by trivial) _
  | no => exact pushAnd_harmless safe (by trivial) _
  | negate =>
    refine Ensures.bind (pop_ensures safe) fun value n safe _ => ?_
    split
    · exact pushAnd_harmless safe (by trivial) _
    · exact Harmless.bind (.throw safe nofun) fun _ _ safe => Harmless.pure safe _
  | not =>
    exact Ensures.bind (pop_ensures safe) fun value n safe _ => pushAnd_harmless safe (by trivial) _
  | add | subtract | multiply | divide | less | greater =>
    exact Harmless.bind (popNumbers_harmless safe _) fun numbers n safe =>
      pushAnd_harmless safe (by trivial) _
  | equal => exact popTwo_harmless safe fun b a n safe _ _ => pushAnd_harmless safe (by trivial) _
  | print =>
    refine Ensures.bind (pop_ensures safe) fun value n safe _ => ?_
    refine Harmless.bind (.get safe) fun _ _ safe => ?_
    exact Harmless.bind (print_harmless safe _) fun _ _ safe => Harmless.pure safe _
  | pop =>
    refine Ensures.bind (pop_ensures safe) fun value n safe _ => ?_
    exact Harmless.bind (goto_harmless safe chunk value) fun target n safe => Harmless.pure safe _
  | setPointer =>
    exact popTwo_harmless safe fun value operand n safe second first =>
      assignAnd_harmless safe first second _
  | setPointerInverse =>
    exact popTwo_harmless safe fun operand value n safe first second =>
      assignAnd_harmless safe first second _
  | setPointerNoPush =>
    refine popTwo_harmless safe fun value operand n safe second first => ?_
    exact Ensures.bind (onStore_ensures safe (Store.assign_tame safe.store first second))
      fun _ _ safe _ => Harmless.pure safe _
  | getPointer =>
    refine Ensures.bind (pop_ensures safe) fun operand n safe ⟨live, _⟩ => ?_
    exact Ensures.bind (read_ensures safe live) fun value o safe lives =>
      pushAnd_harmless safe lives _
  | exchange =>
    refine popTwo_harmless safe fun right left n safe second first => ?_
    exact Ensures.bind (onStore_ensures safe (Store.exchange_tame safe.store first second))
      fun c _ safe live => pushAnd_harmless safe (show (Value.pointer c).Live _ from live) _
  | jumpIfFalseToLabel =>
    refine popTwo_harmless safe fun label predicate n safe _ _ => ?_
    split
    · exact Harmless.bind (labelOffset_harmless safe chunk label) fun offset o safe =>
        Harmless.pure safe _
    · exact Harmless.pure safe _
  | jump =>
    exact Harmless.bind (fetch_harmless safe chunk ip) fun distance n safe => Harmless.pure safe _
  | jumpIfFalse =>
    refine Harmless.bind (fetch_harmless safe chunk ip) fun distance n safe => ?_
    exact Ensures.bind (pop_ensures safe) fun predicate o safe _ => Harmless.pure safe _

/-- An instruction at any offset, also where none starts. -/
theorem step_harmless (safe : m.Safe) (ip : Nat) : Harmless (step chunk ip) m := by
  refine Harmless.bind (fetch_harmless safe chunk ip) fun byte n safe => ?_
  split
  · exact perform_harmless constants safe _ _
  · exact Harmless.throw safe nofun

/-! ## Runs -/

theorem runFrom_safe (safe : m.Safe) (steps ip : Nat) :
    (runFrom chunk steps ip m).1.Safe ∧
      ∀ failure, (runFrom chunk steps ip m).2 = .failed failure → ¬ failure.fault.Dangling := by
  induction steps generalizing m ip with
  | zero => exact ⟨safe, fun failure failed => by cases failed⟩
  | succ steps ih =>
    have noted : Safe (m.note chunk ip) := by
      unfold MachineOf.note
      split
      · exact ⟨safe.store, safe.stack⟩
      · exact safe
    have stepped := step_harmless constants noted ip
    unfold Harmless Ensures at stepped
    cases done : step chunk ip (m.note chunk ip) with
    | ok next n =>
      rw [done] at stepped
      cases next with
      | none =>
        rw [runFrom_returned done]
        exact ⟨stepped.1, fun failure failed => by cases failed⟩
      | some target =>
        rw [runFrom_next done]
        exact ih stepped.1 target
    | error fault n =>
      rw [done] at stepped
      rw [runFrom_failed done]
      refine ⟨⟨stepped.1.store, fun value member => by cases member⟩, fun failure failed => ?_⟩
      cases failed
      exact stepped.2

end Code

theorem reset_safe (safe : m.Safe) : m.reset.Safe := ⟨Store.clear_grounded safe.store, nofun⟩

end Machine

/-! ## Histories -/

theorem Compiler.compile_constants {compiler : Compiler} {source : String} {chunk : Chunk}
    (compiled : (compiler.compile source).2 = .ok chunk) :
    ∀ value ∈ chunk.constants, value.Constant := by
  obtain ⟨script, _, holds, _⟩ := compile_holds compiled
  exact fun value member => Script.program_constant (holds.used value member)

/-- An interpreter with all chunks that it has compiled so far. -/
structure Workbench where
  interpreter : Interpreter
  chunks : List Chunk

/-- What is asked of a workbench. Interpreting a script is executing it and telling the verdict.
Runs are cut short after a number of instructions, so that every point between two instructions of a
run is where a shorter one ends. -/
inductive Task
  | compile (source : String)
  | run (index steps : Nat)
  | execute (source : String) (steps : Nat)
  | reset

def Machine.Outcome.failure? : Machine.Outcome → Option Failure
  | .failed failure => some failure
  | _ => none

def Verdict.failure? : Verdict → Option Failure
  | .failed failure => some failure
  | _ => none

namespace Workbench

def new (limits : Limits) (sink : Sink) (substitutions : List Substitution) : Workbench :=
  ⟨.new limits sink substitutions, []⟩

/-- Does what is asked. Gives the failure of a run that fails. -/
def attend (w : Workbench) : Task → Workbench × Option Failure
  | .compile source =>
    let (interpreter, result) := w.interpreter.compile source
    ({ interpreter, chunks := w.chunks ++ result.toOption.toList }, none)
  | .run index steps =>
    match w.chunks[index]? with
    | none => (w, none)
    | some chunk =>
      let (interpreter, outcome) := w.interpreter.run chunk steps
      ({ w with interpreter }, outcome.failure?)
  | .execute source steps =>
    let (interpreter, verdict) := w.interpreter.execute source steps
    ({ w with interpreter }, verdict.failure?)
  | .reset => ({ w with interpreter := w.interpreter.reset }, none)

def attendAll (w : Workbench) (tasks : List Task) : Workbench :=
  tasks.foldl (fun w t => (w.attend t).1) w

/-- The machine is safe and no chunk has addresses among its constants. -/
structure Safe (w : Workbench) : Prop where
  machine : w.interpreter.machine.Safe
  constants : ∀ chunk ∈ w.chunks, ∀ value ∈ chunk.constants, value.Constant

variable {w : Workbench}

theorem new_safe {limits : Limits} (small : limits.arenaCapacity ≤ UInt32.size) (sink : Sink)
    (substitutions : List Substitution) : (new limits sink substitutions).Safe where
  machine := ⟨Store.empty_grounded small, nofun⟩
  constants := nofun

/-- Executing a script runs the chunk that it compiles to, if there is one. -/
theorem execute_cases (i : Interpreter) (source : String) (steps : Nat) :
    (i.execute source steps).1.machine = i.machine ∧ (i.execute source steps).2.failure? = none ∨
      ∃ chunk, (i.compiler.compile source).2 = .ok chunk ∧
        (i.execute source steps).1.machine = (i.machine.run chunk steps).1 ∧
        (i.execute source steps).2.failure? = (i.machine.run chunk steps).2.failure? := by
  unfold Interpreter.execute Interpreter.compile
  obtain ⟨compiler, result⟩ := i.compiler.compile source
  cases result with
  | error diagnostics => exact Or.inl ⟨rfl, rfl⟩
  | ok chunk =>
    refine Or.inr ⟨chunk, rfl, rfl, ?_⟩
    change (Verdict.ofOutcome (i.machine.run chunk steps).2).failure? = _
    cases (i.machine.run chunk steps).2 <;> rfl

/-- One task keeps a workbench safe, and no run fails for want of a cell. -/
theorem attend_safe (safe : w.Safe) (task : Task) :
    (w.attend task).1.Safe ∧ ∀ failure ∈ (w.attend task).2, ¬ failure.fault.Dangling := by
  have runs {chunk : Chunk} (constants : ∀ value ∈ chunk.constants, value.Constant) (steps : Nat) :
      (w.interpreter.machine.run chunk steps).1.Safe ∧
        ∀ failure ∈ (w.interpreter.machine.run chunk steps).2.failure?,
        ¬ failure.fault.Dangling := by
    obtain ⟨stays, known⟩ := Machine.runFrom_safe constants safe.machine steps 0
    refine ⟨stays, fun failure member => ?_⟩
    unfold Machine.run at member
    cases outcome : (Machine.runFrom chunk steps 0 w.interpreter.machine).2 with
    | failed other =>
      rw [outcome] at member
      cases member
      exact known _ outcome
    | returned => rw [outcome] at member; cases member
    | unfinished => rw [outcome] at member; cases member
  cases task with
  | compile source =>
    refine ⟨⟨safe.machine, fun chunk member => ?_⟩, nofun⟩
    rcases List.mem_append.mp member with old | new
    · exact safe.constants chunk old
    · change chunk ∈ (w.interpreter.compiler.compile source).2.toOption.toList at new
      cases compiled : (w.interpreter.compiler.compile source).2 with
      | error diagnostics =>
        rw [compiled] at new
        cases new
      | ok fresh =>
        rw [compiled] at new
        rw [List.mem_singleton.mp new]
        exact Compiler.compile_constants compiled
  | run index steps =>
    unfold attend
    dsimp only
    cases found : w.chunks[index]? with
    | none => exact ⟨safe, nofun⟩
    | some chunk =>
      have constants := safe.constants chunk (List.mem_of_getElem? found)
      obtain ⟨stays, known⟩ := runs constants steps
      exact ⟨⟨stays, safe.constants⟩, known⟩
  | execute source steps =>
    change Safe ⟨_, _⟩ ∧ ∀ failure ∈ (w.interpreter.execute source steps).2.failure?, _
    rcases execute_cases w.interpreter source steps
      with ⟨same, none⟩ | ⟨chunk, compiled, ran, failed⟩
    · rw [none]
      exact ⟨⟨same ▸ safe.machine, safe.constants⟩, nofun⟩
    · obtain ⟨stays, known⟩ := runs (Compiler.compile_constants compiled) steps
      rw [failed]
      exact ⟨⟨ran ▸ stays, safe.constants⟩, known⟩
  | reset => exact ⟨⟨Machine.reset_safe safe.machine, safe.constants⟩, nofun⟩

theorem attendAll_safe (safe : w.Safe) (tasks : List Task) : (w.attendAll tasks).Safe := by
  induction tasks generalizing w with
  | nil => exact safe
  | cons task rest ih => exact ih (attend_safe safe task).1

/-- Through every history of compiling, executing, running what was compiled before, and resetting,
and between any two instructions: an address on the stack or in a cell is that of a cell, and no run
fails because a cell is missing. -/
theorem pointers_never_dangle (limits : Limits) (small : limits.arenaCapacity ≤ UInt32.size)
    (sink : Sink) (substitutions : List Substitution) (tasks : List Task) :
    let w := (new limits sink substitutions).attendAll tasks
    let m := w.interpreter.machine
    (∀ value ∈ m.stack, ∀ c, value = .pointer c ∨ value = .boxed c →
      c.index.toNat < m.store.cells.size) ∧
    (∀ d value, m.store.cells.get? d = some value → ∀ c, value = .pointer c ∨ value = .boxed c →
      c.index.toNat < m.store.cells.size) ∧
    ∀ task index line, (w.attend task).2 ≠ some ⟨.danglingPointer index, line⟩ := by
  intro w m
  have safe : w.Safe := attendAll_safe (new_safe small sink substitutions) tasks
  have live {value : Value} (live : value.Live m.store) (c : Cell)
      (address : value = .pointer c ∨ value = .boxed c) : c.index.toNat < m.store.cells.size := by
    rcases address with rfl | rfl
    · exact live
    · exact live
  refine ⟨fun value member => live (safe.machine.stack value member),
    fun d value held => live (safe.machine.store.contents held), fun task index line failed => ?_⟩
  exact (attend_safe safe task).2 _ failed ⟨index, rfl⟩

/-- A chunk from before a reset keeps an address in a cell. -/
def keepsake : List Task :=
  [.compile "'p = 'a = \"x\"\n'q = p\n", .run 0 100, .execute "print 'q\n'r = 'p" 3, .reset,
    .run 0 100]

theorem pointers_never_dangle_in_keepsake :
    let w := (new {} {} []).attendAll keepsake
    let s := w.interpreter.machine.store
    ({} : Limits).arenaCapacity ≤ UInt32.size ∧
      (∃ d c, s.cells.get? d = some (.boxed c) ∧ c.index.toNat < s.cells.size) ∧
      ∀ task index line, (w.attend task).2 ≠ some ⟨.danglingPointer index, line⟩ := by
  intro w s
  have small : ({} : Limits).arenaCapacity ≤ UInt32.size := by decide
  have kept : (s.cells.get? ⟨1⟩).any (·.equals (.boxed ⟨0⟩)) = true := by decide +kernel
  obtain ⟨_, cells, never⟩ := pointers_never_dangle {} small {} [] keepsake
  refine ⟨small, ?_, never⟩
  obtain ⟨value, held, same⟩ := (Option.any_eq_true _ _).mp kept
  cases value with
  | boxed c => exact ⟨_, c, held, cells _ _ held c (Or.inr rfl)⟩
  | _ => cases same

end Workbench

end Cellscript
