import Cellscript.Machine.Run
import Cellscript.Proofs.Store.Faults

/-!
How far a run has come after a number of instructions, what that says about its outcome, and where a
value that is discarded sends it.
-/

set_option autoImplicit false

namespace Cellscript.Machine

/-- The offset and the machine after so many instructions, unless the run is over by then. -/
def after (chunk : Chunk) : Nat → Nat × Machine → Option (Nat × Machine)
  | 0, here => some here
  | steps + 1, (ip, m) =>
    match step chunk ip (m.note chunk ip) with
    | .ok (some next) m => after chunk steps (next, m)
    | _ => none

theorem after_succ {chunk : Chunk} {ip next : Nat} {m t : Machine}
    (stepped : step chunk ip (m.note chunk ip) = .ok (some next) t) (steps : Nat) :
    after chunk (steps + 1) (ip, m) = after chunk steps (next, t) := by
  rw [after, stepped]

theorem after_add (chunk : Chunk) (first second : Nat) (here : Nat × Machine) :
    after chunk (first + second) here = (after chunk first here).bind (after chunk second) := by
  induction first generalizing here with
  | zero => rw [Nat.zero_add, after, Option.bind_some]
  | succ first ih =>
    obtain ⟨ip, m⟩ := here
    rw [Nat.add_right_comm, after, after]
    cases step chunk ip (m.note chunk ip) with
    | error fault t => rfl
    | ok next t =>
      cases next with
      | none => rfl
      | some next => exact ih (next, t)

/-- Where a run has come, it goes on from there. -/
theorem runFrom_after {chunk : Chunk} {steps ip next : Nat} {m t : Machine}
    (reached : after chunk steps (ip, m) = some (next, t)) (more : Nat) :
    runFrom chunk (steps + more) ip m = runFrom chunk more next t := by
  induction steps generalizing ip m with
  | zero =>
    cases reached
    rw [Nat.zero_add]
  | succ steps ih =>
    rw [after] at reached
    cases stepped : step chunk ip (m.note chunk ip) with
    | error fault u =>
      rw [stepped] at reached
      cases reached
    | ok place u =>
      rw [stepped] at reached
      cases place with
      | none => cases reached
      | some place =>
        rw [Nat.add_right_comm, runFrom_next stepped]
        exact ih reached

/-- A run either uses up its steps or ends at an instruction that it has come to. -/
theorem runFrom_cases (chunk : Chunk) (steps ip : Nat) (m : Machine) :
    (∃ here, after chunk steps (ip, m) = some here ∧
      runFrom chunk steps ip m = (here.2, .unfinished)) ∨
    ∃ n < steps, ∃ last t, after chunk n (ip, m) = some (last, t) ∧
      ((∃ u, step chunk last (t.note chunk last) = .ok none u ∧
          runFrom chunk steps ip m = (u, .returned)) ∨
        ∃ fault u, step chunk last (t.note chunk last) = .error fault u ∧
          runFrom chunk steps ip m =
            ({ u with stack := [] }, .failed ⟨fault, chunk.lineAt last⟩)) := by
  induction steps generalizing ip m with
  | zero => exact Or.inl ⟨(ip, m), rfl, rfl⟩
  | succ steps ih =>
    cases stepped : step chunk ip (m.note chunk ip) with
    | error fault u =>
      exact Or.inr ⟨0, Nat.succ_pos _, ip, m, rfl,
        Or.inr ⟨fault, u, stepped, runFrom_failed stepped steps⟩⟩
    | ok place u =>
      cases place with
      | none =>
        exact Or.inr ⟨0, Nat.succ_pos _, ip, m, rfl,
          Or.inl ⟨u, stepped, runFrom_returned stepped steps⟩⟩
      | some place =>
        rw [runFrom_next stepped, after_succ stepped]
        rcases ih place u with unfinished | ⟨n, below, last, t, reached, ended⟩
        · exact Or.inl unfinished
        · exact Or.inr ⟨n + 1, Nat.succ_lt_succ below, last, t,
            (after_succ stepped n).trans reached, ended⟩

/-- A run that is over stays so. -/
theorem runFrom_over {chunk : Chunk} {steps ip : Nat} {m t : Machine} {outcome : Outcome}
    (ended : runFrom chunk steps ip m = (t, outcome)) (final : outcome ≠ .unfinished) (more : Nat) :
    runFrom chunk (steps + more) ip m = (t, outcome) := by
  induction steps generalizing ip m with
  | zero =>
    cases ended
    exact absurd rfl final
  | succ steps ih =>
    rw [Nat.add_right_comm]
    cases stepped : step chunk ip (m.note chunk ip) with
    | error fault u =>
      rw [runFrom_failed stepped] at ended ⊢
      exact ended
    | ok place u =>
      cases place with
      | none =>
        rw [runFrom_returned stepped] at ended ⊢
        exact ended
      | some place =>
        rw [runFrom_next stepped] at ended ⊢
        exact ih ended

theorem runFrom_unique {chunk : Chunk} {steps others ip : Nat} {m t u : Machine}
    {outcome last : Outcome}
    (ended : runFrom chunk steps ip m = (t, outcome)) (final : outcome ≠ .unfinished)
    (stopped : runFrom chunk others ip m = (u, last)) (past : last ≠ .unfinished) :
    t = u ∧ outcome = last := by
  have first := runFrom_over ended final others
  rw [Nat.add_comm, runFrom_over stopped past steps] at first
  cases first
  exact ⟨rfl, rfl⟩

theorem lt_of_after {chunk : Chunk} {steps n ip : Nat} {m t : Machine} {outcome : Outcome}
    {here : Nat × Machine} (ended : runFrom chunk steps ip m = (t, outcome))
    (final : outcome ≠ .unfinished) (reached : after chunk n (ip, m) = some here) : n < steps := by
  refine Nat.lt_of_not_le fun late => final ?_
  obtain ⟨more, rfl⟩ := Nat.exists_eq_add_of_le late
  have going := runFrom_after reached 0
  rw [Nat.add_zero, runFrom_over ended final more] at going
  cases going
  rfl

theorem note_stack (m : Machine) (chunk : Chunk) (ip : Nat) :
    (m.note chunk ip).stack = m.stack := by
  unfold MachineOf.note
  split <;> rfl

theorem note_store (m : Machine) (chunk : Chunk) (ip : Nat) :
    (m.note chunk ip).store = m.store := by
  unfold MachineOf.note
  split <;> rfl

/-- The value names no label but a cell with a number, which is then taken as an offset. -/
def namesOffset (chunk : Chunk) (value : Value) (s : Store) : Bool :=
  match value.name? with
  | none => false
  | some name =>
    match chunk.resolve? name, s.bound? name with
    | none, some c =>
      match s.get (s.root c) with
      | .ok (.number _) => true
      | _ => false
    | _, _ => false

/-- The machine is about to discard a value that sends it to an offset. -/
def RawGoto (chunk : Chunk) (ip : Nat) (m : Machine) : Prop :=
  chunk.byteAt? ip = some Opcode.pop.byte ∧
    ∃ value rest, m.stack = value :: rest ∧ namesOffset chunk value m.store = true

instance (chunk : Chunk) (ip : Nat) (m : Machine) : Decidable (RawGoto chunk ip m) :=
  decidable_of_iff (chunk.byteAt? ip = some Opcode.pop.byte ∧
    m.stack.head?.any (namesOffset chunk · m.store) = true) <| by
    unfold RawGoto
    cases m.stack <;> simp

theorem RawGoto.of_note {chunk : Chunk} {ip : Nat} {m : Machine}
    (raw : RawGoto chunk ip (m.note chunk ip)) : RawGoto chunk ip m := by
  unfold MachineOf.note at raw
  split at raw <;> exact raw

/-- None of the first instructions of a run sends it to an offset. -/
def KeepsToLabels (chunk : Chunk) (steps : Nat) (here : Nat × Machine) : Prop :=
  ∀ n < steps, ∀ ip m, after chunk n here = some (ip, m) → ¬ RawGoto chunk ip m

instance (chunk : Chunk) (steps : Nat) (here : Nat × Machine) :
    Decidable (KeepsToLabels chunk steps here) :=
  decidable_of_iff
    (∀ n < steps, (after chunk n here).all (fun (ip, m) => ¬ RawGoto chunk ip m)) <| by
    unfold KeepsToLabels
    simp only [Option.all_eq_true, decide_eq_true_eq, Prod.forall]

theorem KeepsToLabels.later {chunk : Chunk} {steps n : Nat} {here there : Nat × Machine}
    (labels : KeepsToLabels chunk (n + steps) here) (reached : after chunk n here = some there) :
    KeepsToLabels chunk steps there := by
  intro k below ip m later
  refine labels (n + k) (Nat.add_lt_add_left below n) ip m ?_
  rw [after_add, reached]
  exact later

theorem gotoTarget_fault {chunk : Chunk} {value : Value} {s : Store} {fault : Fault}
    (failed : gotoTarget chunk value s = .error fault) : ¬ fault.Structural := by
  unfold gotoTarget at failed
  split at failed
  · cases failed
  · split at failed
    · cases failed
    · cases failed
    · split at failed
      · rename_i missing
        cases failed
        exact (Store.get_fault missing).not_structural
      · split at failed <;> cases failed
        exact id
      · cases failed

/-- Control goes to the label that a value names, or to a number taken as an offset. -/
theorem gotoTarget_eq_some {chunk : Chunk} {value : Value} {s : Store} {offset : Nat}
    (found : gotoTarget chunk value s = .ok (some offset)) :
    (∃ name, value.name? = some name ∧ chunk.resolve? name = some offset) ∨
      namesOffset chunk value s = true := by
  unfold gotoTarget at found
  unfold namesOffset
  cases named : value.name? with
  | none =>
    rw [named] at found
    cases found
  | some name =>
    rw [named] at found
    dsimp only at found ⊢
    cases resolved : chunk.resolve? name with
    | some target =>
      rw [resolved] at found
      cases found
      exact Or.inl ⟨name, rfl, resolved⟩
    | none =>
      rw [resolved] at found
      cases bound : s.bound? name with
      | none =>
        rw [bound] at found
        cases found
      | some c =>
        rw [bound] at found
        dsimp only at found ⊢
        split at found
        · cases found
        · rename_i held
          rw [held]
          exact Or.inr rfl
        · cases found

end Cellscript.Machine
