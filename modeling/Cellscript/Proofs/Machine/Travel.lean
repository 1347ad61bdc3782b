import Cellscript.Proofs.Language.Evaluation
import Cellscript.Proofs.Machine.Decoding
import Cellscript.Proofs.Machine.Histories
import Cellscript.Proofs.Machine.Progress

/-!
Getting from one instruction to another. The log grows on the way but has no say in where it leads,
so two machines that differ in nothing else are taken for one.
-/

set_option autoImplicit false

namespace Cellscript

namespace Machine

variable {α β : Type}

def world (m : Machine) : World := ⟨m.store, m.sink⟩

def withLog (m : Machine) (log : Array TraceEntry) : Machine := { m with log }

/-! ## The log -/

def relog (log : Array TraceEntry) : EStateM.Result Fault Machine α → EStateM.Result Fault Machine α
  | .ok a m => .ok a (m.withLog log)
  | .error fault m => .error fault (m.withLog log)

/-- The action neither reads the log nor writes it. -/
def Logless (action : Action α) : Prop := ∀ m log, action (m.withLog log) = relog log (action m)

namespace Logless

theorem pure (a : α) : Logless (Pure.pure a) := fun _ _ => rfl

theorem throw (fault : Fault) : Logless (MonadExcept.throw fault : Action α) := fun _ _ => rfl

theorem bind {first : Action α} {next : α → Action β} (before : Logless first)
    (after : ∀ a, Logless (next a)) : Logless (first >>= next) := by
  intro m log
  rw [bind_apply, bind_apply, before m log]
  cases first m with
  | ok a t => exact after a t log
  | error fault t => rfl

theorem push (value : Value) : Logless (Machine.push value) := by
  intro m log
  unfold Machine.push
  rw [apply_ite (relog log)]
  rfl

theorem pop : Logless Machine.pop := by
  rintro ⟨limits, stack, store, sink, old⟩ log
  cases stack <;> rfl

theorem pushAnd (value : Value) (next : Option Nat) :
    Logless (do Machine.push value; return next) := (push value).bind fun _ => pure next

theorem popNumbers (number? : Value → Option Float) : Logless (Machine.popNumbers number?) := by
  refine pop.bind fun b => pop.bind fun a => ?_
  split
  · exact pure _
  · exact throw _

theorem onStore (action : Store.Action α) : Logless (Machine.onStore action) := by
  intro m log
  unfold Machine.onStore
  simp only [withLog]
  cases action m.store <;> rfl

theorem ofStore (read : Store → Except Fault α) : Logless (Machine.ofStore read) := by
  intro m log
  unfold Machine.ofStore
  simp only [withLog]
  cases read m.store <;> rfl

theorem print (text : Store → String) :
    Logless (do Machine.print (text (← EStateM.get).store)) := by
  intro m log
  rw [bind_apply_ok (get_apply _), bind_apply_ok (get_apply _)]
  unfold Machine.print
  simp only [withLog]
  rcases m.sink.write (text m.store ++ "\n").toUTF8 with ⟨sink, _ | _⟩ <;> rfl

theorem fetch (chunk : Chunk) (offset : Nat) : Logless (Machine.fetch chunk offset) := by
  intro m log
  unfold Machine.fetch
  split <;> rfl

theorem labelOffset (chunk : Chunk) (label : Value) :
    Logless (Machine.labelOffset chunk label) := by
  intro m log
  unfold Machine.labelOffset
  split <;> rfl

end Logless

theorem perform_logless (chunk : Chunk) (op : Opcode) (ip : Nat) :
    Logless (perform chunk op ip) := by
  cases op with
  | halt => exact .pure none
  | constant =>
    refine (Logless.fetch chunk ip).bind fun index => ?_
    split
    · exact .pushAnd _ _
    · exact (Logless.throw _).bind fun _ => .pure _
  | yes | no => exact .pushAnd _ _
  | negate =>
    refine Logless.pop.bind fun value => ?_
    split
    · exact .pushAnd _ _
    · exact (Logless.throw _).bind fun _ => .pure _
  | not => exact Logless.pop.bind fun value => .pushAnd _ _
  | add | subtract | multiply | divide | less | greater =>
    exact (Logless.popNumbers _).bind fun operands => .pushAnd _ _
  | equal => exact Logless.pop.bind fun b => Logless.pop.bind fun a => .pushAnd _ _
  | print =>
    refine Logless.pop.bind fun value => ?_
    exact (Logless.print fun s => (shown s value).plain).bind fun _ => .pure _
  | pop => exact Logless.pop.bind fun value => (Logless.ofStore _).bind fun _ => .pure _
  | setPointer | setPointerInverse | exchange =>
    exact Logless.pop.bind fun _ => Logless.pop.bind fun _ => (Logless.onStore _).bind fun _ =>
      .pushAnd _ _
  | setPointerNoPush =>
    exact Logless.pop.bind fun _ => Logless.pop.bind fun _ => (Logless.onStore _).bind fun _ =>
      .pure _
  | getPointer =>
    exact Logless.pop.bind fun operand => (Logless.ofStore (·.read operand)).bind fun _ =>
      .pushAnd _ _
  | jumpIfFalseToLabel =>
    refine Logless.pop.bind fun label => Logless.pop.bind fun predicate => ?_
    split
    · exact (Logless.labelOffset chunk label).bind fun _ => .pure _
    · exact .pure _
  | jump => exact (Logless.fetch chunk ip).bind fun _ => .pure _
  | jumpIfFalse => exact (Logless.fetch chunk ip).bind fun _ => Logless.pop.bind fun _ => .pure _

theorem step_logless (chunk : Chunk) (ip : Nat) : Logless (step chunk ip) := by
  refine (Logless.fetch chunk ip).bind fun byte => ?_
  split
  · exact perform_logless chunk _ (ip + 1)
  · exact .throw _

theorem note_withLog (m : Machine) (chunk : Chunk) (ip : Nat) :
    ∃ log, m.note chunk ip = m.withLog log := by
  unfold MachineOf.note
  split
  · exact ⟨_, rfl⟩
  · exact ⟨m.log, rfl⟩

theorem step_note (chunk : Chunk) (ip : Nat) (m : Machine) (old : Array TraceEntry) :
    ∃ log, step chunk ip ((m.withLog old).note chunk ip) = relog log (step chunk ip m) := by
  obtain ⟨log, noted⟩ := note_withLog (m.withLog old) chunk ip
  refine ⟨log, ?_⟩
  rw [noted]
  exact step_logless chunk ip m log

theorem after_withLog {chunk : Chunk} {n ip next : Nat} {m t : Machine}
    (reached : after chunk n (ip, m) = some (next, t)) (log : Array TraceEntry) :
    ∃ log', after chunk n (ip, m.withLog log) = some (next, t.withLog log') := by
  induction n generalizing ip m log with
  | zero =>
    cases reached
    exact ⟨log, rfl⟩
  | succ n ih =>
    obtain ⟨first, plain⟩ := step_note chunk ip m m.log
    obtain ⟨second, changed⟩ := step_note chunk ip m log
    rw [after] at reached ⊢
    rw [changed]
    change step chunk ip (m.note chunk ip) = _ at plain
    rw [plain] at reached
    cases stepped : step chunk ip m with
    | error fault u =>
      rw [stepped] at reached
      cases reached
    | ok place u =>
      rw [stepped] at reached
      cases place with
      | none => cases reached
      | some place => exact ih reached second

theorem after_evolves {chunk : Chunk} {n ip next : Nat} {m t : Machine}
    (reached : after chunk n (ip, m) = some (next, t)) : m.Evolves t := by
  induction n generalizing ip m with
  | zero =>
    cases reached
    exact .refl _
  | succ n ih =>
    have first := (note_evolves m chunk ip).trans (step_evolves chunk ip (m.note chunk ip))
    rw [after] at reached
    cases stepped : step chunk ip (m.note chunk ip) with
    | error fault u =>
      rw [stepped] at reached
      cases reached
    | ok place u =>
      rw [stepped] at reached first
      cases place with
      | none => cases reached
      | some place => exact first.trans (ih reached)

/-- A run that comes to an instruction which fails is over. -/
theorem runFrom_of_failing {chunk : Chunk} {n start ip : Nat} {m t u : Machine} {fault : Fault}
    (reached : after chunk n (start, m) = some (ip, t))
    (failed : step chunk ip t = .error fault u) :
    ∃ v, runFrom chunk (n + 1) start m = (v, .failed ⟨fault, chunk.lineAt ip⟩) ∧
      v.world = u.world := by
  obtain ⟨log, noted⟩ := step_note chunk ip t t.log
  rw [failed] at noted
  refine ⟨{ u.withLog log with stack := [] }, ?_, rfl⟩
  rw [runFrom_after reached]
  exact runFrom_failed noted 0

/-! ## Ways -/

/-- The run comes from one place to another in at least so many instructions. -/
def Reaches (chunk : Chunk) (least : Nat) (here there : Nat × Machine) : Prop :=
  ∃ n log, least ≤ n ∧ after chunk n here = some (there.1, there.2.withLog log)

/-- What the last instruction of a run gives. -/
def lastStep (u : Machine) : Except Fault Unit → EStateM.Result Fault Machine (Option Nat)
  | .ok _ => .ok none u
  | .error fault => .error fault u

/-- The run returns or fails, and leaves the world so. -/
def Ends (chunk : Chunk) (here : Nat × Machine) (result : Except Fault Unit) (w : World) : Prop :=
  ∃ n ip t u, after chunk n here = some (ip, t) ∧ step chunk ip t = lastStep u result ∧ u.world = w

namespace Reaches

variable {chunk : Chunk} {least more : Nat} {here there last : Nat × Machine}

theorem refl (chunk : Chunk) (here : Nat × Machine) : Reaches chunk 0 here here :=
  ⟨0, here.2.log, Nat.le_refl 0, rfl⟩

theorem weaken (reaches : Reaches chunk least here there) {fewer : Nat} (less : fewer ≤ least) :
    Reaches chunk fewer here there := by
  obtain ⟨n, log, enough, reached⟩ := reaches
  exact ⟨n, log, Nat.le_trans less enough, reached⟩

theorem of_step {ip next : Nat} {m t : Machine} (stepped : step chunk ip m = .ok (some next) t) :
    Reaches chunk 1 (ip, m) (next, t) := by
  obtain ⟨log, noted⟩ := step_note chunk ip m m.log
  rw [stepped] at noted
  exact ⟨1, log, Nat.le_refl 1, after_succ noted 0⟩

theorem trans (first : Reaches chunk least here there) (second : Reaches chunk more there last) :
    Reaches chunk (least + more) here last := by
  obtain ⟨n, log, enough, reached⟩ := first
  obtain ⟨k, _, plenty, later⟩ := second
  obtain ⟨final, relogged⟩ := after_withLog later log
  refine ⟨n + k, final, Nat.add_le_add enough plenty, ?_⟩
  rw [after_add, reached]
  exact relogged

theorem ends {result : Except Fault Unit} {w : World} (first : Reaches chunk least here there)
    (second : Ends chunk there result w) : Ends chunk here result w := by
  obtain ⟨n, log, _, reached⟩ := first
  obtain ⟨k, ip, t, u, later, stepped, left⟩ := second
  obtain ⟨final, relogged⟩ := after_withLog later log
  refine ⟨n + k, ip, t.withLog final, u.withLog final, ?_, ?_, left⟩
  · rw [after_add, reached]
    exact relogged
  · rw [step_logless chunk ip t final, stepped]
    cases result <;> rfl

end Reaches

namespace Ends

variable {chunk : Chunk} {ip : Nat} {m : Machine} {w : World}

theorem returned (ends : Ends chunk (ip, m) (.ok ()) w) :
    ∃ n t, runFrom chunk n ip m = (t, .returned) ∧ t.world = w := by
  obtain ⟨n, last, t, u, reached, stepped, left⟩ := ends
  obtain ⟨log, noted⟩ := step_note chunk last t t.log
  rw [stepped] at noted
  refine ⟨n + 1, u.withLog log, ?_, left⟩
  rw [runFrom_after reached]
  exact runFrom_returned noted 0

theorem failed {fault : Fault} (ends : Ends chunk (ip, m) (.error fault) w) :
    ∃ n t line, runFrom chunk n ip m = (t, .failed ⟨fault, line⟩) ∧ t.world = w := by
  obtain ⟨n, last, t, u, reached, stepped, left⟩ := ends
  obtain ⟨v, ended, same⟩ := runFrom_of_failing reached stepped
  exact ⟨n + 1, v, chunk.lineAt last, ended, same.trans left⟩

end Ends

/-! ## Code that works on the store -/

/-- Code that does what `value` does to the store, and comes to the instruction and the stack that
the value it gives tells. Where `value` fails, the run fails. -/
def Carries (chunk : Chunk) (max least : Nat) (here : Nat × List Value) (value : Store.Action α)
    (place : α → Nat × List Value) : Prop :=
  ∀ m : Machine, m.limits.stackMax = max → m.stack = here.2 →
    match value m.store with
    | .ok a s =>
      Reaches chunk least (here.1, m) ((place a).1, { m with stack := (place a).2, store := s })
    | .error fault s => Ends chunk (here.1, m) (.error fault) ⟨s, m.sink⟩

namespace Carries

variable {chunk : Chunk} {max least more : Nat} {here : Nat × List Value}

theorem pure (a : α) (place : α → Nat × List Value) :
    Carries chunk max 0 (place a) (Pure.pure a) place := by
  intro m _ stack
  change Reaches chunk 0 ((place a).1, m) ((place a).1, { m with stack := (place a).2 })
  rw [← stack]
  exact .refl chunk _

theorem bind {value : Store.Action α} {middle : α → Nat × List Value} {next : α → Store.Action β}
    {place : β → Nat × List Value} (first : Carries chunk max least here value middle)
    (second : ∀ a, Carries chunk max more (middle a) (next a) place) :
    Carries chunk max (least + more) here (value >>= next) place := by
  intro m limited stack
  have before := first m limited stack
  rw [bind_apply]
  cases done : value m.store with
  | error fault s =>
    rw [done] at before
    exact before
  | ok a s =>
    rw [done] at before
    have after := second a { m with stack := (middle a).2, store := s } limited rfl
    dsimp only at after ⊢
    cases last : next a s with
    | error fault t =>
      rw [last] at after
      exact before.ends after
    | ok b t =>
      rw [last] at after
      exact before.trans after

theorem of_map {value : Store.Action α} {f : α → β} {place : β → Nat × List Value}
    (carries : Carries chunk max least here (f <$> value) place) :
    Carries chunk max least here value fun a => place (f a) := by
  intro m limited stack
  have before := carries m limited stack
  rw [map_apply] at before
  cases done : value m.store with
  | error fault s =>
    rw [done] at before
    exact before
  | ok a s =>
    rw [done] at before
    exact before

theorem constant {a : α} {place : α → Nat × List Value}
    (carries : Carries chunk max least here (Pure.pure a) place) :
    Carries chunk max least here (Pure.pure ()) fun _ => place a := carries

theorem weaken {value : Store.Action α} {place : α → Nat × List Value}
    (carries : Carries chunk max least here value place) {fewer : Nat} (less : fewer ≤ least) :
    Carries chunk max fewer here value place := by
  intro m limited stack
  have before := carries m limited stack
  cases done : value m.store with
  | error fault s =>
    rw [done] at before
    exact before
  | ok a s =>
    rw [done] at before
    exact before.weaken less

end Carries

end Machine

end Cellscript
