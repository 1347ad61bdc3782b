import Cellscript.Interpreter
import Cellscript.Proofs.Machine.Habits
import Cellscript.Proofs.Store.Soundness

/-!
What stays true of a machine through all runs and resets, whatever code it is given: the store is
sound, stack and arena keep to their limits, and names keep their cells until the next reset.
-/

set_option autoImplicit false

namespace Cellscript

open Relation (ReflTransGen TransGen)

namespace Machine

structure Sound (m : Machine) : Prop where
  capacity : m.store.cells.capacity = m.limits.arenaCapacity
  stack : m.stack.length ≤ m.limits.stackMax
  store : m.store.Sound

/-- What every instruction keeps: the limits, the cell of every name, and soundness. -/
structure Evolves (m n : Machine) : Prop where
  limits : n.limits = m.limits
  store : m.store.Evolves n.store
  stack : m.stack.length ≤ m.limits.stackMax → n.stack.length ≤ m.limits.stackMax

namespace Evolves

theorem refl (m : Machine) : m.Evolves m := ⟨rfl, .refl _, id⟩

theorem trans {m n o : Machine} (first : m.Evolves n) (second : n.Evolves o) : m.Evolves o where
  limits := second.limits.trans first.limits
  store := first.store.trans second.store
  stack fits := first.limits ▸ second.stack (first.limits ▸ first.stack fits)

theorem sound {m n : Machine} (evolves : m.Evolves n) (sound : m.Sound) : n.Sound where
  capacity := by rw [evolves.store.capacity, evolves.limits, sound.capacity]
  stack := evolves.limits ▸ evolves.stack sound.stack
  store := evolves.store.sound sound.store

end Evolves

/-- Every instruction, and every part of it, keeps to that. -/
theorem evolving : Habit Evolves where
  refl := Evolves.refl
  trans := Evolves.trans
  stack m stack grows := ⟨rfl, .refl _, fun fits => by
    change stack.length ≤ m.limits.stackMax
    omega⟩
  sink _ _ := ⟨rfl, .refl _, id⟩
  assign m operand value := ⟨rfl, Store.assign_evolves m.store operand value, id⟩
  exchange m left right := ⟨rfl, Store.exchange_evolves m.store left right, id⟩

theorem step_evolves (chunk : Chunk) (ip : Nat) : Within Evolves (step chunk ip) :=
  evolving.step chunk ip

theorem logs_evolves (m : Machine) (log : Array TraceEntry) : m.Evolves { m with log } :=
  ⟨rfl, .refl _, id⟩

theorem note_evolves (m : Machine) (chunk : Chunk) (ip : Nat) : m.Evolves (m.note chunk ip) :=
  evolving.note logs_evolves m chunk ip

theorem runFrom_evolves (chunk : Chunk) (steps ip : Nat) (m : Machine) :
    m.Evolves (runFrom chunk steps ip m).1 :=
  evolving.runFrom logs_evolves chunk steps ip m

theorem reset_sound {m : Machine} (sound : m.Sound) : m.reset.Sound where
  capacity := sound.capacity
  stack := Nat.zero_le _
  store := Store.clear_sound sound.store

end Machine

/-! ## Histories -/

/-- What is asked of an interpreter. Runs are cut short after a number of instructions, so that
every point between two instructions of a run is where a shorter one ends. -/
inductive Request
  | run (chunk : Chunk) (steps : Nat)
  | execute (source : String) (steps : Nat)
  | reset

namespace Interpreter

def serve (i : Interpreter) : Request → Interpreter
  | .run chunk steps => (i.run chunk steps).1
  | .execute source steps => (i.execute source steps).1
  | .reset => i.reset

def serveAll (i : Interpreter) (requests : List Request) : Interpreter := requests.foldl serve i

theorem execute_machine (i : Interpreter) (source : String) (steps : Nat) :
    (i.execute source steps).1.machine = i.machine ∨
      ∃ chunk, (i.execute source steps).1.machine = (i.machine.run chunk steps).1 := by
  unfold execute compile
  obtain ⟨compiler, result⟩ := i.compiler.compile source
  cases result with
  | error diagnostics => exact Or.inl rfl
  | ok chunk => exact Or.inr ⟨chunk, rfl⟩

theorem serve_evolves (i : Interpreter) (request : Request) (kept : request ≠ .reset) :
    i.machine.Evolves (i.serve request).machine := by
  cases request with
  | run chunk steps => exact Machine.runFrom_evolves chunk steps 0 i.machine
  | execute source steps =>
    rcases execute_machine i source steps with same | ⟨chunk, ran⟩
    · change i.machine.Evolves (i.execute source steps).1.machine
      rw [same]
      exact .refl _
    · change i.machine.Evolves (i.execute source steps).1.machine
      rw [ran]
      exact Machine.runFrom_evolves chunk steps 0 i.machine
  | reset => exact absurd rfl kept

theorem serveAll_evolves (i : Interpreter) {requests : List Request}
    (kept : Request.reset ∉ requests) : i.machine.Evolves (i.serveAll requests).machine := by
  induction requests generalizing i with
  | nil => exact .refl _
  | cons request rest ih =>
    obtain ⟨first, others⟩ := not_or.mp (List.mem_cons.not.mp kept)
    exact (serve_evolves i request (Ne.symm first)).trans (ih (i.serve request) others)

theorem serve_sound {i : Interpreter} (sound : i.machine.Sound) (request : Request) :
    (i.serve request).machine.Sound := by
  cases request with
  | reset => exact Machine.reset_sound sound
  | run chunk steps => exact (serve_evolves i (.run chunk steps) nofun).sound sound
  | execute source steps =>
    exact (serve_evolves i (.execute source steps) nofun).sound sound

theorem serveAll_sound {i : Interpreter} (sound : i.machine.Sound) (requests : List Request) :
    (i.serveAll requests).machine.Sound := by
  induction requests generalizing i with
  | nil => exact sound
  | cons request rest ih => exact ih (serve_sound sound request)

theorem serveAll_limits (i : Interpreter) (requests : List Request) :
    (i.serveAll requests).machine.limits = i.machine.limits := by
  induction requests generalizing i with
  | nil => rfl
  | cons request rest ih =>
    refine (ih (i.serve request)).trans ?_
    cases request with
    | reset => rfl
    | run chunk steps => exact (serve_evolves i (.run chunk steps) nofun).limits
    | execute source steps =>
      exact (serve_evolves i (.execute source steps) nofun).limits

theorem new_sound {limits : Limits} (small : limits.arenaCapacity ≤ UInt32.size) (sink : Sink)
    (substitutions : List Substitution) : (new limits sink substitutions).machine.Sound where
  capacity := rfl
  stack := Nat.zero_le _
  store := Store.empty_sound small

/-- Through every history of runs and resets, and between any two instructions: names and cells
correspond one to one; alias links stay inside the store and run in no circle, so that every name
leads along at most as many links as there are cells to a cell with a value of its own, and the
search along links is exact; stack and arena keep to their limits; and no instruction, nor anything
else before the next reset, takes a name away from its cell. -/
theorem history_keeps_aliases_sound (limits : Limits)
    (small : limits.arenaCapacity ≤ UInt32.size) (sink : Sink)
    (substitutions : List Substitution) (requests : List Request) :
    let i := (new limits sink substitutions).serveAll requests
    let s := i.machine.store
    ((∀ name c, s.bound? name = some c → c.index.toNat < s.cells.size) ∧
      ∀ index < s.cells.size, ∃! name, ∃ c, s.bound? name = some c ∧ c.index.toNat = index) ∧
    ((∀ c d, s.cells.get? c = some (.pointer d) → d.index.toNat < s.cells.size) ∧
      (∀ c, ¬ TransGen s.Link c c) ∧
      (∀ name c, s.bound? name = some c →
        (∃ links ≤ s.cells.size, s.walk links c = some (s.root c)) ∧
        ∃ value, s.cells.get? (s.root c) = some value ∧ s.valueOf? name = some value ∧
          ∀ d, value ≠ .pointer d) ∧
      ∀ c d, s.reaches c d = true ↔ ReflTransGen s.Link c d) ∧
    (i.machine.stack.length ≤ limits.stackMax ∧ s.cells.size ≤ limits.arenaCapacity) ∧
    (∀ name c, s.bound? name = some c →
      (∀ chunk ip, (stateAfter (Machine.step chunk ip i.machine)).store.bound? name = some c) ∧
      ∀ later, Request.reset ∉ later → (i.serveAll later).machine.store.bound? name = some c) := by
  intro i s
  have sound : i.machine.Sound := serveAll_sound (new_sound small sink substitutions) requests
  have limited :
      i.machine.limits = limits := serveAll_limits (new limits sink substitutions) requests
  have acyclic : s.Acyclic := sound.store.acyclic
  refine ⟨⟨?_, ?_⟩, ⟨?_, acyclic, ?_, ?_⟩, ⟨?_, ?_⟩, ?_⟩
  · intro name c bound
    exact sound.store.bound_live bound
  · intro index inside
    have fits := Nat.le_trans sound.store.fits sound.store.numbered
    have wide : index.toUInt32.toNat = index := Nat.mod_eq_of_lt (Nat.lt_of_lt_of_le inside fits)
    have live : s.Live ⟨index.toUInt32⟩ := by
      unfold Store.Live
      rw [wide]
      exact inside
    obtain ⟨name, bound⟩ := sound.store.bound_surjective live
    refine ⟨name, ⟨_, bound, wide⟩, ?_⟩
    rintro other ⟨c, boundOther, same⟩
    have equal : c = ⟨index.toUInt32⟩ := Arena.Handle.eq_of_toNat (same.trans wide.symm)
    subst equal
    exact sound.store.bound_injective boundOther bound
  · intro c d link
    exact sound.store.link_live link
  · intro name c bound
    obtain ⟨links, within, walked, _⟩ := Store.walk_root acyclic c
    exact ⟨⟨links, within, walked⟩, sound.store.valueOf? bound⟩
  · intro c d
    exact Store.reaches_eq_true_iff acyclic
  · exact limited ▸ sound.stack
  · rw [← limited, ← sound.capacity]
    exact sound.store.fits
  · intro name c bound
    refine ⟨fun chunk ip => ?_, fun later kept => ?_⟩
    · exact (Machine.step_evolves chunk ip i.machine).store.keeps bound
    · exact (serveAll_evolves i kept).store.keeps bound

/-- Stores through an address that no cell has. -/
def strayStore : Chunk where
  code := [Opcode.constant.byte, 0, Opcode.constant.byte, 1, Opcode.setPointer.byte,
    Opcode.halt.byte].toArray.map (⟨·, 1⟩)
  constants := #[.pointer ⟨7⟩, .number 1]

/-- The second name is an alias of the first, a stray store fails, and the alias still leads to the
value of the first name. -/
theorem history_keeps_aliases_sound_after_stray_store :
    let requests := [.execute "'a = 5\n'b = a\n" 100, .run strayStore 100]
    let s := ((new {} {} []).serveAll requests).machine.store
    ({} : Limits).arenaCapacity ≤ UInt32.size ∧ s.bound? "b" = some ⟨1⟩ ∧
      s.link? ⟨1⟩ = some ⟨0⟩ ∧
      ∃ value, s.cells.get? (s.root ⟨1⟩) = some value ∧ s.valueOf? "b" = some value ∧
        ∀ d, value ≠ .pointer d := by
  intro requests s
  have small : ({} : Limits).arenaCapacity ≤ UInt32.size := by decide
  have bound : s.bound? "b" = some ⟨1⟩ := by decide +kernel
  have link : s.link? ⟨1⟩ = some ⟨0⟩ := by decide +kernel
  obtain ⟨_, ⟨_, _, values, _⟩, _⟩ := history_keeps_aliases_sound {} small {} [] requests
  exact ⟨small, bound, link, (values "b" ⟨1⟩ bound).2⟩

end Interpreter

end Cellscript
