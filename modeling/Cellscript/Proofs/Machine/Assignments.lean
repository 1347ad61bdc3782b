import Cellscript.Proofs.Language.BlockLabels
import Cellscript.Proofs.Machine.Histories
import Cellscript.Proofs.Store.Classes

/-!
Assignments through names, in every state that a history of runs and resets can come to: which of
them fail, and what each name leads to and reads as after the others.
-/

set_option autoImplicit false

namespace Cellscript

open Relation (ReflTransGen)

/-- Every instruction leaves every name a root. -/
theorem Machine.rooting : Machine.Habit fun m n => m.store.Rooted → n.store.Rooted where
  refl _ := id
  trans first second := second ∘ first
  stack _ _ _ := id
  sink _ _ := id
  assign _ operand value rooted := Store.assign_rooted rooted operand value
  exchange _ left right rooted := Store.exchange_rooted rooted left right

namespace Interpreter

theorem serve_rooted {i : Interpreter} (rooted : i.machine.store.Rooted) (request : Request) :
    (i.serve request).machine.store.Rooted := by
  have ran (chunk : Chunk) (steps : Nat) : (i.machine.run chunk steps).1.store.Rooted :=
    Machine.rooting.runFrom (fun _ _ => id) chunk steps 0 i.machine rooted
  cases request with
  | run chunk steps => exact ran chunk steps
  | execute source steps =>
    change (i.execute source steps).1.machine.store.Rooted
    rcases execute_machine i source steps with same | ⟨chunk, done⟩
    · rw [same]
      exact rooted
    · rw [done]
      exact ran chunk steps
  | reset => exact Store.clear_rooted i.machine.store

theorem serveAll_rooted {i : Interpreter} (rooted : i.machine.store.Rooted)
    (requests : List Request) : (i.serveAll requests).machine.store.Rooted := by
  induction requests generalizing i with
  | nil => exact rooted
  | cons request rest ih => exact ih (serve_rooted rooted request)

theorem serveAll_capacity (i : Interpreter) (requests : List Request) :
    (i.serveAll requests).machine.store.cells.capacity = i.machine.store.cells.capacity := by
  induction requests generalizing i with
  | nil => rfl
  | cons request rest ih =>
    refine (ih (i.serve request)).trans ?_
    by_cases kept : request = .reset
    · rw [kept]
      rfl
    · exact (serve_evolves i request kept).store.capacity

/-- What an assignment through a name does in every state of every history, provided that a new cell
can be numbered. It fails only if the name needs a cell and there is none, or if it would close a
circle of aliases. A value that names no cell is then read through every name that led to the root
of the name, and through no other, and no alias changes. A value that names a cell leads the name,
and every name whose aliases came by its cell, to the root of that cell; every other name keeps its
root, and every other cell its content. -/
theorem assignment_updates_one_class (limits : Limits) (sink : Sink)
    (substitutions : List Substitution) (requests : List Request) (operand : Value) {n : String}
    (named : operand.name? = some n) (value : Value) :
    let s := ((new limits sink substitutions).serveAll requests).machine.store
    (s.bound? n = none → s.cells.size < limits.arenaCapacity → s.cells.size < UInt32.size) →
    ((∀ fault t, Store.assign operand value s = .error fault t →
        fault = .arenaExhausted limits.arenaCapacity ∨ ∃ name, fault = .aliasCycle name) ∧
      ((∃ t, Store.assign operand value s = .error (.arenaExhausted limits.arenaCapacity) t) ↔
        s.bound? n = none ∧ s.cells.size = limits.arenaCapacity) ∧
      ∀ name, (∃ t, Store.assign operand value s = .error (.aliasCycle name) t) ↔
        value = .text name ∧ (s.PassesThrough name n ∨
          name = n ∧ s.bound? n = none ∧ s.cells.size < limits.arenaCapacity)) ∧
    ∀ c t, Store.assign operand value s = .ok c t →
      t.bound? n = some c ∧
      ((∀ name, value = .text name → s.bound? name = none) →
        (∀ m, m = n ∨ s.SameRoot m n → ∃ kept, Store.Kept value kept ∧ t.valueOf? m = some kept) ∧
        (∀ m, m ≠ n → ¬ s.SameRoot m n → t.valueOf? m = s.valueOf? m) ∧
        ∀ d e, t.Link d e ↔ s.Link d e) ∧
      ∀ name source, value = .text name → s.bound? name = some source →
        (∀ m, m = n ∨ s.PassesThrough m n → t.rootOf? m = some (s.root source)) ∧
        (∀ m, m ≠ n → ¬ s.PassesThrough m n → t.rootOf? m = s.rootOf? m) ∧
        ∀ d, d ≠ c → t.cells.get? d = s.cells.get? d := by
  intro s numbered
  have rooted : s.Rooted := serveAll_rooted (Store.empty_rooted limits.arenaCapacity) requests
  have capacity : s.cells.capacity = limits.arenaCapacity :=
    serveAll_capacity (new limits sink substitutions) requests
  rw [← capacity] at numbered ⊢
  have assigns := Store.assign_assigns rooted named numbered value
  refine ⟨⟨?_, assigns.exhausted_iff rooted, assigns.cycle_iff rooted⟩, ?_⟩
  · intro fault t failed
    rw [failed] at assigns
    exact assigns.fault_cases
  · intro c t done
    rw [done] at assigns
    refine ⟨assigns.bound, ?_, ?_⟩
    · intro plain
      obtain ⟨u, opens, written⟩ := assigns.writes plain
      refine ⟨?_, ?_, opens.written_links written⟩
      · intro m inside
        exact ⟨_, Store.stored_kept value, opens.written_inside rooted written inside⟩
      · intro m other outside
        exact opens.written_outside rooted written other outside
    · intro name source text bound
      obtain ⟨u, opens, aim, unreached, linked⟩ := assigns.links text bound
      refine ⟨?_, ?_, ?_⟩
      · intro m inside
        exact opens.linked_inside rooted aim unreached linked inside
      · intro m other outside
        exact opens.linked_outside rooted aim unreached linked other outside
      · intro d other
        exact opens.linked_contents linked other

/-- Three names of one class, each an alias of the one before, and a name of its own. -/
def chained : List Request := [.execute "'a = true\n'b = a\n'c = b\n'd = false\n" 100]

/-- In the middle of a chain, a value is written for all three names, and an alias takes along the
last of them only. -/
theorem assignment_updates_one_class_in_chain :
    let s := ((new {} {} []).serveAll chained).machine.store
    (Value.text "b").name? = some "b" ∧
    (s.bound? "b" = none → s.cells.size < ({} : Limits).arenaCapacity →
      s.cells.size < UInt32.size) ∧
    (∃ c t, Store.assign (.text "b") (.truth false) s = .ok c t ∧
      t.valueOf? "a" = some (.truth false) ∧ t.valueOf? "c" = some (.truth false) ∧
      t.valueOf? "d" = s.valueOf? "d") ∧
    ∃ c t, Store.assign (.text "b") (.text "d") s = .ok c t ∧
      t.rootOf? "c" = some ⟨3⟩ ∧ t.rootOf? "a" = s.rootOf? "a" := by
  intro s
  have a : s.bound? "a" = some ⟨0⟩ := by decide +kernel
  have b : s.bound? "b" = some ⟨1⟩ := by decide +kernel
  have c : s.bound? "c" = some ⟨2⟩ := by decide +kernel
  have d : s.bound? "d" = some ⟨3⟩ := by decide +kernel
  have roots : s.root ⟨0⟩ = ⟨0⟩ ∧ s.root ⟨1⟩ = ⟨0⟩ ∧ s.root ⟨2⟩ = ⟨0⟩ ∧ s.root ⟨3⟩ = ⟨3⟩ := by
    decide +kernel
  have link : s.Link ⟨2⟩ ⟨1⟩ := Store.link?_eq_some_iff.mp (by decide +kernel)
  have numbered (_ : s.bound? "b" = none) (_ : s.cells.size < ({} : Limits).arenaCapacity) :
      s.cells.size < UInt32.size := by decide +kernel
  refine ⟨rfl, numbered, ?_, ?_⟩
  · have succeeds : ((Store.assign (.text "b") (.truth false)).run' s).isSome = true := by
      decide +kernel
    cases done : Store.assign (.text "b") (.truth false) s with
    | error fault t =>
      rw [run'_of_error done] at succeeds
      cases succeeds
    | ok cell t =>
      obtain ⟨_, effect⟩ := assignment_updates_one_class {} {} [] chained (.text "b") rfl
        (.truth false) numbered
      obtain ⟨_, written, _⟩ := effect cell t done
      obtain ⟨inside, outside, _⟩ := written (fun name text => by cases text)
      obtain ⟨_, ⟨_⟩, first⟩ := inside "a" (Or.inr ⟨_, _, a, b, roots.1.trans roots.2.1.symm⟩)
      obtain ⟨_, ⟨_⟩, last⟩ := inside "c" (Or.inr ⟨_, _, c, b, roots.2.2.1.trans roots.2.1.symm⟩)
      refine ⟨cell, t, rfl, first, last, outside "d" (by decide) ?_⟩
      · rintro ⟨e, f, boundE, boundF, same⟩
        cases boundE.symm.trans d
        cases boundF.symm.trans b
        rw [roots.2.2.2, roots.2.1] at same
        exact absurd same (by decide)
  · have succeeds : ((Store.assign (.text "b") (.text "d")).run' s).isSome = true := by
      decide +kernel
    cases done : Store.assign (.text "b") (.text "d") s with
    | error fault t =>
      rw [run'_of_error done] at succeeds
      cases succeeds
    | ok cell t =>
      obtain ⟨_, effect⟩ := assignment_updates_one_class {} {} [] chained (.text "b") rfl
        (.text "d") numbered
      obtain ⟨_, _, linked⟩ := effect cell t done
      obtain ⟨inside, outside, _⟩ := linked "d" ⟨3⟩ rfl d
      refine ⟨cell, t, rfl, ?_, outside "a" (by decide) ?_⟩
      · rw [inside "c" (Or.inr ⟨_, _, c, b, ReflTransGen.single link⟩), roots.2.2.2]
      · rintro ⟨e, f, boundE, boundF, path⟩
        cases boundE.symm.trans a
        cases boundF.symm.trans b
        rcases ReflTransGen.cases_head path with same | ⟨g, first, _⟩
        · exact absurd same (by decide)
        · have none : s.link? ⟨0⟩ = none := by decide +kernel
          exact Store.link?_eq_none_iff.mp none g first

end Interpreter

/-! ## Past the range of cells -/

/-- Names told apart by their numbers. -/
def nth (k : Nat) : String := toString k

theorem nth_injective {j k : Nat} (same : nth j = nth k) : j = k :=
  digits_inj (congrArg String.toList same)

namespace Store

/-- So many names are bound, one after the other, each to a cell that holds a truth. -/
def populated (capacity count : Nat) : Store where
  cells := ⟨capacity, Array.replicate count (.truth true)⟩
  names := (List.range count).reverse.map fun k => (nth k, ⟨k.toUInt32⟩)

theorem populated_succ_names (capacity count : Nat) :
    (populated capacity (count + 1)).names =
      (nth count, ⟨count.toUInt32⟩) :: (populated capacity count).names := by
  simp [populated, List.range_succ]

theorem bound?_populated (capacity count k : Nat) :
    (populated capacity count).bound? (nth k) = if k < count then some ⟨k.toUInt32⟩ else none := by
  induction count with
  | zero => rfl
  | succ count ih =>
    have more : (populated capacity (count + 1)).bound? (nth k) =
        if nth k = nth count then some ⟨count.toUInt32⟩ else
          (populated capacity count).bound? (nth k) := by
      rw [bound?, populated_succ_names]
      exact bound?_cons (populated capacity count) (populated capacity count).cells _ _ _
    rw [more, ih]
    by_cases same : k = count
    · rw [same, if_pos rfl, if_pos (Nat.lt_succ_self _)]
    · rw [if_neg fun equal => same (nth_injective equal)]
      simp only [Nat.lt_succ_iff_lt_or_eq, same, or_false]

/-- A name whose cell is no alias has the value of that cell. -/
theorem valueOf?_of_plain {s : Store} {name : String} {c : Cell} {value : Value}
    (bound : s.bound? name = some c) (held : s.cells.get? c = some value)
    (plain : ∀ d, value ≠ .pointer d) : s.valueOf? name = some value := by
  have root : s.root c = c :=
    root_of_unlinked fun d link => plain d (Option.some.inj (held.symm.trans link))
  rw [valueOf?, bound, Option.bind_some, root, held]

theorem valueOf?_populated {capacity count : Nat} (filled : 0 < count) :
    (populated capacity count).valueOf? (nth 0) = some (.truth true) := by
  refine valueOf?_of_plain (c := ⟨0⟩) ?_ ?_ fun d => nofun
  · rw [bound?_populated, if_pos filled]
    rfl
  · exact Array.getElem?_replicate.trans (if_pos filled)

/-- A new name is bound to the cell that 32 bits of the number of cells name, and the truth is
written there. -/
theorem assign_populated (capacity : Nat) {count : Nat} (free : count < capacity) (b : Bool) :
    assign (.text (nth count)) (.truth b) (populated capacity count) =
      .ok ⟨count.toUInt32⟩
        ⟨⟨capacity, ((Array.replicate count (.truth true)).push (.number 0)).setIfInBounds
          count.toUInt32.toNat (.truth b)⟩, (populated capacity (count + 1)).names⟩ := by
  have unbound : (populated capacity count).bound? (nth count) = none := by
    rw [bound?_populated, if_neg (Nat.lt_irrefl _)]
  have size : (populated capacity count).cells.size = count := Array.size_replicate
  have allocated : (populated capacity count).cells.allocate (.number 0) =
      .ok (⟨count.toUInt32⟩,
        ⟨capacity, (Array.replicate count (.truth true)).push (.number 0)⟩) := by
    rw [Arena.allocate, size]
    exact if_neg (Nat.not_le.mpr free)
  have inside : count.toUInt32.toNat <
      (Arena.mk capacity ((Array.replicate count (.truth true)).push (Value.number 0))).size := by
    have wrapped : count.toUInt32.toNat ≤ count := Nat.mod_le _ _
    rw [Arena.size, Array.size_push, Array.size_replicate]
    omega
  have root : (Store.mk ⟨capacity, (Array.replicate count (.truth true)).push (.number 0)⟩
      ((nth count, ⟨count.toUInt32⟩) :: (populated capacity count).names)).root ⟨count.toUInt32⟩ =
        ⟨count.toUInt32⟩ := by
    refine root_of_unlinked fun d link => ?_
    rcases Array.mem_push.mp (Array.mem_of_getElem? link) with filled | new
    · cases (Array.mem_replicate.mp filled).2
    · cases new
  rw [assign_apply, target_of_unbound rfl unbound, bind, allocated]
  dsimp only
  rw [map_apply, place]
  dsimp only [aliased?]
  have direct : overwrite (.text (nth count)) ⟨count.toUInt32⟩ (.truth b) = fun s =>
      put (s.root ⟨count.toUInt32⟩) (.truth b) s := rfl
  rw [direct]
  dsimp only
  rw [root, put, Arena.set?, if_pos inside, populated_succ_names]

/-- Where 32 bits of the number of cells are those of the first cell, the value is read through the
first name. -/
theorem assign_populated_wrapped {capacity count : Nat} (free : count < capacity)
    (wrapped : count.toUInt32 = 0) (b : Bool) :
    ∃ t, assign (.text (nth count)) (.truth b) (populated capacity count) = .ok ⟨0⟩ t ∧
      t.valueOf? (nth 0) = some (.truth b) := by
  have done := assign_populated capacity free b
  rw [wrapped] at done
  refine ⟨_, done, valueOf?_of_plain (c := ⟨0⟩) ?_ ?_ fun d => nofun⟩
  · change (populated capacity (count + 1)).bound? (nth 0) = _
    rw [bound?_populated, if_pos (Nat.succ_pos _)]
    rfl
  · refine Array.getElem?_setIfInBounds_self_of_lt ?_
    rw [Array.size_push]
    exact Nat.succ_pos _

end Store

namespace Interpreter

/-- Room for one cell more than 32 bits can number. -/
def wide : Limits := { arenaCapacity := UInt32.size + 1 }

/-- Binds a name to a cell that holds a truth. -/
def binding (name : String) : Chunk where
  code := #[⟨Opcode.constant.byte, 1⟩, ⟨0, 1⟩, ⟨Opcode.yes.byte, 1⟩,
    ⟨Opcode.setPointerNoPush.byte, 1⟩, ⟨Opcode.halt.byte, 1⟩]
  constants := #[.text name]

/-- Binds so many names, one after the other. -/
def bindings (count : Nat) : List Request :=
  (List.range count).map fun k => .run (binding (nth k)) 4

theorem run_binding (name : String) {s t : Store} {c : Cell}
    (done : Store.assign (.text name) (.truth true) s = .ok c t) :
    (Machine.run (binding name) 4 ⟨wide, [], s, {}, #[]⟩).1 = ⟨wide, [], t, {}, #[]⟩ := by
  have assigned : Machine.step (binding name) 3 ⟨wide, [.truth true, .text name], s, {}, #[]⟩ =
      .ok (some 4) ⟨wide, [], t, {}, #[]⟩ := by
    change (do
      let _ ← Machine.onStore (Store.assign (.text name) (.truth true))
      return some 4 : Machine.Action (Option Nat)) ⟨wide, [], s, {}, #[]⟩ = _
    rw [bind_apply, Machine.onStore, done]
    rfl
  have reached : Machine.run (binding name) 4 ⟨wide, [], s, {}, #[]⟩ =
      Machine.runFrom (binding name) 2 3 ⟨wide, [.truth true, .text name], s, {}, #[]⟩ := rfl
  rw [reached, Machine.runFrom_next (m := ⟨wide, [.truth true, .text name], s, {}, #[]⟩) assigned]
  rfl

theorem serveAll_bindings {count : Nat} (small : count ≤ UInt32.size) :
    ((new wide {} []).serveAll (bindings count)).machine =
      ⟨wide, [], .populated (UInt32.size + 1) count, {}, #[]⟩ := by
  induction count with
  | zero => rfl
  | succ count ih =>
    have more : bindings (count + 1) = bindings count ++ [.run (binding (nth count)) 4] := by
      rw [bindings, List.range_succ, List.map_append]
      rfl
    have number : count.toUInt32.toNat = count := Nat.mod_eq_of_lt small
    have done := Store.assign_populated (UInt32.size + 1)
      (Nat.lt_succ_of_lt (Nat.lt_of_succ_le small)) true
    have filled : ((Array.replicate count (Value.truth true)).push (.number 0)).setIfInBounds count
        (.truth true) = Array.replicate (count + 1) (.truth true) := by
      rw [Array.replicate_succ, ← Array.toList_inj]
      simp [Array.toList_setIfInBounds, List.set_append_right]
    rw [number, filled] at done
    rw [more, serveAll, List.foldl_append, ← serveAll]
    change (((new wide {} []).serveAll (bindings count)).machine.run (binding (nth count)) 4).1 = _
    rw [ih (Nat.le_of_succ_le small), run_binding _ done]
    rfl

/-- One name more than 32 bits can number gets the cell of the first name. What is assigned through
it is read through that other name too, which had no cell in common with it before. -/
theorem assignment_past_range_changes_another_name :
    let s := ((new wide {} []).serveAll (bindings UInt32.size)).machine.store
    s.bound? (nth UInt32.size) = none ∧ s.cells.size < wide.arenaCapacity ∧
      ¬ s.SameRoot (nth 0) (nth UInt32.size) ∧ s.valueOf? (nth 0) = some (.truth true) ∧
      ∃ t, Store.assign (.text (nth UInt32.size)) (.truth false) s = .ok ⟨0⟩ t ∧
        t.valueOf? (nth 0) = some (.truth false) := by
  intro s
  have state : s = .populated (UInt32.size + 1) UInt32.size :=
    congrArg MachineOf.store (serveAll_bindings (Nat.le_refl _))
  have unbound : s.bound? (nth UInt32.size) = none := by
    rw [state, Store.bound?_populated, if_neg (Nat.lt_irrefl _)]
  have size : s.cells.size = UInt32.size := by
    rw [state]
    exact Array.size_replicate
  refine ⟨unbound, ?_, ?_, ?_, ?_⟩
  · rw [size]
    exact Nat.lt_succ_self _
  · rintro ⟨c, d, _, known, _⟩
    cases unbound.symm.trans known
  · rw [state]
    exact Store.valueOf?_populated (by decide)
  · rw [state]
    have wrapped : UInt32.size.toUInt32 = 0 := rfl
    exact Store.assign_populated_wrapped (Nat.lt_succ_self UInt32.size) wrapped false

end Interpreter

end Cellscript
