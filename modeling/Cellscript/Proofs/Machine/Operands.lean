import Cellscript.Proofs.Machine.Assignments
import Cellscript.Proofs.Store.Assignment
import Cellscript.Proofs.Store.Exchange

/-!
Operands, in every state that a history of runs and resets can come to: what is read through one
after a value has been written through it, and what becomes of the cells that two of them stand for
when these are exchanged.
-/

set_option autoImplicit false

namespace Cellscript.Interpreter

/-! ## Writing and reading -/

/-- What was written through an operand is read through it, if the operand is a name or a boxed
pointer, or the address of a cell that is no alias. The address of an alias is written to at the
root and read as it stands, so that it gives the alias. -/
theorem written_value_is_read_back (limits : Limits) (sink : Sink)
    (substitutions : List Substitution) (requests : List Request) (operand value : Value) :
    let s := ((new limits sink substitutions).serveAll requests).machine.store
    (∀ name, value = .text name → s.bound? name = none) →
    ∀ c t, Store.assign operand value s = .ok c t →
      ∃ kept, Store.Kept value kept ∧
        ((∀ d e, operand = .pointer d → ¬ s.Link d e) → t.read operand = .ok kept) ∧
        ∀ d e, operand = .pointer d → s.Link d e →
          t.read operand = .ok (.pointer e) ∧ t.cells.get? (s.root d) = some kept := by
  intro s plain c t assigned
  have rooted : s.Rooted := serveAll_rooted (Store.empty_rooted limits.arenaCapacity) requests
  refine ⟨_, Store.stored_kept value, ?_⟩
  cases operand with
  | number x =>
    exact ⟨fun _ => Store.read_assign_name rfl plain assigned, fun d e address => by cases address⟩
  | text name =>
    exact ⟨fun _ => Store.read_assign_name rfl plain assigned, fun d e address => by cases address⟩
  | boxed d =>
    exact ⟨fun _ => Store.read_assign_boxed plain assigned, fun d e address => by cases address⟩
  | truth b => cases assigned
  | pointer cell =>
    obtain ⟨written, read⟩ := Store.read_assign_pointer plain assigned
    constructor
    · intro unlinked
      have root : cell = s.root cell :=
        (Store.root_of_unlinked fun e => unlinked cell e rfl).symm
      rw [read, if_pos root]
    · intro d e address link
      cases address
      have linked : cell ≠ s.root cell := by
        intro root
        rw [root] at link
        exact Store.root_no_link rooted.acyclic cell e link
      refine ⟨?_, written⟩
      rw [read, if_neg linked, Store.get, show s.cells.get? cell = some (.pointer e) from link]

/-- Two names, of which the second is an alias of the first. -/
def paired : List Request := [.execute "'a = true\n'b = a\n" 100]

/-- A text that names no cell is read back through the alias. -/
theorem written_value_is_read_back_through_alias :
    let s := ((new {} {} []).serveAll paired).machine.store
    s.bound? "free" = none ∧
      ∃ c t, Store.assign (.text "b") (.text "free") s = .ok c t ∧
        t.read (.text "b") = .ok (.text "free") := by
  intro s
  have unbound : s.bound? "free" = none := by decide +kernel
  have succeeds : ((Store.assign (.text "b") (.text "free")).run' s).isSome = true := by
    decide +kernel
  refine ⟨unbound, ?_⟩
  cases done : Store.assign (.text "b") (.text "free") s with
  | error fault t =>
    rw [run'_of_error done] at succeeds
    cases succeeds
  | ok c t =>
    have plain : ∀ name, Value.text "free" = .text name → s.bound? name = none := by
      intro name same
      cases same
      exact unbound
    obtain ⟨_, ⟨_⟩, read, _⟩ :=
      written_value_is_read_back {} {} [] paired (.text "b") (.text "free") plain c t done
    exact ⟨c, t, rfl, read fun d e address => by cases address⟩

/-- Through the address of an alias a value is written that is not read back. -/
theorem written_value_is_hidden_by_alias :
    let s := ((new {} {} []).serveAll paired).machine.store
    s.Live ⟨1⟩ ∧
      ∃ c t, Store.assign (.pointer ⟨1⟩) (.truth false) s = .ok c t ∧
        t.read (.pointer ⟨1⟩) ≠ .ok (.truth false) := by
  intro s
  have link : s.Link ⟨1⟩ ⟨0⟩ := Store.link?_eq_some_iff.mp (by decide +kernel)
  have apart : (⟨1⟩ : Cell) ≠ s.root ⟨1⟩ := by decide +kernel
  have succeeds : ((Store.assign (.pointer ⟨1⟩) (.truth false)).run' s).isSome = true := by
    decide +kernel
  refine ⟨link.live, ?_⟩
  cases done : Store.assign (.pointer ⟨1⟩) (.truth false) s with
  | error fault t =>
    rw [run'_of_error done] at succeeds
    cases succeeds
  | ok c t =>
    refine ⟨c, t, rfl, ?_⟩
    have read := (Store.read_assign_pointer (fun name text => by cases text) done).2
    rw [read, if_neg apart, Store.get, show s.cells.get? ⟨1⟩ = some (.pointer ⟨0⟩) from link]
    intro same
    cases same

/-! ## Exchanging -/

/-- Two operands that stand for cells exchange what the roots of these cells hold, and that is all
that changes: every name that led to one root reads what the other held, and every other name what
it read before. The operands may be given in either order, and a second exchange undoes the first.
Where an operand stands for no cell, the exchange fails and changes nothing. -/
theorem exchange_swaps_classes (limits : Limits) (sink : Sink) (substitutions : List Substitution)
    (requests : List Request) (left right : Value) :
    let s := ((new limits sink substitutions).serveAll requests).machine.store
    (∀ c d, s.Denotes left c → s.Denotes right d →
      ∃ t, Store.exchange left right s = .ok c t ∧
        (t.cells.get? (s.root c) = s.cells.get? (s.root d) ∧
          t.cells.get? (s.root d) = s.cells.get? (s.root c) ∧
          ∀ e, e ≠ s.root c → e ≠ s.root d → t.cells.get? e = s.cells.get? e) ∧
        (∀ e f, t.Link e f ↔ s.Link e f) ∧
        (∀ m, t.bound? m = s.bound? m) ∧
        (∀ m, s.rootOf? m = some (s.root c) → t.valueOf? m = s.cells.get? (s.root d)) ∧
        (∀ m, s.rootOf? m = some (s.root d) → t.valueOf? m = s.cells.get? (s.root c)) ∧
        (∀ m, s.rootOf? m ≠ some (s.root c) → s.rootOf? m ≠ some (s.root d) →
          t.valueOf? m = s.valueOf? m) ∧
        Store.exchange right left s = .ok d t ∧ Store.exchange left right t = .ok c s) ∧
    ((¬ ∃ c, s.Denotes left c) ∨ (¬ ∃ d, s.Denotes right d) →
      ∃ fault, Store.exchange left right s = .error fault s) := by
  intro s
  have rooted : s.Rooted := serveAll_rooted (Store.empty_rooted limits.arenaCapacity) requests
  constructor
  · intro c d atLeft atRight
    obtain ⟨t, swaps⟩ := Store.exists_swaps rooted (atLeft.live rooted) (atRight.live rooted)
    refine ⟨t, Store.exchange_eq_ok_iff.mpr ⟨d, atLeft, atRight, swaps⟩, ⟨?_, ?_, ?_⟩,
      swaps.links rooted.acyclic, swaps.bound?, ?_, ?_, ?_,
      Store.exchange_eq_ok_iff.mpr ⟨c, atRight, atLeft, swaps.symm⟩, ?_⟩
    · rw [swaps.contents, if_pos rfl]
    · rw [swaps.symm.contents, if_pos rfl]
    · intro e apart beside
      rw [swaps.contents, if_neg apart, if_neg beside]
    · intro m leads
      exact swaps.valueOf?_left rooted.acyclic leads
    · intro m leads
      exact swaps.symm.valueOf?_left rooted.acyclic leads
    · intro m apart beside
      exact swaps.valueOf?_beside rooted.acyclic apart beside
    · exact Store.exchange_eq_ok_iff.mpr
        ⟨d, swaps.denotes atLeft, swaps.denotes atRight, swaps.back rooted.acyclic⟩
  · intro missing
    cases done : Store.exchange left right s with
    | error fault t =>
      rw [Store.exchange_eq_error done]
      exact ⟨fault, rfl⟩
    | ok c t =>
      obtain ⟨d, atLeft, atRight, _⟩ := Store.exchange_eq_ok_iff.mp done
      rcases missing with left | right
      · exact absurd ⟨c, atLeft⟩ left
      · exact absurd ⟨d, atRight⟩ right

/-- The last name of a chain and the address of another cell are exchanged: the first name of the
chain reads what the other cell held. -/
theorem exchange_swaps_classes_of_chain :
    let s := ((new {} {} []).serveAll chained).machine.store
    s.Denotes (.text "c") ⟨2⟩ ∧ s.Denotes (.pointer ⟨3⟩) ⟨3⟩ ∧ ¬ s.Denotes (.boxed ⟨3⟩) ⟨3⟩ ∧
      ∃ t, Store.exchange (.text "c") (.pointer ⟨3⟩) s = .ok ⟨2⟩ t ∧
        t.valueOf? "a" = s.cells.get? ⟨3⟩ ∧ t.valueOf? "d" = s.cells.get? ⟨0⟩ := by
  intro s
  have chain : s.Denotes (.text "c") ⟨2⟩ := Or.inr ⟨"c", rfl, by decide +kernel⟩
  have other : s.Denotes (.pointer ⟨3⟩) ⟨3⟩ := by
    refine Or.inl ⟨rfl, ?_⟩
    unfold Store.Live
    decide +kernel
  have boxed : ¬ s.Denotes (.boxed ⟨3⟩) ⟨3⟩ := by
    rintro (⟨same, _⟩ | ⟨n, named, _⟩)
    · cases same
    · cases named
  have roots : s.root ⟨2⟩ = ⟨0⟩ ∧ s.root ⟨3⟩ = ⟨3⟩ := by decide +kernel
  have names : s.rootOf? "a" = some ⟨0⟩ ∧ s.rootOf? "d" = some ⟨3⟩ := by decide +kernel
  obtain ⟨swaps, _⟩ := exchange_swaps_classes {} {} [] chained (.text "c") (.pointer ⟨3⟩)
  obtain ⟨t, done, _, _, _, inLeft, inRight, _⟩ := swaps ⟨2⟩ ⟨3⟩ chain other
  refine ⟨chain, other, boxed, t, done, ?_, ?_⟩
  · have read := inLeft "a" (by rw [roots.1]; exact names.1)
    rw [roots.2] at read
    exact read
  · have read := inRight "d" (by rw [roots.2]; exact names.2)
    rw [roots.1] at read
    exact read

end Cellscript.Interpreter
