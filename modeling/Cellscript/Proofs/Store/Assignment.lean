import Cellscript.Proofs.Store.Classes
import Cellscript.Proofs.Store.Soundness

/-!
What is read through an operand after an assignment through it, and what an assignment that fails
leaves behind.
-/

set_option autoImplicit false

namespace Cellscript.Store

variable {s t u : Store} {operand value : Value} {c : Cell} {n : String} {fault : Fault}

/-! ## The cell that an assignment is about -/

theorem bind_allocated (done : bind n s = .ok c t) :
    ∃ cells, s.cells.allocate (.number 0) = .ok (c, cells) ∧ t = ⟨cells, (n, c) :: s.names⟩ := by
  unfold bind at done
  split at done
  · rename_i allocated
    cases done
    exact ⟨_, allocated, rfl⟩
  · cases done

theorem bind_bound? (done : bind n s = .ok c t) (name : String) :
    t.bound? name = if name = n then some c else s.bound? name := by
  obtain ⟨cells, _, rfl⟩ := bind_allocated done
  exact bound?_cons s cells n name c

/-- A cell is found as it is, or a name without one gets one. -/
theorem target_eq_ok (found : target operand s = .ok c t) :
    t = s ∨ ∃ n, operand.name? = some n ∧ s.bound? n = none ∧ bind n s = .ok c t := by
  cases named : operand.name? with
  | none =>
    cases operand with
    | pointer d | boxed d =>
      cases found
      exact Or.inl rfl
    | _ => simp [target, named] at found
  | some n =>
    cases bound : s.bound? n with
    | some d =>
      rw [target_of_bound named bound] at found
      cases found
      exact Or.inl rfl
    | none =>
      rw [target_of_unbound named bound] at found
      exact Or.inr ⟨n, rfl, bound, found⟩

theorem target_bound? (named : operand.name? = some n) (found : target operand s = .ok c t) :
    t.bound? n = some c := by
  cases bound : s.bound? n with
  | some d =>
    rw [target_of_bound named bound] at found
    cases found
    exact bound
  | none =>
    rw [target_of_unbound named bound] at found
    rw [bind_bound? found, if_pos rfl]

/-! ## Reading what was written -/

/-- A value that names no cell is written. The name that the assignment binds is no exception, since
an alias of itself is refused. -/
theorem assign_overwrites (plain : ∀ name, value = .text name → s.bound? name = none)
    (assigned : assign operand value s = .ok c t) :
    ∃ u, target operand s = .ok c u ∧ overwrite operand c value u = .ok () t := by
  rw [assign_apply] at assigned
  cases found : target operand s with
  | error fault u =>
    rw [found] at assigned
    cases assigned
  | ok d u =>
    rw [found] at assigned
    dsimp only at assigned
    rw [map_apply, place] at assigned
    cases named : u.aliased? value with
    | none =>
      rw [named] at assigned
      dsimp only at assigned
      cases written : overwrite operand d value u with
      | error fault v =>
        rw [written] at assigned
        cases assigned
      | ok _ v =>
        rw [written] at assigned
        cases assigned
        exact ⟨u, rfl, written⟩
    | some pair =>
      obtain ⟨name, source⟩ := pair
      obtain ⟨text, bound⟩ := aliased?_eq_some named
      have itself : source = d := by
        rcases target_eq_ok found with rfl | ⟨n, _, _, opened⟩
        · rw [plain name text] at bound
          cases bound
        · rw [bind_bound? opened] at bound
          split at bound
          · exact (Option.some.inj bound).symm
          · rw [plain name text] at bound
            cases bound
      have refused : u.reaches source d = true := by
        rw [itself, reaches, reachesWithin, if_pos rfl]
      rw [named] at assigned
      simp only [makeAlias, refused, ↓reduceIte] at assigned
      cases assigned

/-- Writing a value that is no alias where aliases lead keeps them leading there. -/
theorem follow_put {r : Cell}
    (contents : ∀ d, t.cells.get? d = if d = r then some value else s.cells.get? d)
    (plain : ∀ d, value ≠ .pointer d) {bound : Nat} (leads : s.follow bound c = r) :
    t.follow bound c = r := by
  induction bound generalizing c with
  | zero => exact leads
  | succ bound ih =>
    by_cases here : c = r
    · have stop : t.link? c = none := by
        rw [link?, contents, if_pos here]
        split
        · rename_i d points
          cases points
          exact absurd rfl (plain d)
        · rfl
      rw [follow, stop]
      exact here
    · have same : t.link? c = s.link? c := by
        rw [link?, link?, contents, if_neg here]
      rw [follow] at leads ⊢
      rw [same]
      cases linked : s.link? c with
      | none =>
        rw [linked] at leads
        exact leads
      | some d =>
        rw [linked] at leads
        exact ih leads

theorem read_named (named : operand.name? = some n) (bound : s.bound? n = some c) :
    s.read operand = s.get (s.root c) := by
  have found : s.named? operand = some c := by rw [named?, named, Option.bind_some, bound]
  cases operand with
  | number x => rw [read, found]
  | text name => rw [read, found]
  | _ => cases named

/-- Through a name, what was written at the root is read at the root. -/
theorem read_assign_name (named : operand.name? = some n)
    (plain : ∀ name, value = .text name → s.bound? name = none)
    (assigned : assign operand value s = .ok c t) : t.read operand = .ok (stored value) := by
  obtain ⟨u, found, overwritten⟩ := assign_overwrites plain assigned
  have written : put (u.root c) (stored value) u = .ok () t := by
    cases operand with
    | boxed d => cases named
    | _ => exact overwritten
  obtain ⟨names, size, _, _, contents⟩ := put_eq_ok written
  have bound : t.bound? n = some c := by
    rw [bound?, names]
    exact target_bound? named found
  have root : t.root c = u.root c := by
    rw [Store.root, size]
    exact follow_put contents (stored_ne_pointer value) rfl
  rw [read_named named bound, root, Store.get, contents, if_pos rfl]

/-- Through a boxed pointer, what was written in the cell itself is read there. -/
theorem read_assign_boxed {d : Cell} (plain : ∀ name, value = .text name → s.bound? name = none)
    (assigned : assign (.boxed d) value s = .ok c t) : t.read (.boxed d) = .ok (stored value) := by
  obtain ⟨u, _, written⟩ := assign_overwrites plain assigned
  obtain ⟨_, _, _, _, contents⟩ := put_eq_ok (show put d (stored value) u = .ok () t from written)
  rw [read, Store.get, contents, if_pos rfl]

/-- Through an address, what was written at the root is read in the cell itself. -/
theorem read_assign_pointer {d : Cell} (plain : ∀ name, value = .text name → s.bound? name = none)
    (assigned : assign (.pointer d) value s = .ok c t) :
    t.cells.get? (s.root d) = some (stored value) ∧
      t.read (.pointer d) = if d = s.root d then .ok (stored value) else s.get d := by
  obtain ⟨u, found, written⟩ := assign_overwrites plain assigned
  cases found
  obtain ⟨_, _, _, _, contents⟩ :=
    put_eq_ok (show put (s.root c) (stored value) s = .ok () t from written)
  refine ⟨by rw [contents, if_pos rfl], ?_⟩
  by_cases root : c = s.root c
  · rw [if_pos root, read, Store.get, contents, if_pos root]
  · rw [if_neg root, read, Store.get, contents, if_neg root, Store.get]

/-- A number assigned to a name is what the name reads as. -/
theorem read_assign_number {name : String} {x : Float}
    (assigned : assign (.text name) (.number x) s = .ok c t) :
    t.read (.text name) = .ok (.number x) :=
  read_assign_name rfl (fun _ text => by cases text) assigned

/-! ## What a failed assignment leaves -/

end Cellscript.Store
