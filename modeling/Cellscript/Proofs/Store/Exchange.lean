import Cellscript.Proofs.Store.Classes

/-!
Exchanges. Two operands that lead to cells swap what the roots of these cells hold. Roots hold no
aliases, so no alias changes and every name keeps its root: the classes of the two roots have
swapped their values, and a second exchange swaps them back.
-/

set_option autoImplicit false

namespace Cellscript.Store

/-- The operand stands for the cell: by its address, or by a name that is bound to it. -/
def Denotes (s : Store) (operand : Value) (c : Cell) : Prop :=
  operand = .pointer c ∧ s.Live c ∨ ∃ n, operand.name? = some n ∧ s.bound? n = some c

/-- The store `t` is `s` with the contents of the roots of two cells swapped. -/
structure Swaps (s : Store) (c d : Cell) (t : Store) : Prop where
  names : t.names = s.names
  cells : s.cells.swap? (s.root c) (s.root d) = some t.cells

namespace Swaps

variable {s t : Store} {c d : Cell} (swaps : s.Swaps c d t)

include swaps

theorem bound? (n : String) : t.bound? n = s.bound? n := by
  rw [Store.bound?, swaps.names, ← Store.bound?]

theorem live_iff (e : Cell) : t.Live e ↔ s.Live e := by
  obtain ⟨_, _, _, _, size, _⟩ := Arena.get?_of_swap? swaps.cells
  rw [Live, size, ← Live]

/-- Each of the two roots holds what the other one held. -/
theorem contents (e : Cell) :
    t.cells.get? e =
      if e = s.root c then s.cells.get? (s.root d)
      else if e = s.root d then s.cells.get? (s.root c)
      else s.cells.get? e := by
  obtain ⟨x, y, atLeft, atRight, _, _, contents⟩ := Arena.get?_of_swap? swaps.cells
  rw [contents, atLeft, atRight]
  by_cases left : e = s.root c
  · by_cases right : e = s.root d
    · cases (left ▸ atLeft).symm.trans (right ▸ atRight)
      simp only [right, ↓reduceIte, ite_self]
    · simp only [left ▸ right, left, ↓reduceIte]
  · simp only [left, ↓reduceIte]

theorem denotes {operand : Value} {e : Cell} (denotes : s.Denotes operand e) :
    t.Denotes operand e := by
  rcases denotes with ⟨address, live⟩ | ⟨n, named, bound⟩
  · exact Or.inl ⟨address, (swaps.live_iff e).mpr live⟩
  · exact Or.inr ⟨n, named, (swaps.bound? n).trans bound⟩

theorem symm : s.Swaps d c t := ⟨swaps.names, Arena.swap?_comm swaps.cells⟩

variable (acyclic : s.Acyclic)

include acyclic

theorem links (e f : Cell) : t.Link e f ↔ s.Link e f := swap_links acyclic swaps.cells e f

theorem root_eq (e : Cell) : t.root e = s.root e :=
  root_of_same_links acyclic (swaps.links acyclic) e

theorem back : t.Swaps c d s := by
  refine ⟨swaps.names.symm, ?_⟩
  rw [swaps.root_eq acyclic, swaps.root_eq acyclic]
  exact Arena.swap?_swap? swaps.cells

/-- What the name reads is what its root now holds. -/
theorem valueOf? {m : String} {r : Cell} (leads : s.rootOf? m = some r) :
    t.valueOf? m = t.cells.get? r := by
  obtain ⟨e, bound, rfl⟩ := Option.map_eq_some_iff.mp leads
  rw [Store.valueOf?, swaps.bound?, bound, Option.bind_some, swaps.root_eq acyclic]

theorem valueOf?_left {m : String} (leads : s.rootOf? m = some (s.root c)) :
    t.valueOf? m = s.cells.get? (s.root d) := by
  rw [swaps.valueOf? acyclic leads, swaps.contents, if_pos rfl]

theorem valueOf?_beside {m : String} (left : s.rootOf? m ≠ some (s.root c))
    (right : s.rootOf? m ≠ some (s.root d)) : t.valueOf? m = s.valueOf? m := by
  cases bound : s.bound? m with
  | none =>
    have unbound : t.bound? m = none := (swaps.bound? m).trans bound
    rw [Store.valueOf?, Store.valueOf?, bound, unbound]
    rfl
  | some e =>
    have leads : s.rootOf? m = some (s.root e) := by rw [rootOf?, bound, Option.map_some]
    rw [leads, ne_eq, Option.some.injEq] at left right
    rw [swaps.valueOf? acyclic leads, swaps.contents, if_neg left, if_neg right,
      Store.valueOf?, bound, Option.bind_some]

end Swaps

/-! ## When an exchange succeeds -/

section Exchange

variable {s t : Store} {left right : Value} {c d : Cell}

theorem swapRoots_eq_ok_iff : swapRoots c d s = .ok () t ↔ s.Swaps c d t := by
  unfold swapRoots
  constructor
  · intro done
    split at done
    · rename_i cells swapped
      cases done
      exact ⟨rfl, swapped⟩
    · cases done
  · rintro ⟨names, cells⟩
    rw [cells, ← names]

theorem exchangeCell_of_denotes (denotes : s.Denotes left c) :
    s.exchangeCell left = .ok (some c) := by
  rcases denotes with ⟨rfl, _⟩ | ⟨n, named, bound⟩
  · rfl
  · have found : s.named? left = some c := by rw [named?, named, Option.bind_some, bound]
    cases left with
    | number x => rw [exchangeCell, found]
    | text name => rw [exchangeCell, found]
    | _ => cases named

theorem denotes_of_exchangeCell (found : s.exchangeCell left = .ok (some c)) (live : s.Live c) :
    s.Denotes left c := by
  unfold exchangeCell at found
  split at found
  · cases found
    exact Or.inl ⟨rfl, live⟩
  · cases found
  · cases found
  all_goals
    split at found
    · rename_i named
      cases found
      exact Or.inr (Option.bind_eq_some_iff.mp named)
    · cases found

theorem live_of_root_live (live : s.Live (s.root c)) : s.Live c := by
  by_contra dead
  rw [root_of_unlinked fun d link => dead link.live] at live
  exact dead live

/-- An exchange succeeds only if both operands stand for cells, and then swaps what
these lead to. -/
theorem exchange_eq_ok_iff :
    exchange left right s = .ok c t ↔
      ∃ d, s.Denotes left c ∧ s.Denotes right d ∧ s.Swaps c d t := by
  constructor
  · intro done
    unfold exchange at done
    split at done
    · cases done
    · cases done
    · rename_i e d atLeft atRight
      rw [map_apply] at done
      cases swapped : swapRoots e d s with
      | error fault u =>
        rw [swapped] at done
        cases done
      | ok _ u =>
        rw [swapped] at done
        cases done
        have swaps := swapRoots_eq_ok_iff.mp swapped
        obtain ⟨_, _, held, kept, _⟩ := Arena.get?_of_swap? swaps.cells
        exact ⟨d,
          denotes_of_exchangeCell atLeft (live_of_root_live (Arena.lt_size_of_get? held)),
          denotes_of_exchangeCell atRight (live_of_root_live (Arena.lt_size_of_get? kept)), swaps⟩
    · cases done
  · rintro ⟨d, atLeft, atRight, swaps⟩
    simp only [exchange, exchangeCell_of_denotes atLeft, exchangeCell_of_denotes atRight, map_apply,
      swapRoots_eq_ok_iff.mpr swaps]

theorem swapRoots_eq_error {fault : Fault} (failed : swapRoots c d s = .error fault t) : t = s := by
  unfold swapRoots at failed
  split at failed
  · cases failed
  · cases failed
    rfl

/-- An exchange that fails changes nothing. -/
theorem exchange_eq_error {fault : Fault} (failed : exchange left right s = .error fault t) :
    t = s := by
  unfold exchange at failed
  split at failed
  · cases failed
    rfl
  · cases failed
    rfl
  · exact swapRoots_eq_error (map_eq_error failed)
  · cases failed
    rfl

theorem Denotes.live (rooted : s.Rooted) (denotes : s.Denotes left c) : s.Live c := by
  rcases denotes with ⟨_, live⟩ | ⟨n, _, bound⟩
  · exact live
  · exact rooted.bound_live bound

theorem exists_swaps (rooted : s.Rooted) (atLeft : s.Live c) (atRight : s.Live d) :
    ∃ t, s.Swaps c d t := by
  obtain ⟨cells, swapped⟩ := Arena.swap?_of_lt (rooted.root_live atLeft) (rooted.root_live atRight)
  exact ⟨⟨cells, s.names⟩, rfl, swapped⟩

end Exchange

end Cellscript.Store
