import Cellscript.Proofs.Arena
import Cellscript.Store
import Mathlib.Data.Fintype.Pigeonhole
import Mathlib.Logic.Relation

/-!
Alias links as a relation between cells. In a store without cycles a chain of links is shorter than
the store is large, so that following it as far as `root` and `reaches` do leads to its end.
-/

set_option autoImplicit false

namespace Cellscript.Store

open Relation (ReflTransGen TransGen)

/-- The cell exists. -/
def Live (s : Store) (c : Cell) : Prop := c.index.toNat < s.cells.size

/-- `c` is an alias of `d`. -/
def Link (s : Store) (c d : Cell) : Prop := s.cells.get? c = some (.pointer d)

/-- No cell is reached from itself. -/
def Acyclic (s : Store) : Prop := ∀ c, ¬ TransGen s.Link c c

theorem link?_eq_some_iff {s : Store} {c d : Cell} : s.link? c = some d ↔ s.Link c d := by
  unfold link? Link
  split <;> simp_all

theorem Link.live {s : Store} {c d : Cell} (link : s.Link c d) : s.Live c :=
  Arena.lt_size_of_get? link

theorem link?_eq_none_iff {s : Store} {c : Cell} : s.link? c = none ↔ ∀ d, ¬ s.Link c d := by
  simp only [Option.eq_none_iff_forall_ne_some, ne_eq, link?_eq_some_iff]

/-! ## Chains -/

/-- The cell that `steps` links lead to, if there are so many. -/
def walk (s : Store) : Nat → Cell → Option Cell
  | 0, c => some c
  | steps + 1, c => (s.link? c).bind (s.walk steps)

theorem walk_add (s : Store) (i j : Nat) (c : Cell) :
    s.walk (i + j) c = (s.walk i c).bind (s.walk j) := by
  induction i generalizing c with
  | zero => simp [walk]
  | succ i ih =>
    rw [show i + 1 + j = i + j + 1 by omega]
    simp only [walk]
    cases s.link? c with
    | none => rfl
    | some d => exact ih d

theorem reflTransGen_of_walk {s : Store} {steps : Nat} {c d : Cell}
    (walked : s.walk steps c = some d) : ReflTransGen s.Link c d := by
  induction steps generalizing c with
  | zero =>
    cases walked
    exact ReflTransGen.refl
  | succ steps ih =>
    obtain ⟨e, link, rest⟩ := Option.bind_eq_some_iff.mp walked
    exact ReflTransGen.head (link?_eq_some_iff.mp link) (ih rest)

theorem transGen_of_walk {s : Store} {steps : Nat} {c d : Cell} (moved : 0 < steps)
    (walked : s.walk steps c = some d) : TransGen s.Link c d := by
  obtain ⟨less, rfl⟩ : ∃ less, steps = less + 1 := ⟨steps - 1, by omega⟩
  obtain ⟨e, link, rest⟩ := Option.bind_eq_some_iff.mp walked
  exact TransGen.head' (link?_eq_some_iff.mp link) (reflTransGen_of_walk rest)

theorem exists_walk_of_reflTransGen {s : Store} {c d : Cell} (path : ReflTransGen s.Link c d) :
    ∃ steps, s.walk steps c = some d := by
  induction path using ReflTransGen.head_induction_on with
  | refl => exact ⟨0, rfl⟩
  | head link _ ih =>
    obtain ⟨steps, walked⟩ := ih
    exact ⟨steps + 1, by simp [walk, link?_eq_some_iff.mpr link, walked]⟩

theorem exists_walk_of_le {s : Store} {i j : Nat} {c d : Cell} (within : i ≤ j)
    (walked : s.walk j c = some d) : ∃ e, s.walk i c = some e := by
  rw [show j = i + (j - i) by omega, walk_add] at walked
  obtain ⟨e, first, _⟩ := Option.bind_eq_some_iff.mp walked
  exact ⟨e, first⟩

/-- A walk of more links than there are cells passes some cell twice. -/
theorem not_acyclic_of_long_walk {s : Store} {steps : Nat} {c d : Cell}
    (long : s.cells.size < steps) (walked : s.walk steps c = some d) : ¬ s.Acyclic := by
  intro acyclic
  have passes : ∀ i : Fin (s.cells.size + 1), ∃ e, s.walk i.val c = some e ∧ s.Live e := by
    intro i
    obtain ⟨f, next⟩ := exists_walk_of_le (show i.val + 1 ≤ steps by omega) walked
    rw [walk_add] at next
    obtain ⟨e, first, second⟩ := Option.bind_eq_some_iff.mp next
    obtain ⟨_, link, _⟩ := Option.bind_eq_some_iff.mp second
    exact ⟨e, first, (link?_eq_some_iff.mp link).live⟩
  choose cell reached live using passes
  obtain ⟨i, j, apart, same⟩ := Fintype.exists_ne_map_eq_of_card_lt
    (fun i => (⟨(cell i).index.toNat, live i⟩ : Fin s.cells.size)) (by simp)
  have repeated : cell i = cell j := Arena.Handle.eq_of_toNat (Fin.mk.inj same)
  -- the walk between the two visits is a cycle
  have cycle : ∀ i j : Fin (s.cells.size + 1), i < j → cell i = cell j → False := by
    intro i j before equal
    have between := reached j
    rw [show j.val = i.val + (j.val - i.val) by omega, walk_add, reached i, ← equal] at between
    exact acyclic (cell i) (transGen_of_walk (by omega) between)
  rcases lt_or_gt_of_ne apart with before | after
  · exact cycle i j before repeated
  · exact cycle j i after repeated.symm

/-! ## Roots -/

theorem follow_of_walk {s : Store} {steps bound : Nat} {c d : Cell}
    (walked : s.walk steps c = some d) (last : s.link? d = none) (within : steps ≤ bound) :
    s.follow bound c = d := by
  induction steps generalizing bound c with
  | zero =>
    cases walked
    cases bound with
    | zero => rfl
    | succ bound => simp [follow, last]
  | succ steps ih =>
    obtain ⟨e, link, rest⟩ := Option.bind_eq_some_iff.mp walked
    obtain ⟨less, rfl⟩ : ∃ less, bound = less + 1 := ⟨bound - 1, by omega⟩
    simp only [follow, link]
    exact ih rest (by omega)

theorem root_of_unlinked {s : Store} {c : Cell} (last : ∀ d, ¬ s.Link c d) : s.root c = c := by
  rw [root, follow, link?_eq_none_iff.mpr last]

/-- Without cycles, at most as many links as there are cells lead from a cell to its root, which is
no alias. -/
theorem walk_root {s : Store} (acyclic : s.Acyclic) (c : Cell) :
    ∃ steps ≤ s.cells.size, s.walk steps c = some (s.root c) ∧ s.link? (s.root c) = none := by
  have ends : ∃ steps, s.walk (steps + 1) c = none := by
    refine ⟨s.cells.size, ?_⟩
    cases walked : s.walk (s.cells.size + 1) c with
    | none => rfl
    | some d => exact absurd acyclic (not_acyclic_of_long_walk (by omega) walked)
  classical
  have shortest := Nat.find_spec ends
  have minimal := fun steps => Nat.find_min ends (m := steps)
  generalize Nat.find ends = steps at shortest minimal
  have exact : ∃ d, s.walk steps c = some d := by
    cases steps with
    | zero => exact ⟨c, rfl⟩
    | succ steps =>
      exact Option.ne_none_iff_exists'.mp (minimal steps (by omega))
  obtain ⟨d, walked⟩ := exact
  have last : s.link? d = none := by
    rw [walk_add, walked] at shortest
    cases link : s.link? d with
    | none => rfl
    | some e => simp [walk, link] at shortest
  have short : steps ≤ s.cells.size := by
    by_contra long
    exact not_acyclic_of_long_walk (by omega) walked acyclic
  have root : s.root c = d := follow_of_walk walked last (by omega)
  rw [root]
  exact ⟨steps, short, walked, last⟩

theorem reflTransGen_root {s : Store} (acyclic : s.Acyclic) (c : Cell) :
    ReflTransGen s.Link c (s.root c) := by
  obtain ⟨steps, _, walked, _⟩ := walk_root acyclic c
  exact reflTransGen_of_walk walked

theorem link?_root {s : Store} (acyclic : s.Acyclic) (c : Cell) : s.link? (s.root c) = none := by
  obtain ⟨_, _, _, last⟩ := walk_root acyclic c
  exact last

/-! ## Reachability -/

theorem reachesWithin_eq_true_iff {s : Store} {bound : Nat} {c d : Cell} :
    s.reachesWithin bound c d = true ↔ ∃ steps < bound, s.walk steps c = some d := by
  induction bound generalizing c with
  | zero => simp [reachesWithin]
  | succ bound ih =>
    unfold reachesWithin
    by_cases same : c = d
    · simp only [same, ↓reduceIte, true_iff]
      exact ⟨0, by omega, rfl⟩
    · simp only [same, ↓reduceIte]
      constructor
      · intro reached
        split at reached
        · rename_i e link
          obtain ⟨steps, within, walked⟩ := ih.mp reached
          exact ⟨steps + 1, by omega, by simp [walk, link, walked]⟩
        · cases reached
      · rintro ⟨steps, within, walked⟩
        cases steps with
        | zero => exact absurd (Option.some.inj walked) same
        | succ steps =>
          obtain ⟨e, link, rest⟩ := Option.bind_eq_some_iff.mp walked
          rw [link]
          exact ih.mpr ⟨steps, by omega, rest⟩

/-- Without cycles, the bounded search for a cell decides whether links lead to it. -/
theorem reaches_eq_true_iff {s : Store} (acyclic : s.Acyclic) {c d : Cell} :
    s.reaches c d = true ↔ ReflTransGen s.Link c d := by
  rw [reaches, reachesWithin_eq_true_iff]
  constructor
  · rintro ⟨steps, _, walked⟩
    exact reflTransGen_of_walk walked
  · intro path
    obtain ⟨steps, walked⟩ := exists_walk_of_reflTransGen path
    refine ⟨steps, ?_, walked⟩
    by_contra long
    exact not_acyclic_of_long_walk (by omega) walked acyclic

end Cellscript.Store
