import Cellscript.Proofs.Action
import Cellscript.Proofs.Store.Links

/-!
Stores in which every name leads to a root: names and links lead to cells that exist, and links run
in no circle. Assigning and exchanging keep a store so, whatever its capacity, also when they fail.
-/

set_option autoImplicit false

namespace Cellscript.Store

open Relation (ReflTransGen TransGen)

/-! ## Paths and their ends -/

theorem Acyclic.of_fewer_links {s t : Store} (acyclic : s.Acyclic)
    (fewer : ∀ c d, t.Link c d → s.Link c d) : t.Acyclic :=
  fun c cycle => acyclic c (TransGen.mono fewer c c cycle)

/-- With one more link, a path either does without it or passes it once. -/
theorem path_with_new_link {s t : Store} {c source : Cell}
    (links : ∀ e f, t.Link e f → s.Link e f ∨ e = c ∧ f = source)
    (unreached : ¬ ReflTransGen s.Link source c) {x y : Cell} (path : TransGen t.Link x y) :
    TransGen s.Link x y ∨ ReflTransGen s.Link x c ∧ ReflTransGen s.Link source y := by
  induction path with
  | single link =>
    rcases links _ _ link with old | ⟨rfl, rfl⟩
    · exact Or.inl (TransGen.single old)
    · exact Or.inr ⟨ReflTransGen.refl, ReflTransGen.refl⟩
  | tail _ link ih =>
    rcases links _ _ link with old | ⟨rfl, rfl⟩
    · rcases ih with before | ⟨before, after⟩
      · exact Or.inl (before.tail old)
      · exact Or.inr ⟨before, after.tail old⟩
    · rcases ih with before | ⟨_, after⟩
      · exact Or.inr ⟨before.to_reflTransGen, ReflTransGen.refl⟩
      · exact absurd after unreached

theorem Acyclic.of_new_link {s t : Store} (acyclic : s.Acyclic) {c source : Cell}
    (links : ∀ e f, t.Link e f → s.Link e f ∨ e = c ∧ f = source)
    (unreached : ¬ ReflTransGen s.Link source c) : t.Acyclic := by
  intro x cycle
  rcases path_with_new_link links unreached cycle with old | ⟨before, after⟩
  · exact acyclic x old
  · exact unreached (after.trans before)

/-- The root of a cell is the cell without a link that its path comes to. -/
theorem root_eq_of_path {s : Store} (acyclic : s.Acyclic) {c r : Cell}
    (path : ReflTransGen s.Link c r) (last : ∀ d, ¬ s.Link r d) : s.root c = r := by
  obtain ⟨steps, walked⟩ := exists_walk_of_reflTransGen path
  have short : steps ≤ s.cells.size := by
    by_contra long
    exact not_acyclic_of_long_walk (by omega) walked acyclic
  exact follow_of_walk walked (link?_eq_none_iff.mpr last) (by omega)

theorem root_no_link {s : Store} (acyclic : s.Acyclic) (c d : Cell) : ¬ s.Link (s.root c) d :=
  link?_eq_none_iff.mp (link?_root acyclic c) d

/-! ## The parts of an assignment -/

theorem aliased?_eq_some {s : Store} {value : Value} {name : String} {c : Cell}
    (found : s.aliased? value = some (name, c)) :
    value = .text name ∧ s.bound? name = some c := by
  unfold aliased? at found
  split at found
  · rename_i text
    obtain ⟨d, bound, same⟩ := Option.map_eq_some_iff.mp found
    cases same
    exact ⟨rfl, bound⟩
  · cases found

theorem bound?_cons (s : Store) (cells : Arena Value) (name other : String) (c : Cell) :
    (Store.mk cells ((name, c) :: s.names)).bound? other =
      if other = name then some c else s.bound? other := by
  unfold bound?
  rw [List.lookup_cons]
  by_cases same : other = name
  · simp [same]
  · have differs : (other == name) = false := by simpa using same
    simp [same, differs]

/-- What writing to a cell does where the cell exists. -/
theorem put_eq_ok {s t : Store} {c : Cell} {value : Value} (done : put c value s = .ok () t) :
    t.names = s.names ∧ t.cells.size = s.cells.size ∧ t.cells.capacity = s.cells.capacity ∧
      s.Live c ∧ ∀ d, t.cells.get? d = if d = c then some value else s.cells.get? d := by
  unfold put at done
  split at done
  · rename_i cells written
    cases done
    exact ⟨rfl, Arena.size_of_set? written, Arena.capacity_of_set? written,
      (Arena.set?_eq_some_iff.mp written).1, Arena.get?_of_set? written⟩
  · cases done

theorem put_live {s : Store} {c : Cell} (live : s.Live c) (value : Value) :
    ∃ t, put c value s = .ok () t := by
  unfold put
  rw [Arena.set?_eq_some_iff.mpr ⟨live, rfl⟩]
  exact ⟨_, rfl⟩

theorem put_eq_error {s t : Store} {c : Cell} {value : Value} {fault : Fault}
    (failed : put c value s = .error fault t) : t = s := by
  unfold put at failed
  split at failed
  · cases failed
  · cases failed
    rfl

/-- What an assignment through `operand` does once the cell `c` it is about is known. -/
def place (operand : Value) (c : Cell) (value : Value) : Action Unit := fun s =>
  match s.aliased? value with
  | some (name, source) => makeAlias c source name s
  | none => overwrite operand c value s

theorem assign_apply (s : Store) (operand value : Value) :
    assign operand value s =
      match target operand s with
      | .ok c t => ((fun _ => c) <$> place operand c value) t
      | .error fault t => .error fault t := by
  unfold assign
  rw [bind_apply]
  cases target operand s with
  | error fault t => rfl
  | ok c t =>
    dsimp only
    rw [bind_apply_ok (get_apply t), map_apply, place]
    cases t.aliased? value with
    | none => rfl
    | some found => rfl

theorem stored_ne_pointer (value : Value) (d : Cell) : stored value ≠ .pointer d := by
  cases value <;> simp [stored]

/-- The form in which a cell keeps a value: an address as a boxed pointer, any other value
as it is. -/
inductive Kept : Value → Value → Prop
  | address (c : Cell) : Kept (.pointer c) (.boxed c)
  | other {value : Value} (plain : ∀ c, value ≠ .pointer c) : Kept value value

theorem stored_kept (value : Value) : Kept value (stored value) := by
  cases value with
  | pointer c => exact .address c
  | number _ | truth _ | text _ | boxed _ => exact .other fun c same => by cases same

/-! ## Every name has a root -/

structure Rooted (s : Store) : Prop where
  fits : s.cells.size ≤ s.cells.capacity
  bound_live : ∀ {name c}, s.bound? name = some c → s.Live c
  link_live : ∀ {c d}, s.Link c d → s.Live d
  acyclic : s.Acyclic

theorem empty_rooted (capacity : Nat) : (Store.empty capacity).Rooted where
  fits := Nat.zero_le capacity
  bound_live bound := by cases bound
  link_live link := by cases link.live
  acyclic c cycle := by
    obtain ⟨d, link, _⟩ := TransGen.head'_iff.mp cycle
    cases link.live

theorem clear_rooted (s : Store) : s.clear.Rooted := empty_rooted s.cells.capacity

section Rooted

variable {s : Store}

theorem Rooted.path_live (rooted : s.Rooted) {c d : Cell} (live : s.Live c)
    (path : ReflTransGen s.Link c d) : s.Live d := by
  rcases ReflTransGen.cases_tail path with same | ⟨e, _, link⟩
  · rw [same]
    exact live
  · exact rooted.link_live link

theorem Rooted.root_live (rooted : s.Rooted) {c : Cell} (live : s.Live c) : s.Live (s.root c) :=
  rooted.path_live live (reflTransGen_root rooted.acyclic c)

theorem Rooted.cons (rooted : s.Rooted) {cells : Arena Value} {c : Cell} (name : String)
    (allocated : s.cells.allocate (.number 0) = .ok (c, cells)) :
    (Store.mk cells ((name, c) :: s.names)).Rooted := by
  obtain ⟨free, size, inside, contents⟩ := Arena.lt_size_of_allocate allocated
  have links : ∀ e f, (Store.mk cells ((name, c) :: s.names)).Link e f → s.Link e f := by
    intro e f link
    rcases contents _ _ link with old | new
    · exact old
    · cases new
  constructor
  · change cells.size ≤ cells.capacity
    rw [Arena.capacity_of_allocate allocated]
    omega
  · intro other d bound
    rw [bound?_cons] at bound
    split at bound
    · cases bound
      exact inside
    · have live : d.index.toNat < s.cells.size := rooted.bound_live bound
      change d.index.toNat < cells.size
      omega
  · intro e f link
    have live : f.index.toNat < s.cells.size := rooted.link_live (links e f link)
    change f.index.toNat < cells.size
    omega
  · exact rooted.acyclic.of_fewer_links links

theorem bind_rooted (rooted : s.Rooted) (name : String) : (stateAfter (bind name s)).Rooted := by
  unfold bind
  cases allocated : s.cells.allocate (.number 0) with
  | error full => exact rooted
  | ok result => exact rooted.cons name allocated

theorem target_rooted (rooted : s.Rooted) (operand : Value) :
    (stateAfter (target operand s)).Rooted := by
  unfold target
  split
  · exact rooted
  · exact rooted
  all_goals
    split
    · exact rooted
    · rename_i name _
      cases s.bound? name with
      | some c => exact rooted
      | none => exact bind_rooted rooted name

/-- Writing keeps names at their roots if the new content closes no circle of links. -/
theorem put_rooted (rooted : s.Rooted) {c : Cell} {value : Value}
    (harmless : ∀ d, value = .pointer d → s.Live d ∧ ¬ ReflTransGen s.Link d c) :
    (stateAfter (put c value s)).Rooted := by
  cases done : put c value s with
  | error fault t =>
    rw [put_eq_error done]
    exact rooted
  | ok _ t =>
    obtain ⟨names, size, capacity, _, contents⟩ := put_eq_ok done
    have links : ∀ e f, t.Link e f → s.Link e f ∨ e = c ∧ value = .pointer f := by
      intro e f link
      unfold Link at link
      rw [contents] at link
      split at link
      · rename_i same
        exact Or.inr ⟨same, Option.some.inj link⟩
      · exact Or.inl link
    change t.Rooted
    constructor
    · rw [size, capacity]
      exact rooted.fits
    · intro name d bound
      rw [bound?, names] at bound
      rw [Live, size]
      exact rooted.bound_live bound
    · intro e f link
      rw [Live, size]
      rcases links e f link with old | ⟨_, new⟩
      · exact rooted.link_live old
      · exact (harmless f new).1
    · by_cases points : ∃ d, value = .pointer d
      · obtain ⟨d, rfl⟩ := points
        refine Acyclic.of_new_link rooted.acyclic ?_ (harmless d rfl).2
        intro e f link
        rcases links e f link with old | ⟨same, new⟩
        · exact Or.inl old
        · cases new
          exact Or.inr ⟨same, rfl⟩
      · apply rooted.acyclic.of_fewer_links
        intro e f link
        rcases links e f link with old | ⟨_, new⟩
        · exact old
        · exact absurd ⟨f, new⟩ points

theorem place_rooted (rooted : s.Rooted) (operand : Value) (c : Cell) (value : Value) :
    (stateAfter (place operand c value s)).Rooted := by
  unfold place
  cases found : s.aliased? value with
  | none => exact put_rooted rooted fun d points => absurd points (stored_ne_pointer value d)
  | some pair =>
    obtain ⟨name, source⟩ := pair
    simp only [makeAlias]
    split
    · exact rooted
    · rename_i unreached
      apply put_rooted rooted
      intro d points
      cases points
      refine ⟨rooted.bound_live (aliased?_eq_some found).2, fun path => unreached ?_⟩
      exact (reaches_eq_true_iff rooted.acyclic).mpr path

theorem assign_rooted (rooted : s.Rooted) (operand value : Value) :
    (stateAfter (assign operand value s)).Rooted := by
  have start := target_rooted rooted operand
  rw [assign_apply]
  cases reached : target operand s with
  | error fault t =>
    rw [reached] at start
    exact start
  | ok c t =>
    rw [reached] at start
    dsimp only
    rw [stateAfter_map]
    exact place_rooted start operand c value

/-- Swapping the contents of two roots changes no link, since roots hold none. -/
theorem swap_links (acyclic : s.Acyclic) {c d : Cell} {t : Store}
    (swapped : s.cells.swap? (s.root c) (s.root d) = some t.cells) (e f : Cell) :
    t.Link e f ↔ s.Link e f := by
  obtain ⟨x, y, atLeft, atRight, _, _, contents⟩ := Arena.get?_of_swap? swapped
  have rootless (g h : Cell) {z : Value} (held : s.cells.get? (s.root g) = some z) :
      (some z = some (.pointer f) ↔ s.cells.get? (s.root h) = some (.pointer f)) := by
    rw [← held]
    exact iff_of_false (root_no_link acyclic g f) (root_no_link acyclic h f)
  unfold Link
  rw [contents]
  split
  · rename_i same
    rw [same]
    exact rootless c d atLeft
  · split
    · rename_i same
      rw [same]
      exact rootless d c atRight
    · exact Iff.rfl

theorem swapRoots_rooted (rooted : s.Rooted) (c d : Cell) :
    (stateAfter (swapRoots c d s)).Rooted := by
  unfold swapRoots
  cases swapped : s.cells.swap? (s.root c) (s.root d) with
  | none => exact rooted
  | some cells =>
    obtain ⟨_, _, _, _, size, capacity, _⟩ := Arena.get?_of_swap? swapped
    have links : ∀ e f, (Store.mk cells s.names).Link e f → s.Link e f :=
      fun e f => (swap_links rooted.acyclic swapped e f).mp
    change (Store.mk cells s.names).Rooted
    constructor
    · change cells.size ≤ cells.capacity
      rw [size, capacity]
      exact rooted.fits
    · intro name e bound
      change e.index.toNat < cells.size
      rw [size]
      exact rooted.bound_live bound
    · intro e f link
      change f.index.toNat < cells.size
      rw [size]
      exact rooted.link_live (links e f link)
    · exact rooted.acyclic.of_fewer_links links

theorem exchange_rooted (rooted : s.Rooted) (left right : Value) :
    (stateAfter (exchange left right s)).Rooted := by
  unfold exchange
  split
  · exact rooted
  · exact rooted
  · rename_i c d _ _
    rw [stateAfter_map]
    exact swapRoots_rooted rooted c d
  · exact rooted

end Rooted

end Cellscript.Store
