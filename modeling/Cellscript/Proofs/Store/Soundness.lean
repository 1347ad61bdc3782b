import Cellscript.Proofs.Store.Roots

/-!
Soundness of stores: names and cells correspond one to one, and alias links stay inside the store
and run in no circle. Everything that is done to a store keeps it sound and keeps every name at its
cell, also when it fails.
-/

set_option autoImplicit false

namespace Cellscript.Store

open Relation (ReflTransGen TransGen)

structure Sound (s : Store) : Prop where
  /-- Cells can be numbered in 32 bits. -/
  numbered : s.cells.capacity ≤ UInt32.size
  fits : s.cells.size ≤ s.cells.capacity
  bound_live : ∀ {name c}, s.bound? name = some c → s.Live c
  bound_injective : ∀ {name other c}, s.bound? name = some c → s.bound? other = some c →
    name = other
  bound_surjective : ∀ {c}, s.Live c → ∃ name, s.bound? name = some c
  link_live : ∀ {c d}, s.Link c d → s.Live d
  acyclic : s.Acyclic

theorem Sound.rooted {s : Store} (sound : s.Sound) : s.Rooted :=
  ⟨sound.fits, sound.bound_live, sound.link_live, sound.acyclic⟩

/-- A new cell can be numbered. -/
theorem Sound.numbering {s : Store} (sound : s.Sound) :
    s.cells.size < s.cells.capacity → s.cells.size < UInt32.size :=
  fun free => Nat.lt_of_lt_of_le free sound.numbered

theorem empty_sound {capacity : Nat} (numbered : capacity ≤ UInt32.size) :
    (Store.empty capacity).Sound where
  numbered := numbered
  fits := (empty_rooted capacity).fits
  bound_live := (empty_rooted capacity).bound_live
  bound_injective bound := by cases bound
  bound_surjective live := by cases live
  link_live := (empty_rooted capacity).link_live
  acyclic := (empty_rooted capacity).acyclic

theorem clear_sound {s : Store} (sound : s.Sound) : s.clear.Sound :=
  empty_sound sound.numbered

/-- Every name keeps its cell, and a sound store stays sound. -/
structure Evolves (s t : Store) : Prop where
  capacity : t.cells.capacity = s.cells.capacity
  keeps : ∀ {name c}, s.bound? name = some c → t.bound? name = some c
  sound : s.Sound → t.Sound

theorem Evolves.refl (s : Store) : s.Evolves s := ⟨rfl, id, id⟩

theorem Evolves.trans {s t u : Store} (first : s.Evolves t) (second : t.Evolves u) :
    s.Evolves u where
  capacity := second.capacity.trans first.capacity
  keeps bound := second.keeps (first.keeps bound)
  sound sound := second.sound (first.sound sound)

/-- Soundness after a change of contents that leaves names and size alone. -/
theorem Sound.of_contents {s t : Store} (sound : s.Sound) (names : t.names = s.names)
    (size : t.cells.size = s.cells.size) (capacity : t.cells.capacity = s.cells.capacity)
    (rooted : t.Rooted) : t.Sound := by
  have bound : ∀ name, t.bound? name = s.bound? name := fun name => by rw [bound?, bound?, names]
  constructor
  · rw [capacity]
    exact sound.numbered
  · exact rooted.fits
  · exact rooted.bound_live
  · intro name other c first second
    rw [bound] at first second
    exact sound.bound_injective first second
  · intro c live
    rw [Live, size] at live
    obtain ⟨name, named⟩ := sound.bound_surjective live
    exact ⟨name, (bound name).trans named⟩
  · exact rooted.link_live
  · exact rooted.acyclic

/-! ## Writing -/

section Binding

variable {s : Store} {cells : Arena Value} {name : String} {c : Cell}

/-- A name that is bound stays bound when another one is bound. -/
theorem bound?_cons_of_bound (fresh : s.bound? name = none) {other : String} {d : Cell}
    (bound : s.bound? other = some d) :
    (Store.mk cells ((name, c) :: s.names)).bound? other = some d := by
  rw [bound?_cons, if_neg, bound]
  rintro rfl
  rw [fresh] at bound
  cases bound

theorem bound?_cons_injective (sound : s.Sound) (unused : ¬ s.Live c) {first second : String}
    {d : Cell} (boundFirst : (Store.mk cells ((name, c) :: s.names)).bound? first = some d)
    (boundSecond : (Store.mk cells ((name, c) :: s.names)).bound? second = some d) :
    first = second := by
  rw [bound?_cons] at boundFirst boundSecond
  split at boundFirst <;> split at boundSecond
  · rename_i isFirst isSecond
    exact isFirst.trans isSecond.symm
  · cases boundFirst
    exact absurd (sound.bound_live boundSecond) unused
  · cases boundSecond
    exact absurd (sound.bound_live boundFirst) unused
  · exact sound.bound_injective boundFirst boundSecond

/-- A store with one more cell that holds no link, bound to a name of its own. -/
theorem Sound.cons (sound : s.Sound) (fresh : s.bound? name = none)
    (allocated : s.cells.allocate (.number 0) = .ok (c, cells)) :
    (Store.mk cells ((name, c) :: s.names)).Sound := by
  obtain ⟨index, free, size, capacity, contents⟩ := Arena.get?_of_allocate sound.numbering allocated
  have rooted := sound.rooted.cons name allocated
  have unused : ¬ s.Live c := by
    unfold Live
    omega
  constructor
  · exact capacity ▸ sound.numbered
  · exact rooted.fits
  · exact rooted.bound_live
  · intro first second d boundFirst boundSecond
    exact bound?_cons_injective sound unused boundFirst boundSecond
  · intro d live
    change d.index.toNat < cells.size at live
    by_cases same : d = c
    · exact ⟨name, by simp [bound?_cons, same]⟩
    · have before : s.Live d := by
        have differs : d.index.toNat ≠ c.index.toNat :=
          fun equal => same (Arena.Handle.eq_of_toNat equal)
        unfold Live
        omega
      obtain ⟨other, bound⟩ := sound.bound_surjective before
      exact ⟨other, bound?_cons_of_bound fresh bound⟩
  · exact rooted.link_live
  · exact rooted.acyclic

theorem bind_evolves (fresh : s.bound? name = none) : s.Evolves (stateAfter (bind name s)) := by
  unfold bind
  cases allocated : s.cells.allocate (.number 0) with
  | error full => exact Evolves.refl s
  | ok result =>
    obtain ⟨c, cells⟩ := result
    exact ⟨Arena.capacity_of_allocate allocated, bound?_cons_of_bound fresh,
      fun sound => sound.cons fresh allocated⟩

end Binding

theorem target_evolves (s : Store) (operand : Value) :
    s.Evolves (stateAfter (target operand s)) := by
  unfold target
  split
  · exact Evolves.refl s
  · exact Evolves.refl s
  all_goals
    split
    · exact Evolves.refl s
    · rename_i name _
      cases bound : s.bound? name with
      | some c => exact Evolves.refl s
      | none => exact bind_evolves bound

/-- Writing keeps a store sound if the new content closes no circle of links. -/
theorem put_evolves {s : Store} {c : Cell} {value : Value}
    (harmless : s.Rooted → ∀ d, value = .pointer d → s.Live d ∧ ¬ ReflTransGen s.Link d c) :
    s.Evolves (stateAfter (put c value s)) := by
  have rooted (sound : s.Sound) := put_rooted sound.rooted (harmless sound.rooted)
  cases done : put c value s with
  | error fault t =>
    rw [put_eq_error done]
    exact Evolves.refl s
  | ok _ t =>
    obtain ⟨names, size, capacity, _, _⟩ := put_eq_ok done
    rw [done] at rooted
    refine ⟨capacity, fun bound => ?_, fun sound => sound.of_contents names size capacity
      (rooted sound)⟩
    change t.bound? _ = _
    rw [bound?, names]
    exact bound

theorem makeAlias_evolves {s : Store} {c source : Cell} {name : String}
    (bound : s.bound? name = some source) :
    s.Evolves (stateAfter (makeAlias c source name s)) := by
  unfold makeAlias
  split
  · exact Evolves.refl s
  · rename_i unreached
    refine put_evolves fun rooted d points => ?_
    cases points
    refine ⟨rooted.bound_live bound, fun path => ?_⟩
    exact unreached ((reaches_eq_true_iff rooted.acyclic).mpr path)

theorem overwrite_evolves (s : Store) (operand : Value) (c : Cell) (value : Value) :
    s.Evolves (stateAfter (overwrite operand c value s)) :=
  put_evolves fun _ d points => absurd points (stored_ne_pointer value d)

theorem place_evolves (s : Store) (operand : Value) (c : Cell) (value : Value) :
    s.Evolves (stateAfter (place operand c value s)) := by
  unfold place
  cases found : s.aliased? value with
  | none => exact overwrite_evolves s operand c value
  | some pair => exact makeAlias_evolves (aliased?_eq_some found).2

theorem assign_evolves (s : Store) (operand value : Value) :
    s.Evolves (stateAfter (assign operand value s)) := by
  have start := target_evolves s operand
  rw [assign_apply]
  cases reached : target operand s with
  | error fault t =>
    rw [reached] at start
    exact start
  | ok c t =>
    rw [reached] at start
    dsimp only
    rw [stateAfter_map]
    exact start.trans (place_evolves t operand c value)

/-! ## Exchanging -/

theorem swapRoots_evolves (s : Store) (c d : Cell) :
    s.Evolves (stateAfter (swapRoots c d s)) := by
  have rooted (sound : s.Sound) := swapRoots_rooted sound.rooted c d
  unfold swapRoots at rooted ⊢
  cases swapped : s.cells.swap? (s.root c) (s.root d) with
  | none => exact Evolves.refl s
  | some cells =>
    obtain ⟨_, _, _, _, size, capacity, _⟩ := Arena.get?_of_swap? swapped
    rw [swapped] at rooted
    exact ⟨capacity, id, fun sound => sound.of_contents rfl size capacity (rooted sound)⟩

theorem exchange_evolves (s : Store) (left right : Value) :
    s.Evolves (stateAfter (exchange left right s)) := by
  unfold exchange
  split
  · exact Evolves.refl s
  · exact Evolves.refl s
  · rename_i c d _ _
    rw [stateAfter_map]
    exact swapRoots_evolves s c d
  · exact Evolves.refl s

/-! ## Roots in sound stores -/

theorem Sound.root_live {s : Store} (sound : s.Sound) {c : Cell} (live : s.Live c) :
    s.Live (s.root c) := sound.rooted.root_live live

theorem Sound.valueOf? {s : Store} (sound : s.Sound) {name : String} {c : Cell}
    (bound : s.bound? name = some c) :
    ∃ value, s.cells.get? (s.root c) = some value ∧ s.valueOf? name = some value ∧
      ∀ d, value ≠ .pointer d := by
  obtain ⟨value, held⟩ := Arena.get?_of_lt (sound.root_live (sound.bound_live bound))
  refine ⟨value, held, ?_, ?_⟩
  · simp [Store.valueOf?, bound, held]
  · rintro d rfl
    exact root_no_link sound.acyclic c d held

end Cellscript.Store
