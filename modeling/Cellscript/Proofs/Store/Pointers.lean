import Cellscript.Proofs.Store.Soundness

/-!
Addresses in a store lead to cells of the store. Everything that is done to a store with such
addresses keeps to them, and never meets a cell that is not there.
-/

set_option autoImplicit false

namespace Cellscript

/-- An address in the value is that of a cell. -/
def Value.Live (s : Store) : Value → Prop
  | .pointer c | .boxed c => s.Live c
  | _ => True

/-- A cell was asked for that is not there. -/
def Fault.Dangling (fault : Fault) : Prop := ∃ index, fault = .danglingPointer index

namespace Store

/-- A sound store that holds no address but those of its own cells. -/
structure Grounded (s : Store) : Prop where
  sound : s.Sound
  contents : ∀ {c value}, s.cells.get? c = some value → value.Live s

variable {s t : Store}

theorem empty_grounded {capacity : Nat} (numbered : capacity ≤ UInt32.size) :
    (Store.empty capacity).Grounded where
  sound := empty_sound numbered
  contents held := by cases Arena.lt_size_of_get? held

theorem clear_grounded (grounded : s.Grounded) : s.clear.Grounded :=
  empty_grounded grounded.sound.numbered

theorem Live.mono {c : Cell} (grows : s.cells.size ≤ t.cells.size) (live : s.Live c) : t.Live c :=
  Nat.lt_of_lt_of_le live grows

theorem live_mono {value : Value} (grows : s.cells.size ≤ t.cells.size) (live : value.Live s) :
    value.Live t := by
  cases value with
  | pointer c => exact Live.mono grows live
  | boxed c => exact Live.mono grows live
  | _ => trivial

/-! ## Reading -/

theorem get_live {c : Cell} (grounded : s.Grounded) (live : s.Live c) :
    ∃ value, s.get c = .ok value ∧ value.Live s := by
  obtain ⟨value, held⟩ := Arena.get?_of_lt live
  exact ⟨value, by rw [get, held], grounded.contents held⟩

theorem named?_live (sound : s.Sound) {operand : Value} {c : Cell}
    (named : s.named? operand = some c) : s.Live c := by
  obtain ⟨name, _, bound⟩ := Option.bind_eq_some_iff.mp named
  exact sound.bound_live bound

/-- Reading through a live operand gives a live value. -/
theorem read_live {operand : Value} (grounded : s.Grounded) (live : operand.Live s) :
    (∃ value, s.read operand = .ok value ∧ value.Live s) ∨
      ∃ fault, s.read operand = .error fault ∧ ¬ fault.Dangling := by
  unfold read
  split
  · exact Or.inl (get_live grounded live)
  · exact Or.inl (get_live grounded live)
  · exact Or.inr ⟨_, rfl, nofun⟩
  all_goals
    split
    · rename_i c named
      exact Or.inl (get_live grounded (grounded.sound.root_live (named?_live grounded.sound named)))
    · exact Or.inr ⟨_, rfl, nofun⟩

/-! ## Writing -/

/-- The store stays grounded and loses no cell, and no cell was missing. -/
def Tame {α : Type} (s : Store) (post : α → Store → Prop) : EStateM.Result Fault Store α → Prop
  | .ok a t => t.Grounded ∧ s.cells.size ≤ t.cells.size ∧ post a t
  | .error fault t => t.Grounded ∧ s.cells.size ≤ t.cells.size ∧ ¬ fault.Dangling

theorem bind_tame {name : String} (grounded : s.Grounded) (fresh : s.bound? name = none) :
    s.Tame (fun c t => t.Live c) (bind name s) := by
  have evolves := bind_evolves fresh
  unfold bind at evolves ⊢
  cases allocated : s.cells.allocate (.number 0) with
  | error full => exact ⟨grounded, Nat.le_refl _, nofun⟩
  | ok result =>
    obtain ⟨c, cells⟩ := result
    rw [allocated] at evolves
    obtain ⟨index, _, size, _, contents⟩ :=
      Arena.get?_of_allocate grounded.sound.numbering allocated
    have grows : s.cells.size ≤ cells.size := by omega
    refine ⟨⟨evolves.sound grounded.sound, fun {d value} held => ?_⟩, grows, ?_⟩
    · change cells.get? d = some value at held
      rw [contents] at held
      split at held
      · cases held
        trivial
      · exact live_mono (t := ⟨cells, (name, c) :: s.names⟩) grows (grounded.contents held)
    · change c.index.toNat < cells.size
      omega

theorem target_tame {operand : Value} (grounded : s.Grounded) (live : operand.Live s) :
    s.Tame (fun c t => t.Live c) (target operand s) := by
  unfold target
  split
  · exact ⟨grounded, Nat.le_refl _, live⟩
  · exact ⟨grounded, Nat.le_refl _, live⟩
  all_goals
    split
    · exact ⟨grounded, Nat.le_refl _, nofun⟩
    · rename_i name _
      cases bound : s.bound? name with
      | some c => exact ⟨grounded, Nat.le_refl _, grounded.sound.bound_live bound⟩
      | none => exact bind_tame grounded bound

theorem put_tame {c : Cell} {value : Value} (grounded : s.Grounded) (live : s.Live c)
    (lives : value.Live s) (evolves : s.Evolves (stateAfter (put c value s))) :
    s.Tame (fun _ _ => True) (put c value s) := by
  obtain ⟨t, done⟩ := put_live live value
  rw [done] at evolves ⊢
  obtain ⟨_, size, _, _, contents⟩ := put_eq_ok done
  have grows : s.cells.size ≤ t.cells.size := Nat.le_of_eq size.symm
  refine ⟨⟨evolves.sound grounded.sound, fun {d other} held => ?_⟩, grows, trivial⟩
  rw [contents] at held
  split at held
  · cases held
    exact live_mono grows lives
  · exact live_mono grows (grounded.contents held)

theorem stored_live {value : Value} (live : value.Live s) : (stored value).Live s := by
  cases value <;> exact live

theorem place_tame {operand value : Value} {c : Cell} (grounded : s.Grounded)
    (operandLive : operand.Live s) (live : s.Live c) (valueLive : value.Live s) :
    s.Tame (fun _ _ => True) (place operand c value s) := by
  have evolves := place_evolves s operand c value
  unfold place at evolves ⊢
  cases found : s.aliased? value with
  | none =>
    rw [found] at evolves
    refine put_tame grounded ?_ (stored_live valueLive) evolves
    split
    · exact operandLive
    · exact grounded.sound.root_live live
  | some pair =>
    obtain ⟨name, source⟩ := pair
    rw [found] at evolves
    dsimp only [makeAlias] at evolves ⊢
    split
    · exact ⟨grounded, Nat.le_refl _, nofun⟩
    · rename_i unreached
      rw [if_neg unreached] at evolves
      exact put_tame grounded live (grounded.sound.bound_live (aliased?_eq_some found).2) evolves

/-- Assigning through a live operand gives a live cell. -/
theorem assign_tame {operand value : Value} (grounded : s.Grounded) (operandLive : operand.Live s)
    (valueLive : value.Live s) : s.Tame (fun c t => t.Live c) (assign operand value s) := by
  have reached := target_tame grounded operandLive
  rw [assign_apply]
  cases targeted : target operand s with
  | error fault t =>
    rw [targeted] at reached
    exact reached
  | ok c t =>
    rw [targeted] at reached
    obtain ⟨after, grows, live⟩ := reached
    have placed := place_tame after (live_mono grows operandLive) live (live_mono grows valueLive)
    dsimp only
    rw [map_apply]
    cases done : place operand c value t with
    | error fault u =>
      rw [done] at placed
      obtain ⟨last, more, known⟩ := placed
      exact ⟨last, Nat.le_trans grows more, known⟩
    | ok _ u =>
      rw [done] at placed
      obtain ⟨last, more, _⟩ := placed
      exact ⟨last, Nat.le_trans grows more, live.mono more⟩

/-! ## Exchanging -/

theorem exchangeCell_live {operand : Value} {c : Cell} (grounded : s.Grounded)
    (live : operand.Live s) (found : s.exchangeCell operand = .ok (some c)) : s.Live c := by
  unfold exchangeCell at found
  split at found
  · cases found
    exact live
  · cases found
  · cases found
  all_goals
    split at found
    · rename_i named
      cases found
      exact named?_live grounded.sound named
    · cases found

theorem exchangeCell_fault_tame {operand : Value} {fault : Fault}
    (failed : s.exchangeCell operand = .error fault) : ¬ fault.Dangling := by
  unfold exchangeCell at failed
  split at failed
  · cases failed
  · cases failed
  · cases failed
  all_goals
    split at failed
    · cases failed
    · cases failed
      exact nofun

theorem swapRoots_tame {c d : Cell} (grounded : s.Grounded) (left : s.Live c) (right : s.Live d) :
    s.Tame (fun _ _ => True) (swapRoots c d s) := by
  have evolves := swapRoots_evolves s c d
  obtain ⟨cells, swapped⟩ := Arena.swap?_of_lt (grounded.sound.root_live left)
    (grounded.sound.root_live right)
  unfold swapRoots at evolves ⊢
  rw [swapped] at evolves ⊢
  obtain ⟨x, y, atLeft, atRight, size, _, contents⟩ := Arena.get?_of_swap? swapped
  have grows : s.cells.size ≤ cells.size := Nat.le_of_eq size.symm
  have moves {value : Value} (live : value.Live s) : value.Live { s with cells } :=
    live_mono grows live
  refine ⟨⟨evolves.sound grounded.sound, fun {e value} held => ?_⟩, grows, trivial⟩
  change cells.get? e = some value at held
  rw [contents] at held
  split at held
  · cases held
    exact moves (grounded.contents atLeft)
  · split at held
    · cases held
      exact moves (grounded.contents atRight)
    · exact moves (grounded.contents held)

theorem exchange_tame {left right : Value} (grounded : s.Grounded) (leftLive : left.Live s)
    (rightLive : right.Live s) : s.Tame (fun c t => t.Live c) (exchange left right s) := by
  unfold exchange
  split
  · rename_i failed
    exact ⟨grounded, Nat.le_refl _, exchangeCell_fault_tame failed⟩
  · rename_i failed
    exact ⟨grounded, Nat.le_refl _, exchangeCell_fault_tame failed⟩
  · rename_i c d first second
    have live := exchangeCell_live grounded leftLive first
    have swapped := swapRoots_tame grounded live (exchangeCell_live grounded rightLive second)
    rw [map_apply]
    cases done : swapRoots c d s with
    | error fault t =>
      rw [done] at swapped
      exact swapped
    | ok _ t =>
      rw [done] at swapped
      obtain ⟨after, grows, _⟩ := swapped
      exact ⟨after, grows, live.mono grows⟩
  · exact ⟨grounded, Nat.le_refl _, nofun⟩

end Store

end Cellscript
