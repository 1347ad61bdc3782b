import Cellscript.Arena

/-!
What an arena shows after each of its operations, slot by slot.
-/

set_option autoImplicit false

namespace Cellscript.Arena

variable {α : Type}

theorem Handle.eq_of_toNat {h k : Handle} (same : h.index.toNat = k.index.toNat) : h = k := by
  cases h
  cases k
  exact congrArg Handle.mk (UInt32.toNat_inj.mp same)

theorem get?_isSome_iff (a : Arena α) (h : Handle) :
    (a.get? h).isSome ↔ h.index.toNat < a.size := by
  simp [get?, size]

theorem lt_size_of_get? {a : Arena α} {h : Handle} {value : α} (held : a.get? h = some value) :
    h.index.toNat < a.size :=
  (a.get?_isSome_iff h).mp (by simp [held])

theorem get?_of_lt {a : Arena α} {h : Handle} (live : h.index.toNat < a.size) :
    ∃ value, a.get? h = some value :=
  Option.isSome_iff_exists.mp ((a.get?_isSome_iff h).mpr live)

/-! ## Overwriting -/

theorem set?_eq_some_iff {a b : Arena α} {h : Handle} {value : α} :
    a.set? h value = some b ↔
      h.index.toNat < a.size ∧
        b = { a with slots := a.slots.setIfInBounds h.index.toNat value } := by
  unfold set?
  by_cases live : h.index.toNat < a.size
  · simp only [live, ↓reduceIte, Option.some.injEq, true_and]
    exact eq_comm
  · simp only [live, ↓reduceIte, false_and, reduceCtorEq]

theorem capacity_of_set? {a b : Arena α} {h : Handle} {value : α}
    (written : a.set? h value = some b) : b.capacity = a.capacity := by
  rw [(set?_eq_some_iff.mp written).2]

theorem size_of_set? {a b : Arena α} {h : Handle} {value : α}
    (written : a.set? h value = some b) : b.size = a.size := by
  rw [(set?_eq_some_iff.mp written).2]
  simp [size]

theorem get?_of_set? {a b : Arena α} {h : Handle} {value : α}
    (written : a.set? h value = some b) (k : Handle) :
    b.get? k = if k = h then some value else a.get? k := by
  obtain ⟨live, rfl⟩ := set?_eq_some_iff.mp written
  by_cases same : k = h
  · subst same
    simp only [get?, ↓reduceIte]
    exact Array.getElem?_setIfInBounds_self_of_lt live
  · have apart : h.index.toNat ≠ k.index.toNat := fun equal => same (Handle.eq_of_toNat equal.symm)
    simp only [get?, same, ↓reduceIte]
    exact Array.getElem?_setIfInBounds_ne apart

/-! ## Swapping -/

/-- A swap succeeds when both slots are in use, and then only these two change. -/
theorem get?_of_swap? {a b : Arena α} {h k : Handle} (swapped : a.swap? h k = some b) :
    ∃ x y, a.get? h = some x ∧ a.get? k = some y ∧ b.size = a.size ∧ b.capacity = a.capacity ∧
      ∀ l, b.get? l = if l = k then some x else if l = h then some y else a.get? l := by
  unfold swap? at swapped
  split at swapped
  · rename_i x y atH atK
    obtain ⟨c, first, second⟩ := Option.bind_eq_some_iff.mp swapped
    refine ⟨x, y, atH, atK, ?_, ?_, ?_⟩
    · rw [size_of_set? second, size_of_set? first]
    · rw [capacity_of_set? second, capacity_of_set? first]
    · intro l
      rw [get?_of_set? second, get?_of_set? first]
  · cases swapped

theorem swap?_of_lt {a : Arena α} {h k : Handle} (first : h.index.toNat < a.size)
    (second : k.index.toNat < a.size) : ∃ b, a.swap? h k = some b := by
  obtain ⟨x, atH⟩ := get?_of_lt first
  obtain ⟨y, atK⟩ := get?_of_lt second
  obtain ⟨b, written⟩ : ∃ b, a.set? h y = some b := ⟨_, set?_eq_some_iff.mpr ⟨first, rfl⟩⟩
  have inside : k.index.toNat < b.size := by rwa [size_of_set? written]
  obtain ⟨c, again⟩ : ∃ c, b.set? k x = some c := ⟨_, set?_eq_some_iff.mpr ⟨inside, rfl⟩⟩
  exact ⟨c, by simp only [swap?, atH, atK, written, Option.bind_some, again]⟩

theorem ext_slots {a b : Arena α} (capacity : a.capacity = b.capacity)
    (slots : ∀ i : Nat, a.slots[i]? = b.slots[i]?) : a = b := by
  cases a
  cases b
  cases capacity
  cases Array.ext_getElem? slots
  rfl

/-- A swap slot by slot, also for slots that no handle can number. -/
theorem slots_of_swap? {a b : Arena α} {h k : Handle} (swapped : a.swap? h k = some b) (i : Nat) :
    b.slots[i]? =
      if i = k.index.toNat then a.get? h
      else if i = h.index.toNat then a.get? k
      else a.slots[i]? := by
  unfold swap? at swapped
  split at swapped
  · rename_i x y atH atK
    obtain ⟨c, first, second⟩ := Option.bind_eq_some_iff.mp swapped
    obtain ⟨inside, rfl⟩ := set?_eq_some_iff.mp first
    obtain ⟨within, rfl⟩ := set?_eq_some_iff.mp second
    rw [size] at inside within
    rw [Array.size_setIfInBounds] at within
    simp only [Array.getElem?_setIfInBounds, Array.size_setIfInBounds, within, inside, ↓reduceIte,
      eq_comm (a := i), atH, atK]
  · cases swapped

theorem swap?_comm {a b : Arena α} {h k : Handle} (swapped : a.swap? h k = some b) :
    a.swap? k h = some b := by
  obtain ⟨x, y, atH, atK, _, capacity, _⟩ := get?_of_swap? swapped
  obtain ⟨c, other⟩ := swap?_of_lt (lt_size_of_get? atK) (lt_size_of_get? atH)
  rw [other]
  refine congrArg some (ext_slots ?_ fun i => ?_)
  · obtain ⟨_, _, _, _, _, same, _⟩ := get?_of_swap? other
    rw [same, capacity]
  · rw [slots_of_swap? other, slots_of_swap? swapped]
    by_cases atFirst : i = h.index.toNat
    · by_cases both : h.index.toNat = k.index.toNat
      · rw [if_pos atFirst, if_pos (atFirst.trans both), Handle.eq_of_toNat both]
      · rw [if_pos atFirst, if_neg (fun same => both (atFirst.symm.trans same)), if_pos atFirst]
    · simp only [atFirst, ↓reduceIte]

/-- A second swap undoes the first. -/
theorem swap?_swap? {a b : Arena α} {h k : Handle} (swapped : a.swap? h k = some b) :
    b.swap? h k = some a := by
  obtain ⟨x, y, atH, atK, size, capacity, contents⟩ := get?_of_swap? swapped
  obtain ⟨c, again⟩ : ∃ c, b.swap? h k = some c :=
    swap?_of_lt (size ▸ lt_size_of_get? atH) (size ▸ lt_size_of_get? atK)
  rw [again]
  refine congrArg some (ext_slots ?_ fun i => ?_)
  · obtain ⟨_, _, _, _, _, same, _⟩ := get?_of_swap? again
    rw [same, capacity]
  · have atSecond : b.get? k = a.get? h := by rw [contents, if_pos rfl, atH]
    have atFirst : b.get? h = a.get? k := by
      by_cases same : h = k
      · rw [same] at atSecond ⊢
        exact atSecond
      · rw [contents, if_neg same, if_pos rfl, atK]
    rw [slots_of_swap? again, atFirst, atSecond]
    by_cases isSecond : i = k.index.toNat
    · rw [if_pos isSecond, isSecond]
      rfl
    · by_cases isFirst : i = h.index.toNat
      · rw [if_neg isSecond, if_pos isFirst, isFirst]
        rfl
      · rw [if_neg isSecond, if_neg isFirst, slots_of_swap? swapped, if_neg isSecond,
          if_neg isFirst]

/-! ## Allocating -/

theorem capacity_of_allocate {a b : Arena α} {h : Handle} {value : α}
    (allocated : a.allocate value = .ok (h, b)) : b.capacity = a.capacity := by
  unfold allocate at allocated
  split at allocated
  · cases allocated
  · cases allocated
    rfl

theorem allocate_of_full {a : Arena α} (full : a.capacity ≤ a.size) (value : α) :
    a.allocate value = .error ⟨a.capacity⟩ := by
  simp only [allocate, full, ↓reduceIte]

/-- Whatever the number of the new handle, it is that of a slot, and no slot shows anything but what
was there or the new value. -/
theorem lt_size_of_allocate {a b : Arena α} {h : Handle} {value : α}
    (allocated : a.allocate value = .ok (h, b)) :
    a.size < a.capacity ∧ b.size = a.size + 1 ∧ h.index.toNat < b.size ∧
      ∀ k x, b.get? k = some x → a.get? k = some x ∨ x = value := by
  unfold allocate at allocated
  split at allocated
  · cases allocated
  · rename_i free
    cases allocated
    have index : a.size.toUInt32.toNat ≤ a.size := Nat.mod_le _ _
    refine ⟨by omega, by simp [size], ?_, ?_⟩
    · simp only [size, Array.size_push] at index ⊢
      omega
    · intro k x held
      simp only [get?, Array.getElem?_push] at held
      split at held
      · exact Or.inr (Option.some.inj held).symm
      · exact Or.inl held

/-- While slots are numbered in 32 bits, the new handle numbers the new slot. -/
theorem get?_of_allocate {a b : Arena α} {h : Handle} {value : α}
    (numbered : a.size < a.capacity → a.size < UInt32.size)
    (allocated : a.allocate value = .ok (h, b)) :
    h.index.toNat = a.size ∧ a.size < a.capacity ∧ b.size = a.size + 1 ∧
      b.capacity = a.capacity ∧ ∀ k, b.get? k = if k = h then some value else a.get? k := by
  unfold allocate at allocated
  split at allocated
  · cases allocated
  · rename_i free
    cases allocated
    have index : a.size.toUInt32.toNat = a.size :=
      Nat.mod_eq_of_lt (numbered (Nat.lt_of_not_le free))
    refine ⟨index, by omega, by simp [size], rfl, ?_⟩
    intro k
    by_cases same : k = ⟨a.size.toUInt32⟩
    · subst same
      simp only [get?, index, ↓reduceIte]
      exact Array.getElem?_push_size
    · have apart : k.index.toNat ≠ a.slots.size := by
        intro equal
        exact same (Handle.eq_of_toNat (equal.trans index.symm))
      simp only [get?, same, ↓reduceIte]
      rw [Array.getElem?_push, ite_cond_eq_false _ _ (eq_false apart)]

/-! ## Values of another kind -/

section Map

variable {β : Type}

/-- The arena with every value replaced. -/
def map (f : α → β) (a : Arena α) : Arena β := ⟨a.capacity, a.slots.map f⟩

variable {f : α → β} {a : Arena α}

theorem size_map : (a.map f).size = a.size := Array.size_map

theorem get?_map (h : Handle) : (a.map f).get? h = (a.get? h).map f := Array.getElem?_map

theorem set?_map (h : Handle) (value : α) :
    (a.map f).set? h (f value) = (a.set? h value).map (map f) := by
  unfold set?
  rw [size_map, apply_ite (Option.map (map f)), Option.map_some, Option.map_none]
  unfold map
  rw [Array.map_setIfInBounds]

theorem swap?_map (h k : Handle) : (a.map f).swap? h k = (a.swap? h k).map (map f) := by
  unfold swap?
  rw [get?_map, get?_map]
  cases a.get? h with
  | none => rfl
  | some x =>
    cases a.get? k with
    | none => rfl
    | some y =>
      simp only [Option.map_some]
      rw [set?_map]
      cases a.set? h y with
      | none => rfl
      | some b => exact set?_map k x

theorem allocate_map (value : α) :
    (a.map f).allocate (f value) =
      (a.allocate value).map fun allocated => (allocated.1, allocated.2.map f) := by
  unfold allocate
  rw [size_map]
  by_cases full : a.capacity ≤ a.size
  · rw [if_pos full, if_pos (show (a.map f).capacity ≤ a.size from full)]
    rfl
  · rw [if_neg full, if_neg (show ¬ (a.map f).capacity ≤ a.size from full)]
    simp [Except.map, map]

end Map

/-- Every slot holds a value of the kind. -/
def All (P : α → Prop) (a : Arena α) : Prop := ∀ value ∈ a.slots, P value

namespace All

variable {P : α → Prop} {a b : Arena α} {h k : Handle} {value : α}

theorem get? (all : a.All P) (held : a.get? h = some value) : P value :=
  all _ (Array.mem_of_getElem? held)

theorem set? (all : a.All P) (new : P value) (changed : a.set? h value = some b) : b.All P := by
  obtain ⟨_, rfl⟩ := set?_eq_some_iff.mp changed
  intro other member
  rcases Array.mem_or_eq_of_mem_setIfInBounds member with old | rfl
  · exact all other old
  · exact new

theorem swap? (all : a.All P) (swapped : a.swap? h k = some b) : b.All P := by
  unfold Arena.swap? at swapped
  split at swapped
  case h_1 x y first second =>
    obtain ⟨c, one, other⟩ := Option.bind_eq_some_iff.mp swapped
    exact (all.set? (all.get? second) one).set? (all.get? first) other
  case h_2 => cases swapped

theorem allocate (all : a.All P) (new : P value) (allocated : a.allocate value = .ok (h, b)) :
    b.All P := by
  unfold Arena.allocate at allocated
  split at allocated
  · cases allocated
  · cases allocated
    intro other member
    rcases Array.mem_push.mp member with old | rfl
    · exact all other old
    · exact new

end All

end Cellscript.Arena
