import Cellscript.Proofs.Arena
import Mathlib.Data.List.Nodup
import Mathlib.Logic.Function.Basic

/-!
What the handles of an arena stand for. A ledger keeps what was placed in every slot, and numbers
slots without bound. An arena shows what the ledger shows, whatever is asked of it, but its handles
number slots in 32 bits: they are told apart exactly as long as there are no more slots than that.
-/

set_option autoImplicit false

namespace Cellscript.Arena

variable {α : Type}

/-- What can be asked of an arena. A handle may be out of date or belong to another arena. -/
inductive Request (α : Type)
  | allocate (value : α)
  | set (h : Handle) (value : α)
  | swap (h k : Handle)
  | clear

/-- An arena in use, and the handles that it has given out since it was last cleared. -/
structure Usage (α : Type) where
  arena : Arena α
  given : List Handle

namespace Usage

/-- What is left of a request, and whether it was granted. -/
def serve (u : Usage α) : Request α → Usage α × Bool
  | .allocate value =>
    match u.arena.allocate value with
    | .ok (h, a) => (⟨a, u.given ++ [h]⟩, true)
    | .error _ => (u, false)
  | .set h value =>
    match u.arena.set? h value with
    | some a => (⟨a, u.given⟩, true)
    | none => (u, false)
  | .swap h k =>
    match u.arena.swap? h k with
    | some a => (⟨a, u.given⟩, true)
    | none => (u, false)
  | .clear => (⟨u.arena.clear, []⟩, true)

/-- The use of an arena that starts empty. -/
def after (capacity : Nat) (requests : List (Request α)) : Usage α :=
  requests.foldl (fun u r => (u.serve r).1) ⟨.empty capacity, []⟩

end Usage

/-- A finite map from the numbers of slots to what was placed there last. -/
structure Ledger (α : Type) where
  next : Nat
  values : Nat → Option α

namespace Ledger

/-- What is left of a request to an arena of this capacity, and whether it was granted. -/
def serve (capacity : Nat) (l : Ledger α) : Request α → Ledger α × Bool
  | .allocate value =>
    if l.next = capacity then (l, false)
    else (⟨l.next + 1, Function.update l.values l.next (some value)⟩, true)
  | .set h value =>
    if h.index.toNat < l.next then
      (⟨l.next, Function.update l.values h.index.toNat (some value)⟩, true)
    else (l, false)
  | .swap h k =>
    if h.index.toNat < l.next ∧ k.index.toNat < l.next then
      (⟨l.next, Function.update (Function.update l.values h.index.toNat (l.values k.index.toNat))
        k.index.toNat (l.values h.index.toNat)⟩, true)
    else (l, false)
  | .clear => (⟨0, fun _ => none⟩, true)

/-- What a ledger that starts empty has recorded. -/
def after (capacity : Nat) (requests : List (Request α)) : Ledger α :=
  requests.foldl (fun l r => (l.serve capacity r).1) ⟨0, fun _ => none⟩

end Ledger

/-! ## An arena and its ledger -/

/-- The handle of a slot. Its number is cut to 32 bits. -/
def Handle.ofSlot (n : Nat) : Handle := ⟨n.toUInt32⟩

theorem Handle.ofSlot_index (n : Nat) : (Handle.ofSlot n).index.toNat = n % UInt32.size := rfl

/-- The arena shows what the ledger shows, and has given out the handle of each slot. -/
structure Mirrors (capacity : Nat) (u : Usage α) (l : Ledger α) : Prop where
  limit : u.arena.capacity = capacity
  size : u.arena.size = l.next
  bounded : l.next ≤ capacity
  slots : ∀ i : Nat, u.arena.slots[i]? = l.values i
  given : u.given = (List.range l.next).map Handle.ofSlot

namespace Mirrors

variable {capacity : Nat} {u : Usage α} {l : Ledger α}

theorem empty (capacity : Nat) :
    Mirrors capacity (⟨.empty capacity, []⟩ : Usage α) ⟨0, fun _ => none⟩ where
  limit := rfl
  size := rfl
  bounded := Nat.zero_le _
  slots _ := rfl
  given := rfl

theorem allocate (mirrors : Mirrors capacity u l) (value : α) :
    Mirrors capacity (u.serve (.allocate value)).1 (l.serve capacity (.allocate value)).1 ∧
      (u.serve (.allocate value)).2 = (l.serve capacity (.allocate value)).2 := by
  have size := mirrors.size
  have bounded := mirrors.bounded
  simp only [Usage.serve, Ledger.serve, Arena.allocate, mirrors.limit, size]
  by_cases full : l.next = capacity
  · rw [if_pos full, if_pos (Nat.le_of_eq full.symm)]
    exact ⟨mirrors, rfl⟩
  · rw [if_neg full, if_neg (by omega)]
    refine ⟨⟨rfl, ?_, ?_, fun i => ?_, ?_⟩, rfl⟩
    · rw [Arena.size, Array.size_push, ← size]
      rfl
    · change l.next + 1 ≤ capacity
      omega
    · change (u.arena.slots.push value)[i]? = Function.update l.values l.next (some value) i
      rw [Array.getElem?_push, mirrors.slots, show u.arena.slots.size = l.next from size,
        Function.update_apply]
    · rw [mirrors.given, List.range_succ, List.map_append]
      rfl

theorem set (mirrors : Mirrors capacity u l) (h : Handle) (value : α) :
    Mirrors capacity (u.serve (.set h value)).1 (l.serve capacity (.set h value)).1 ∧
      (u.serve (.set h value)).2 = (l.serve capacity (.set h value)).2 := by
  simp only [Usage.serve, Ledger.serve, Arena.set?, mirrors.size]
  by_cases live : h.index.toNat < l.next
  · rw [if_pos live, if_pos live]
    refine ⟨⟨mirrors.limit, ?_, mirrors.bounded, fun i => ?_, mirrors.given⟩, rfl⟩
    · rw [← mirrors.size, Arena.size, Arena.size, Array.size_setIfInBounds]
    · have inside : h.index.toNat < u.arena.slots.size := Nat.lt_of_lt_of_eq live mirrors.size.symm
      simp only [Array.getElem?_setIfInBounds, Function.update_apply, mirrors.slots, inside,
        ↓reduceIte, eq_comm (b := i)]
  · rw [if_neg live, if_neg live]
    exact ⟨mirrors, rfl⟩

theorem get? (mirrors : Mirrors capacity u l) (h : Handle) :
    u.arena.get? h = l.values h.index.toNat :=
  mirrors.slots h.index.toNat

theorem swap (mirrors : Mirrors capacity u l) (h k : Handle) :
    Mirrors capacity (u.serve (.swap h k)).1 (l.serve capacity (.swap h k)).1 ∧
      (u.serve (.swap h k)).2 = (l.serve capacity (.swap h k)).2 := by
  simp only [Usage.serve, Ledger.serve, ← mirrors.size]
  by_cases live : h.index.toNat < u.arena.size ∧ k.index.toNat < u.arena.size
  · obtain ⟨b, swapped⟩ := swap?_of_lt live.1 live.2
    obtain ⟨_, _, _, _, size, same, _⟩ := get?_of_swap? swapped
    rw [swapped, if_pos live]
    refine ⟨⟨same.trans mirrors.limit, size, mirrors.size ▸ mirrors.bounded, fun i => ?_, ?_⟩, rfl⟩
    · simp only [slots_of_swap? swapped i, Function.update_apply, mirrors.get?, mirrors.slots]
    · rw [mirrors.given, mirrors.size]
  · have refused : u.arena.swap? h k = none := by
      cases swapped : u.arena.swap? h k with
      | none => rfl
      | some b =>
        obtain ⟨_, _, first, second, _⟩ := get?_of_swap? swapped
        exact absurd ⟨lt_size_of_get? first, lt_size_of_get? second⟩ live
    rw [refused, if_neg live]
    exact ⟨mirrors, rfl⟩

/-- A request is granted by both or by neither, and afterwards they still agree. -/
theorem serve (mirrors : Mirrors capacity u l) (r : Request α) :
    Mirrors capacity (u.serve r).1 (l.serve capacity r).1 ∧
      (u.serve r).2 = (l.serve capacity r).2 := by
  cases r with
  | allocate value => exact mirrors.allocate value
  | set h value => exact mirrors.set h value
  | swap h k => exact mirrors.swap h k
  | clear => exact ⟨⟨mirrors.limit, rfl, Nat.zero_le _, fun _ => rfl, rfl⟩, rfl⟩

theorem after (capacity : Nat) (requests : List (Request α)) :
    Mirrors capacity (Usage.after capacity requests) (Ledger.after capacity requests) := by
  unfold Usage.after Ledger.after
  have run : ∀ (u : Usage α) (l : Ledger α), Mirrors capacity u l →
      Mirrors capacity (requests.foldl (fun u r => (u.serve r).1) u)
        (requests.foldl (fun l r => (l.serve capacity r).1) l) := by
    induction requests with
    | nil => exact fun _ _ mirrors => mirrors
    | cons r rest ih => exact fun _ _ mirrors => ih _ _ (mirrors.serve r).1
  exact run _ _ (empty capacity)

/-- Handles are told apart exactly as long as 32 bits can number the slots. -/
theorem given_nodup_iff (mirrors : Mirrors capacity u l) :
    u.given.Nodup ↔ u.arena.size ≤ UInt32.size := by
  rw [mirrors.given, mirrors.size]
  constructor
  · intro distinct
    by_contra many
    -- the slot behind the last number that fits has the handle of the first one
    have first : 0 ∈ List.range l.next := List.mem_range.mpr (by omega)
    have last : UInt32.size ∈ List.range l.next := List.mem_range.mpr (by omega)
    have same : (0 : Nat) = UInt32.size := List.inj_on_of_nodup_map distinct first last rfl
    exact absurd same (by decide)
  · intro few
    refine List.nodup_range.map_on fun n first m second same => ?_
    have equal : n % UInt32.size = m % UInt32.size :=
      congrArg (fun h : Handle => h.index.toNat) same
    rwa [Nat.mod_eq_of_lt (Nat.lt_of_lt_of_le (List.mem_range.mp first) few),
      Nat.mod_eq_of_lt (Nat.lt_of_lt_of_le (List.mem_range.mp second) few)] at equal

/-- A handle shows the slot that its number is cut to, which is always in use. -/
theorem get?_given (mirrors : Mirrors capacity u l) {n : Nat} {h : Handle}
    (held : u.given[n]? = some h) :
    ∃ value, u.arena.get? h = some value ∧ l.values (n % UInt32.size) = some value := by
  rw [mirrors.given, List.getElem?_map] at held
  obtain ⟨slot, found, rfl⟩ := Option.map_eq_some_iff.mp held
  obtain ⟨inside, rfl⟩ := List.getElem?_eq_some_iff.mp found
  rw [List.length_range] at inside
  rw [List.getElem_range] at *
  have live : (Handle.ofSlot n).index.toNat < u.arena.size := by
    rw [Handle.ofSlot_index, mirrors.size]
    exact Nat.lt_of_le_of_lt (Nat.mod_le _ _) inside
  obtain ⟨value, shown⟩ := get?_of_lt live
  exact ⟨value, shown, by rw [← shown, mirrors.get?, Handle.ofSlot_index]⟩

end Mirrors

theorem Usage.serve_of_refused {u : Usage α} {r : Request α} (refused : (u.serve r).2 = false) :
    (u.serve r).1 = u := by
  cases r with
  | clear => cases refused
  | allocate value =>
    rw [Usage.serve] at refused ⊢
    cases done : u.arena.allocate value with
    | ok result =>
      rw [done] at refused
      cases refused
    | error full => rfl
  | set h value =>
    rw [Usage.serve] at refused ⊢
    cases done : u.arena.set? h value with
    | some a =>
      rw [done] at refused
      cases refused
    | none => rfl
  | swap h k =>
    rw [Usage.serve] at refused ⊢
    cases done : u.arena.swap? h k with
    | some a =>
      rw [done] at refused
      cases refused
    | none => rfl

/-- Whatever is asked of an arena, of any capacity, the handles that it has given out since it was
last cleared are different exactly as long as it has no more than 2³² slots. The handle of a slot
shows what was last placed in the slot that 32 bits of its number name. An allocation is refused
exactly if all slots are in use, and a swap exactly if one of its handles names none; what is
refused changes nothing. -/
theorem handles_stand_for_slots_in_range (capacity : Nat) (requests : List (Request α)) :
    ((Usage.after capacity requests).given.length = (Usage.after capacity requests).arena.size ∧
      ((Usage.after capacity requests).given.Nodup ↔
        (Usage.after capacity requests).arena.size ≤ UInt32.size)) ∧
    (∀ (n : Nat) (h : Handle), (Usage.after capacity requests).given[n]? = some h →
      ∃ value, (Usage.after capacity requests).arena.get? h = some value ∧
        (Ledger.after capacity requests).values (n % UInt32.size) = some value) ∧
    (∀ value, ((Usage.after capacity requests).serve (.allocate value)).2 = false ↔
      (Usage.after capacity requests).arena.size = capacity) ∧
    (∀ h k, ((Usage.after capacity requests).serve (.swap h k)).2 = false ↔
      (Usage.after capacity requests).arena.size ≤ h.index.toNat ∨
        (Usage.after capacity requests).arena.size ≤ k.index.toNat) ∧
    ∀ r, ((Usage.after capacity requests).serve r).2 = false →
      ((Usage.after capacity requests).serve r).1 = Usage.after capacity requests := by
  have mirrors := Mirrors.after capacity requests
  refine ⟨⟨?_, mirrors.given_nodup_iff⟩, fun n h held => mirrors.get?_given held, fun value => ?_,
    fun h k => ?_, fun r refused => Usage.serve_of_refused refused⟩
  · rw [mirrors.given, mirrors.size, List.length_map, List.length_range]
  · rw [(mirrors.serve _).2, mirrors.size, Ledger.serve]
    split <;> simp [*]
  · rw [(mirrors.serve _).2, mirrors.size, Ledger.serve]
    split <;> simp only [Bool.true_eq_false, false_iff, true_iff] <;> omega

/-! ## Past the range -/

/-- Fills slots with their numbers. -/
def allocations (count : Nat) : List (Request Nat) := (List.range count).map .allocate

theorem Ledger.after_concat (capacity : Nat) (requests : List (Request α)) (r : Request α) :
    Ledger.after capacity (requests ++ [r]) =
      ((Ledger.after capacity requests).serve capacity r).1 :=
  List.foldl_append

theorem Ledger.after_allocations {capacity count : Nat} (room : count ≤ capacity) :
    (Ledger.after capacity (allocations count)).next = count ∧
      ∀ n < count, (Ledger.after capacity (allocations count)).values n = some n := by
  induction count with
  | zero => exact ⟨rfl, fun n inside => absurd inside (Nat.not_lt_zero n)⟩
  | succ count ih =>
    obtain ⟨next, values⟩ := ih (Nat.le_of_succ_le room)
    have more : allocations (count + 1) = allocations count ++ [.allocate count] := by
      rw [allocations, List.range_succ, List.map_append]
      rfl
    have free : count ≠ capacity := Nat.ne_of_lt room
    rw [more, Ledger.after_concat, Ledger.serve, next, if_neg free]
    refine ⟨rfl, fun n inside => ?_⟩
    dsimp only
    rw [Function.update_apply]
    split
    · rename_i same
      rw [same]
    · exact values n (by omega)

/-- With one slot more than 32 bits can number, the last handle is that of the first slot. It shows
what is there, and not what was allocated for it. -/
theorem last_handle_shows_first_slot :
    (Usage.after (UInt32.size + 1) (allocations (UInt32.size + 1))).given[0]? = some ⟨0⟩ ∧
      (Usage.after (UInt32.size + 1) (allocations (UInt32.size + 1))).given[UInt32.size]? =
        some ⟨0⟩ ∧
      (Usage.after (UInt32.size + 1) (allocations (UInt32.size + 1))).arena.get? ⟨0⟩ = some 0 ∧
      (Ledger.after (UInt32.size + 1) (allocations (UInt32.size + 1))).values UInt32.size =
        some UInt32.size := by
  have mirrors := Mirrors.after (UInt32.size + 1) (allocations (UInt32.size + 1))
  obtain ⟨next, values⟩ := Ledger.after_allocations (Nat.le_refl (UInt32.size + 1))
  have handle (n : Nat) (inside : n < UInt32.size + 1) :
      (Usage.after (UInt32.size + 1) (allocations (UInt32.size + 1))).given[n]? =
        some (Handle.ofSlot n) := by
    rw [mirrors.given, next, List.getElem?_map, List.getElem?_range inside]
    rfl
  have zero : (⟨0⟩ : Handle).index.toNat = 0 := rfl
  have wrapped : Handle.ofSlot UInt32.size = ⟨0⟩ := rfl
  refine ⟨handle 0 (Nat.succ_pos _), ?_, ?_, values _ (Nat.lt_succ_self _)⟩
  · rw [handle UInt32.size (Nat.lt_succ_self _), wrapped]
  · rw [mirrors.get?, zero, values 0 (Nat.succ_pos _)]

end Cellscript.Arena
