import Cellscript.Proofs.Code.Assembly

/-!
Code that is appended to a chunk whatever the chunk holds. The pool that results depends on the
constants loaded only, so it can be told beforehand whether there is room for them.
-/

set_option autoImplicit false

namespace Cellscript

namespace Chunk

/-! ## Pools -/

/-- Every constant keeps its number. -/
def Grows (pool wider : Array Value) : Prop :=
  ∀ (index : Nat) (value : Value), pool[index]? = some value → wider[index]? = some value

theorem Grows.refl (pool : Array Value) : Grows pool pool := fun _ _ found => found

/-- The pool after a constant has been asked for. -/
def interned (pool : Array Value) (value : Value) : Array Value :=
  if pool.any (shares · value) then pool else pool.push value

/-- The pool after the constants of the lines have been asked for, one after the other. -/
def pooled (pool : Array Value) : List Line → Array Value
  | [] => pool
  | .code (.load value) :: lines => pooled (interned pool value) lines
  | _ :: lines => pooled pool lines

/-- The constants of the lines do not overflow the pool. -/
def Fits (pool : Array Value) (lines : List Line) : Prop := (pooled pool lines).size ≤ maxConstants

theorem grows_interned (pool : Array Value) (value : Value) : Grows pool (interned pool value) := by
  intro index other found
  unfold interned
  split
  · exact found
  · have inside : index < pool.size := (Array.getElem?_eq_some_iff.mp found).1
    rw [Array.getElem?_push_lt inside, ← found, Array.getElem?_eq_getElem inside]

theorem pooled_append (pool : Array Value) (front back : List Line) :
    pooled pool (front ++ back) = pooled (pooled pool front) back := by
  fun_induction pooled pool front with
  | case1 pool => rfl
  | case2 pool value lines ih => exact ih
  | case3 pool line lines other ih =>
    rw [← ih, List.cons_append, pooled]
    exact other

theorem grows_pooled (pool : Array Value) (lines : List Line) : Grows pool (pooled pool lines) := by
  fun_induction pooled pool lines with
  | case1 pool => exact .refl pool
  | case2 pool value lines ih =>
    exact fun index other found => ih index other (grows_interned pool value index other found)
  | case3 pool line lines other ih => exact ih

theorem size_le_pooled (pool : Array Value) (lines : List Line) :
    pool.size ≤ (pooled pool lines).size := by
  rcases Nat.eq_zero_or_pos pool.size with empty | filled
  · omega
  · -- the last constant keeps its number
    have last : pool[pool.size - 1]? = some pool[pool.size - 1] :=
      Array.getElem?_eq_getElem (by omega)
    have kept := (Array.getElem?_eq_some_iff.mp (grows_pooled pool lines _ _ last)).1
    omega

theorem Fits.numbered {pool : Array Value} {lines : List Line} (fits : Fits pool lines) :
    pool.size ≤ maxConstants :=
  Nat.le_trans (size_le_pooled pool lines) fits

theorem Fits.of_append {pool : Array Value} {front back : List Line}
    (fits : Fits pool (front ++ back)) : Fits pool front ∧ Fits (pooled pool front) back := by
  rw [Fits, pooled_append] at fits
  exact ⟨Nat.le_trans (size_le_pooled _ back) fits, fits⟩

/-- What is in the pool was there before or has been loaded. -/
theorem mem_of_pooled {pool : Array Value} {lines : List Line} {value : Value}
    (member : value ∈ pooled pool lines) : value ∈ pool ∨ Line.code (.load value) ∈ lines := by
  fun_induction pooled pool lines with
  | case1 pool => exact Or.inl member
  | case2 pool other lines ih =>
    rcases ih member with before | loaded
    · unfold interned at before
      split at before
      · exact Or.inl before
      · rcases Array.mem_push.mp before with old | rfl
        · exact Or.inl old
        · exact Or.inr List.mem_cons_self
    · exact Or.inr (List.mem_cons_of_mem _ loaded)
  | case3 pool line lines other ih =>
    rcases ih member with before | loaded
    · exact Or.inl before
    · exact Or.inr (List.mem_cons_of_mem _ loaded)

/-- A pool without repetitions stays one. -/
theorem unrepeated_pooled {pool : Array Value} {lines : List Line}
    (unrepeated : pool.toList.Pairwise fun a b => shares a b = false) :
    (pooled pool lines).toList.Pairwise fun a b => shares a b = false := by
  fun_induction pooled pool lines with
  | case1 pool => exact unrepeated
  | case2 pool value lines ih =>
    refine ih ?_
    unfold interned
    split
    · exact unrepeated
    · rename_i fresh
      rw [Array.toList_push, List.pairwise_append]
      refine ⟨unrepeated, List.pairwise_singleton _ _, fun other member last same => ?_⟩
      rw [List.mem_singleton.mp same]
      rw [Bool.not_eq_true, Array.any_eq_false'] at fresh
      simpa using fresh other (Array.mem_toList_iff.mp member)
  | case3 pool line lines other ih => exact ih unrepeated

/-! ## Adding constants -/

theorem float_eq_of_toBits {x y : Float} (bits : x.toBits = y.toBits) : x = y := by
  obtain ⟨⟨first, _⟩⟩ := x
  obtain ⟨⟨second, _⟩⟩ := y
  cases (show first = second from bits)
  rfl

theorem eq_of_shares {a b : Value} (same : shares a b = true) : a = b := by
  unfold shares at same
  split at same
  · exact congrArg Value.number (float_eq_of_toBits (by simpa using same))
  · exact congrArg Value.text (by simpa using same)
  · cases same

/-- The two ways in which a pool takes a constant. -/
theorem interned_eq (pool : Array Value) (value : Value) :
    interned pool value =
      if (pool.findIdx? (shares · value)).isSome then pool else pool.push value := by
  rw [interned, Array.findIdx?_isSome]

/-- The number of a constant is its place, since the pool has no place that one
byte cannot number. -/
theorem index_of_addConstant {c d : Chunk} {value : Value} {index : UInt8}
    (numbered : c.constants.size ≤ maxConstants)
    (added : c.addConstant value = .ok (index, d)) :
    index.toNat = (c.constants.findIdx? (shares · value)).getD c.constants.size := by
  unfold addConstant at added
  split at added
  · rename_i k place
    cases added
    obtain ⟨inside, _, _⟩ := Array.findIdx?_eq_some_iff_getElem.mp place
    rw [place]
    exact Nat.mod_eq_of_lt (Nat.lt_of_lt_of_le inside numbered)
  · rename_i missing
    split at added
    · cases added
    · rename_i room
      cases added
      rw [missing]
      exact Nat.mod_eq_of_lt (Nat.lt_of_not_le room)

theorem addConstant_eq_ok {c d : Chunk} {value : Value} {index : UInt8}
    (numbered : c.constants.size ≤ maxConstants)
    (added : c.addConstant value = .ok (index, d)) :
    d = { c with constants := interned c.constants value } ∧
      d.constants[index.toNat]? = some value ∧ d.constants.size ≤ maxConstants := by
  rw [index_of_addConstant numbered added, interned_eq]
  unfold addConstant at added
  split at added
  · rename_i k place
    cases added
    obtain ⟨inside, same, _⟩ := Array.findIdx?_eq_some_iff_getElem.mp place
    refine ⟨by rw [place]; rfl, ?_, numbered⟩
    rw [place, Option.getD_some, Array.getElem?_eq_getElem inside, eq_of_shares same]
  · rename_i missing
    split at added
    · cases added
    · rename_i room
      cases added
      refine ⟨by rw [missing]; rfl, ?_, ?_⟩
      · rw [missing]
        exact Array.getElem?_push_size
      · rw [Array.size_push]
        exact Nat.lt_of_not_le room

theorem addConstant_of_fits {c : Chunk} {value : Value}
    (fits : Fits c.constants [.code (.load value)]) :
    ∃ index d, c.addConstant value = .ok (index, d) := by
  have room : (interned c.constants value).size ≤ maxConstants := fits
  unfold addConstant
  split
  · exact ⟨_, _, rfl⟩
  · rename_i missing
    rw [interned_eq, missing, Option.isSome_none, if_neg Bool.false_ne_true,
      Array.size_push] at room
    rw [if_neg (by omega)]
    exact ⟨_, _, rfl⟩

/-! ## Extensions -/

/-- Code for the lines has been appended, and nothing else has changed but for the constants that
they load. -/
structure Extends (c : Chunk) (lines : List Line) (d : Chunk) : Prop where
  code : ∃ new : List CodeByte, d.code.toList = c.code.toList ++ new ∧
    Encodes d.constants (new.map (·.value)) lines
  constants : d.constants = pooled c.constants lines
  numbered : d.constants.size ≤ maxConstants
  labels : d.labels = c.labels
  jumps : d.jumps = c.jumps

namespace Extends

variable {c d e : Chunk} {lines more : List Line}

theorem refl (numbered : c.constants.size ≤ maxConstants) : c.Extends [] c :=
  ⟨⟨[], (List.append_nil _).symm, rfl⟩, rfl, numbered, rfl, rfl⟩

theorem trans (first : c.Extends lines d) (second : d.Extends more e) :
    c.Extends (lines ++ more) e where
  code := by
    obtain ⟨new, code, encoded⟩ := first.code
    obtain ⟨newer, later, laterEncoded⟩ := second.code
    refine ⟨new ++ newer, by rw [later, code, List.append_assoc], ?_⟩
    rw [List.map_append]
    refine (encoded.mono ?_).append laterEncoded
    rw [second.constants]
    exact grows_pooled d.constants more
  constants := by rw [second.constants, first.constants, pooled_append]
  numbered := second.numbered
  labels := second.labels.trans first.labels
  jumps := second.jumps.trans first.jumps

theorem emit (numbered : c.constants.size ≤ maxConstants) {op : Opcode}
    (single : op.operandWidth = 0) (line : Nat) :
    c.Extends [.code (.plain op)] (c.emit op.byte line) where
  code := ⟨[⟨op.byte, line⟩], Array.toList_push, .code ⟨single, rfl⟩⟩
  constants := rfl
  numbered := numbered
  labels := rfl
  jumps := rfl

theorem load (numbered : c.constants.size ≤ maxConstants) {value : Value} {index : UInt8}
    (added : c.addConstant value = .ok (index, d)) (line : Nat) :
    c.Extends [.code (.load value)] (d.emitPair .constant index line) := by
  obtain ⟨rfl, found, room⟩ := addConstant_eq_ok numbered added
  refine ⟨⟨[⟨Opcode.constant.byte, line⟩, ⟨index, line⟩], ?_, .code ⟨index, found, rfl⟩⟩, rfl, room,
    rfl, rfl⟩
  simp [emitPair, Chunk.emit, push]

end Extends

end Chunk

end Cellscript
