import Cellscript.Proofs.Code.Writing

/-!
The chunks that can be built. Whatever operations have been at work, and whether or not they were
carried through, constants can be numbered by one byte and labels have names of their own.
-/

set_option autoImplicit false

namespace Cellscript

namespace Chunk

/-- The second chunk is what operations have made of the first. One that is refused changes nothing,
except for a splice, which leaves what it has copied before that. A splice comes upon the labels of
the other chunk in any order. -/
inductive Becomes : Chunk → Chunk → Prop
  | refl (c : Chunk) : Becomes c c
  | emit {c d : Chunk} (before : Becomes c d) (byte : UInt8) (line : Nat) :
      Becomes c (d.emit byte line)
  | emitPair {c d : Chunk} (before : Becomes c d) (op : Opcode) (operand : UInt8) (line : Nat) :
      Becomes c (d.emitPair op operand line)
  | emitJump {c d : Chunk} (before : Becomes c d) (op : Opcode) (line : Nat) :
      Becomes c (d.emitJump op line)
  | addConstant {c d e : Chunk} {value : Value} {index : UInt8} (before : Becomes c d)
      (added : d.addConstant value = .ok (index, e)) : Becomes c e
  | patch {c d : Chunk} (before : Becomes c d) (offset : Nat) (byte : UInt8) :
      Becomes c (d.patch offset byte)
  | patchJump {c d e : Chunk} {offset : Nat} (before : Becomes c d)
      (patched : d.patchJump offset = .ok e) : Becomes c e
  | defineLabel {c d e : Chunk} {name : String} (before : Becomes c d)
      (defined : d.defineLabel name = .ok e) : Becomes c e
  | splice {c d other : Chunk} {order : List (String × Nat)} (before : Becomes c d)
      (source : Becomes {} other) (reordered : order.Perm other.labels) :
      Becomes c (d.splice { other with labels := order }).1
  | finalize {c d : Chunk} (before : Becomes c d) : Becomes c d.finalize

/-- Constants can be numbered, and labels told apart. -/
structure Proper (c : Chunk) : Prop where
  numbered : c.constants.size ≤ maxConstants
  distinct : (c.labels.map Prod.fst).Nodup

theorem Proper.of_same {c d : Chunk} (proper : c.Proper) (constants : d.constants = c.constants)
    (labels : d.labels = c.labels) : d.Proper :=
  ⟨constants ▸ proper.numbered, labels ▸ proper.distinct⟩

theorem patchJump_eq_ok {c d : Chunk} {offset : Nat} (patched : c.patchJump offset = .ok d) :
    d = c.patch offset (c.size - offset - 1).toUInt8 := by
  unfold Chunk.patchJump at patched
  dsimp only at patched
  split at patched
  · cases patched
    rfl
  · cases patched

/-! ## Labels -/

theorem insertLabel_eq_ok {c d : Chunk} {name : String} {offset : Nat}
    (inserted : c.insertLabel name offset = .ok d) :
    c.label? name = none ∧ d = { c with labels := c.labels ++ [(name, offset)] } := by
  unfold insertLabel at inserted
  split at inserted
  · cases inserted
  · cases inserted
    exact ⟨‹_›, rfl⟩

theorem insertLabel_of_taken {c : Chunk} {name : String} (taken : name ∈ c.labels.map Prod.fst)
    (offset : Nat) : c.insertLabel name offset = .error (.duplicateLabel name) := by
  unfold insertLabel
  cases found : c.label? name with
  | some _ => rfl
  | none => exact absurd taken ((c.label?_eq_none_iff name).mp found)

theorem insertLabel_of_free {c : Chunk} {name : String} (free : name ∉ c.labels.map Prod.fst)
    (offset : Nat) :
    c.insertLabel name offset = .ok { c with labels := c.labels ++ [(name, offset)] } := by
  unfold insertLabel
  rw [(c.label?_eq_none_iff name).mpr free]

theorem insertLabel_proper {c d : Chunk} {name : String} {offset : Nat} (proper : c.Proper)
    (inserted : c.insertLabel name offset = .ok d) : d.Proper := by
  obtain ⟨free, rfl⟩ := insertLabel_eq_ok inserted
  have fresh := (c.label?_eq_none_iff name).mp free
  exact ⟨proper.numbered, distinct_insert proper.distinct fresh offset⟩

theorem copyLabels_proper {c : Chunk} (proper : c.Proper) (base : Nat)
    (labels : List (String × Nat)) : (copyLabels base labels c).1.Proper := by
  fun_induction copyLabels base labels c with
  | case1 c => exact proper
  | case2 name offset rest c e refused => exact proper
  | case3 name offset rest c d inserted ih => exact ih (insertLabel_proper proper inserted)

/-- Labels that have been copied to the last stand behind the old ones. -/
theorem copyLabels_eq_none {base : Nat} {labels : List (String × Nat)} {c d : Chunk}
    (copied : copyLabels base labels c = (d, none)) :
    d = { c with labels := c.labels ++ labels.map fun label => (label.1, base + label.2) } := by
  fun_induction copyLabels base labels c with
  | case1 c =>
    cases copied
    simp
  | case2 name offset rest c e refused => cases copied
  | case3 name offset rest c next inserted ih =>
    obtain ⟨_, rfl⟩ := insertLabel_eq_ok inserted
    rw [ih copied]
    simp

/-- Labels are copied to the last exactly if none of their names is taken. -/
theorem copyLabels_eq_none_iff {base : Nat} {labels : List (String × Nat)} {c : Chunk}
    (distinct : (labels.map Prod.fst).Nodup) :
    (copyLabels base labels c).2 = none ↔ ∀ name ∈ labels.map Prod.fst, c.label? name = none := by
  fun_induction copyLabels base labels c with
  | case1 c => simp
  | case2 name offset rest c e refused =>
    have taken : c.label? name ≠ none := by
      intro free
      rw [insertLabel, free] at refused
      cases refused
    constructor
    · intro done
      cases done
    · intro free
      exact absurd (free name List.mem_cons_self) taken
  | case3 name offset rest c next inserted ih =>
    obtain ⟨free, rfl⟩ := insertLabel_eq_ok inserted
    obtain ⟨apart, distinct⟩ := List.nodup_cons.mp distinct
    rw [ih distinct, List.map_cons, List.forall_mem_cons]
    -- a name is free behind the new label exactly if it was free before, since it is another name
    have same (other : String) (member : other ∈ rest.map Prod.fst) :
        label? { c with labels := c.labels ++ [(name, base + offset)] } other = c.label? other := by
      have differs : (other == name) = false := by
        simpa using fun equal : other = name => apart (equal ▸ member)
      simp [label?, List.lookup_append, List.lookup_cons, differs]
    constructor
    · intro others
      exact ⟨free, fun other member => same other member ▸ others other member⟩
    · rintro ⟨_, others⟩ other member
      rw [same other member]
      exact others other member

/-! ## Splices -/

/-- However far code is copied, labels stay as they are and constants can be numbered. -/
theorem copyCode_proper {c : Chunk} (proper : c.Proper) (pool : Array Value) (offset : Nat)
    (code : List CodeByte) : (copyCode pool offset code c).1.Proper := by
  fun_induction copyCode pool offset code c with
  | case1 | case2 | case4 | case5 | case6 => exact proper
  | case3 offset first rest c op known single ih => exact ih (proper.of_same rfl rfl)
  | case7 offset first c operand rest value found index d added known pair ih =>
    obtain ⟨rfl, _, room⟩ := addConstant_eq_ok proper.numbered added
    exact ih ⟨room, proper.distinct⟩
  | case8 offset first c op known pair operand rest other ih => exact ih (proper.of_same rfl rfl)

theorem splice_proper {c : Chunk} (proper : c.Proper) (other : Chunk) :
    (c.splice other).1.Proper := by
  have copied := copyCode_proper proper other.constants 0 other.code.toList
  unfold Chunk.splice
  split
  · rename_i refused
    rw [refused] at copied
    exact copied
  · rename_i done
    rw [done] at copied
    exact copyLabels_proper copied c.size other.labels

theorem Becomes.proper {c d : Chunk} (becomes : Becomes c d) (proper : c.Proper) : d.Proper := by
  induction becomes with
  | refl c => exact proper
  | emit _ _ _ ih => exact (ih proper).of_same rfl rfl
  | emitPair _ _ _ _ ih => exact (ih proper).of_same rfl rfl
  | emitJump _ _ _ ih => exact (ih proper).of_same rfl rfl
  | addConstant _ added ih =>
    obtain ⟨rfl, _, room⟩ := addConstant_eq_ok (ih proper).numbered added
    exact ⟨room, (ih proper).distinct⟩
  | patch _ _ _ ih => exact (ih proper).of_same rfl rfl
  | patchJump _ patched ih =>
    rw [patchJump_eq_ok patched]
    exact (ih proper).of_same rfl rfl
  | defineLabel _ defined ih => exact insertLabel_proper (ih proper) defined
  | splice _ _ _ ih _ => exact splice_proper (ih proper) _
  | finalize _ ih => exact (ih proper).of_same rfl rfl

theorem empty_proper : ({} : Chunk).Proper := ⟨Nat.zero_le _, List.nodup_nil⟩

end Chunk

end Cellscript
