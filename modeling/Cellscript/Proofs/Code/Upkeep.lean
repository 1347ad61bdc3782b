import Cellscript.Proofs.Code.LineTable
import Cellscript.Proofs.Code.Splicing
import Mathlib.Logic.Relation

/-!
What holds of a chunk for as long as it is in use. Every operation, a splice that is refused halfway
included, comes down to five kinds of change. None of them brings the parts of a chunk out of step,
and none touches what has been given out: a constant keeps its number and a label its offset.
-/

set_option autoImplicit false

namespace Cellscript

namespace Chunk

open Relation (ReflTransGen)

/-! ## Single changes -/

/-- The kinds of change that operations are made of. -/
inductive Change : Chunk → Chunk → Prop
  | push (c : Chunk) (b : CodeByte) : Change c (c.push b)
  | patch (c : Chunk) (offset : Nat) (byte : UInt8) : Change c (c.patch offset byte)
  | addConstant {c d : Chunk} {value : Value} {index : UInt8}
      (added : c.addConstant value = .ok (index, d)) : Change c d
  | insertLabel {c d : Chunk} {name : String} {offset : Nat} (inside : offset ≤ c.size)
      (inserted : c.insertLabel name offset = .ok d) : Change c d
  | finalize (c : Chunk) : Change c c.finalize

/-- The parts of a chunk fit together. No bits of a number and no text are in the pool twice, no
label is past the end, and a jump leads to where its label is. -/
structure Consistent (c : Chunk) : Prop extends c.Proper where
  keys : (c.constants.toList.filterMap Value.key?).Nodup
  inside : ∀ label ∈ c.labels, label.2 ≤ c.size
  jumps : ∀ name offset, c.resolve? name = some offset → c.label? name = some offset

/-- Constants, lines and labels are still where they were. -/
structure Preserved (c d : Chunk) : Prop where
  constants : c.constants.toList <+: d.constants.toList
  lines : c.lineTable <+: d.lineTable
  labels : ∀ name offset, c.label? name = some offset → d.label? name = some offset

theorem empty_consistent : ({} : Chunk).Consistent where
  numbered := Nat.zero_le _
  distinct := List.nodup_nil
  keys := List.nodup_nil
  inside _ member := absurd member List.not_mem_nil
  jumps _ _ found := by cases found

theorem Consistent.of_same {c d : Chunk} (consistent : c.Consistent)
    (constants : d.constants = c.constants) (labels : d.labels = c.labels)
    (jumps : d.jumps = c.jumps) (grown : c.size ≤ d.size) : d.Consistent where
  toProper := consistent.toProper.of_same constants labels
  keys := constants ▸ consistent.keys
  inside label member := (consistent.inside label (labels ▸ member)).trans grown
  jumps := by
    rw [show d.resolve? = c.resolve? by unfold resolve?; rw [jumps],
      show d.label? = c.label? by unfold label?; rw [labels]]
    exact consistent.jumps

namespace Preserved

variable {c d e : Chunk}

theorem refl (c : Chunk) : c.Preserved c := ⟨List.prefix_rfl, List.prefix_rfl, fun _ _ => id⟩

theorem trans (first : c.Preserved d) (second : d.Preserved e) : c.Preserved e where
  constants := first.constants.trans second.constants
  lines := first.lines.trans second.lines
  labels name offset found := second.labels name offset (first.labels name offset found)

theorem size_le (preserved : c.Preserved d) : c.size ≤ d.size := by
  simpa only [length_lineTable] using preserved.lines.length_le

theorem constant (preserved : c.Preserved d) {index : Nat} {value : Value}
    (found : c.constants[index]? = some value) : d.constants[index]? = some value := by
  obtain ⟨more, grown⟩ := preserved.constants
  rw [← Array.getElem?_toList] at found ⊢
  rw [← grown]
  exact List.getElem?_append_left (List.getElem?_eq_some_iff.mp found).1 ▸ found

end Preserved

/-- A constant that joins the pool has a key that is new there, or none. -/
theorem keys_interned {pool : Array Value} (keys : (pool.toList.filterMap Value.key?).Nodup)
    (value : Value) : ((interned pool value).toList.filterMap Value.key?).Nodup := by
  unfold interned
  split
  · exact keys
  · rename_i fresh
    rw [any_shares_iff] at fresh
    rw [Array.toList_push, List.filterMap_append]
    cases keyed : value.key? with
    | none => simpa [keyed] using keys
    | some key =>
      have new : key ∉ pool.toList.filterMap Value.key? := fun member =>
        fresh ⟨key, List.mem_toFinset.mpr member, keyed⟩
      rw [List.filterMap_cons_some keyed, List.filterMap_nil, List.nodup_append]
      refine ⟨keys, List.nodup_singleton key, fun other member last single => ?_⟩
      rw [List.mem_singleton.mp single]
      exact ne_of_mem_of_not_mem member new

theorem interned_of_left (pool : Array Value) (value : Value) :
    pool.toList <+: (interned pool value).toList := by
  unfold interned
  split
  · exact List.prefix_rfl
  · rw [Array.toList_push]
    exact List.prefix_append _ _

theorem label?_insert (c : Chunk) {name : String} {offset : Nat} (other : String) (target : Nat)
    (found : c.label? name = some offset) :
    label? { c with labels := c.labels ++ [(other, target)] } name = some offset := by
  rw [label?] at found ⊢
  rw [List.lookup_append, found, Option.some_or]

namespace Change

variable {c d : Chunk}

theorem preserved (consistent : c.Consistent) (change : Change c d) : c.Preserved d := by
  cases change with
  | push b =>
    refine ⟨List.prefix_rfl, ?_, fun _ _ => id⟩
    rw [lineTable_push]
    exact List.prefix_append _ _
  | patch offset byte => exact ⟨List.prefix_rfl, by rw [lineTable_patch], fun _ _ => id⟩
  | @addConstant _ value index added =>
    obtain ⟨rfl, _, _⟩ := addConstant_eq_ok consistent.numbered added
    exact ⟨interned_of_left c.constants value, List.prefix_rfl, fun _ _ => id⟩
  | @insertLabel _ name offset _ inserted =>
    obtain ⟨_, rfl⟩ := insertLabel_eq_ok inserted
    exact ⟨List.prefix_rfl, List.prefix_rfl, fun _ _ found => c.label?_insert name offset found⟩
  | finalize => exact ⟨List.prefix_rfl, List.prefix_rfl, fun _ _ => id⟩

theorem consistent (consistent : c.Consistent) (change : Change c d) : d.Consistent := by
  have grown := (change.preserved consistent).size_le
  cases change with
  | push b => exact consistent.of_same rfl rfl rfl grown
  | patch offset byte => exact consistent.of_same rfl rfl rfl grown
  | @addConstant _ value index added =>
    obtain ⟨rfl, _, room⟩ := addConstant_eq_ok consistent.numbered added
    exact ⟨⟨room, consistent.distinct⟩, keys_interned consistent.keys value, consistent.inside,
      consistent.jumps⟩
  | @insertLabel _ name offset inside inserted =>
    have proper := insertLabel_proper consistent.toProper inserted
    obtain ⟨_, rfl⟩ := insertLabel_eq_ok inserted
    refine ⟨proper, consistent.keys, fun label member => ?_, fun other target found => ?_⟩
    · rcases List.mem_append.mp member with old | new
      · exact consistent.inside label old
      · rw [List.mem_singleton.mp new]
        exact inside
    · exact c.label?_insert name offset (consistent.jumps other target found)
  | finalize =>
    exact ⟨consistent.toProper.of_same rfl rfl, consistent.keys, consistent.inside, fun _ _ => id⟩

/-- What one change keeps, any number of changes keep. -/
theorem run (consistent : c.Consistent) (changes : ReflTransGen Change c d) :
    d.Consistent ∧ c.Preserved d := by
  induction changes with
  | refl => exact ⟨consistent, .refl c⟩
  | tail _ change ih => exact ⟨change.consistent ih.1, ih.2.trans (change.preserved ih.1)⟩

end Change

/-! ## Operations as changes -/

theorem emitPair_changes (c : Chunk) (op : Opcode) (operand : UInt8) (line : Nat) :
    ReflTransGen Change c (c.emitPair op operand line) :=
  .tail (.single (.push c ⟨op.byte, line⟩)) (.push _ ⟨operand, line⟩)

/-- However far code is copied, it is written byte by byte and its constants are asked for. -/
theorem copyCode_changes (pool : Array Value) (offset : Nat) (code : List CodeByte) (c : Chunk) :
    ReflTransGen Change c (copyCode pool offset code c).1 := by
  fun_induction copyCode pool offset code c with
  | case1 | case2 | case4 | case5 | case6 => exact .refl
  | case3 offset first rest c op known single ih => exact .head (.push c first) ih
  | case7 offset first c operand rest value found index d added known pair ih =>
    exact .head (.addConstant added) ((emitPair_changes d .constant index first.line).trans ih)
  | case8 offset first c op known pair operand rest other ih =>
    exact .head (.push c first) (.head (.push _ operand) ih)

theorem copyLabels_changes {base : Nat} {labels : List (String × Nat)} {c : Chunk}
    (inside : ∀ label ∈ labels, base + label.2 ≤ c.size) :
    ReflTransGen Change c (copyLabels base labels c).1 := by
  fun_induction copyLabels base labels c with
  | case1 c => exact .refl
  | case2 name offset rest c e refused => exact .refl
  | case3 name offset rest c d inserted ih =>
    obtain ⟨here, others⟩ := List.forall_mem_cons.mp inside
    have same : d.size = c.size := by
      rw [(insertLabel_eq_ok inserted).2]
      rfl
    rw [← same] at others
    exact .head (.insertLabel here inserted) (ih others)

/-- Labels are copied only once all of the code is there, so that none of them is past the end. -/
theorem splice_changes {c other : Chunk} (consistent : c.Consistent)
    (inside : ∀ label ∈ other.labels, label.2 ≤ other.size) :
    ReflTransGen Change c (c.splice other).1 := by
  have copied := copyCode_changes other.constants 0 other.code.toList c
  unfold Chunk.splice
  split
  · rename_i refused
    rw [refused] at copied
    exact copied
  · rename_i d done
    rw [done] at copied
    have size : d.size = c.size + other.size := size_of_copyCode consistent.numbered done
    refine copied.trans (copyLabels_changes fun label member => ?_)
    rw [size]
    exact Nat.add_le_add_left (inside label member) c.size

namespace Becomes

variable {c d : Chunk}

theorem changes (becomes : Becomes c d) (consistent : c.Consistent) : ReflTransGen Change c d := by
  induction becomes with
  | refl c => exact .refl
  | emit _ byte line ih => exact (ih consistent).tail (.push _ ⟨byte, line⟩)
  | emitPair _ op operand line ih =>
    exact (ih consistent).trans (emitPair_changes _ op operand line)
  | emitJump _ op line ih => exact (ih consistent).trans (emitPair_changes _ op placeholder line)
  | addConstant _ added ih => exact (ih consistent).tail (.addConstant added)
  | patch _ offset byte ih => exact (ih consistent).tail (.patch _ offset byte)
  | patchJump _ patched ih =>
    rw [patchJump_eq_ok patched]
    exact (ih consistent).tail (.patch _ _ _)
  | defineLabel _ defined ih => exact (ih consistent).tail (.insertLabel (Nat.le_refl _) defined)
  | splice _ _ reordered ih sourced =>
    have other := (Change.run empty_consistent (sourced empty_consistent)).1
    have sound := (Change.run consistent (ih consistent)).1
    refine (ih consistent).trans (splice_changes sound fun label member => ?_)
    exact other.inside label (reordered.mem_iff.mp member)
  | finalize _ ih => exact (ih consistent).tail (.finalize _)

theorem consistent (built : Becomes {} c) : c.Consistent :=
  (Change.run empty_consistent (built.changes empty_consistent)).1

theorem preserved (later : Becomes c d) (consistent : c.Consistent) : c.Preserved d :=
  (Change.run consistent (later.changes consistent)).2

end Becomes

/-! ## Constants -/

/-- A constant is refused only by a full pool in which it cannot share a place. -/
theorem addConstant_isOk_iff (c : Chunk) (value : Value) :
    (∃ index d, c.addConstant value = .ok (index, d)) ↔
      c.constants.size < maxConstants ∨
        ∃ other ∈ c.constants, other.key?.isSome ∧ other.key? = value.key? := by
  simp only [← shares_eq_true_iff, ← Array.any_eq_true', ← Array.findIdx?_isSome]
  unfold addConstant
  split
  · rename_i found
    simp [found]
  · rename_i missing
    by_cases full : maxConstants ≤ c.constants.size
    · simp [missing, full]
    · simp [missing, full, Nat.lt_of_not_le full]

theorem addConstant_of_fresh {c : Chunk} {value : Value}
    (fresh : ∀ other ∈ c.constants, shares other value = false) :
    c.addConstant value =
      if maxConstants ≤ c.constants.size then .error .tooManyConstants
      else .ok (c.constants.size.toUInt8, { c with constants := c.constants.push value }) := by
  have missing : c.constants.findIdx? (shares · value) = none :=
    Array.findIdx?_eq_none_iff.mpr fresh
  rw [addConstant, missing]

theorem shares_truth (other : Value) (b : Bool) : shares other (.truth b) = false := by
  cases other <;> rfl

/-- In whatever way a chunk has come about and whatever becomes of it, one byte can number the
constants, and no two of them share their key. Labels are not past the end. Constants, lines and
labels stay where they are. A constant is refused only if the pool is full and does not have it;
otherwise the number given is the place of the constant, cut short nowhere, and denotes that very
constant for good. That code and lines are equally long needs no care: every byte comes with its
line. -/
theorem operations_keep_chunks_consistent {c d : Chunk} (built : Becomes {} c)
    (later : Becomes c d) :
    c.lineTable.length = c.bytes.length ∧ c.Consistent ∧ c.Preserved d ∧
      ∀ value,
        ((∃ index e, c.addConstant value = .ok (index, e)) ↔
          c.constants.size < maxConstants ∨
            ∃ other ∈ c.constants, other.key?.isSome ∧ other.key? = value.key?) ∧
        ∀ index e, c.addConstant value = .ok (index, e) →
          index.toNat = (c.constants.findIdx? (shares · value)).getD c.constants.size ∧
            ∀ f, Becomes e f → f.constants[index.toNat]? = some value := by
  have consistent := built.consistent
  refine ⟨by rw [length_lineTable, length_bytes], consistent, later.preserved consistent,
    fun value => ⟨c.addConstant_isOk_iff value, fun index e added => ?_⟩⟩
  obtain ⟨_, found, _⟩ := addConstant_eq_ok consistent.numbered added
  refine ⟨index_of_addConstant consistent.numbered added, fun f after => ?_⟩
  exact (after.preserved (built.addConstant added).consistent).constant found

/-- With one place left, the ending takes it for its first constant and is refused at its second. -/
theorem ending_refused {c : Chunk} (size : c.constants.size = 255)
    (fresh : ∀ other ∈ c.constants, shares other (.text "a") = false) :
    (c.splice ending).2 = some .tooManyConstants := by
  have entries : Renders ending.constants ending.code.toList
      [.load (.truth true) 7, .jump .jumpIfFalse (Or.inr rfl) 7 ⟨2, 7⟩, .load (.text "a") 8] :=
    .load rfl (.jump (Or.inr rfl) (.load rfl .nil))
  have first := addConstant_of_fresh (c := c) fun other _ => shares_truth other true
  rw [if_neg (by rw [size]; decide)] at first
  have second (d : Chunk) (pool : d.constants = c.constants.push (.truth true)) :
      d.addConstant (.text "a") = .error .tooManyConstants := by
    rw [addConstant_of_fresh, pool, Array.size_push, size]
    · rfl
    · intro other member
      rw [pool] at member
      rcases Array.mem_push.mp member with old | rfl
      · exact fresh other old
      · rfl
  have refused : (copyCode ending.constants 0 ending.code.toList c).2 = some .tooManyConstants := by
    rw [copyCode_eq_writeAll entries, writeAll, write, first]
    dsimp only [writeAll, write]
    rw [second _ rfl]
  unfold Chunk.splice
  split
  · rename_i stopped
    rwa [stopped] at refused
  · rename_i done
    rw [done] at refused
    cases refused

/-- A pool with one place left: a text among constants that share no place. -/
def crowd : Chunk where
  constants := (Array.replicate 254 (.truth true)).push (.text "z")

theorem replicate_built {n : Nat} (few : n ≤ maxConstants) :
    Becomes {} { constants := Array.replicate n (.truth true) } := by
  induction n with
  | zero => exact .refl _
  | succ n ih =>
    rw [Array.replicate_succ]
    refine (ih (Nat.le_of_succ_le few)).push_constant (.truth true) ?_ ?_
    · exact Array.findIdx?_eq_none_iff.mpr fun other _ => shares_truth other true
    · rw [Array.size_replicate]
      exact few

theorem shares_crowd {other : Value} (member : other ∈ Array.replicate 254 (Value.truth true))
    (text : String) : shares other (.text text) = false := by
  rw [Array.eq_of_mem_replicate member]
  rfl

theorem crowd_built : Becomes {} crowd := by
  refine (replicate_built (by decide)).push_constant (.text "z") ?_ ?_
  · exact Array.findIdx?_eq_none_iff.mpr fun other member => shares_crowd member "z"
  · rw [Array.size_replicate]
    decide

theorem crowd_refuses_ending : (crowd.splice ending).2 = some .tooManyConstants := by
  refine ending_refused ?_ fun other member => ?_
  · rw [crowd, Array.size_push, Array.size_replicate]
  · rcases Array.mem_push.mp member with old | rfl
    · exact shares_crowd old "a"
    · decide

/-- A splice stops halfway, with the pool full. The old text is still to be had. -/
theorem operations_keep_chunks_consistent_in_crowd :
    Becomes {} crowd ∧ Becomes crowd (crowd.splice ending).1 ∧
      (crowd.splice ending).2 = some .tooManyConstants ∧
      crowd.Preserved (crowd.splice ending).1 ∧
      ∃ index e, (crowd.splice ending).1.addConstant (.text "z") = .ok (index, e) := by
  have later : Becomes crowd (crowd.splice ending).1 :=
    (Becomes.refl crowd).splice ending_built (.refl _)
  have stuffed : Becomes {} (crowd.splice ending).1 :=
    crowd_built.splice ending_built (.refl _)
  have full := operations_keep_chunks_consistent stuffed (.refl _)
  have kept := (operations_keep_chunks_consistent crowd_built later).2.2.1
  refine ⟨crowd_built, later, crowd_refuses_ending, kept, (full.2.2.2 (.text "z")).1.mpr
    (Or.inr ?_)⟩
  have old : .text "z" ∈ crowd.constants.toList := Array.mem_toList_iff.mpr Array.mem_push_self
  exact ⟨_, Array.mem_toList_iff.mp (kept.constants.subset old), rfl, rfl⟩

end Chunk

end Cellscript
