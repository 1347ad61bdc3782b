import Cellscript.Machine.Run
import Cellscript.Proofs.Action
import Cellscript.Proofs.Code.Heights

/-!
What the machine does where an instruction stands in the lines of a chunk.
-/

set_option autoImplicit false

namespace Cellscript

/-- Carries out an instruction that ends at `ip`. -/
def Instruction.perform (chunk : Chunk) (i : Instruction) (ip : Nat) :
    Machine.Action (Option Nat) :=
  match i with
  | .plain op => Machine.perform chunk op ip
  | .load value => do
    Machine.push value
    return some ip
  | .jump distance => return some (ip + distance)
  | .jumpIfFalse distance => do
    let predicate ← Machine.pop
    return some (if predicate.isFalsey then ip + distance else ip)

namespace Machine

theorem fetch_apply {chunk : Chunk} {offset : Nat} {byte : UInt8}
    (found : chunk.byteAt? offset = some byte) (m : Machine) :
    fetch chunk offset m = .ok byte m := by
  simp only [fetch, found]

theorem step_apply {chunk : Chunk} {ip : Nat} {op : Opcode}
    (found : chunk.byteAt? ip = some op.byte) (m : Machine) :
    step chunk ip m = perform chunk op (ip + 1) m := by
  refine (bind_apply_ok (fetch_apply found m) _).trans ?_
  rw [Opcode.ofByte?_byte]
  rfl

end Machine

namespace Chunk.HasAt

variable {chunk : Chunk} {offset : Nat} {i : Instruction} {back : List Line}

/-- The first byte of an instruction tells which one it is. -/
theorem opcode_at (stands : chunk.HasAt offset (.code i :: back)) :
    chunk.byteAt? offset = some i.opcode.byte := by
  obtain ⟨bytes, encoded, found⟩ := stands.instruction
  have first := found 0 i.width_pos
  rw [Nat.add_zero] at first
  rw [first]
  cases i with
  | plain op => simp [encoded.2, Instruction.opcode]
  | load value =>
    obtain ⟨index, _, rfl⟩ := encoded
    rfl
  | jump distance =>
    obtain ⟨operand, _, rfl⟩ := encoded
    rfl
  | jumpIfFalse distance =>
    obtain ⟨operand, _, rfl⟩ := encoded
    rfl

/-- A step at an instruction carries it out. -/
theorem step_eq (stands : chunk.HasAt offset (.code i :: back)) :
    Machine.step chunk offset = i.perform chunk (offset + i.width) := by
  funext m
  rw [Machine.step_apply stands.opcode_at]
  obtain ⟨bytes, encoded, found⟩ := stands.instruction
  cases i with
  | plain op => rfl
  | load value =>
    obtain ⟨index, constant, rfl⟩ := encoded
    have fetched := Machine.fetch_apply (found 1 Nat.one_lt_two) m
    refine (bind_apply_ok fetched _).trans ?_
    rw [show (Machine.dialect chunk).constant? index.toNat = some value from constant]
    rfl
  | jump distance =>
    obtain ⟨operand, rfl, rfl⟩ := encoded
    have fetched := Machine.fetch_apply (found 1 Nat.one_lt_two) m
    exact (bind_apply_ok fetched _).trans rfl
  | jumpIfFalse distance =>
    obtain ⟨operand, rfl, rfl⟩ := encoded
    have fetched := Machine.fetch_apply (found 1 Nat.one_lt_two) m
    exact (bind_apply_ok fetched _).trans rfl

end Chunk.HasAt

namespace Chunk.Assembles

variable {chunk : Chunk} {front back : List Line} {i : Instruction}

theorem opcode_at (assembled : chunk.Assembles (front ++ .code i :: back)) :
    chunk.byteAt? (codeSize front) = some i.opcode.byte :=
  assembled.hasAt.opcode_at

theorem width_eq (assembled : chunk.Assembles (front ++ .code i :: back)) :
    chunk.width (codeSize front) = i.width := by
  obtain ⟨bytes, encoded, _⟩ := assembled.instruction
  unfold Chunk.width
  rw [assembled.opcode_at, Option.bind_some, Opcode.ofByte?_byte]
  cases i with
  | plain op => simp [Instruction.opcode, Instruction.width, encoded.1]
  | load value => rfl
  | jump distance => rfl
  | jumpIfFalse distance => rfl

theorem step_eq (assembled : chunk.Assembles (front ++ .code i :: back)) :
    Machine.step chunk (codeSize front) = i.perform chunk (codeSize front + i.width) :=
  assembled.hasAt.step_eq

/-- From any line on, a listing comes by every later instruction. -/
theorem mem_sweepFrom_of (assembled : chunk.Assembles (front ++ .code i :: back))
    (start rest : List Line) (split : front = start ++ rest) :
    codeSize front ∈ chunk.sweepFrom (codeSize start) := by
  induction rest generalizing start with
  | nil =>
    rw [List.append_nil] at split
    subst split
    have size := assembled.size_eq
    rw [codeSize_append, codeSize_code] at size
    have positive := i.width_pos
    unfold sweepFrom
    rw [if_pos (by omega)]
    exact List.mem_cons_self
  | cons line rest ih =>
    have later := ih (start ++ [line]) (by rw [split, List.append_assoc]; rfl)
    cases line with
    | mark name => simpa using later
    | code j =>
      have here : chunk.Assembles (start ++ .code j :: (rest ++ .code i :: back)) := by
        rw [split, List.append_assoc] at assembled
        exact assembled
      have size := here.size_eq
      rw [codeSize_append, codeSize_code] at size
      have positive := j.width_pos
      unfold sweepFrom
      rw [if_pos (by omega), here.width_eq]
      simp only [codeSize_append, codeSize_code, codeSize_nil, Nat.add_zero] at later
      exact List.mem_cons_of_mem _ later

theorem mem_sweepFrom (assembled : chunk.Assembles (front ++ .code i :: back)) :
    codeSize front ∈ chunk.sweepFrom 0 := assembled.mem_sweepFrom_of [] front rfl

/-! ## Labels -/

/-- A label of a finished chunk leads to the place of its line, and to no other. -/
theorem resolve?_eq_some_iff {lines : List Line} (assembled : chunk.Assembles lines)
    (finished : chunk.jumps = chunk.labels) {name : String} {target : Nat} :
    chunk.resolve? name = some target ↔
      ∃ front back, lines = front ++ .mark name :: back ∧ target = codeSize front := by
  have members : (name, target) ∈ chunk.labels ↔
      ∃ front back, lines = front ++ .mark name :: back ∧ target = codeSize front := by
    rw [assembled.labels, mem_labelsFrom]
    simp only [Nat.zero_add]
  rw [← members, resolve?, finished]
  have distinct := assembled.distinct
  generalize chunk.labels = labels at distinct
  induction labels with
  | nil => simp
  | cons label rest ih =>
    obtain ⟨other, place⟩ := label
    obtain ⟨fresh, distinct⟩ := List.nodup_cons.mp distinct
    rw [List.lookup_cons, List.mem_cons]
    by_cases same : name = other
    · subst same
      simp only [beq_self_eq_true, Option.some.injEq, Prod.mk.injEq, true_and]
      constructor
      · intro equal
        exact Or.inl equal.symm
      · rintro (equal | member)
        · exact equal.symm
        · exact absurd (List.mem_map_of_mem (f := Prod.fst) member) fresh
    · have differs : (name == other) = false := by simpa using same
      simp only [differs, ih distinct, Prod.mk.injEq, same, false_and, false_or]

end Chunk.Assembles

end Cellscript
