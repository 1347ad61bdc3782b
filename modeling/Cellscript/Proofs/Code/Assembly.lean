import Cellscript.Chunk.Listing

/-!
Assembly: chunks read as lines that hold an instruction or a label. Instructions carry what their
operand stands for, so that lines say nothing about the order of a pool of constants.
-/

set_option autoImplicit false

namespace Cellscript

inductive Instruction
  | plain (op : Opcode)
  | load (value : Value)
  | jump (distance : Nat)
  | jumpIfFalse (distance : Nat)

inductive Line
  | mark (name : String)
  | code (i : Instruction)

namespace Instruction

def width : Instruction → Nat
  | plain _ => 1
  | _ => 2

/-- The instruction is written as `bytes` where constants are numbered by `pool`. -/
def Encodes (pool : Array Value) (bytes : List UInt8) : Instruction → Prop
  | plain op => op.operandWidth = 0 ∧ bytes = [op.byte]
  | load value =>
    ∃ index : UInt8, pool[index.toNat]? = some value ∧ bytes = [Opcode.constant.byte, index]
  | jump distance =>
    ∃ operand : UInt8, operand.toNat = distance ∧ bytes = [Opcode.jump.byte, operand]
  | jumpIfFalse distance =>
    ∃ operand : UInt8, operand.toNat = distance ∧ bytes = [Opcode.jumpIfFalse.byte, operand]

theorem Encodes.length_eq {pool : Array Value} {bytes : List UInt8} {i : Instruction}
    (encoded : i.Encodes pool bytes) : bytes.length = i.width := by
  cases i with
  | plain op => simp [encoded.2, width]
  | load value =>
    obtain ⟨index, _, rfl⟩ := encoded
    rfl
  | jump distance =>
    obtain ⟨operand, _, rfl⟩ := encoded
    rfl
  | jumpIfFalse distance =>
    obtain ⟨operand, _, rfl⟩ := encoded
    rfl

/-- Constants keep their numbers while the pool grows at its end. -/
theorem Encodes.mono {pool wider : Array Value} {bytes : List UInt8} {i : Instruction}
    (grows : ∀ (index : Nat) (value : Value), pool[index]? = some value →
      wider[index]? = some value)
    (encoded : i.Encodes pool bytes) : i.Encodes wider bytes := by
  cases i with
  | plain op => exact encoded
  | load value =>
    obtain ⟨index, found, rfl⟩ := encoded
    exact ⟨index, grows _ _ found, rfl⟩
  | jump distance => exact encoded
  | jumpIfFalse distance => exact encoded

theorem width_pos (i : Instruction) : 0 < i.width := by
  cases i <;> simp [width]

end Instruction

/-! ## Lines -/

/-- How many bytes lines take. -/
def codeSize : List Line → Nat
  | [] => 0
  | .mark _ :: lines => codeSize lines
  | .code i :: lines => i.width + codeSize lines

@[simp] theorem codeSize_nil : codeSize [] = 0 := rfl

@[simp] theorem codeSize_mark (name : String) (lines : List Line) :
    codeSize (.mark name :: lines) = codeSize lines := rfl

@[simp] theorem codeSize_code (i : Instruction) (lines : List Line) :
    codeSize (.code i :: lines) = i.width + codeSize lines := rfl

@[simp] theorem codeSize_append (front back : List Line) :
    codeSize (front ++ back) = codeSize front + codeSize back := by
  induction front with
  | nil => simp
  | cons line rest ih =>
    cases line with
    | mark name => simpa using ih
    | code i =>
      simp only [List.cons_append, codeSize_code, ih]
      omega

/-- An offset is that of one instruction only. -/
theorem split_unique {front back before after : List Line} {i j : Instruction}
    (same : front ++ .code i :: back = before ++ .code j :: after)
    (size : codeSize front = codeSize before) : front = before := by
  rcases List.append_eq_append_iff.mp same with ⟨between, rfl, tail⟩ | ⟨between, rfl, tail⟩
  · cases between with
    | nil => rw [List.append_nil]
    | cons line between =>
      cases tail
      rw [codeSize_append, codeSize_code] at size
      have := i.width_pos
      omega
  · cases between with
    | nil => rw [List.append_nil]
    | cons line between =>
      cases tail
      rw [codeSize_append, codeSize_code] at size
      have := j.width_pos
      omega

/-- The labels of lines that start at an offset. -/
def labelsFrom : Nat → List Line → List (String × Nat)
  | _, [] => []
  | offset, .mark name :: lines => (name, offset) :: labelsFrom offset lines
  | offset, .code i :: lines => labelsFrom (offset + i.width) lines

theorem labelsFrom_append (offset : Nat) (front back : List Line) :
    labelsFrom offset (front ++ back) =
      labelsFrom offset front ++ labelsFrom (offset + codeSize front) back := by
  induction front generalizing offset with
  | nil => rfl
  | cons line rest ih =>
    cases line with
    | mark name => simp [labelsFrom, ih]
    | code i => simp [labelsFrom, ih, Nat.add_assoc]

theorem mem_labelsFrom {offset target : Nat} {name : String} {lines : List Line} :
    (name, target) ∈ labelsFrom offset lines ↔
      ∃ front back, lines = front ++ .mark name :: back ∧ target = offset + codeSize front := by
  induction lines generalizing offset with
  | nil => simp [labelsFrom]
  | cons line rest ih =>
    cases line with
    | mark other =>
      simp only [labelsFrom, List.mem_cons, Prod.mk.injEq]
      constructor
      · rintro (⟨rfl, rfl⟩ | later)
        · exact ⟨[], rest, rfl, rfl⟩
        · obtain ⟨front, back, rfl, rfl⟩ := ih.mp later
          exact ⟨.mark other :: front, back, rfl, rfl⟩
      · rintro ⟨front, back, split, rfl⟩
        cases front with
        | nil =>
          cases split
          exact Or.inl ⟨rfl, rfl⟩
        | cons first front =>
          cases split
          exact Or.inr (ih.mpr ⟨front, back, rfl, rfl⟩)
    | code i =>
      simp only [labelsFrom]
      constructor
      · intro later
        obtain ⟨front, back, rfl, rfl⟩ := ih.mp later
        refine ⟨.code i :: front, back, rfl, ?_⟩
        rw [codeSize_code]
        omega
      · rintro ⟨front, back, split, rfl⟩
        cases front with
        | nil => cases split
        | cons first front =>
          cases split
          refine ih.mpr ⟨front, back, rfl, ?_⟩
          rw [codeSize_code]
          omega

/-- The lines are written as `bytes` where constants are numbered by `pool`. -/
def Encodes (pool : Array Value) : List UInt8 → List Line → Prop
  | bytes, [] => bytes = []
  | bytes, .mark _ :: lines => Encodes pool bytes lines
  | bytes, .code i :: lines =>
    ∃ first rest, bytes = first ++ rest ∧ i.Encodes pool first ∧ Encodes pool rest lines

namespace Encodes

theorem length_eq {pool : Array Value} {bytes : List UInt8} {lines : List Line}
    (encoded : Encodes pool bytes lines) : bytes.length = codeSize lines := by
  induction lines generalizing bytes with
  | nil => simp [show bytes = [] from encoded]
  | cons line rest ih =>
    cases line with
    | mark name => exact ih encoded
    | code i =>
      obtain ⟨first, others, rfl, head, tail⟩ := encoded
      rw [List.length_append, head.length_eq, ih tail, codeSize_code]

theorem mono {pool wider : Array Value} {bytes : List UInt8} {lines : List Line}
    (grows : ∀ (index : Nat) (value : Value), pool[index]? = some value →
      wider[index]? = some value)
    (encoded : Encodes pool bytes lines) : Encodes wider bytes lines := by
  induction lines generalizing bytes with
  | nil => exact encoded
  | cons line rest ih =>
    cases line with
    | mark name => exact ih encoded
    | code i =>
      obtain ⟨first, others, rfl, head, tail⟩ := encoded
      exact ⟨first, others, rfl, head.mono grows, ih tail⟩

theorem append_iff {pool : Array Value} {bytes : List UInt8} {front back : List Line} :
    Encodes pool bytes (front ++ back) ↔
      ∃ first second, bytes = first ++ second ∧ Encodes pool first front ∧
        Encodes pool second back := by
  induction front generalizing bytes with
  | nil =>
    constructor
    · intro encoded
      exact ⟨[], bytes, rfl, rfl, encoded⟩
    · rintro ⟨first, second, rfl, empty, encoded⟩
      rw [show first = [] from empty]
      exact encoded
  | cons line rest ih =>
    cases line with
    | mark name => exact ih
    | code i =>
      constructor
      · rintro ⟨first, others, rfl, head, tail⟩
        obtain ⟨second, third, rfl, middle, last⟩ := ih.mp tail
        exact ⟨first ++ second, third, by simp, ⟨first, second, rfl, head, middle⟩, last⟩
      · rintro ⟨_, third, rfl, ⟨first, second, rfl, head, middle⟩, last⟩
        exact ⟨first, second ++ third, by simp, head, ih.mpr ⟨second, third, rfl, middle, last⟩⟩

theorem append {pool : Array Value} {first second : List UInt8} {front back : List Line}
    (left : Encodes pool first front) (right : Encodes pool second back) :
    Encodes pool (first ++ second) (front ++ back) :=
  append_iff.mpr ⟨first, second, rfl, left, right⟩

theorem code {pool : Array Value} {bytes : List UInt8} {i : Instruction}
    (encoded : i.Encodes pool bytes) : Encodes pool bytes [.code i] :=
  ⟨bytes, [], by simp, encoded, rfl⟩

end Encodes

/-! ## Chunks -/

namespace Chunk

/-- The code of a chunk without lines. -/
def bytes (c : Chunk) : List UInt8 := c.code.toList.map (·.value)

/-- The chunk holds these lines and nothing else. -/
structure Assembles (c : Chunk) (lines : List Line) : Prop where
  encodes : Encodes c.constants c.bytes lines
  numbered : c.constants.size ≤ maxConstants
  labels : c.labels = labelsFrom 0 lines
  distinct : (c.labels.map Prod.fst).Nodup

theorem length_bytes (c : Chunk) : c.bytes.length = c.size := by
  simp [bytes, size]

theorem Assembles.size_eq {c : Chunk} {lines : List Line} (assembled : c.Assembles lines) :
    c.size = codeSize lines := by
  rw [← length_bytes, assembled.encodes.length_eq]

theorem byteAt?_eq (c : Chunk) (offset : Nat) : c.byteAt? offset = c.bytes[offset]? := by
  simp [byteAt?, bytes]

theorem empty_assembles : ({} : Chunk).Assembles [] where
  encodes := rfl
  numbered := Nat.zero_le _
  labels := rfl
  distinct := List.nodup_nil

/-! ## Stretches of code -/

/-- From an offset on, the code of the chunk is that of the lines, whatever stands around it. -/
def HasAt (c : Chunk) (offset : Nat) (lines : List Line) : Prop :=
  ∃ before bytes after, c.bytes = before ++ bytes ++ after ∧ before.length = offset ∧
    Encodes c.constants bytes lines

theorem HasAt.of_append {c : Chunk} {offset : Nat} {front back : List Line}
    (stands : c.HasAt offset (front ++ back)) :
    c.HasAt offset front ∧ c.HasAt (offset + codeSize front) back := by
  obtain ⟨before, bytes, after, split, size, encoded⟩ := stands
  obtain ⟨first, second, rfl, left, right⟩ := Encodes.append_iff.mp encoded
  refine ⟨⟨before, first, second ++ after, ?_, size, left⟩,
    ⟨before ++ first, second, after, ?_, ?_, right⟩⟩
  · simp only [split, List.append_assoc]
  · simp only [split, List.append_assoc]
  · rw [List.length_append, size, left.length_eq]

theorem Assembles.hasAt {c : Chunk} {front back : List Line}
    (assembled : c.Assembles (front ++ back)) : c.HasAt (codeSize front) back := by
  have whole : c.HasAt 0 (front ++ back) :=
    ⟨[], c.bytes, [], by simp, rfl, assembled.encodes⟩
  simpa using whole.of_append.2

/-- The bytes of an instruction that stands at an offset. -/
theorem HasAt.instruction {c : Chunk} {offset : Nat} {i : Instruction} {back : List Line}
    (stands : c.HasAt offset (.code i :: back)) :
    ∃ bytes, i.Encodes c.constants bytes ∧
      ∀ k, k < i.width → c.byteAt? (offset + k) = bytes[k]? := by
  obtain ⟨before, _, after, split, size, bytes, rest, rfl, encoded, _⟩ := stands
  refine ⟨bytes, encoded, fun k inside => ?_⟩
  have width := encoded.length_eq
  rw [byteAt?_eq, split, ← size, List.append_assoc, List.getElem?_append_right (by omega),
    Nat.add_sub_cancel_left, List.append_assoc, List.getElem?_append_left (by omega)]

theorem Assembles.instruction {c : Chunk} {front back : List Line} {i : Instruction}
    (assembled : c.Assembles (front ++ .code i :: back)) :
    ∃ bytes, i.Encodes c.constants bytes ∧
      ∀ k, k < i.width → c.byteAt? (codeSize front + k) = bytes[k]? :=
  assembled.hasAt.instruction

end Chunk

end Cellscript
