import Cellscript.Proofs.Code.Copying

/-!
What each way of writing to a chunk adds to its lines.
-/

set_option autoImplicit false

namespace Cellscript

/-- Lines without labels. -/
def Unmarked (lines : List Line) : Prop := ∀ name, Line.mark name ∉ lines

theorem Unmarked.nil : Unmarked [] := fun _ => List.not_mem_nil

theorem Unmarked.append {front back : List Line} (left : Unmarked front) (right : Unmarked back) :
    Unmarked (front ++ back) := by
  intro name member
  exact (List.mem_append.mp member).elim (left name) (right name)

theorem Unmarked.tail {line : Line} {lines : List Line} (unmarked : Unmarked (line :: lines)) :
    Unmarked lines :=
  fun name member => unmarked name (List.mem_cons_of_mem line member)

theorem Unmarked.code (i : Instruction) : Unmarked [.code i] := by
  intro name member
  cases List.mem_singleton.mp member

theorem Unmarked.labelsFrom_eq {lines : List Line} (unmarked : Unmarked lines) (offset : Nat) :
    labelsFrom offset lines = [] := by
  rw [List.eq_nil_iff_forall_not_mem]
  rintro ⟨name, target⟩ member
  obtain ⟨front, back, rfl, _⟩ := mem_labelsFrom.mp member
  exact unmarked name (by simp)

namespace Chunk

/-- The chunk holds the lines, and its pool holds their constants, each of them once. -/
structure Holds (c : Chunk) (lines : List Line) : Prop extends c.Assembles lines where
  used : ∀ value ∈ c.constants, Line.code (.load value) ∈ lines
  unrepeated : c.constants.toList.Pairwise fun a b => shares a b = false

theorem empty_holds : ({} : Chunk).Holds [] where
  toAssembles := empty_assembles
  used _ member := absurd member (Array.not_mem_empty _)
  unrepeated := List.Pairwise.nil

theorem Assembles.extend {c d : Chunk} {lines new : List Line}
    (assembled : c.Assembles lines) (bytes : List UInt8) (code : d.bytes = c.bytes ++ bytes)
    (grows : Grows c.constants d.constants) (numbered : d.constants.size ≤ maxConstants)
    (labels : d.labels = c.labels) (encoded : Encodes d.constants bytes new)
    (unmarked : Unmarked new) : d.Assembles (lines ++ new) where
  encodes := by
    rw [code]
    exact (assembled.encodes.mono grows).append encoded
  numbered := numbered
  labels := by
    rw [labels, assembled.labels, labelsFrom_append, unmarked.labelsFrom_eq, List.append_nil]
  distinct := labels ▸ assembled.distinct

/-- A chunk that holds lines holds the new ones behind them. -/
theorem Extends.holds {c d : Chunk} {lines written : List Line} (extended : c.Extends lines d)
    (unmarked : Unmarked lines) (holds : c.Holds written) : d.Holds (written ++ lines) := by
  obtain ⟨new, code, encoded⟩ := extended.code
  constructor
  · refine holds.toAssembles.extend (new.map (·.value)) ?_ ?_ extended.numbered extended.labels
      encoded unmarked
    · rw [bytes, code, List.map_append]
      rfl
    · rw [extended.constants]
      exact grows_pooled c.constants lines
  · intro value member
    rw [extended.constants] at member
    rcases mem_of_pooled member with old | loaded
    · exact List.mem_append_left _ (holds.used value old)
    · exact List.mem_append_right _ loaded
  · rw [extended.constants]
    exact unrepeated_pooled holds.unrepeated

/-- Code that needs no new constant. -/
theorem Holds.extend {c d : Chunk} {lines new : List Line} (holds : c.Holds lines)
    (bytes : List UInt8) (code : d.bytes = c.bytes ++ bytes) (pool : d.constants = c.constants)
    (labels : d.labels = c.labels) (encoded : Encodes c.constants bytes new)
    (unmarked : Unmarked new) : d.Holds (lines ++ new) where
  toAssembles := by
    refine holds.toAssembles.extend bytes code ?_ ?_ labels ?_ unmarked <;> rw [pool]
    · exact Grows.refl _
    · exact holds.numbered
    · exact encoded
  used := by
    rw [pool]
    exact fun value member => List.mem_append_left new (holds.used value member)
  unrepeated := pool ▸ holds.unrepeated

/-! ## Single bytes and pairs -/

theorem bytes_push (c : Chunk) (b : CodeByte) : (c.push b).bytes = c.bytes ++ [b.value] := by
  simp [push, bytes]

theorem bytes_emitPair (c : Chunk) (op : Opcode) (operand : UInt8) (line : Nat) :
    (c.emitPair op operand line).bytes = c.bytes ++ [op.byte, operand] := by
  simp [emitPair, emit, bytes_push]

theorem Holds.push {c : Chunk} {lines : List Line} (holds : c.Holds lines)
    {op : Opcode} (single : op.operandWidth = 0) {b : CodeByte} (byte : b.value = op.byte) :
    (c.push b).Holds (lines ++ [.code (.plain op)]) := by
  refine holds.extend [b.value] (bytes_push c b) rfl rfl ?_ (.code _)
  exact Encodes.code ⟨single, by rw [byte]⟩

theorem Holds.emit {c : Chunk} {lines : List Line} (holds : c.Holds lines)
    {op : Opcode} (single : op.operandWidth = 0) (line : Nat) :
    (c.emit op.byte line).Holds (lines ++ [.code (.plain op)]) :=
  holds.push single rfl

theorem Holds.load {c d : Chunk} {lines : List Line} (holds : c.Holds lines)
    {value : Value} {index : UInt8} (added : c.addConstant value = .ok (index, d)) (line : Nat) :
    (d.emitPair .constant index line).Holds (lines ++ [.code (.load value)]) :=
  (Extends.load holds.numbered added line).holds (.code _) holds

/-! ## Jumps -/

theorem Holds.emitJump {c : Chunk} {lines : List Line} (holds : c.Holds lines)
    {op : Opcode} (isJump : op = .jump ∨ op = .jumpIfFalse) (line : Nat) :
    (c.emitJump op line).Holds (lines ++ [.code (jumpBy op 255)]) := by
  refine holds.extend [op.byte, placeholder] (bytes_emitPair c op placeholder line) rfl rfl ?_
    (.code _)
  exact Encodes.code ((encodes_jumpBy isJump).mpr ⟨placeholder, rfl, rfl⟩)

theorem values_modify (code : List CodeByte) (offset : Nat) (byte : UInt8) :
    (code.modify offset fun b => { b with value := byte }).map (·.value) =
      (code.map (·.value)).set offset byte := by
  induction code generalizing offset with
  | nil => simp
  | cons b code ih => cases offset with
    | zero => simp
    | succ offset => simp [ih]

theorem bytes_patch (c : Chunk) (offset : Nat) (byte : UInt8) :
    (c.patch offset byte).bytes = c.bytes.set offset byte := by
  rw [bytes, bytes, patch, Array.toList_modify, values_modify]

/-- The operand of a jump says how far it leads, and nothing else. -/
theorem encodes_patched {pool : Array Value} {bytes : List UInt8} {front back : List Line}
    {op : Opcode} {distance : Nat} (isJump : op = .jump ∨ op = .jumpIfFalse)
    (encoded : Encodes pool bytes (front ++ .code (jumpBy op distance) :: back)) {operand : UInt8}
    {reach : Nat} (meant : operand.toNat = reach) :
    Encodes pool (bytes.set (codeSize front + 1) operand)
      (front ++ .code (jumpBy op reach) :: back) := by
  obtain ⟨first, second, rfl, before, jump, rest, rfl, stands, behind⟩ :=
    Encodes.append_iff.mp encoded
  obtain ⟨old, _, rfl⟩ := (encodes_jumpBy isJump).mp stands
  have written : (first ++ ([op.byte, old] ++ rest)).set (codeSize front + 1) operand =
      first ++ ([op.byte, operand] ++ rest) := by
    rw [← before.length_eq, List.set_append_right _ _ (by omega), Nat.add_sub_cancel_left]
    rfl
  rw [written]
  exact before.append ⟨_, rest, rfl, (encodes_jumpBy isJump).mpr ⟨operand, meant, rfl⟩, behind⟩

/-- Patching a jump lets it pass over all lines that follow it. -/
theorem Holds.patchJump {c d : Chunk} {front back : List Line} {op : Opcode} {distance : Nat}
    (isJump : op = .jump ∨ op = .jumpIfFalse)
    (holds : c.Holds (front ++ .code (jumpBy op distance) :: back))
    (patched : c.patchJump (codeSize front + 1) = .ok d) :
    d.Holds (front ++ .code (jumpBy op (codeSize back)) :: back) := by
  have size := holds.size_eq
  rw [codeSize_append, codeSize_code, width_jumpBy] at size
  unfold Chunk.patchJump at patched
  have reach : c.size - (codeSize front + 1) - 1 = codeSize back := by omega
  rw [reach] at patched
  dsimp only at patched
  split at patched
  · rename_i near
    cases patched
    have operand : (codeSize back).toUInt8.toNat = codeSize back := Nat.mod_eq_of_lt near
    refine ⟨⟨?_, holds.numbered, ?_, holds.distinct⟩, fun value member => ?_, holds.unrepeated⟩
    · rw [bytes_patch]
      exact encodes_patched isJump holds.encodes operand
    · change c.labels = _
      rw [holds.labels, labelsFrom_append, labelsFrom_append]
      simp only [labelsFrom, width_jumpBy]
    · have loaded := holds.used value member
      simp only [List.mem_append, List.mem_cons, Line.code.injEq, load_ne_jumpBy, false_or]
        at loaded ⊢
      exact loaded
  · cases patched

namespace Extends

variable {c d : Chunk} {lines front back : List Line} {op : Opcode} {distance : Nat}

theorem size_eq (extended : c.Extends lines d) : d.size = c.size + codeSize lines := by
  obtain ⟨new, code, encoded⟩ := extended.code
  have length := encoded.length_eq
  rw [List.length_map] at length
  rw [size, size, ← Array.length_toList, code, List.length_append, length, Array.length_toList]

theorem emitJump (numbered : c.constants.size ≤ maxConstants)
    (isJump : op = .jump ∨ op = .jumpIfFalse) (line : Nat) :
    c.Extends [.code (jumpBy op 255)] (c.emitJump op line) where
  code := by
    refine ⟨[⟨op.byte, line⟩, ⟨placeholder, line⟩], ?_, ?_⟩
    · simp [Chunk.emitJump, emitPair, Chunk.emit, Chunk.push]
    · exact Encodes.code ((encodes_jumpBy isJump).mpr ⟨placeholder, rfl, rfl⟩)
  constants := (pooled_jumpBy _ op _ []).symm
  numbered := numbered
  labels := rfl
  jumps := rfl

/-- The distance that is filled in is the size of what has been appended behind the jump. -/
theorem reach (extended : c.Extends (front ++ .code (jumpBy op distance) :: back) d) :
    d.size - (c.size + codeSize front + 1) - 1 = codeSize back := by
  have size := extended.size_eq
  rw [codeSize_append, codeSize_code, width_jumpBy] at size
  omega

theorem patchJump (isJump : op = .jump ∨ op = .jumpIfFalse)
    (extended : c.Extends (front ++ .code (jumpBy op distance) :: back) d)
    (near : codeSize back ≤ 255) :
    ∃ e, d.patchJump (c.size + codeSize front + 1) = .ok e ∧
      c.Extends (front ++ .code (jumpBy op (codeSize back)) :: back) e := by
  have operand : (codeSize back).toUInt8.toNat = codeSize back :=
    Nat.mod_eq_of_lt (Nat.lt_succ_of_le near)
  refine ⟨d.patch (c.size + codeSize front + 1) (codeSize back).toUInt8, ?_, ?_⟩
  · rw [Chunk.patchJump, extended.reach]
    exact if_pos (Nat.lt_succ_of_le near)
  · obtain ⟨new, code, encoded⟩ := extended.code
    refine ⟨⟨new.modify (codeSize front + 1) fun b => { b with value := (codeSize back).toUInt8 },
      ?_, ?_⟩, ?_, extended.numbered, extended.labels, extended.jumps⟩
    · rw [patch, Array.toList_modify, code, size, ← Array.length_toList, Nat.add_assoc,
        List.modify_eq_take_drop, List.take_length_add_append, List.drop_length_add_append,
        List.append_assoc, ← List.modify_eq_take_drop]
    · rw [values_modify]
      exact encodes_patched isJump encoded operand
    · change d.constants = _
      rw [extended.constants, pooled_append, pooled_append, pooled_jumpBy, pooled_jumpBy]

end Extends

/-! ## Labels -/

theorem label?_eq_none_iff (c : Chunk) (name : String) :
    c.label? name = none ↔ name ∉ c.labels.map Prod.fst := by
  unfold label?
  generalize c.labels = labels
  induction labels with
  | nil => simp
  | cons label rest ih =>
    rw [List.lookup_cons]
    by_cases same : name = label.1
    · simp [same]
    · have differs : (name == label.1) = false := by simpa using same
      simp only [differs, ih, List.map_cons, List.mem_cons, same, false_or]

/-- A new name goes with the old ones. -/
theorem distinct_insert {labels : List (String × Nat)} {name : String}
    (distinct : (labels.map Prod.fst).Nodup) (fresh : name ∉ labels.map Prod.fst) (offset : Nat) :
    ((labels ++ [(name, offset)]).map Prod.fst).Nodup := by
  simp only [List.map_append, List.map_cons, List.map_nil]
  rw [List.nodup_append]
  refine ⟨distinct, by simp, ?_⟩
  intro other member own single same
  rw [same, List.mem_singleton.mp single] at member
  exact fresh member

theorem Holds.defineLabel {c d : Chunk} {lines : List Line} (holds : c.Holds lines)
    {name : String} (defined : c.defineLabel name = .ok d) : d.Holds (lines ++ [.mark name]) := by
  unfold Chunk.defineLabel insertLabel at defined
  split at defined
  · cases defined
  · rename_i free
    cases defined
    have fresh := (c.label?_eq_none_iff name).mp free
    refine ⟨⟨?_, holds.numbered, ?_, ?_⟩, fun value member => ?_, holds.unrepeated⟩
    · change Encodes c.constants c.bytes _
      exact Encodes.append_iff.mpr ⟨c.bytes, [], by simp, holds.encodes, rfl⟩
    · rw [labelsFrom_append, ← holds.labels, Nat.zero_add, ← holds.size_eq]
      rfl
    · exact distinct_insert holds.distinct fresh c.size
    · exact List.mem_append_left _ (holds.used value member)

theorem Holds.finalize {c : Chunk} {lines : List Line} (holds : c.Holds lines) :
    c.finalize.Holds lines :=
  ⟨⟨holds.encodes, holds.numbered, holds.labels, holds.distinct⟩, holds.used, holds.unrepeated⟩

/-! ## Splicing -/

/-- Code is read as the lines that it stands for. -/
theorem exists_renders {pool : Array Value} {lines : List Line} {code : List CodeByte}
    (encoded : Encodes pool (code.map (·.value)) lines) (unmarked : Unmarked lines) :
    ∃ es, entryLines es = lines ∧ Renders pool code es := by
  induction lines generalizing code with
  | nil =>
    have empty : code = [] := by simpa [Encodes] using encoded
    subst empty
    exact ⟨[], rfl, .nil⟩
  | cons line rest ih =>
    cases line with
    | mark name => exact absurd List.mem_cons_self (unmarked name)
    | code i =>
      obtain ⟨first, others, split, head, tail⟩ := encoded
      obtain ⟨front, back, rfl, rfl, rfl⟩ := List.map_eq_append_iff.mp split
      obtain ⟨e, rfl, here⟩ := renders_instruction head
      obtain ⟨es, rfl, later⟩ := ih tail unmarked.tail
      exact ⟨e :: es, rfl, here.append later⟩

theorem size_of_copyCode {pool : Array Value} {offset : Nat} {code : List CodeByte} {c d : Chunk}
    (numbered : c.constants.size ≤ maxConstants)
    (copied : copyCode pool offset code c = (d, none)) : d.size = c.size + code.length := by
  obtain ⟨es, renders, appends⟩ := copyCode_appends numbered copied
  have length := renders.encodes.length_eq
  rw [List.length_map] at length
  rw [appends.extension.size_eq, length]

/-- Copied code adds the lines it is read as. -/
theorem Holds.copyCode {pool : Array Value} {new : List Line} {code : List CodeByte}
    (encoded : Encodes pool (code.map (·.value)) new) (unmarked : Unmarked new) (offset : Nat)
    {c d : Chunk} {lines : List Line} (holds : c.Holds lines)
    (copied : copyCode pool offset code c = (d, none)) : d.Holds (lines ++ new) := by
  obtain ⟨es, rfl, renders⟩ := exists_renders encoded unmarked
  rw [copyCode_eq_writeAll renders] at copied
  exact (writeAll_appends holds.numbered copied).extension.holds unmarked holds

/-- Splicing code without labels adds its lines. -/
theorem Holds.splice {c d other : Chunk} {lines new : List Line}
    (holds : c.Holds lines) (source : other.Assembles new) (unmarked : Unmarked new)
    (spliced : c.splice other = (d, none)) : d.Holds (lines ++ new) := by
  unfold Chunk.splice at spliced
  split at spliced
  · cases spliced
  · rename_i copied done
    have labels : other.labels = [] := by rw [source.labels, unmarked.labelsFrom_eq]
    rw [labels] at spliced
    cases spliced
    exact Holds.copyCode source.encodes unmarked 0 holds done

end Chunk

end Cellscript
