import Cellscript.Chunk.Splice
import Mathlib.Data.List.Basic

/-!
The line table of a chunk: for every byte of code, the line of the script that it was written for.
Code is only ever appended, and filling in a jump leaves its line alone.
-/

set_option autoImplicit false

namespace Cellscript.Chunk

def lineTable (c : Chunk) : List Nat := c.code.toList.map (·.line)

theorem lineAt_eq (c : Chunk) (offset : Nat) : c.lineAt offset = c.lineTable[offset]?.getD 0 := by
  unfold lineAt lineTable
  rw [List.getElem?_map, Array.getElem?_toList]
  cases c.code[offset]? <;> rfl

theorem length_lineTable (c : Chunk) : c.lineTable.length = c.size := by
  simp [lineTable, size]

theorem lineTable_push (c : Chunk) (b : CodeByte) :
    (c.push b).lineTable = c.lineTable ++ [b.line] := by
  simp [lineTable, push]

theorem lineTable_patch (c : Chunk) (offset : Nat) (byte : UInt8) :
    (c.patch offset byte).lineTable = c.lineTable := by
  refine List.ext_getElem? fun k => ?_
  simp only [lineTable, patch, List.getElem?_map, Array.getElem?_toList, Array.getElem?_modify]
  split <;> simp [Option.map_map, Function.comp_def]

/-- What was appended to the chunk belongs to one line. -/
def Inks (n : Nat) (c d : Chunk) : Prop :=
  ∃ count, d.lineTable = c.lineTable ++ List.replicate count n

namespace Inks

variable {n : Nat} {c d e : Chunk}

theorem of_same (same : d.code = c.code) : Inks n c d :=
  ⟨0, by simp [lineTable, same]⟩

theorem refl (c : Chunk) : Inks n c c := .of_same rfl

theorem trans (first : Inks n c d) (second : Inks n d e) : Inks n c e := by
  obtain ⟨before, earlier⟩ := first
  obtain ⟨after, later⟩ := second
  refine ⟨before + after, ?_⟩
  rw [later, earlier, List.append_assoc, List.replicate_add]

theorem push (c : Chunk) {b : CodeByte} (line : b.line = n) : Inks n c (c.push b) :=
  ⟨1, by rw [lineTable_push, line]; rfl⟩

theorem emit (c : Chunk) (byte : UInt8) : Inks n c (c.emit byte n) := .push c rfl

theorem emitPair (c : Chunk) (op : Opcode) (operand : UInt8) :
    Inks n c (c.emitPair op operand n) := (emit c op.byte).trans (emit _ operand)

theorem emitJump (c : Chunk) (op : Opcode) : Inks n c (c.emitJump op n) := .emitPair c op _

theorem addConstant {value : Value} {index : UInt8} (added : c.addConstant value = .ok (index, d)) :
    Inks n c d := by
  unfold Chunk.addConstant at added
  split at added
  · cases added
    exact .refl c
  · split at added
    · cases added
    · cases added
      exact .of_same rfl

theorem patchJump {offset : Nat} (patched : c.patchJump offset = .ok d) : Inks n c d := by
  unfold Chunk.patchJump at patched
  dsimp only at patched
  split at patched
  · cases patched
    exact ⟨0, by rw [lineTable_patch, List.replicate_zero, List.append_nil]⟩
  · cases patched

theorem insertLabel {name : String} {offset : Nat} (inserted : c.insertLabel name offset = .ok d) :
    Inks n c d := by
  unfold Chunk.insertLabel at inserted
  split at inserted
  · cases inserted
  · cases inserted
    exact .of_same rfl

theorem copyCode (pool : Array Value) (offset : Nat) {code : List CodeByte}
    (lines : ∀ b ∈ code, b.line = n) (c : Chunk) : Inks n c (copyCode pool offset code c).1 := by
  fun_induction Chunk.copyCode pool offset code c with
  | case1 => exact .refl _
  | case2 => exact .refl _
  | case3 offset first rest c op _ _ ih =>
    obtain ⟨here, others⟩ := List.forall_mem_cons.mp lines
    exact (push c here).trans (ih others)
  | case4 => exact .refl _
  | case5 => exact .refl _
  | case6 => exact .refl _
  | case7 offset first c operand rest value _ index d added _ _ ih =>
    obtain ⟨here, others⟩ := List.forall_mem_cons.mp lines
    rw [here] at ih ⊢
    exact ((addConstant added).trans (emitPair _ _ _)).trans
      (ih (List.forall_mem_cons.mp others).2)
  | case8 offset first c _ _ _ operand rest _ ih =>
    obtain ⟨here, others⟩ := List.forall_mem_cons.mp lines
    obtain ⟨there, others⟩ := List.forall_mem_cons.mp others
    exact ((push c here).trans (push _ there)).trans (ih others)

theorem copyLabels (base : Nat) (labels : List (String × Nat)) (c : Chunk) :
    Inks n c (copyLabels base labels c).1 := by
  induction labels generalizing c with
  | nil => exact .refl c
  | cons label rest ih =>
    unfold Chunk.copyLabels
    split
    · exact .refl c
    · exact (insertLabel ‹_›).trans (ih _)

/-- Copied code brings its own lines. -/
theorem splice {other : Chunk} (lines : ∀ line ∈ other.lineTable, line = n) (c : Chunk) :
    Inks n c (c.splice other).1 := by
  have copied := copyCode other.constants 0 (fun b member => lines _ (List.mem_map_of_mem member)) c
  unfold Chunk.splice
  split
  · rename_i d e spliced
    rw [spliced] at copied
    exact copied
  · rename_i d spliced
    rw [spliced] at copied
    exact copied.trans (copyLabels _ _ _)

end Inks

end Cellscript.Chunk
