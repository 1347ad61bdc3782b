import Cellscript.Chunk.Listing
import Mathlib.Data.List.TakeWhile

/-!
What a listing shows. Its rows are the instructions that a sweep from the start of the code meets
and the labels, whatever the bytes and wherever the labels are. Every label stands behind the
instructions that start before its offset and in front of all others.
-/

set_option autoImplicit false

namespace Cellscript.Chunk

/-! ## Sweeps -/

/-- A sweep over the code comes to an offset: the code starts there, or the instruction before it
ends there. A byte that is no instruction is passed over alone. -/
inductive Swept (c : Chunk) : Nat → Prop
  | start : Swept c 0
  | instruction {offset : Nat} {op : Opcode} (swept : Swept c offset)
      (found : (c.byteAt? offset).bind Opcode.ofByte? = some op) :
      Swept c (offset + (1 + op.operandWidth))
  | other {offset : Nat} {byte : UInt8} (swept : Swept c offset)
      (found : c.byteAt? offset = some byte) (unknown : Opcode.ofByte? byte = none) :
      Swept c (offset + 1)

theorem byteAt?_of_lt {c : Chunk} {offset : Nat} (inside : offset < c.size) :
    ∃ byte, c.byteAt? offset = some byte :=
  ⟨_, congrArg (Option.map CodeByte.value) (Array.getElem?_eq_getElem inside)⟩

theorem lt_size_of_byteAt? {c : Chunk} {offset : Nat} {byte : UInt8}
    (found : c.byteAt? offset = some byte) : offset < c.size := by
  obtain ⟨b, read, _⟩ := Option.map_eq_some_iff.mp found
  exact (Array.getElem?_eq_some_iff.mp read).1

theorem width_of_instruction {c : Chunk} {offset : Nat} {op : Opcode}
    (found : (c.byteAt? offset).bind Opcode.ofByte? = some op) :
    c.width offset = 1 + op.operandWidth := by
  rw [width, found]

theorem width_of_unknown {c : Chunk} {offset : Nat} {byte : UInt8}
    (found : c.byteAt? offset = some byte) (unknown : Opcode.ofByte? byte = none) :
    c.width offset = 1 := by
  rw [width, found, Option.bind_some, unknown]

theorem Swept.next {c : Chunk} {offset : Nat} (swept : c.Swept offset) (inside : offset < c.size) :
    c.Swept (offset + c.width offset) := by
  obtain ⟨byte, found⟩ := byteAt?_of_lt inside
  cases known : Opcode.ofByte? byte with
  | none =>
    rw [width_of_unknown found known]
    exact .other swept found known
  | some op =>
    have instruction : (c.byteAt? offset).bind Opcode.ofByte? = some op := by
      rw [found, Option.bind_some, known]
    rw [width_of_instruction instruction]
    exact .instruction swept instruction

theorem le_of_mem_sweepFrom {c : Chunk} {offset later : Nat} (listed : later ∈ c.sweepFrom offset) :
    offset ≤ later := by
  fun_induction sweepFrom c offset with
  | case1 offset inside ih =>
    rcases List.mem_cons.mp listed with rfl | listed
    · exact Nat.le_refl _
    · exact Nat.le_trans (Nat.le_add_right _ _) (ih listed)
  | case2 => cases listed

theorem lt_size_of_mem_sweepFrom {c : Chunk} {offset later : Nat}
    (listed : later ∈ c.sweepFrom offset) : later < c.size := by
  fun_induction sweepFrom c offset with
  | case1 offset inside ih =>
    rcases List.mem_cons.mp listed with rfl | listed
    · exact inside
    · exact ih listed
  | case2 => cases listed

theorem swept_of_mem_sweepFrom {c : Chunk} {offset later : Nat} (swept : c.Swept offset)
    (listed : later ∈ c.sweepFrom offset) : c.Swept later := by
  fun_induction sweepFrom c offset with
  | case1 offset inside ih =>
    rcases List.mem_cons.mp listed with rfl | listed
    · exact swept
    · exact ih (.next swept inside) listed
  | case2 => cases listed

/-- Wherever a sweep goes on, it goes on from there. -/
theorem mem_sweepFrom_next {c : Chunk} {offset later : Nat} (listed : later ∈ c.sweepFrom offset)
    (inside : later + c.width later < c.size) : later + c.width later ∈ c.sweepFrom offset := by
  fun_induction sweepFrom c offset with
  | case1 offset _ ih =>
    rcases List.mem_cons.mp listed with rfl | listed
    · refine List.mem_cons_of_mem _ ?_
      rw [sweepFrom, if_pos inside]
      exact List.mem_cons_self
    · exact List.mem_cons_of_mem _ (ih listed)
  | case2 => cases listed

theorem mem_sweepFrom_zero {c : Chunk} {offset : Nat} :
    offset ∈ c.sweepFrom 0 ↔ c.Swept offset ∧ offset < c.size := by
  constructor
  · intro listed
    exact ⟨swept_of_mem_sweepFrom .start listed, lt_size_of_mem_sweepFrom listed⟩
  · rintro ⟨swept, inside⟩
    induction swept with
    | start =>
      rw [sweepFrom, if_pos inside]
      exact List.mem_cons_self
    | instruction swept found ih =>
      obtain ⟨byte, read, _⟩ := Option.bind_eq_some_iff.mp found
      rw [← width_of_instruction found] at inside ⊢
      exact mem_sweepFrom_next (ih (lt_size_of_byteAt? read)) inside
    | other swept found unknown ih =>
      rw [← width_of_unknown found unknown] at inside ⊢
      exact mem_sweepFrom_next (ih (lt_size_of_byteAt? found)) inside

theorem sweepFrom_increasing (c : Chunk) (offset : Nat) :
    (c.sweepFrom offset).Pairwise (· < ·) := by
  fun_induction sweepFrom c offset with
  | case1 offset _ ih =>
    refine List.pairwise_cons.mpr ⟨fun later listed => ?_, ih⟩
    have reached := le_of_mem_sweepFrom listed
    have positive := c.width_pos offset
    omega
  | case2 => exact .nil

/-! ## Rows -/

/-- A row of a listing. -/
inductive Row
  | instruction (offset : Nat)
  | label (named : String × Nat)

namespace Row

/-- A label is shown by its name and a colon. -/
def text (c : Chunk) : Row → String
  | .instruction offset => c.instructionText offset
  | .label named => named.1 ++ ":"

def label? : Row → Option (String × Nat)
  | .instruction _ => none
  | .label named => some named

/-- The order of labels: by offset, and by name where offsets agree. -/
def Ordered (a b : String × Nat) : Prop := a.2 < b.2 ∨ a.2 = b.2 ∧ a.1 ≤ b.1

/-- What has to stand in front of what. -/
def Precedes : Row → Row → Prop
  | .instruction a, .instruction b => a < b
  | .instruction a, .label b => a < b.2
  | .label a, .instruction b => a.2 ≤ b
  | .label a, .label b => Ordered a b

end Row

open Row (Ordered)

/-- The rows of labels put between those of instructions. -/
def arrange : List (String × Nat) → List Nat → List Row
  | labels, [] => labels.map .label
  | labels, offset :: offsets =>
    (labels.takeWhile (·.2 ≤ offset)).map .label ++
      .instruction offset :: arrange (labels.dropWhile (·.2 ≤ offset)) offsets

theorem interleave_eq (c : Chunk) (labels : List (String × Nat)) (offsets : List Nat) :
    c.interleave labels offsets = (arrange labels offsets).map (Row.text c) := by
  induction offsets generalizing labels with
  | nil =>
    rw [interleave, arrange, List.map_map]
    rfl
  | cons offset offsets ih =>
    rw [interleave, arrange, List.map_append, List.map_map, List.map_cons, ih]
    rfl

/-- No row is lost and none is made up. -/
theorem arrange_perm (labels : List (String × Nat)) (offsets : List Nat) :
    (arrange labels offsets).Perm (labels.map .label ++ offsets.map .instruction) := by
  induction offsets generalizing labels with
  | nil => rw [arrange, List.map_nil, List.append_nil]
  | cons offset offsets ih =>
    rw [arrange, List.map_cons]
    have later := ((ih (labels.dropWhile (·.2 ≤ offset))).cons (.instruction offset)).append_left
      ((labels.takeWhile (·.2 ≤ offset)).map .label)
    refine later.trans ((List.perm_middle.symm.append_left _).trans ?_)
    rw [← List.append_assoc, ← List.map_append, List.takeWhile_append_dropWhile]

theorem mem_arrange {labels : List (String × Nat)} {offsets : List Nat} {row : Row} :
    row ∈ arrange labels offsets ↔
      (∃ label ∈ labels, .label label = row) ∨ ∃ offset ∈ offsets, .instruction offset = row := by
  rw [(arrange_perm labels offsets).mem_iff, List.mem_append, List.mem_map, List.mem_map]

theorem filterMap_label? (labels : List (String × Nat)) (offsets : List Nat) :
    (labels.map Row.label ++ offsets.map Row.instruction).filterMap Row.label? = labels := by
  rw [List.filterMap_append, List.filterMap_map, List.filterMap_map]
  have none : offsets.filterMap (Row.label? ∘ Row.instruction) = [] :=
    List.filterMap_eq_nil_iff.mpr fun _ _ => rfl
  rw [none, List.append_nil]
  exact List.filterMap_some

/-- Behind the first label that is too far on, all labels are. -/
theorem lt_of_mem_dropWhile {labels : List (String × Nat)} {offset : Nat}
    (sorted : labels.Pairwise Ordered) :
    ∀ label ∈ labels.dropWhile (·.2 ≤ offset), offset < label.2 := by
  induction labels with
  | nil => exact nofun
  | cons first rest ih =>
    obtain ⟨least, tail⟩ := List.pairwise_cons.mp sorted
    rw [List.dropWhile_cons]
    split
    · exact ih tail
    · rename_i beyond
      have far : offset < first.2 := Nat.lt_of_not_le fun near => beyond (decide_eq_true near)
      intro label member
      rcases List.mem_cons.mp member with rfl | member
      · exact far
      · rcases least label member with further | ⟨same, _⟩
        · exact Nat.lt_trans far further
        · exact same ▸ far

theorem arrange_ordered {labels : List (String × Nat)} {offsets : List Nat}
    (sorted : labels.Pairwise Ordered) (increasing : offsets.Pairwise (· < ·)) :
    (arrange labels offsets).Pairwise Row.Precedes := by
  induction offsets generalizing labels with
  | nil => exact List.pairwise_map.mpr sorted
  | cons offset offsets ih =>
    obtain ⟨least, increasing⟩ := List.pairwise_cons.mp increasing
    have halves : (labels.takeWhile (·.2 ≤ offset) ++ labels.dropWhile (·.2 ≤ offset)).Pairwise
        Ordered := by
      rwa [List.takeWhile_append_dropWhile]
    obtain ⟨front, back, across⟩ := List.pairwise_append.mp halves
    have near : ∀ label ∈ labels.takeWhile (·.2 ≤ offset), label.2 ≤ offset := by
      intro label member
      simpa using List.mem_takeWhile_imp member
    rw [arrange]
    refine List.pairwise_append.mpr ⟨List.pairwise_map.mpr front, List.pairwise_cons.mpr
      ⟨fun row member => ?_, ih back increasing⟩, fun row before other member => ?_⟩
    · rcases mem_arrange.mp member with ⟨label, far, rfl⟩ | ⟨later, listed, rfl⟩
      · exact lt_of_mem_dropWhile sorted label far
      · exact least later listed
    · obtain ⟨label, early, rfl⟩ := List.mem_map.mp before
      rcases List.mem_cons.mp member with rfl | member
      · exact near label early
      · rcases mem_arrange.mp member with ⟨other, late, rfl⟩ | ⟨later, listed, rfl⟩
        · exact across label early other late
        · exact Nat.le_trans (near label early) (Nat.le_of_lt (least later listed))

/-! ## Labels in order -/

theorem Row.Ordered.trans {a b d : String × Nat} (first : Ordered a b) (second : Ordered b d) :
    Ordered a d := by
  rcases first with first | ⟨same, first⟩
  · left
    rcases second with second | ⟨again, _⟩ <;> omega
  · rcases second with second | ⟨again, second⟩
    · left
      omega
    · exact Or.inr ⟨same.trans again, String.le_trans first second⟩

theorem Row.Ordered.total (a b : String × Nat) : Ordered a b ∨ Ordered b a := by
  rcases Nat.lt_trichotomy a.2 b.2 with lower | same | higher
  · exact Or.inl (Or.inl lower)
  · exact (String.le_total a.1 b.1).imp (fun names => Or.inr ⟨same, names⟩)
      fun names => Or.inr ⟨same.symm, names⟩
  · exact Or.inr (Or.inl higher)

theorem sortedLabels_ordered (c : Chunk) : c.sortedLabels.Pairwise Ordered := by
  have sorted_iff (a b : String × Nat) :
      (decide (a.2 < b.2) || a.2 == b.2 && decide (a.1 ≤ b.1)) = true ↔ Ordered a b := by
    simp [Ordered]
  refine (List.pairwise_mergeSort (fun a b d first second => ?_) (fun a b => ?_) c.labels).imp
    fun {a b} before => (sorted_iff a b).mp before
  · exact (sorted_iff a d).mpr (((sorted_iff a b).mp first).trans ((sorted_iff b d).mp second))
  · rw [Bool.or_eq_true, sorted_iff, sorted_iff]
    exact Row.Ordered.total a b

/-! ## Listings -/

/-- The rows that a listing has to have, and their order. -/
structure Lists (c : Chunk) (rows : List Row) : Prop where
  /-- One row for every instruction that the sweep meets. -/
  instructions : ∀ offset, Row.instruction offset ∈ rows ↔ c.Swept offset ∧ offset < c.size
  /-- One row for every label. -/
  labels : (rows.filterMap Row.label?).Perm c.labels
  /-- All rows are in order; so no instruction has a second row. -/
  ordered : rows.Pairwise Row.Precedes

/-- What the text of an instruction shows: its offset behind leading zeros, and its name, or the
byte if that is no instruction. -/
structure Shows (c : Chunk) (offset : Nat) (text : String) : Prop where
  place : ∃ zeros rest, (∀ d ∈ zeros, d = '0') ∧
    text = String.ofList zeros ++ toString offset ++ " " ++ rest
  instruction : ∀ op, (c.byteAt? offset).bind Opcode.ofByte? = some op →
    ∃ before after, text = before ++ op.name ++ after
  other : ∀ byte, c.byteAt? offset = some byte → Opcode.ofByte? byte = none →
    ∃ before, text = before ++ "Unknown OP " ++ toString byte.toNat

/-- The offset comes first, and a blank stands behind it. -/
theorem lead_eq (c : Chunk) (offset : Nat) :
    ∃ rest, c.lead offset = offsetText offset ++ " " ++ rest := by
  unfold lead
  dsimp only
  split
  · refine ⟨"   | ", ?_⟩
    rw [String.append_assoc]
    rfl
  · refine ⟨rightAligned 4 ' ' (toString (c.lineAt offset)) ++ " ", ?_⟩
    rw [← String.append_assoc]

theorem body_of_instruction {c : Chunk} {offset : Nat} {op : Opcode}
    (found : (c.byteAt? offset).bind Opcode.ofByte? = some op) :
    ∃ after, c.body offset = op.name ++ after := by
  obtain ⟨byte, read, known⟩ := Option.bind_eq_some_iff.mp found
  rw [body, read]
  dsimp only
  rw [known]
  dsimp only
  split
  · rw [leftAligned, String.append_assoc, String.append_assoc]
    exact ⟨_, rfl⟩
  · exact ⟨"", String.append_empty.symm⟩

theorem body_of_unknown {c : Chunk} {offset : Nat} {byte : UInt8}
    (found : c.byteAt? offset = some byte) (unknown : Opcode.ofByte? byte = none) :
    c.body offset = "Unknown OP " ++ toString byte.toNat := by
  rw [body, found]
  dsimp only
  rw [unknown]

theorem instructionText_shows (c : Chunk) (offset : Nat) :
    c.Shows offset (c.instructionText offset) where
  place := by
    obtain ⟨rest, lead⟩ := c.lead_eq offset
    refine ⟨List.replicate (4 - (toString offset).length) '0', rest ++ c.body offset,
      fun d => List.eq_of_mem_replicate, ?_⟩
    rw [instructionText, lead, offsetText, rightAligned, String.append_assoc]
  instruction op found := by
    obtain ⟨after, body⟩ := body_of_instruction found
    exact ⟨c.lead offset, after, by rw [instructionText, body, String.append_assoc]⟩
  other byte found unknown := by
    refine ⟨c.lead offset, ?_⟩
    rw [instructionText, body_of_unknown found unknown, String.append_assoc]

/-- The listing of every chunk, whatever its bytes and wherever its labels, shows each instruction
of the sweep and each label once and in order. The row of a label is its name and a colon, and the
row of an instruction shows its offset and what is there. -/
theorem listing_is_complete_and_ordered (c : Chunk) :
    (∃ rows, c.Lists rows ∧ c.listing = String.join (rows.map fun row => row.text c ++ "\n")) ∧
      ∀ offset, c.Shows offset (c.instructionText offset) := by
  refine ⟨⟨arrange c.sortedLabels (c.sweepFrom 0), ⟨fun offset => ?_, ?_, ?_⟩, ?_⟩,
    c.instructionText_shows⟩
  · rw [mem_arrange, ← mem_sweepFrom_zero]
    simp
  · have labels := (arrange_perm c.sortedLabels (c.sweepFrom 0)).filterMap Row.label?
    rw [filterMap_label?] at labels
    exact labels.trans (List.mergeSort_perm _ _)
  · exact arrange_ordered c.sortedLabels_ordered (c.sweepFrom_increasing 0)
  · rw [listing, listingLines, interleave_eq, List.map_map]
    rfl

/-- Two labels stand inside the constant, in the order of their names; one stands at the end of the
code and one past it. -/
example :
    let c : Chunk :=
      { code := #[⟨1, 7⟩, ⟨0, 7⟩, ⟨200, 8⟩]
        constants := #[.truth true]
        labels := [("far", 9), ("inner", 1), ("end", 3), ("in", 1)] }
    c.listingLines =
      ["0000    7 OP_CONSTANT                  0 Bool(true)", "in:", "inner:",
        "0002    8 Unknown OP 200", "end:", "far:"] := by
  intro c
  have labels : c.sortedLabels = [("in", 1), ("inner", 1), ("end", 3), ("far", 9)] := by cbv
  have offsets : c.sweepFrom 0 = [0, 2] := by cbv
  rw [listingLines, labels, offsets]
  decide +kernel

end Cellscript.Chunk
