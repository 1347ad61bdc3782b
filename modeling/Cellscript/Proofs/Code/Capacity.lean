import Cellscript.Proofs.Code.Roles
import Mathlib.Data.Finset.Card

/-!
What a chunk has room for: labels that differ, and no more constants than one operand can number.
As long as both are given, nothing that is written to a chunk is refused, except a jump that would
lead too far.
-/

set_option autoImplicit false

namespace Cellscript

/-- What tells constants apart: numbers their bits, texts their characters. -/
def Value.key? : Value → Option (UInt64 ⊕ String)
  | .number x => some (.inl x.toBits)
  | .text s => some (.inr s)
  | _ => none

namespace Line

def key? : Line → Option (UInt64 ⊕ String)
  | code (.load value) => value.key?
  | _ => none

def name? : Line → Option String
  | mark name => some name
  | code _ => none

end Line

/-- The labels that lines declare. -/
def labelNames (lines : List Line) : List String := lines.filterMap Line.name?

/-- The constants that lines load, each of them once. -/
def constantKeys (lines : List Line) : Finset (UInt64 ⊕ String) :=
  (lines.filterMap Line.key?).toFinset

theorem labelsFrom_names (offset : Nat) (lines : List Line) :
    (labelsFrom offset lines).map Prod.fst = labelNames lines := by
  induction lines generalizing offset with
  | nil => rfl
  | cons line rest ih =>
    cases line with
    | mark name => exact congrArg (name :: ·) (ih offset)
    | code i => exact ih (offset + i.width)

theorem labelNames_append (front back : List Line) :
    labelNames (front ++ back) = labelNames front ++ labelNames back :=
  List.filterMap_append

theorem mem_constantKeys {lines : List Line} {key : UInt64 ⊕ String} :
    key ∈ constantKeys lines ↔
      ∃ value, Line.code (.load value) ∈ lines ∧ value.key? = some key := by
  unfold constantKeys
  rw [List.mem_toFinset, List.mem_filterMap]
  constructor
  · rintro ⟨line, member, keyed⟩
    cases line with
    | mark name => cases keyed
    | code i =>
      cases i with
      | load value => exact ⟨value, member, keyed⟩
      | plain op => cases keyed
      | jump distance => cases keyed
      | jumpIfFalse distance => cases keyed
  · rintro ⟨value, member, keyed⟩
    exact ⟨_, member, keyed⟩

theorem constantKeys_mono {lines wider : List Line} (within : lines ⊆ wider) :
    constantKeys lines ⊆ constantKeys wider := by
  intro key member
  obtain ⟨value, loaded, keyed⟩ := mem_constantKeys.mp member
  exact mem_constantKeys.mpr ⟨value, within loaded, keyed⟩

/-- Lines that one chunk has room for. -/
structure Writable (lines : List Line) : Prop where
  distinct : (labelNames lines).Nodup
  few : (constantKeys lines).card ≤ Chunk.maxConstants
  constant : ∀ value, Line.code (.load value) ∈ lines → value.Constant

namespace Writable

variable {lines wider front back : List Line}

theorem of_sublist (within : lines.Sublist wider) (writable : Writable wider) : Writable lines where
  distinct := writable.distinct.sublist (within.filterMap Line.name?)
  few := (Finset.card_le_card (constantKeys_mono within.subset)).trans writable.few
  constant value loaded := writable.constant value (within.subset loaded)

theorem of_append_left (writable : Writable (front ++ back)) : Writable front :=
  writable.of_sublist (List.sublist_append_left front back)

/-- Code without labels may be written again. -/
theorem of_unmarked (unmarked : Unmarked lines) (within : lines ⊆ wider)
    (writable : Writable wider) : Writable lines where
  distinct := by
    have none : labelNames lines = [] := by
      rw [← labelsFrom_names 0, unmarked.labelsFrom_eq]
      rfl
    rw [none]
    exact List.nodup_nil
  few := (Finset.card_le_card (constantKeys_mono within)).trans writable.few
  constant value loaded := writable.constant value (within loaded)

end Writable

/-! ## Jumps -/

/-- No jump of the statement leads further than one operand can say. -/
def Simple.Short : Simple → Prop
  | when _ body => codeSize body.code ≤ 253 ∧ body.Short
  | choose _ body other =>
    codeSize body.code ≤ 253 ∧ codeSize other.code ≤ 255 ∧ body.Short ∧ other.Short
  | _ => True

/-- All conditionals of the script are short. -/
def Script.Short : Script → Prop
  | done => True
  | mark _ rest => rest.Short
  | simple statement rest => statement.Short ∧ rest.Short
  | loop _ body rest => body.Short ∧ rest.Short

/-- Lines whose jumps have distances that fit into their operands. -/
def Near (lines : List Line) : Prop :=
  ∀ distance, .code (.jump distance) ∈ lines ∨ .code (.jumpIfFalse distance) ∈ lines →
    distance ≤ 255

theorem Near.mono {lines wider : List Line} (near : Near wider) (within : lines ⊆ wider) :
    Near lines :=
  fun distance stands => near distance (stands.imp (within ·) (within ·))

theorem Simple.short_of_near {s : Simple} (near : Near s.code) : s.Short := by
  induction s with
  | print e => trivial
  | stop => trivial
  | perform e => trivial
  | when predicate body ih =>
    have skip := near (codeSize body.code + 2) (Or.inr (by simp [Simple.code, conditionalLines]))
    refine ⟨by omega, ih (near.mono fun line stands => ?_)⟩
    simp [Simple.code, conditionalLines, stands]
  | choose predicate body other bodyward otherward =>
    have skip := near (codeSize body.code + 2) (Or.inr (by simp [Simple.code, conditionalLines]))
    have leap := near (codeSize other.code) (Or.inl (by simp [Simple.code, conditionalLines]))
    refine ⟨by omega, leap, bodyward (near.mono fun line stands => ?_),
      otherward (near.mono fun line stands => ?_)⟩
    · simp [Simple.code, conditionalLines, stands]
    · simp [Simple.code, conditionalLines, stands]

theorem Script.short_of_near {script : Script} {number : Nat} (near : Near (script.code number)) :
    script.Short := by
  induction script generalizing number with
  | done => trivial
  | mark name rest ih => exact ih (near.mono (List.subset_cons_self _ _))
  | simple s rest ih =>
    exact ⟨Simple.short_of_near (near.mono (List.subset_append_left _ _)),
      ih (near.mono (List.subset_append_right _ _))⟩
  | loop header body rest bodyward restward =>
    have inBody : body.code (number + 1) ⊆ (loop header body rest).code number := fun line stands =>
      List.mem_append_left _ (List.mem_append_left _ (List.mem_append_right _ stands))
    exact ⟨bodyward (near.mono inBody), restward (near.mono (List.subset_append_right _ _))⟩

namespace Chunk

/-! ## Constants -/

theorem shares_eq_true_iff {a b : Value} :
    shares a b = true ↔ a.key?.isSome ∧ a.key? = b.key? := by
  cases a <;> cases b <;> simp [shares, Value.key?]

theorem shares_of_key? {a b : Value} (constant : a.Constant) (same : a.key? = b.key?) :
    shares a b = true := by
  refine shares_eq_true_iff.mpr ⟨?_, same⟩
  cases constant <;> rfl

/-- Constants that share no place are counted one by one. -/
theorem length_le_card {lines : List Line} {values : List Value}
    (apart : values.Pairwise fun a b => shares a b = false)
    (loaded : ∀ value ∈ values, Line.code (.load value) ∈ lines)
    (constant : ∀ value ∈ values, value.Constant) :
    values.length ≤ (constantKeys lines).card := by
  have nodup : (values.map Value.key?).Nodup := by
    refine List.pairwise_map.mpr (apart.imp_of_mem fun {a b} first _ differ same => ?_)
    rw [shares_of_key? (constant a first) same] at differ
    cases differ
  have within : (values.map Value.key?).toFinset ⊆ (constantKeys lines).image some := by
    intro key member
    obtain ⟨value, mentioned, rfl⟩ := List.mem_map.mp (List.mem_toFinset.mp member)
    rw [Finset.mem_image]
    cases constant value mentioned with
    | number x => exact ⟨_, mem_constantKeys.mpr ⟨_, loaded _ mentioned, rfl⟩, rfl⟩
    | text s => exact ⟨_, mem_constantKeys.mpr ⟨_, loaded _ mentioned, rfl⟩, rfl⟩
  calc values.length = (values.map Value.key?).toFinset.card := by
        rw [List.toFinset_card_of_nodup nodup, List.length_map]
    _ ≤ ((constantKeys lines).image some).card := Finset.card_le_card within
    _ ≤ (constantKeys lines).card := Finset.card_image_le

/-- The constants of lines that can be written do not overflow the pool. -/
theorem Holds.fits {c : Chunk} {lines new : List Line} (holds : c.Holds lines)
    (writable : Writable (lines ++ new)) : Fits c.constants new := by
  have loaded :
      ∀ value ∈ (pooled c.constants new).toList, Line.code (.load value) ∈ lines ++ new := by
    intro value member
    rcases mem_of_pooled (Array.mem_toList_iff.mp member) with old | added
    · exact List.mem_append_left _ (holds.used value old)
    · exact List.mem_append_right _ added
  calc (pooled c.constants new).size = (pooled c.constants new).toList.length :=
      Array.length_toList.symm
    _ ≤ (constantKeys (lines ++ new)).card :=
      length_le_card (unrepeated_pooled holds.unrepeated) loaded
        fun value member => writable.constant value (loaded value member)
    _ ≤ maxConstants := writable.few

theorem Holds.addConstant_ok {c : Chunk} {lines : List Line} (holds : c.Holds lines) {value : Value}
    (writable : Writable (lines ++ [.code (.load value)])) :
    ∃ index d, c.addConstant value = .ok (index, d) :=
  addConstant_of_fits (holds.fits writable)

/-! ## Labels and jumps -/

theorem Holds.defineLabel_ok {c : Chunk} {lines : List Line} (holds : c.Holds lines) {name : String}
    (writable : Writable (lines ++ [.mark name])) : ∃ d, c.defineLabel name = .ok d := by
  have fresh : name ∉ c.labels.map Prod.fst := by
    have distinct := writable.distinct
    rw [labelNames_append, List.nodup_append] at distinct
    rw [holds.labels, labelsFrom_names]
    intro member
    exact distinct.2.2 name member name (List.mem_singleton_self name) rfl
  unfold Chunk.defineLabel insertLabel
  rw [(c.label?_eq_none_iff name).mpr fresh]
  exact ⟨_, rfl⟩

/-! ## Splicing -/

theorem Holds.copyCode_ok {pool : Array Value} {new : List Line} {code : List CodeByte}
    (encoded : Encodes pool (code.map (·.value)) new) (unmarked : Unmarked new) (offset : Nat)
    {c : Chunk} {lines : List Line} (holds : c.Holds lines) (writable : Writable (lines ++ new)) :
    ∃ d, Chunk.copyCode pool offset code c = (d, none) := by
  obtain ⟨es, rfl, renders⟩ := exists_renders encoded unmarked
  rw [copyCode_eq_writeAll renders]
  exact writeAll_of_fits (holds.fits writable)

theorem Holds.splice_ok {c other : Chunk} {lines new : List Line} (holds : c.Holds lines)
    (source : other.Assembles new) (unmarked : Unmarked new) (writable : Writable (lines ++ new)) :
    ∃ d, c.splice other = (d, none) := by
  obtain ⟨d, copied⟩ := holds.copyCode_ok source.encodes unmarked 0 writable
  have labels : other.labels = [] := by rw [source.labels, unmarked.labelsFrom_eq]
  unfold Chunk.splice
  rw [copied, labels]
  exact ⟨d, rfl⟩

/-! ## What chunks hold -/

theorem Assembles.near {c : Chunk} {lines : List Line} (assembled : c.Assembles lines) :
    Near lines := by
  rintro distance (stands | stands)
  · obtain ⟨front, back, rfl⟩ := List.append_of_mem stands
    obtain ⟨_, ⟨operand, rfl, _⟩, _⟩ := assembled.instruction
    exact Nat.le_of_lt_succ operand.toNat_lt
  · obtain ⟨front, back, rfl⟩ := List.append_of_mem stands
    obtain ⟨_, ⟨operand, rfl, _⟩, _⟩ := assembled.instruction
    exact Nat.le_of_lt_succ operand.toNat_lt

theorem Assembles.distinct_labels {c : Chunk} {lines : List Line} (assembled : c.Assembles lines) :
    (labelNames lines).Nodup := by
  rw [← labelsFrom_names 0, ← assembled.labels]
  exact assembled.distinct

theorem Assembles.few_constants {c : Chunk} {lines : List Line} (assembled : c.Assembles lines) :
    (constantKeys lines).card ≤ maxConstants := by
  have within : constantKeys lines ⊆ (c.constants.toList.filterMap Value.key?).toFinset := by
    intro key member
    obtain ⟨value, loaded, keyed⟩ := mem_constantKeys.mp member
    obtain ⟨front, back, rfl⟩ := List.append_of_mem loaded
    obtain ⟨bytes, ⟨index, found, _⟩, _⟩ := assembled.instruction
    have held := Array.mem_toList_iff.mpr (Array.mem_of_getElem? found)
    exact List.mem_toFinset.mpr (List.mem_filterMap.mpr ⟨value, held, keyed⟩)
  calc (constantKeys lines).card
      ≤ (c.constants.toList.filterMap Value.key?).toFinset.card := Finset.card_le_card within
    _ ≤ (c.constants.toList.filterMap Value.key?).length := List.toFinset_card_le _
    _ ≤ c.constants.toList.length := List.length_filterMap_le _ _
    _ ≤ maxConstants := by
      rw [Array.length_toList]
      exact assembled.numbered

end Chunk

end Cellscript
