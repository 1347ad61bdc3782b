import Cellscript.Proofs.Code.Splicing

/-!
Splicing is associative. What a chunk takes over from another one depends on the entries that the
code reads as and on the labels, and these are the same whether they come at once or one after the
other.
-/

set_option autoImplicit false

namespace Cellscript

namespace Chunk

theorem splice_of_renders {c other : Chunk} {es : List Entry}
    (renders : Renders other.constants other.code.toList es) :
    c.splice other = andThen (writeAll es c) (copyLabels c.size other.labels) := by
  rw [Chunk.splice, copyCode_eq_writeAll renders]
  split
  · rename_i refused
    rw [refused, andThen]
  · rename_i done
    rw [done, andThen]

theorem splice_of_unlabelled {c other : Chunk} {es : List Entry}
    (renders : Renders other.constants other.code.toList es) (unlabelled : other.labels = []) :
    c.splice other = writeAll es c := by
  rw [splice_of_renders renders, unlabelled]
  cases writeAll es c with
  | mk d outcome => cases outcome <;> rfl

/-! ## Entries and labels -/

theorem addConstant_relabelled (c : Chunk) (labels : List (String × Nat)) (value : Value) :
    addConstant { c with labels := labels } value =
      (c.addConstant value).map fun added => (added.1, { added.2 with labels := labels }) := by
  unfold addConstant
  cases c.constants.findIdx? (shares · value) with
  | some index => rfl
  | none =>
    dsimp only
    split <;> rfl

theorem write_relabelled (c : Chunk) (labels : List (String × Nat)) (e : Entry) :
    write { c with labels := labels } e =
      (c.write e).map fun d => { d with labels := labels } := by
  cases e with
  | plain op single line => rfl
  | jump op isJump line operand => rfl
  | load value line =>
    rw [write, write, addConstant_relabelled]
    cases c.addConstant value <;> rfl

/-- Labels are neither looked at nor changed while entries are written. -/
theorem writeAll_relabelled (es : List Entry) (c : Chunk) (labels : List (String × Nat)) :
    writeAll es { c with labels := labels } =
      ({ (writeAll es c).1 with labels := labels }, (writeAll es c).2) := by
  induction es generalizing c with
  | nil => rfl
  | cons e es ih =>
    rw [writeAll, writeAll, write_relabelled]
    cases c.write e with
    | error problem => rfl
    | ok d => exact ih d

theorem labels_writeAll (es : List Entry) (c : Chunk) : (writeAll es c).1.labels = c.labels :=
  congrArg (·.1.labels) (writeAll_relabelled es c c.labels)

/-! ## Labels one after the other -/

theorem copyLabels_append (base : Nat) (front back : List (String × Nat)) (c : Chunk) :
    copyLabels base (front ++ back) c =
      andThen (copyLabels base front c) (copyLabels base back) := by
  induction front generalizing c with
  | nil => rfl
  | cons label front ih =>
    rw [List.cons_append, copyLabels, copyLabels]
    cases c.insertLabel label.1 (base + label.2) with
    | error problem => rfl
    | ok d => exact ih d

/-- Moving labels twice is moving them once. -/
theorem copyLabels_shift (base shift : Nat) (labels : List (String × Nat)) (c : Chunk) :
    copyLabels base (labels.map fun label => (label.1, shift + label.2)) c =
      copyLabels (base + shift) labels c := by
  induction labels generalizing c with
  | nil => rfl
  | cons label labels ih =>
    rw [List.map_cons, copyLabels, copyLabels, Nat.add_assoc]
    cases c.insertLabel label.1 (base + (shift + label.2)) with
    | error problem => rfl
    | ok d => exact ih d

/-- Labels that could be copied can be copied to any chunk that has the same labels so far. -/
theorem copyLabels_of_same {base : Nat} {labels : List (String × Nat)} {c d other : Chunk}
    (copied : copyLabels base labels c = (d, none)) (same : other.labels = c.labels) :
    copyLabels base labels other = ({ other with labels := d.labels }, none) := by
  induction labels generalizing c other with
  | nil =>
    cases copied
    rw [copyLabels, ← same]
  | cons label labels ih =>
    rw [copyLabels] at copied ⊢
    cases inserted : c.insertLabel label.1 (base + label.2) with
    | error problem =>
      rw [inserted] at copied
      cases copied
    | ok next =>
      rw [inserted] at copied
      obtain ⟨free, rfl⟩ := insertLabel_eq_ok inserted
      rw [insertLabel, label?, same, ← label?, free]
      exact ih copied rfl

/-! ## Regrouping -/

/-- A chunk that has been spliced reads as what both chunks read as. -/
theorem splice_renders {c other joined : Chunk} (numbered : c.constants.size ≤ maxConstants)
    {es others : List Entry} (own : Renders c.constants c.code.toList es)
    (renders : Renders other.constants other.code.toList others)
    (spliced : c.splice other = (joined, none)) :
    Renders joined.constants joined.code.toList (es ++ others) ∧
      joined.labels = c.labels ++ other.labels.map fun label => (label.1, c.size + label.2) := by
  obtain ⟨copied, code, marks⟩ := splice_eq_iff.mp spliced
  rw [copyCode_eq_writeAll renders] at code
  have appends := writeAll_appends numbered code
  obtain ⟨new, appended, copy⟩ := appends.code
  rw [copyLabels_eq_none marks, appended, appends.labels]
  refine ⟨(own.mono ?_).append copy, rfl⟩
  rw [appends.constants]
  exact grows_pooled c.constants (entryLines others)

/-- Splicing is associative. If the first chunk takes the second and the second takes the third, the
third is taken behind the first two exactly if the first takes the other two together, and a refusal
has the same reason. Once they are taken the two chunks are equal in everything. -/
theorem splice_is_associative {a b c : Chunk} (first : Becomes {} a) (second : Becomes {} b)
    (front : (a.splice b).2 = none) (back : (b.splice c).2 = none) :
    ((a.splice b).1.splice c).2 = (a.splice (b.splice c).1).2 ∧
      ((a.splice (b.splice c).1).2 = none →
        (a.splice b).1.splice c = a.splice (b.splice c).1) := by
  have frontDone : a.splice b = ((a.splice b).1, none) := Prod.ext rfl front
  have backDone : b.splice c = ((b.splice c).1, none) := Prod.ext rfl back
  generalize (a.splice b).1 = ab at *
  generalize (b.splice c).1 = bc at *
  obtain ⟨copied, code, marks⟩ := splice_eq_iff.mp frontDone
  obtain ⟨es, renders⟩ := renders_of_copyCode (congrArg Prod.snd code)
  obtain ⟨_, laterCode, _⟩ := splice_eq_iff.mp backDone
  obtain ⟨others, laterRenders⟩ := renders_of_copyCode (congrArg Prod.snd laterCode)
  rw [copyCode_eq_writeAll renders] at code
  obtain ⟨together, labels⟩ :=
    splice_renders (second.proper empty_proper).numbered renders laterRenders backDone
  have size : ab.size = a.size + b.size := (splice_joins (first.proper empty_proper) frontDone).size
  have same : ab = { copied with labels := ab.labels } := by rw [copyLabels_eq_none marks]
  -- both ways write the entries of the third chunk behind those of the first two
  have left := splice_of_renders (c := ab) laterRenders
  have right := splice_of_renders (c := a) together
  have again : writeAll others ab =
      ({ (writeAll others copied).1 with labels := ab.labels }, (writeAll others copied).2) := by
    rw [← writeAll_relabelled, ← same]
  rw [writeAll_append, code, andThen, labels] at right
  rw [left, right, again]
  have kept := labels_writeAll others copied
  cases written : writeAll others copied with
  | mk d outcome =>
    cases outcome with
    | some problem => exact ⟨rfl, fun done => by cases done⟩
    | none =>
      have regrouped : copyLabels ab.size c.labels { d with labels := ab.labels } =
          copyLabels a.size
            (b.labels ++ c.labels.map fun label => (label.1, b.size + label.2)) d := by
        rw [written] at kept
        rw [copyLabels_append, copyLabels_of_same marks kept, andThen, copyLabels_shift, size]
      exact ⟨congrArg Prod.snd regrouped, fun _ => regrouped⟩

/-- Loads a truth value twice, an address, a boxed address and a text that both other chunks have.
The first of its constants is never loaded, and neither is the first of the ending. -/
def closing : Chunk where
  code := #[⟨1, 9⟩, ⟨1, 9⟩, ⟨1, 9⟩, ⟨1, 9⟩, ⟨1, 9⟩, ⟨2, 9⟩, ⟨1, 9⟩, ⟨3, 10⟩, ⟨1, 10⟩, ⟨4, 10⟩]
  constants := #[.text "c", .truth true, .pointer ⟨0⟩, .boxed ⟨0⟩, .text "a"]
  labels := [("last", 10)]

/-- The three chunks give one and the same program either way. -/
theorem splice_is_associative_on_closing :
    Becomes {} opening ∧ Becomes {} ending ∧ (opening.splice ending).2 = none ∧
      (ending.splice closing).2 = none ∧ (opening.splice (ending.splice closing).1).2 = none ∧
      (opening.splice ending).1.splice closing = opening.splice (ending.splice closing).1 := by
  have front : (opening.splice ending).2 = none := by decide +kernel
  have back : (ending.splice closing).2 = none := by decide +kernel
  have together : (opening.splice (ending.splice closing).1).2 = none := by decide +kernel
  exact ⟨opening_built, ending_built, front, back, together,
    (splice_is_associative opening_built ending_built front back).2 together⟩

end Chunk

end Cellscript
