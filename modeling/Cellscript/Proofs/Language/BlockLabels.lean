import Cellscript.Compile.Loop

/-!
Labels of the blocks of loops. Such a label tells the kind of its block, the number of the loop and
the place of the parameter, so no two blocks share one. It starts with the word for its kind between
two underscores.
-/

set_option autoImplicit false

namespace Cellscript

/-! ## Numbers in texts -/

theorem digits_eq (n : Nat) : (toString n).toList = Nat.toDigits 10 n := by
  rw [Nat.toString_eq_ofList_toDigits, String.toList_ofList]

theorem digits_inj {n m : Nat} (same : (toString n).toList = (toString m).toList) : n = m := by
  rw [digits_eq, digits_eq] at same
  calc n
      _ = Nat.ofDigitChars 10 (Nat.toDigits 10 n) 0 := Nat.ofDigitChars_ten_toDigits.symm
      _ = Nat.ofDigitChars 10 (Nat.toDigits 10 m) 0 := by rw [same]
      _ = m := Nat.ofDigitChars_ten_toDigits

theorem takeWhile_digits (n : Nat) (rest : List Char) :
    ((toString n).toList ++ '_' :: rest).takeWhile Char.isDigit = (toString n).toList := by
  have digits : ∀ c ∈ (toString n).toList, c.isDigit = true := by
    intro c inside
    rw [digits_eq] at inside
    exact Nat.isDigit_of_mem_toDigits (by decide) (by decide) inside
  rw [List.takeWhile_append_of_pos digits, List.takeWhile_cons_of_neg (by decide), List.append_nil]

/-- The number in front of an underscore can be told. -/
theorem digits_append_inj {n m : Nat} {xs ys : List Char}
    (same : (toString n).toList ++ '_' :: xs = (toString m).toList ++ '_' :: ys) :
    n = m ∧ xs = ys := by
  have digits := congrArg (List.takeWhile Char.isDigit) same
  rw [takeWhile_digits, takeWhile_digits] at digits
  rw [digits] at same
  exact ⟨digits_inj digits, (List.cons.inj (List.append_cancel_left same)).2⟩

/-! ## Labels -/

namespace LoopBlock

/-- The kinds in the order in which they are written. -/
def all : List LoopBlock := [init, incr, cond]

theorem mem_all (block : LoopBlock) : block ∈ all := by
  cases block <;> decide

/-- How the labels of a kind of blocks start. -/
def opening (block : LoopBlock) : List Char := '_' :: block.word.toList ++ ['_']

/-- The text starts as a label of a block does. -/
def Reserved (text : String) : Prop := ∃ block : LoopBlock, block.opening <+: text.toList

instance : DecidablePred Reserved := fun text =>
  decidable_of_iff (∃ block ∈ all, block.opening <+: text.toList)
    ⟨fun ⟨block, _, opens⟩ => ⟨block, opens⟩, fun ⟨block, opens⟩ => ⟨block, mem_all block, opens⟩⟩

theorem label_toList (block : LoopBlock) (number part link : Nat) :
    (block.label number part link).toList =
      block.opening ++ ((toString number).toList ++ '_' :: ((toString part).toList ++
        '_' :: (toString link).toList)) := by
  simp [label, opening]

theorem label_reserved (block : LoopBlock) (number part link : Nat) :
    Reserved (block.label number part link) :=
  ⟨block, label_toList block number part link ▸ List.prefix_append _ _⟩

theorem opening_append_inj {block other : LoopBlock} {xs ys : List Char}
    (same : block.opening ++ xs = other.opening ++ ys) : block = other ∧ xs = ys := by
  cases block <;> cases other <;> simp_all [opening, word]

/-- A label tells everything about its block. -/
theorem label_inj {block other : LoopBlock} {n m i j k l : Nat}
    (same : block.label n i k = other.label m j l) : block = other ∧ n = m ∧ i = j ∧ k = l := by
  have texts := congrArg String.toList same
  rw [label_toList, label_toList] at texts
  obtain ⟨kind, texts⟩ := opening_append_inj texts
  obtain ⟨number, texts⟩ := digits_append_inj texts
  obtain ⟨part, texts⟩ := digits_append_inj texts
  exact ⟨kind, number, part, digits_inj texts⟩

end LoopBlock

/-! ## The blocks of one loop -/

theorem zipIdx_distinct {α : Type} (items : List α) :
    items.zipIdx.Pairwise fun a b => a.2 ≠ b.2 := by
  refine List.pairwise_map.mp ?_
  rw [List.zipIdx_map_snd]
  exact List.nodup_range' _

namespace LoopLink

/-- No two parameters of a header have the same place. -/
theorem all_distinct (parts : List LoopPart) :
    (all parts).Pairwise fun l m => ¬ (l.part = m.part ∧ l.link = m.link) := by
  refine List.pairwise_flatMap.mpr ⟨fun source _ => ?_, ?_⟩
  · refine List.pairwise_map.mpr ((zipIdx_distinct _).imp fun distinct same => ?_)
    exact distinct same.2
  · refine (zipIdx_distinct _).imp fun distinct l here m there same => ?_
    obtain ⟨_, _, rfl⟩ := List.mem_map.mp here
    obtain ⟨_, _, rfl⟩ := List.mem_map.mp there
    exact distinct same.1

end LoopLink

namespace LoopBlock

/-- The labels of the blocks of a loop, in the order in which they are written. -/
def labels (number : Nat) (parts : List LoopPart) : List String :=
  all.flatMap fun block => (LoopLink.all parts).map fun l => block.label number l.part l.link

theorem exists_of_mem_labels {number : Nat} {parts : List LoopPart} {name : String}
    (member : name ∈ labels number parts) :
    ∃ (block : LoopBlock) (part link : Nat), name = block.label number part link := by
  obtain ⟨block, _, inside⟩ := List.mem_flatMap.mp member
  obtain ⟨l, _, rfl⟩ := List.mem_map.mp inside
  exact ⟨block, l.part, l.link, rfl⟩

theorem labels_nodup (number : Nat) (parts : List LoopPart) : (labels number parts).Nodup := by
  refine List.pairwise_flatMap.mpr ⟨fun block _ => ?_, ?_⟩
  · refine List.pairwise_map.mpr ((LoopLink.all_distinct parts).imp fun distinct same => ?_)
    exact distinct (label_inj same).2.2
  · have kinds : all.Pairwise (· ≠ ·) := by decide
    refine kinds.imp fun distinct x here y there same => ?_
    obtain ⟨_, _, rfl⟩ := List.mem_map.mp here
    obtain ⟨_, _, rfl⟩ := List.mem_map.mp there
    exact distinct (label_inj same).1

end LoopBlock

end Cellscript
