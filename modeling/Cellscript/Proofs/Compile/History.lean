import Cellscript.Proofs.Compile.Numbering

/-!
Compilation does not depend on what was compiled before. A compiler remembers how many loops it has
numbered and nothing else, and the numbers show in the labels of blocks only.
-/

set_option autoImplicit false

namespace Cellscript

open List (Forall₂)

/-- A text whose number, if it is the label of a block, is counted from `k` in one chunk and from
`l` in the other. -/
inductive LoopBlock.Recounted (k l : Nat) : String → String → Prop
  | plain {text : String} (free : ¬ Reserved text) : Recounted k l text text
  | label (block : LoopBlock) {n : Nat} (later : k ≤ n) (part link : Nat) :
      Recounted k l (block.label n part link) (block.label (n - k + l) part link)

inductive Value.Recounted (k l : Nat) : Value → Value → Prop
  | number (x : Float) : Recounted k l (.number x) (.number x)
  | text {s t : String} (recounted : LoopBlock.Recounted k l s t) :
      Recounted k l (.text s) (.text t)

/-- Chunks that differ in the numbers of their loops only. -/
structure Chunk.Recounted (k l : Nat) (c d : Chunk) : Prop where
  code : d.code = c.code
  constants : Forall₂ (Value.Recounted k l) c.constants.toList d.constants.toList
  labels : Forall₂ (fun a b => LoopBlock.Recounted k l a.1 b.1 ∧ b.2 = a.2) c.labels d.labels
  jumps : d.jumps = d.labels ∧ c.jumps = c.labels

namespace Renumbering

variable {r : Renumbering}

theorem Maps.recounted (free : ∀ t ∈ r.tokens, ∀ text ∈ t.text?, ¬ LoopBlock.Reserved text)
    {s t : String} (maps : r.Maps s t) : LoopBlock.Recounted r.first r.second s t := by
  cases maps with
  | written among writes => exact .plain (free _ among _ writes)
  | label block loop part link =>
    have moved := LoopBlock.Recounted.label (l := r.second) block
      (Nat.le_add_right r.first loop) part link
    rwa [Nat.add_sub_cancel_left, Nat.add_comm loop] at moved

theorem MapsValue.recounted (free : ∀ t ∈ r.tokens, ∀ text ∈ t.text?, ¬ LoopBlock.Reserved text)
    {v w : Value} (maps : r.MapsValue v w) : Value.Recounted r.first r.second v w := by
  cases maps with
  | number x => exact .number x
  | text maps => exact .text (maps.recounted free)

end Renumbering

theorem Chunk.Twins.recounted {r : Renumbering} {marks : List String} {c d : Chunk}
    (free : ∀ t ∈ r.tokens, ∀ text ∈ t.text?, ¬ LoopBlock.Reserved text)
    (twins : c.Twins r (r.MapsLabels marks) d) :
    c.finalize.Recounted r.first r.second d.finalize where
  code := twins.code
  constants := twins.constants.imp fun _ _ maps => maps.recounted free
  labels := twins.labels.alike.imp fun _ _ same => ⟨same.1.recounted free, same.2.symm⟩
  jumps := ⟨rfl, rfl⟩

namespace Compiler

/-- Compilation does not depend on history. A script none of whose names and strings could be taken
for the label of a block is compiled alike whatever loops have been numbered before: both times with
the same complaints, or both times into the same code, and the numbers of the loops only are counted
from elsewhere. -/
theorem compile_ignores_history (substitutions : List Substitution) (source : String) (k l : Nat)
    (free : ∀ t ∈ ({ substitutions } : Compiler).tokens source, ∀ text ∈ t.text?,
      ¬ LoopBlock.Reserved text) :
    ∃ loops,
      (compile { substitutions, loopCount := k } source).1 =
          { substitutions, loopCount := k + loops } ∧
        (compile { substitutions, loopCount := l } source).1 =
          { substitutions, loopCount := l + loops } ∧
        ((∃ diagnostics,
            (compile { substitutions, loopCount := k } source).2 = .error diagnostics ∧
              (compile { substitutions, loopCount := l } source).2 = .error diagnostics) ∨
          ∃ c d, (compile { substitutions, loopCount := k } source).2 = .ok c ∧
            (compile { substitutions, loopCount := l } source).2 = .ok d ∧ c.Recounted k l d) := by
  have twins := (pass_progress { substitutions, loopCount := k } source
    ⟨_, k, l, Or.inr free⟩ rfl rfl).twins
  refine ⟨(headings { substitutions, loopCount := k } source).length, ?_, ?_, ?_⟩
  · exact congrArg (Compiler.mk substitutions) twins.first
  · exact congrArg (Compiler.mk substitutions) twins.second
  · rw [compile_result, compile_result, twins.diagnostics]
    by_cases quiet : (pass { substitutions, loopCount := k } source).diagnostics.isEmpty = true
    · rw [if_pos quiet, if_pos quiet]
      exact Or.inr ⟨_, _, rfl, rfl, twins.chunk.recounted free⟩
    · rw [if_neg quiet, if_neg quiet]
      exact Or.inl ⟨_, rfl, rfl⟩

/-- A loop inside a loop, with a string that resembles the label of a block. -/
def nested : String :=
  "\n".intercalate
    ["\x7b0 (1) 2 . => 'i\x7d in, out", "\x7b0 (1) 2 . => 'j => 'k\x7d inner, outer",
      "print \"init_0\"", "outer...", "out..."]

theorem compile_ignores_history_of_nested :
    (∀ t ∈ ({} : Compiler).tokens nested, ∀ text ∈ t.text?, ¬ LoopBlock.Reserved text) ∧
      ∃ loops,
        (compile { loopCount := 3 } nested).1 = { loopCount := 3 + loops } ∧
          (compile { loopCount := 10 } nested).1 = { loopCount := 10 + loops } ∧
          ∃ c d, (compile { loopCount := 3 } nested).2 = .ok c ∧
            (compile { loopCount := 10 } nested).2 = .ok d ∧ c.Recounted 3 10 d := by
  have free : ∀ t ∈ ({} : Compiler).tokens nested, ∀ text ∈ t.text?, ¬ LoopBlock.Reserved text := by
    decide +kernel
  have quiet : (pass { loopCount := 3 } nested).diagnostics = [] := by decide +kernel
  obtain ⟨loops, first, second, result⟩ := compile_ignores_history [] nested 3 10 free
  refine ⟨free, loops, first, second, ?_⟩
  rcases result with ⟨diagnostics, failed, _⟩ | compiled
  · rw [compile_result, quiet] at failed
    cases failed
  · exact compiled

end Compiler

end Cellscript
