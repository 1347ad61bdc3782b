import Cellscript.Proofs.Compile.Passages
import Cellscript.Proofs.Machine.Safety

/-!
The lines that failures name. Every byte of a script that compiles belongs to the line of the
statement or of the header for which it was written, so a run that fails names the line of what
failed. Only a run that was sent to an offset can leave the code, and then no line is named.
-/

set_option autoImplicit false

namespace Cellscript.Machine

variable {chunk : Chunk}

/-- There is nothing to do behind the code. -/
theorem step_behind {ip : Nat} (behind : chunk.size ≤ ip) (m : Machine) :
    step chunk ip m = .error .missingReturn m := by
  have nothing : chunk.byteAt? ip = none := by
    rw [Chunk.byteAt?, Array.getElem?_eq_none behind]
    rfl
  have fetched : fetch chunk ip m = .error .missingReturn m := by
    rw [fetch, nothing]
  exact bind_apply_error fetched _

/-- Where a machine stands there is code. -/
theorem Stands.inside {lines : List Line} {ip : Nat} {top : List Value}
    (assembled : chunk.Assembles (lines ++ plainLines [.halt])) (stands : Stands lines ip top) :
    ip < chunk.size := by
  obtain ⟨front, back, rfl, rfl, _⟩ := stands
  rw [assembled.size_eq, codeSize_append, codeSize_append]
  have last : codeSize (plainLines [.halt]) = 1 := rfl
  omega

/-- Only a run that was sent to an offset leaves the code of a script. -/
theorem not_keepsToLabels_of_behind {compiler : Compiler} {source : String}
    (compiled : (compiler.compile source).2 = .ok chunk) {n ip : Nat} {m t : Machine}
    (reached : after chunk n (0, m) = some (ip, t)) (behind : chunk.size ≤ ip) :
    ¬ KeepsToLabels chunk n (0, m) := by
  intro labels
  obtain ⟨script, spells, assembled, finished, _⟩ := Compiler.compile_assembles compiled
  have neutral := script.code_neutral compiler.loopCount fun _ leaves =>
    spells.declares_exits compiler.loopCount leaves
  have start : Stands (script.code compiler.loopCount) 0 [] := ⟨[], _, rfl, rfl, rfl, by simp⟩
  obtain ⟨top, stands, _⟩ := start.after assembled finished neutral rfl labels reached
  exact absurd (stands.inside assembled) (Nat.not_lt_of_le behind)

/-- The return at the end of a script does not fail. -/
theorem step_at_end {lines : List Line} (assembled : chunk.Assembles (lines ++ plainLines [.halt]))
    (m : Machine) : step chunk (codeSize lines) m = .ok none m := by
  rw [assembled.step_eq]
  rfl

/-- A run fails at an instruction that it has come to, and names the line of its byte. -/
theorem of_failed {steps : Nat} {m : Machine} {failure : Failure}
    (failed : (run chunk steps m).2 = .failed failure) :
    ∃ n < steps, ∃ ip t u, after chunk n (0, m) = some (ip, t) ∧
      step chunk ip (t.note chunk ip) = .error failure.fault u ∧
    failure.line = chunk.lineAt ip := by
  rcases runFrom_cases chunk steps 0 m with ⟨_, _, ends⟩ | ⟨n, early, ip, t, reached, ended⟩
  · rw [run, ends] at failed
    cases failed
  rcases ended with ⟨u, _, ends⟩ | ⟨fault, u, last, ends⟩
  · rw [run, ends] at failed
    cases failed
  · rw [run, ends] at failed
    cases failed
    exact ⟨n, early, ip, t, u, reached, last, rfl⟩

/-- Failures name their line. Where newlines are kept, the lines of the code never fall and are
lines of the script. The code is that of the passages of the script, and all of a passage belongs to
the line on which its tokens stand, or for a way back the token before it. A run that fails inside
the code names the line of the passage that the instruction belongs to; one that fails behind the
code was sent to an offset, and names no line. -/
theorem failures_name_their_line {compiler : Compiler} {source : String}
    (kept : ∀ rule ∈ compiler.substitutions, rule.pattern ≠ ⟨.newline, "\n"⟩)
    (compiled : (compiler.compile source).2 = .ok chunk) :
    chunk.lineTable.Pairwise (· ≤ ·) ∧
    (∀ line ∈ chunk.lineTable, 1 ≤ line ∧ line ≤ 1 + source.toList.count '\n') ∧
    ∃ script passages, compiler.Spells source script ∧
      chunk.Assembles (script.code compiler.loopCount ++ plainLines [.halt]) ∧
      passages.flatMap Passage.tokens = compiler.tokens source ∧
      passages.flatMap Passage.code = script.code compiler.loopCount ∧
      Passage.Laid (.finish 1) passages [] ∧
      chunk.lineTable = passages.flatMap Passage.lines ++ [compiler.lastLine source] ∧
      ∀ m steps failure, (run chunk steps m).2 = .failed failure →
        ∃ n < steps, ∃ ip t u, after chunk n (0, m) = some (ip, t) ∧
          step chunk ip (t.note chunk ip) = .error failure.fault u ∧
          ((∃ b, Passage.Covers passages b ip ∧ failure.line = b.line) ∨
            chunk.size ≤ ip ∧ failure = ⟨.missingReturn, 0⟩ ∧ ¬ KeepsToLabels chunk n (0, m)) := by
  obtain ⟨sorted, bounds⟩ := Compiler.compile_lines kept compiled
  obtain ⟨script, passages, spells, assembled, tokens, code, laid, table⟩ :=
    Compiler.compile_passages kept compiled
  refine ⟨sorted, bounds, script, passages, spells, assembled, tokens, code, laid, table, ?_⟩
  intro m steps failure failed
  obtain ⟨n, early, ip, t, u, reached, stepped, line⟩ := of_failed failed
  refine ⟨n, early, ip, t, u, reached, stepped, ?_⟩
  have size : chunk.size = codeSize (passages.flatMap Passage.code) + 1 := by
    rw [assembled.size_eq, codeSize_append, code]
    rfl
  rw [Chunk.lineAt_eq] at line
  rcases Nat.lt_trichotomy ip (codeSize (passages.flatMap Passage.code)) with inside | ends | behind
  · obtain ⟨b, covers, here⟩ := Passage.exists_covers inside
    refine Or.inl ⟨b, covers, ?_⟩
    obtain ⟨below, _⟩ := List.getElem?_eq_some_iff.mp here
    rw [line, table, List.getElem?_append_left below, here]
    rfl
  · rw [ends, code, step_at_end assembled] at stepped
    cases stepped
  · have past : chunk.size ≤ ip := by omega
    rw [step_behind past] at stepped
    rw [List.getElem?_eq_none (chunk.length_lineTable ▸ past)] at line
    refine Or.inr ⟨past, ?_, not_keepsToLabels_of_behind compiled reached past⟩
    obtain ⟨fault, number⟩ := failure
    cases stepped
    cases line
    rfl

/-- A loop whose condition fails on the second round, when the body has changed what it reads. -/
def spoiled : String := "\n".intercalate [
  "'x = 1", "", "\x7b0 (1) \x7bx - i\x7d . => 'i\x7d top, out", "show i; 'x = \"a\"", "out...",
  "show \"done\""]

theorem failures_name_their_line_of_spoiled :
    let compiler : Compiler := { substitutions := [⟨⟨.name, "show"⟩, ⟨.print, "print"⟩⟩] }
    (∀ rule ∈ compiler.substitutions, rule.pattern ≠ ⟨.newline, "\n"⟩) ∧
    ∃ chunk passages, (compiler.compile spoiled).2 = .ok chunk ∧
      Passage.Laid (.finish 1) passages [] ∧
      passages.flatMap Passage.tokens = compiler.tokens spoiled ∧
      (run chunk 60 (Machine.new {} {})).2 = .failed ⟨.numberOperands, 3⟩ ∧
      ∃ b ip, Passage.Covers passages b ip ∧ b.line = 3 := by
  intro compiler
  have kept : ∀ rule ∈ compiler.substitutions, rule.pattern ≠ ⟨.newline, "\n"⟩ := by decide
  have checked : (compiler.compile spoiled).2.toOption.any (fun chunk =>
      (run chunk 60 (Machine.new {} {})).2 = .failed ⟨.numberOperands, 3⟩) = true := by
    decide +kernel
  refine ⟨kept, ?_⟩
  cases compiled : (compiler.compile spoiled).2 with
  | error diagnostics =>
    rw [compiled] at checked
    cases checked
  | ok chunk =>
    rw [compiled] at checked
    have failed := of_decide_eq_true checked
    obtain ⟨_, _, _, passages, _, _, tokens, _, laid, _, failures⟩ :=
      failures_name_their_line kept compiled
    refine ⟨chunk, passages, rfl, laid, tokens, failed, ?_⟩
    obtain ⟨_, _, ip, _, _, _, _, named⟩ := failures _ _ _ failed
    rcases named with ⟨b, covers, line⟩ | ⟨_, other, _⟩
    · exact ⟨b, ip, covers, line.symm⟩
    · cases other

/-- A script that sends itself to the operand of one of its last instructions. -/
def strayed : String :=
  "'x = 67\nx\na; b; c; d; e; f; g; h; i; j; k; l; m; n; o; p; q; r; s; t"

/-- A run that has left the code names no line of the script. -/
theorem strayed_run_names_no_line :
    ∃ chunk, (({} : Compiler).compile strayed).2 = .ok chunk ∧
      (run chunk 10 (Machine.new {} {})).2 = .failed ⟨.missingReturn, 0⟩ ∧ 0 ∉ chunk.lineTable := by
  have checked : (({} : Compiler).compile strayed).2.toOption.any (fun chunk =>
      (run chunk 10 (Machine.new {} {})).2 = .failed ⟨.missingReturn, 0⟩ ∧ 0 ∉ chunk.lineTable) =
      true := by
    decide +kernel
  cases compiled : (({} : Compiler).compile strayed).2 with
  | error diagnostics =>
    rw [compiled] at checked
    cases checked
  | ok chunk =>
    rw [compiled] at checked
    exact ⟨chunk, rfl, of_decide_eq_true checked⟩

end Cellscript.Machine
