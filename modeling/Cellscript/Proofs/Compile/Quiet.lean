import Cellscript.Proofs.Compile.Complaints
import Cellscript.Proofs.Language.Grammar

/-!
What a pass without complaints reads and writes, step by step.
-/

set_option autoImplicit false

namespace Cellscript.Pass

/-- Between two moments of a pass the tokens `ts` were read, so many loops were numbered and the
lines were written. -/
structure Wrote (p : Pass) (ts : List Token) (loops : Nat) (lines : List Line) (q : Pass) :
    Prop where
  ahead : p.ahead = ts ++ q.ahead
  loopCount : q.loopCount = p.loopCount + loops
  writes : ∀ {written : List Line}, p.chunk.Holds written → q.chunk.Holds (written ++ lines)

namespace Wrote

variable {p q r : Pass} {ts us : List Token} {m n : Nat} {lines more : List Line}

theorem refl (p : Pass) : p.Wrote [] 0 [] p :=
  ⟨rfl, rfl, fun holds => by rwa [List.append_nil]⟩

theorem trans (first : p.Wrote ts m lines q) (second : q.Wrote us n more r) :
    p.Wrote (ts ++ us) (m + n) (lines ++ more) r where
  ahead := by rw [first.ahead, second.ahead, List.append_assoc]
  loopCount := by rw [second.loopCount, first.loopCount, Nat.add_assoc]
  writes holds := by
    rw [← List.append_assoc]
    exact second.writes (first.writes holds)

theorem left_eq (wrote : p.Wrote ts m lines q) : p.left = ts.length + q.left := by
  unfold left
  rw [wrote.ahead, List.length_append]

/-- The same tokens leave the same tokens ahead. -/
theorem ahead_eq (first : p.Wrote ts m lines q) (second : p.Wrote ts n more r) :
    q.ahead = r.ahead :=
  List.append_cancel_left (first.ahead.symm.trans second.ahead)

end Wrote

/-! ## Reading -/

theorem resume_eq {p : Pass} (honest : p.Honest) {tokens : List Token}
    (quiet : (p.resume tokens).diagnostics = []) : p.resume tokens = { p with ahead := tokens } :=
  resume_of_ahead (resume_of_calm (((resume_heeds p tokens).honest honest).calm quiet))

/-- Reading a token moves it from the tokens ahead to the one read last. -/
theorem advance_eq {p : Pass} (honest : p.Honest) (quiet : p.advance.diagnostics = []) {t : Token}
    {rest : List Token} (ahead : p.ahead = t :: rest) :
    p.advance = { p with previous := t, ahead := rest } := by
  have current : p.current = t := by rw [current, ahead]; rfl
  have moved := resume_eq (p := { p with previous := p.current }) honest quiet
  unfold advance
  rw [moved, current, ahead]
  rfl

theorem advance_wrote {p : Pass} (honest : p.Honest) (quiet : p.advance.diagnostics = [])
    {t : Token} {rest : List Token} (ahead : p.ahead = t :: rest) :
    p.Wrote [t] 0 [] p.advance ∧ p.advance.previous = t := by
  rw [advance_eq honest quiet ahead]
  refine ⟨⟨ahead, rfl, fun holds => ?_⟩, rfl⟩
  rwa [List.append_nil]

theorem current_kind (p : Pass) : p.current.kind = kindAhead p.ahead := by
  unfold current kindAhead
  cases p.ahead <;> rfl

theorem ahead_of_kind {p : Pass} {kind : Token.Kind} (seen : p.current.kind = kind)
    (real : kind ≠ .finish) : ∃ t rest, p.ahead = t :: rest ∧ t.kind = kind := by
  rw [current_kind] at seen
  cases tokens : p.ahead with
  | nil =>
    rw [tokens] at seen
    exact absurd seen.symm real
  | cons t rest =>
    rw [tokens] at seen
    exact ⟨t, rest, rfl, seen⟩

theorem kind_of_sees {p : Pass} {kind : Token.Kind} (seen : p.sees kind = true) :
    p.current.kind = kind := by
  simpa [sees] using seen

theorem ahead_of_sees {p : Pass} {kind : Token.Kind} (seen : p.sees kind = true)
    (real : kind ≠ .finish) : ∃ t rest, p.ahead = t :: rest ∧ t.kind = kind :=
  ahead_of_kind (kind_of_sees seen) real

theorem ahead_of_either {p : Pass} {a b : Token.Kind} (seen : (p.sees a || p.sees b) = true)
    (first : a ≠ .finish) (second : b ≠ .finish) :
    ∃ t rest, p.ahead = t :: rest ∧ (t.kind = a ∨ t.kind = b) := by
  rcases Bool.or_eq_true_iff.mp seen with left | right
  · obtain ⟨t, rest, ahead, kind⟩ := ahead_of_sees left first
    exact ⟨t, rest, ahead, Or.inl kind⟩
  · obtain ⟨t, rest, ahead, kind⟩ := ahead_of_sees right second
    exact ⟨t, rest, ahead, Or.inr kind⟩

/-- The finishing token is not among those ahead. -/
def Unfinished (p : Pass) : Prop := ∀ t ∈ p.ahead, t.kind ≠ .finish

theorem Wrote.unfinished {p q : Pass} {ts : List Token} {loops : Nat} {lines : List Line}
    (wrote : p.Wrote ts loops lines q) (unfinished : p.Unfinished) : q.Unfinished := by
  intro t member
  apply unfinished t
  rw [wrote.ahead]
  exact List.mem_append_right ts member

theorem ahead_of_atEnd {p : Pass} (unfinished : p.Unfinished) (ended : p.atEnd = true) :
    p.ahead = [] := by
  have kind := kind_of_sees ended
  rw [current_kind] at kind
  cases tokens : p.ahead with
  | nil => rfl
  | cons t rest =>
    rw [tokens] at kind
    exact absurd kind (unfinished t (tokens ▸ List.mem_cons_self))

/-- A token that is expected is there. -/
theorem expect_wrote {p : Pass} (honest : p.Honest) (kind : Token.Kind) (complaint : Complaint)
    (quiet : (p.expect kind complaint).diagnostics = []) (real : kind ≠ .finish) :
    ∃ t, t.kind = kind ∧ p.Wrote [t] 0 [] (p.expect kind complaint) ∧
      (p.expect kind complaint).previous = t := by
  unfold expect at quiet ⊢
  by_cases seen : p.sees kind = true
  · rw [if_pos seen] at quiet ⊢
    obtain ⟨t, rest, ahead, same⟩ := ahead_of_sees seen real
    exact ⟨t, same, advance_wrote honest quiet ahead⟩
  · rw [if_neg seen] at quiet
    exact absurd quiet (complain_loud honest _ _)

theorem recover_eq {p : Pass} (honest : p.Honest) (quiet : p.diagnostics = []) : p.recover = p := by
  unfold recover
  rw [honest.calm quiet]
  rfl

/-! ## Writing -/

theorem emit_wrote (p : Pass) (op : Opcode) (single : op.operandWidth = 0) :
    p.Wrote [] 0 (plainLines [op]) (p.emit op) :=
  ⟨rfl, rfl, fun holds => holds.emit single p.line⟩

theorem emitAll_wrote (p : Pass) (ops : List Opcode) (single : ∀ op ∈ ops, op.operandWidth = 0) :
    p.Wrote [] 0 (plainLines ops) (p.emitAll ops) := by
  induction ops generalizing p with
  | nil => exact .refl p
  | cons op rest ih =>
    have first := emit_wrote p op (single op List.mem_cons_self)
    exact first.trans (ih (p.emit op) fun other member =>
      single other (List.mem_cons_of_mem _ member))

theorem emitConstant_wrote {p : Pass} (honest : p.Honest) {value : Value}
    (quiet : (p.emitConstant value).diagnostics = []) :
    p.Wrote [] 0 [.code (.load value)] (p.emitConstant value) := by
  unfold emitConstant at quiet ⊢
  split at quiet
  · rename_i index chunk added
    exact ⟨rfl, rfl, fun holds => holds.load added p.line⟩
  · exact absurd quiet (complain_loud honest _ _)

theorem emitGoto_wrote {p : Pass} (honest : p.Honest) {label : String}
    (quiet : (p.emitGoto label).diagnostics = []) :
    p.Wrote [] 0 (gotoLines label) (p.emitGoto label) := by
  have loaded := emitConstant_wrote honest ((heeding.emit (p.emitConstant _) .pop).quiet quiet)
  exact loaded.trans (emit_wrote (p.emitConstant _) .pop rfl)

theorem adopt_eq {p : Pass} (honest : p.Honest) {result : Except Chunk.Error Chunk}
    (quiet : (p.adopt result).diagnostics = []) :
    ∃ chunk, result = .ok chunk ∧ p.adopt result = { p with chunk } := by
  cases result with
  | ok chunk => exact ⟨chunk, rfl, rfl⟩
  | error e => exact absurd quiet (complain_loud honest _ _)

theorem defineLabel_wrote {p : Pass} (honest : p.Honest) {name : String}
    (quiet : (p.defineLabel name).diagnostics = []) :
    p.Wrote [] 0 [.mark name] (p.defineLabel name) := by
  unfold defineLabel at quiet ⊢
  obtain ⟨chunk, defined, taken⟩ := adopt_eq honest quiet
  rw [taken]
  exact ⟨rfl, rfl, fun holds => holds.defineLabel defined⟩

theorem splice_wrote {p : Pass} (honest : p.Honest) {other : Chunk} {lines : List Line}
    (source : other.Assembles lines) (unmarked : Unmarked lines)
    (quiet : (p.splice other).diagnostics = []) : p.Wrote [] 0 lines (p.splice other) := by
  unfold splice at quiet ⊢
  split at quiet
  · rename_i chunk spliced
    exact ⟨rfl, rfl, fun holds => holds.splice source unmarked spliced⟩
  · rename_i chunk e spliced
    exact absurd quiet (complain_loud (p := { p with chunk }) honest _ _)

/-- Code written apart starts with an empty chunk and leaves the chunk of the pass alone. -/
theorem apart_wrote {p : Pass} {write : Pass → Pass} {ts : List Token} {lines : List Line}
    (wrote : Wrote { p with chunk := {} } ts 0 lines (write { p with chunk := {} })) :
    p.Wrote ts 0 [] (p.apart write).1 ∧ (p.apart write).2.Assembles lines := by
  refine ⟨⟨wrote.ahead, wrote.loopCount, fun holds => ?_⟩, ?_⟩
  · rwa [List.append_nil]
  · exact (wrote.writes Chunk.empty_holds).toAssembles

end Cellscript.Pass
