import Cellscript.Proofs.Compile.Quiet

/-!
Reading and writing exactly, whatever was complained about before and whatever the chunk holds. When
a pass has read a token it looks for the next valid one, and complains if it passes over an invalid
one.
-/

set_option autoImplicit false

namespace Cellscript.Pass

/-- The tokens have been read and the lines written, and the pass has looked for what comes next.
Nothing else has changed. -/
structure Took (p : Pass) (ts : List Token) (lines : List Line) (rest : List Token) (q : Pass) :
    Prop where
  ahead : p.ahead = ts ++ rest
  result : ∃ chunk,
    (p.chunk.constants.size ≤ Chunk.maxConstants → p.chunk.Extends lines chunk) ∧
      q = { p with previous := ts.getLastD p.previous, chunk }.resume rest

theorem expect_of_ahead {p : Pass} {t : Token} {rest : List Token} (ahead : p.ahead = t :: rest)
    {kind : Token.Kind} (same : t.kind = kind) {complaint : Complaint} :
    p.expect kind complaint = p.advance := by
  have seen : p.sees kind = true := by
    rw [sees, current, ahead]
    exact beq_iff_eq.mpr same
  rw [expect, if_pos seen]

namespace Took

variable {p q r : Pass} {ts us rest : List Token} {t : Token} {lines more : List Line}

theorem advance (ahead : p.ahead = t :: rest) : p.Took [t] [] rest p.advance := by
  refine ⟨ahead, p.chunk, .refl, ?_⟩
  rw [Pass.advance, current, ahead]
  rfl

theorem expect (ahead : p.ahead = t :: rest) {kind : Token.Kind} (same : t.kind = kind)
    (complaint : Complaint) : p.Took [t] [] rest (p.expect kind complaint) := by
  rw [expect_of_ahead ahead same]
  exact .advance ahead

theorem validAhead (took : p.Took ts lines rest q) : q.ahead = validAhead rest := by
  obtain ⟨_, chunk, _, rfl⟩ := took
  exact resume_validAhead _ rest

theorem ahead_of_calm (took : p.Took ts lines rest q) (calm : q.panicking = false) :
    q.ahead = rest := by
  obtain ⟨_, chunk, _, rfl⟩ := took
  exact resume_of_calm calm

theorem previous (took : p.Took ts lines rest q) : q.previous = ts.getLastD p.previous := by
  obtain ⟨_, chunk, _, rfl⟩ := took
  exact resume_previous _ rest

theorem left_le (took : p.Took ts lines rest q) : ts.length + q.left ≤ p.left := by
  have shorter : q.ahead.length ≤ rest.length := by
    obtain ⟨_, chunk, _, rfl⟩ := took
    exact (resume_ahead _ rest).length_le
  unfold left
  rw [took.ahead, List.length_append]
  omega

theorem appends (took : p.Took ts lines rest q)
    (numbered : p.chunk.constants.size ≤ Chunk.maxConstants) : p.chunk.Extends lines q.chunk := by
  obtain ⟨_, chunk, extended, rfl⟩ := took
  rw [resume_chunk]
  exact extended numbered

/-- Where no token is passed over, only four fields change. -/
theorem eq_of_ahead (took : p.Took ts lines rest q) (kept : q.ahead = rest) :
    q = { p with previous := ts.getLastD p.previous, ahead := rest, chunk := q.chunk } := by
  obtain ⟨_, chunk, _, rfl⟩ := took
  rw [resume_chunk]
  exact resume_of_ahead kept

theorem trans (first : p.Took ts lines (us ++ rest) q) (second : q.Took us more rest r) :
    p.Took (ts ++ us) (lines ++ more) rest r := by
  have here := first.eq_of_ahead second.ahead
  obtain ⟨_, chunk, extended, rfl⟩ := second
  refine ⟨by rw [first.ahead, List.append_assoc], chunk, fun numbered => ?_, ?_⟩
  · have before := first.appends numbered
    exact before.trans (extended before.numbered)
  · have last : (ts ++ us).getLastD p.previous = us.getLastD (ts.getLastD p.previous) := by
      simp only [List.getLastD_eq_getLast?, List.getLast?_append, Option.getD_or]
    rw [here, last]
    exact resume_anew { p with previous := us.getLastD (ts.getLastD p.previous), chunk } rest _

/-- One more token is read. -/
theorem advanced (took : p.Took ts lines (t :: rest) q) (kept : q.ahead = t :: rest) :
    p.Took (ts ++ [t]) lines rest q.advance := by
  have both : p.Took (ts ++ [t]) (lines ++ []) rest q.advance := trans took (.advance kept)
  rwa [List.append_nil] at both

/-- A pass that does not panic has passed over nothing. -/
theorem andThen {later : List Token} (first : p.Took ts lines rest q) (calm : q.panicking = false)
    (second : q.Took us more later r) : p.Took (ts ++ us) (lines ++ more) later r := by
  obtain rfl : rest = us ++ later := (first.ahead_of_calm calm).symm.trans second.ahead
  exact first.trans second

/-- Something more is written. -/
theorem write (took : p.Took ts lines rest q) {chunk : Chunk}
    (extended : q.chunk.constants.size ≤ Chunk.maxConstants → q.chunk.Extends more chunk) :
    p.Took ts (lines ++ more) rest { q with chunk } := by
  refine ⟨took.ahead, chunk, fun numbered => ?_, ?_⟩
  · have before := took.appends numbered
    exact before.trans (extended before.numbered)
  · obtain ⟨_, old, _, rfl⟩ := took
    exact resume_write _ rest chunk

theorem emit (took : p.Took ts lines rest q) (op : Opcode) (single : op.operandWidth = 0) :
    p.Took ts (lines ++ plainLines [op]) rest (q.emit op) :=
  took.write fun numbered => .emit numbered single q.line

theorem emitAll (took : p.Took ts lines rest q) {ops : List Opcode}
    (single : ∀ op ∈ ops, op.operandWidth = 0) :
    p.Took ts (lines ++ plainLines ops) rest (q.emitAll ops) := by
  induction ops generalizing q lines with
  | nil =>
    rw [show plainLines [] = [] from rfl, List.append_nil]
    exact took
  | cons op later ih =>
    have first := took.emit op (single op List.mem_cons_self)
    have others := ih first fun other member => single other (List.mem_cons_of_mem _ member)
    rw [List.append_assoc] at others
    exact others

theorem emitConstant (took : p.Took ts lines rest q) {value : Value} {index : UInt8} {chunk : Chunk}
    (added : q.chunk.addConstant value = .ok (index, chunk)) :
    p.Took ts (lines ++ [.code (.load value)]) rest (q.emitConstant value) := by
  unfold Pass.emitConstant
  rw [added]
  exact took.write fun numbered => .load numbered added q.line

theorem fits (took : p.Took ts lines rest q) (fits : Chunk.Fits p.chunk.constants (lines ++ more)) :
    Chunk.Fits q.chunk.constants more := by
  rw [(took.appends fits.numbered).constants]
  exact fits.of_append.2

/-- What a chunk holds afterwards. -/
theorem wrote (took : p.Took ts lines rest q) (unmarked : Unmarked lines) (kept : q.ahead = rest) :
    p.Wrote ts 0 lines q where
  ahead := by rw [kept, took.ahead]
  loopCount := by rw [took.eq_of_ahead kept, Nat.add_zero]
  writes holds := (took.appends holds.numbered).holds unmarked holds

end Took

section Calm

variable {p : Pass}

theorem expect_took {kind : Token.Kind} {complaint : Complaint}
    (calm : (p.expect kind complaint).panicking = false) (real : kind ≠ .finish) :
    ∃ t rest, t.kind = kind ∧ p.Took [t] [] rest (p.expect kind complaint) := by
  by_cases seen : p.sees kind = true
  · obtain ⟨t, rest, ahead, same⟩ := ahead_of_sees seen real
    exact ⟨t, rest, same, .expect ahead same complaint⟩
  · rw [expect, if_neg seen, complainHere, complain_panics] at calm
    cases calm

theorem added_of_calm {value : Value} (calm : (p.emitConstant value).panicking = false) :
    ∃ index chunk, p.chunk.addConstant value = .ok (index, chunk) := by
  unfold emitConstant at calm
  split at calm
  · exact ⟨_, _, ‹_›⟩
  · rw [complainBefore, complain_panics] at calm
    cases calm

end Calm

end Cellscript.Pass
