import Cellscript.Proofs.Code.Capacity
import Cellscript.Proofs.Compile.Statements
import Cellscript.Proofs.Language.Tokens

/-!
A pass that is ready for lines finds no fault with what it reads and has room for what it writes.
Each step that writes some of the lines leaves it ready for the others.
-/

set_option autoImplicit false

namespace Cellscript

namespace Pass

theorem sees_iff {p : Pass} {kind : Token.Kind} :
    p.sees kind = true ↔ kindAhead p.ahead = kind := by
  rw [← current_kind]
  simp [sees]

/-- There have been no complaints, and there will be none about invalid tokens or about lines for
which the chunk has no room. -/
structure Ready (p : Pass) (more : List Line) : Prop where
  calm : p.panicking = false
  quiet : p.diagnostics = []
  valid : ∀ t ∈ p.ahead, t.Valid
  room : ∃ written, p.chunk.Holds written ∧ Writable (written ++ more)

/-- The pass goes on without complaint and is ready for more. -/
structure Proceeds (p : Pass) (ts : List Token) (loops : Nat) (lines : List Line) (q : Pass)
    (more : List Line) : Prop where
  wrote : p.Wrote ts loops lines q
  ready : q.Ready more

theorem Ready.honest {p : Pass} {more : List Line} (ready : p.Ready more) : p.Honest := by
  intro panics
  rw [ready.calm] at panics
  cases panics

/-- A step without complaint leaves the pass ready for what it has not written yet. -/
theorem Ready.proceeds {p q : Pass} {ts : List Token} {loops : Nat} {lines more : List Line}
    (ready : p.Ready (lines ++ more)) (honest : q.Honest) (wrote : p.Wrote ts loops lines q)
    (quiet : q.diagnostics = []) : p.Proceeds ts loops lines q more where
  wrote := wrote
  ready :=
    { calm := honest.calm quiet
      quiet
      valid := by
        intro t member
        apply ready.valid t
        rw [wrote.ahead]
        exact List.mem_append_right ts member
      room := by
        obtain ⟨written, holds, writable⟩ := ready.room
        rw [← List.append_assoc] at writable
        exact ⟨written ++ lines, wrote.writes holds, writable⟩ }

/-- An empty chunk has room for what is written apart. -/
theorem Ready.empty {p : Pass} {lines more : List Line} (ready : p.Ready more)
    (writable : Writable lines) : Ready { p with chunk := {} } lines :=
  ⟨ready.calm, ready.quiet, ready.valid, [], Chunk.empty_holds, writable⟩

namespace Proceeds

variable {p q r : Pass} {ts us rest : List Token} {m n : Nat} {lines next later more : List Line}

theorem refl (ready : p.Ready more) : p.Proceeds [] 0 [] p more := ⟨.refl p, ready⟩

theorem trans (first : p.Proceeds ts m lines q later) (second : q.Proceeds us n next r more) :
    p.Proceeds (ts ++ us) (m + n) (lines ++ next) r more :=
  ⟨first.wrote.trans second.wrote, second.ready⟩

theorem ahead (proceeds : p.Proceeds ts m lines q more) (ahead : p.ahead = ts ++ rest) :
    q.ahead = rest :=
  List.append_cancel_left (proceeds.wrote.ahead.symm.trans ahead)

theorem left_le (proceeds : p.Proceeds ts m lines q more) : q.left ≤ p.left := by
  have length := proceeds.wrote.left_eq
  omega

theorem left_lt {t : Token} (proceeds : p.Proceeds (t :: ts) m lines q more) : q.left < p.left := by
  have length := proceeds.wrote.left_eq
  rw [List.length_cons] at length
  omega

end Proceeds

/-! ## Reading -/

section Reading

variable {p : Pass} {more : List Line} {t : Token} {rest : List Token}

theorem resume_valid (p : Pass) {tokens : List Token} (valid : ∀ t ∈ tokens, t.Valid) :
    p.resume tokens = { p with ahead := tokens } := by
  cases tokens with
  | nil => rfl
  | cons t rest => exact resume_stops p (valid t List.mem_cons_self) rest

theorem advance_proceeds (ready : p.Ready more) (ahead : p.ahead = t :: rest) :
    p.Proceeds [t] 0 [] p.advance more ∧ p.advance.previous = t := by
  have valid : ∀ t ∈ p.ahead.tail, t.Valid := fun t member =>
    ready.valid t (List.mem_of_mem_tail member)
  have quiet : p.advance.diagnostics = [] := by
    unfold advance
    rw [resume_valid _ valid]
    exact ready.quiet
  obtain ⟨wrote, previous⟩ := advance_wrote ready.honest quiet ahead
  exact ⟨ready.proceeds ((advance_heeds p).honest ready.honest) wrote quiet, previous⟩

theorem expect_proceeds (ready : p.Ready more) (ahead : p.ahead = t :: rest) {kind : Token.Kind}
    (same : t.kind = kind) (complaint : Complaint) :
    p.Proceeds [t] 0 [] (p.expect kind complaint) more ∧
      (p.expect kind complaint).previous = t := by
  have seen : p.sees kind = true := by
    rw [sees_iff, ahead]
    exact same
  unfold expect
  rw [if_pos seen]
  exact advance_proceeds ready ahead

end Reading

/-! ## Writing -/

section Writing

variable {p : Pass} {more : List Line}

theorem emitAll_proceeds {ops : List Opcode} (ready : p.Ready (plainLines ops ++ more))
    (single : ∀ op ∈ ops, op.operandWidth = 0) :
    p.Proceeds [] 0 (plainLines ops) (p.emitAll ops) more := by
  have same : (p.emitAll ops).diagnostics = p.diagnostics := by
    clear ready single
    unfold emitAll
    induction ops generalizing p with
    | nil => rfl
    | cons op rest ih => exact ih
  exact ready.proceeds ((heeding.emitAll p ops).honest ready.honest) (emitAll_wrote p ops single)
    (same.trans ready.quiet)

theorem emit_proceeds {op : Opcode} (ready : p.Ready (plainLines [op] ++ more))
    (single : op.operandWidth = 0) : p.Proceeds [] 0 (plainLines [op]) (p.emit op) more :=
  ready.proceeds ready.honest (emit_wrote p op single) ready.quiet

theorem emitConstant_proceeds {value : Value} (ready : p.Ready (.code (.load value) :: more)) :
    p.Proceeds [] 0 [.code (.load value)] (p.emitConstant value) more := by
  obtain ⟨written, holds, writable⟩ := ready.room
  rw [List.append_cons] at writable
  obtain ⟨index, chunk, added⟩ := holds.addConstant_ok writable.of_append_left
  have quiet : (p.emitConstant value).diagnostics = [] := by
    unfold emitConstant
    rw [added]
    exact ready.quiet
  have wrote := emitConstant_wrote ready.honest quiet
  exact Ready.proceeds ready ((heeding.emitConstant p value).honest ready.honest) wrote quiet

theorem emitGoto_proceeds {label : String} (ready : p.Ready (gotoLines label ++ more)) :
    p.Proceeds [] 0 (gotoLines label) (p.emitGoto label) more := by
  have loaded := emitConstant_proceeds ready
  exact loaded.trans (emit_proceeds loaded.ready rfl)

theorem defineLabel_proceeds {name : String} (ready : p.Ready (.mark name :: more)) :
    p.Proceeds [] 0 [.mark name] (p.defineLabel name) more := by
  obtain ⟨written, holds, writable⟩ := ready.room
  rw [List.append_cons] at writable
  obtain ⟨chunk, defined⟩ := holds.defineLabel_ok writable.of_append_left
  have quiet : (p.defineLabel name).diagnostics = [] := by
    unfold defineLabel
    rw [defined]
    exact ready.quiet
  have wrote := defineLabel_wrote ready.honest quiet
  exact Ready.proceeds ready ((heeding.defineLabel p name).honest ready.honest) wrote quiet

theorem splice_proceeds {other : Chunk} {e : Expression} (ready : p.Ready (e.code ++ more))
    (realizes : other.Realizes e) : p.Proceeds [] 0 e.code (p.splice other) more := by
  obtain ⟨written, holds, writable⟩ := ready.room
  rw [← List.append_assoc] at writable
  obtain ⟨chunk, spliced⟩ := holds.splice_ok realizes e.code_unmarked writable.of_append_left
  have quiet : (p.splice other).diagnostics = [] := by
    unfold splice
    rw [spliced]
    exact ready.quiet
  exact ready.proceeds ((heeding.splice p other).honest ready.honest)
    (splice_realized ready.honest realizes quiet) quiet

/-- What is written apart takes no room here. -/
theorem apart_proceeds {write : Pass → Pass} {ts : List Token} {lines : List Line}
    (ready : p.Ready more)
    (proceeds : Proceeds { p with chunk := {} } ts 0 lines (write { p with chunk := {} }) []) :
    p.Proceeds ts 0 [] (p.apart write).1 more ∧ (p.apart write).2.Assembles lines := by
  obtain ⟨wrote, assembled⟩ := apart_wrote proceeds.wrote
  exact ⟨⟨wrote, proceeds.ready.calm, proceeds.ready.quiet, proceeds.ready.valid, ready.room⟩,
    assembled⟩

end Writing

end Pass

end Cellscript
