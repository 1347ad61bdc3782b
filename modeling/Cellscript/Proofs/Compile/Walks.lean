import Cellscript.Proofs.Compile.Taking
import Cellscript.Proofs.Language.Tokens

/-!
Walks read tokens and write code in a fixed order, whatever the chunk holds. So what they write is
settled beforehand, and only the room that is left decides how far they get: either everything is
written or there is one complaint about too many constants.
-/

set_option autoImplicit false

namespace Cellscript

namespace Chunk

/-- Constants are refused for one reason only. -/
theorem addConstant_eq_error {c : Chunk} {value : Value} {problem : Error}
    (refused : c.addConstant value = .error problem) : problem = .tooManyConstants := by
  unfold addConstant at refused
  split at refused
  · cases refused
  · split at refused <;> cases refused
    rfl

theorem writeAll_eq_some {es : List Entry} {c : Chunk} {problem : Error}
    (refused : (writeAll es c).2 = some problem) : problem = .tooManyConstants := by
  induction es generalizing c with
  | nil => cases refused
  | cons e es ih =>
    rw [writeAll] at refused
    cases written : c.write e with
    | ok d =>
      rw [written] at refused
      exact ih refused
    | error other =>
      rw [written] at refused
      cases refused
      cases e with
      | plain op single line => cases written
      | jump op isJump line operand => cases written
      | load value line =>
        rw [write] at written
        cases added : c.addConstant value with
        | ok result =>
          rw [added] at written
          cases written
        | error full =>
          rw [added] at written
          cases written
          exact addConstant_eq_error added

theorem writeAll_concat {es : List Entry} {e : Entry} {c d : Chunk}
    (written : writeAll (es ++ [e]) c = (d, none)) :
    ∃ before, writeAll es c = (before, none) ∧ before.write e = .ok d := by
  rw [writeAll_append] at written
  cases first : writeAll es c with
  | mk before outcome =>
    rw [first] at written
    cases outcome with
    | some problem => cases written
    | none =>
      rw [andThen, writeAll] at written
      cases second : before.write e with
      | error problem =>
        rw [second] at written
        cases written
      | ok after =>
        rw [second] at written
        cases written
        exact ⟨before, rfl, second⟩

end Chunk

namespace Pass

/-- A complaint has been recorded since, and nothing else. -/
def Reported (p : Pass) (complaint : Complaint) (q : Pass) : Prop :=
  q.panicking = true ∧ ∃ line location,
    q.diagnostics = p.diagnostics ++ [⟨line, location, complaint⟩]

theorem Reported.of_same {p q r : Pass} {complaint : Complaint} (reported : q.Reported complaint r)
    (same : q.diagnostics = p.diagnostics) : p.Reported complaint r :=
  ⟨reported.1, same ▸ reported.2⟩

theorem Reported.heeds {p q r : Pass} {complaint : Complaint} (reported : p.Reported complaint q)
    (heeds : q.Heeds r) : p.Reported complaint r := by
  obtain ⟨panics, line, location, recorded⟩ := reported
  obtain ⟨still, same⟩ := heeds.deaf panics
  exact ⟨still, line, location, same.trans recorded⟩

theorem complain_reported {p : Pass} (calm : p.panicking = false) (token : Token)
    (complaint : Complaint) : p.Reported complaint (p.complain token complaint) := by
  rw [complain, calm]
  exact ⟨rfl, token.line, token.location, rfl⟩

/-- An invalid token that comes next is reported. -/
theorem resume_reported {p : Pass} (calm : p.panicking = false) {t : Token} {flaw : Token.Flaw}
    (invalid : t.kind = .invalid flaw) (later : List Token) :
    p.Reported (.lexical flaw) (p.resume (t :: later)) := by
  rw [resume_of_invalid calm invalid]
  exact ⟨rfl, t.line, t.location, rfl⟩

theorem sound_or_invalid (rest : List Token) :
    validAhead rest = rest ∨ ∃ t later flaw, rest = t :: later ∧ t.kind = .invalid flaw := by
  cases rest with
  | nil => exact Or.inl rfl
  | cons t later =>
    rcases t.kind.invalid_or_valid with ⟨flaw, invalid⟩ | valid
    · exact Or.inr ⟨t, later, flaw, rfl, invalid⟩
    · exact Or.inl (validAhead_stops valid later)

/-- What is reported where there are too many constants in front of these tokens: that there are, or
that the next token is invalid if it was looked at before. -/
inductive Overflow (rest : List Token) : Complaint → Prop
  | full : Overflow rest (.chunk .tooManyConstants)
  | invalid {t : Token} {later : List Token} {flaw : Token.Flaw} (first : rest = t :: later)
      (kind : t.kind = .invalid flaw) : Overflow rest (.lexical flaw)

theorem Overflow.eq_full {rest : List Token} {complaint : Complaint}
    (overflow : Overflow rest complaint) (sound : validAhead rest = rest) :
    complaint = .chunk .tooManyConstants := by
  cases overflow with
  | full => rfl
  | @invalid t later flaw first kind =>
    rw [first, validAhead_invalid kind] at sound
    have shorter : (validAhead later).length ≤ later.length :=
      (List.dropWhile_suffix _).length_le
    rw [sound, List.length_cons] at shorter
    omega

theorem emitConstant_ahead (p : Pass) (value : Value) : (p.emitConstant value).ahead = p.ahead := by
  unfold emitConstant
  split
  · rfl
  · unfold complainBefore complain
    split <;> rfl

theorem resume_line (p : Pass) (rest : List Token) : (p.resume rest).line = p.line :=
  congrArg Token.line (resume_previous p rest)

/-- It makes no difference whether code is written before or after the next token is looked for. -/
theorem resume_emit (p : Pass) (op : Opcode) (rest : List Token) :
    (p.resume rest).emit op = (p.emit op).resume rest := by
  rw [emit, emit, resume_chunk, resume_line]
  exact resume_write p rest _

theorem resume_emitConstant {p : Pass} {value : Value} {index : UInt8} {chunk : Chunk}
    (added : p.chunk.addConstant value = .ok (index, chunk)) (rest : List Token) :
    (p.resume rest).emitConstant value =
      { p with chunk := chunk.emitPair .constant index p.line }.resume rest := by
  rw [emitConstant, resume_chunk, added, resume_line]
  exact resume_write p rest _

/-- The tokens are read and the lines are written, in an order that does not depend on the pass. -/
inductive Walk : (Pass → Pass) → List Token → List Line → Prop
  | start {t : Token} (valid : t.Valid) : Walk advance [t] []
  | read {f : Pass → Pass} {ts : List Token} {lines : List Line} {t : Token}
      (walk : Walk f ts lines) (valid : t.Valid) : Walk (fun p => (f p).advance) (ts ++ [t]) lines
  | load {f : Pass → Pass} {ts : List Token} {lines : List Line} (walk : Walk f ts lines)
      (value : Value) : Walk (fun p => (f p).emitConstant value) ts (lines ++ [.code (.load value)])
  | write {f : Pass → Pass} {ts : List Token} {lines : List Line} (walk : Walk f ts lines)
      (op : Opcode) (single : op.operandWidth = 0) :
      Walk (fun p => (f p).emit op) ts (lines ++ plainLines [op])

/-- The tokens are read and the entries are written, if there is room for them. -/
def Writes (f : Pass → Pass) (ts : List Token) (es : List Chunk.Entry) : Prop :=
  ∀ {p : Pass} {rest : List Token} {chunk : Chunk}, p.ahead = ts ++ rest →
    Chunk.writeAll es p.chunk = (chunk, none) →
    f p = { p with previous := ts.getLastD p.previous, chunk }.resume rest

namespace Walk

variable {f g : Pass → Pass} {ts us rest : List Token} {lines more : List Line} {p : Pass}

theorem trans (first : Walk f ts lines) (second : Walk g us more) :
    Walk (fun p => g (f p)) (ts ++ us) (lines ++ more) := by
  induction second with
  | start valid =>
    rw [List.append_nil]
    exact first.read valid
  | read _ valid ih =>
    rw [← List.append_assoc]
    exact ih.read valid
  | load _ value ih =>
    rw [← List.append_assoc]
    exact ih.load value
  | write _ op single ih =>
    rw [← List.append_assoc]
    exact ih.write op single

theorem writeAll (walk : Walk f ts lines) {ops : List Opcode}
    (single : ∀ op ∈ ops, op.operandWidth = 0) :
    Walk (fun p => (f p).emitAll ops) ts (lines ++ plainLines ops) := by
  induction ops generalizing f lines with
  | nil =>
    rw [show plainLines [] = [] from rfl, List.append_nil]
    exact walk
  | cons op ops ih =>
    have later := ih (walk.write op (single op List.mem_cons_self)) fun other member =>
      single other (List.mem_cons_of_mem _ member)
    rw [List.append_assoc] at later
    exact later

theorem ahead (walk : Walk f ts lines) (ahead : p.ahead = ts ++ rest) :
    (f p).ahead = validAhead rest := by
  induction walk generalizing rest with
  | start _ => exact (Took.advance ahead).validAhead
  | read _ valid ih =>
    rw [List.append_assoc] at ahead
    exact (Took.advance ((ih ahead).trans (validAhead_stops valid rest))).validAhead
  | load _ value ih => exact (emitConstant_ahead _ value).trans (ih ahead)
  | write _ op single ih => exact ih ahead

theorem left_le (walk : Walk f ts lines) (ahead : p.ahead = ts ++ rest) :
    ts.length + (f p).left ≤ p.left := by
  have shorter : (validAhead rest).length ≤ rest.length := (List.dropWhile_suffix _).length_le
  rw [left, left, walk.ahead ahead, ahead, List.length_append]
  omega

theorem ne_nil (walk : Walk f ts lines) : ts ≠ [] := by
  induction walk with
  | start _ => exact List.cons_ne_nil _ _
  | read _ _ _ => exact List.append_ne_nil_of_right_ne_nil _ (List.cons_ne_nil _ _)
  | load _ _ ih => exact ih
  | write _ _ _ ih => exact ih

theorem last (walk : Walk f ts lines) (p : Pass) :
    ts.getLastD p.previous = ts.getLast walk.ne_nil := by
  rw [List.getLastD_eq_getLast?, List.getLast?_eq_some_getLast walk.ne_nil, Option.getD_some]

/-- What a walk writes depends on the tokens only. Code is on the line of the token read last. -/
theorem exact (walk : Walk f ts lines) :
    ∃ es : List Chunk.Entry, Chunk.entryLines es = lines ∧ Writes f ts es := by
  induction walk with
  | start _ =>
    refine ⟨[], rfl, ?_⟩
    intro p rest chunk ahead written
    cases written
    rw [advance, current, ahead]
    rfl
  | @read f ts lines t walk valid ih =>
    obtain ⟨es, same, goes⟩ := ih
    refine ⟨es, same, ?_⟩
    intro p rest chunk ahead written
    rw [List.append_assoc] at ahead
    dsimp only
    rw [goes ahead written, List.singleton_append, resume_stops _ valid, List.getLastD_concat]
    exact resume_anew { p with previous := t, chunk } rest _
  | @load f ts lines walk value ih =>
    obtain ⟨es, rfl, goes⟩ := ih
    refine ⟨es ++ [.load value (ts.getLast walk.ne_nil).line],
      by simp [Chunk.entryLines, Chunk.Entry.instruction], ?_⟩
    intro p rest chunk ahead written
    obtain ⟨before, first, second⟩ := Chunk.writeAll_concat written
    rw [Chunk.write] at second
    cases added : before.addConstant value with
    | error problem =>
      rw [added] at second
      cases second
    | ok result =>
      rw [added] at second
      cases second
      show (f p).emitConstant value = _
      rw [goes ahead first, ← walk.last p]
      exact resume_emitConstant added rest
  | @write f ts lines walk op single ih =>
    obtain ⟨es, rfl, goes⟩ := ih
    refine ⟨es ++ [.plain op single (ts.getLast walk.ne_nil).line],
      by simp [Chunk.entryLines, Chunk.Entry.instruction, plainLines], ?_⟩
    intro p rest chunk ahead written
    obtain ⟨before, first, second⟩ := Chunk.writeAll_concat written
    cases second
    show (f p).emit op = _
    rw [goes ahead first, ← walk.last p]
    exact resume_emit _ op rest

theorem took (walk : Walk f ts lines) (fits : Chunk.Fits p.chunk.constants lines)
    (ahead : p.ahead = ts ++ rest) : p.Took ts lines rest (f p) := by
  obtain ⟨es, rfl, goes⟩ := walk.exact
  obtain ⟨chunk, written⟩ := Chunk.writeAll_of_fits fits
  refine ⟨ahead, chunk, fun numbered => ?_, goes ahead written⟩
  exact (Chunk.writeAll_appends numbered written).extension

/-- Where there is no room for all constants, the first one too many is reported. -/
theorem overflows (walk : Walk f ts lines) (calm : p.panicking = false)
    (numbered : p.chunk.constants.size ≤ Chunk.maxConstants) (ahead : p.ahead = ts ++ rest)
    (full : ¬ Chunk.Fits p.chunk.constants lines) :
    ∃ complaint, Overflow rest complaint ∧ p.Reported complaint (f p) := by
  induction walk generalizing rest with
  | start _ => exact absurd numbered full
  | read _ valid ih =>
    rw [List.append_assoc] at ahead
    obtain ⟨complaint, overflow, reported⟩ := ih ahead full
    refine ⟨complaint, ?_, reported.heeds (advance_heeds _)⟩
    rw [overflow.eq_full (validAhead_stops valid rest)]
    exact .full
  | write _ op single ih =>
    rw [Chunk.Fits, Chunk.pooled_append] at full
    obtain ⟨complaint, overflow, reported⟩ := ih ahead full
    exact ⟨complaint, overflow, reported.heeds (.of_same rfl rfl)⟩
  | @load f ts lines walk value ih =>
    by_cases room : Chunk.Fits p.chunk.constants lines
    · -- up to here nothing was complained about, unless the token that comes next is invalid
      have took := walk.took room ahead
      have extended := took.appends numbered
      obtain ⟨_, chunk, _, same⟩ := took
      rcases sound_or_invalid rest with sound | ⟨t, later, flaw, rfl, kind⟩
      · rw [resume_sound _ sound] at same
        have still : (f p).panicking = false := by rw [same, calm]
        refine ⟨_, .full, ?_⟩
        show p.Reported _ ((f p).emitConstant value)
        unfold emitConstant
        split
        · rename_i index chunk added
          have loaded := extended.trans (.load extended.numbered added 0)
          rw [Chunk.Fits, ← loaded.constants] at full
          exact absurd loaded.numbered full
        · rename_i problem refused
          rw [Chunk.addConstant_eq_error refused]
          exact (complain_reported still _ _).of_same (by rw [same])
      · have reported : p.Reported (.lexical flaw) (f p) := by
          rw [same]
          exact (resume_reported (by exact calm) kind later).of_same rfl
        exact ⟨_, .invalid rfl kind, reported.heeds (heeding.emitConstant _ value)⟩
    · obtain ⟨complaint, overflow, reported⟩ := ih ahead room
      exact ⟨complaint, overflow, reported.heeds (heeding.emitConstant _ value)⟩

end Walk

end Pass

end Cellscript
