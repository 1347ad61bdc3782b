import Cellscript.Proofs.Code.LineTable
import Cellscript.Proofs.Compile.Complaints

/-!
Code is written for the line of the token read last, so where the tokens of a declaration stand on
one line, its code belongs to that line. This is an invariant of the pass between the first token
and the last, chunks that were written apart included.
-/

set_option autoImplicit false

namespace Cellscript.Pass

/-- These tokens were read, the last one just now, and if they stand on one line, what was written
belongs to that line. -/
def Inked (p : Pass) (ts : List Token) (q : Pass) : Prop :=
  ∀ n, (∀ t ∈ ts, t.line = n) →
    q.previous = ts.getLastD p.previous ∧ p.chunk.Inks n q.chunk

theorem Inked.advance {p : Pass} {t : Token} (current : p.current = t) : p.Inked [t] p.advance := by
  intro n _
  refine ⟨(advance_previous p).trans current, .of_same ?_⟩
  rw [Pass.advance, resume_chunk]

/-! ## On the line -/

/-- A stretch of tokens that stand on one line, with what comes before and behind it. -/
structure Stretch where
  before : Token
  tokens : List Token
  rest : List Token
  line : Nat
  together : ∀ t ∈ before :: tokens, t.line = line

namespace Stretch

variable (s : Stretch)

/-- The pass has complained or has read on behind the stretch. -/
def Left (p : Pass) : Prop := p.panicking = true ∨ p.left < s.rest.length

/-- The pass is somewhere in the stretch. What it has added to the chunk `start` belongs to the
line, as do the chunks set aside. -/
structure Inside (start : Chunk) (p : Pass) (cs : List Chunk) : Prop where
  reading : ∃ done more, s.tokens = done ++ more ∧ p.ahead = more ++ s.rest ∧
    p.previous = done.getLastD s.before
  written : start.Inks s.line p.chunk
  aside : ∀ c ∈ cs, ∀ line ∈ c.lineTable, line = s.line

/-- A pass that has left the stretch does not come back; `none` stands for no start at all. -/
def Stays (start : Option Chunk) (p : Pass) (cs : List Chunk) : Prop :=
  s.Left p ∨ ∃ chunk, start = some chunk ∧ s.Inside chunk p cs

variable {s} {start : Option Chunk} {chunk : Chunk} {p q : Pass} {cs : List Chunk}

theorem Inside.line (inside : s.Inside chunk p cs) : p.line = s.line := by
  obtain ⟨done, more, split, _, previous⟩ := inside.reading
  have read : p.previous ∈ s.before :: done := by
    rw [previous]
    exact List.getLastD_mem_cons
  refine s.together _ ?_
  rw [split]
  exact List.cons_subset_cons _ (List.subset_append_left done more) read

theorem Left.of_heeds (left : s.Left p) (heeds : p.Heeds q) (shorter : q.left ≤ p.left) :
    s.Left q := by
  rcases left with panics | past
  · exact Or.inl (heeds.deaf panics).1
  · exact Or.inr (Nat.lt_of_le_of_lt shorter past)

theorem Stays.complain (p : Pass) (token : Token) (complaint : Complaint) :
    s.Stays start (p.complain token complaint) cs :=
  Or.inl (Or.inl (complain_panics p token complaint))

/-- Writing for the line. -/
theorem Stays.write (stays : s.Stays start p cs) {chunk : Chunk} {loopCount : Nat}
    (inks : ∀ {first}, s.Inside first p cs → p.chunk.Inks s.line chunk) :
    s.Stays start { p with chunk, loopCount } cs := by
  rcases stays with left | ⟨first, rfl, inside⟩
  · exact Or.inl left
  · exact Or.inr ⟨first, rfl, inside.reading, inside.written.trans (inks inside), inside.aside⟩

theorem Stays.adopt (stays : s.Stays start p cs) {result : Except Chunk.Error Chunk}
    (inks : ∀ chunk, result = .ok chunk → p.chunk.Inks s.line chunk) :
    s.Stays start (p.adopt result) cs := by
  cases result with
  | ok chunk => exact stays.write fun _ => inks chunk rfl
  | error e => exact .complain p _ _

theorem Stays.advance (more : ¬ p.atEnd = true) (stays : s.Stays start p cs) :
    s.Stays start p.advance cs := by
  have shorter : p.advance.left ≤ p.left - 1 := by
    have suffix := (resume_ahead { p with previous := p.current } p.ahead.tail).length_le
    rwa [List.length_tail] at suffix
  rcases stays with left | ⟨chunk, rfl, inside⟩
  · exact Or.inl (left.of_heeds (advance_heeds p) (by omega))
  obtain ⟨done, tokens, split, ahead, _⟩ := inside.reading
  cases tokens with
  | nil =>
    have positive : 0 < p.left := by
      refine List.length_pos_iff.mpr fun empty => more ?_
      rw [atEnd, sees, current, empty]
      rfl
    have past : p.left = s.rest.length := congrArg List.length ahead
    exact Or.inl (Or.inr (by omega))
  | cons t tokens =>
    by_cases panics : p.advance.panicking = true
    · exact Or.inl (Or.inl panics)
    have current : p.current = t := by rw [current, ahead]; rfl
    have calm : p.advance.panicking = false := Bool.eq_false_iff.mpr panics
    have next : p.advance.ahead = p.ahead.tail := resume_of_calm calm
    refine Or.inr ⟨chunk, rfl, ⟨done ++ [t], tokens, ?_, ?_, ?_⟩, ?_, inside.aside⟩
    · rw [split, List.append_assoc]
      rfl
    · rw [next, ahead]
      rfl
    · rw [advance_previous, current]
      simp
    · rw [Pass.advance, resume_chunk]
      exact inside.written

theorem Stays.splice {other : Chunk} (aside : other ∈ cs) (stays : s.Stays start p cs) :
    s.Stays start (p.splice other) cs := by
  unfold Pass.splice
  split
  · rename_i d spliced
    refine stays.write fun inside => ?_
    have inks := Chunk.Inks.splice (inside.aside other aside) p.chunk
    rwa [spliced] at inks
  · exact .complain _ _ _

/-- What is written apart starts on a chunk of its own. -/
theorem Stays.apart {write : Pass → Pass}
    (keeps : ∀ {start p cs}, s.Stays start p cs → s.Stays start (write p) cs)
    (stays : s.Stays start p cs) :
    s.Stays start (p.apart write).1 ((p.apart write).2 :: cs) := by
  rcases stays with left | ⟨chunk, rfl, inside⟩
  · have gone : s.Stays none { p with chunk := {} } cs := Or.inl left
    rcases keeps gone with left | ⟨_, none, _⟩
    · exact Or.inl left
    · cases none
  · have blank : s.Stays (some {}) { p with chunk := {} } cs :=
      Or.inr ⟨{}, rfl, inside.reading, .refl _, inside.aside⟩
    rcases keeps blank with left | ⟨_, same, later⟩
    · exact Or.inl left
    · cases same
      refine Or.inr ⟨chunk, rfl, later.reading, inside.written, ?_⟩
      refine List.forall_mem_cons.mpr ⟨fun line member => ?_, later.aside⟩
      obtain ⟨count, table⟩ := later.written
      rw [show (p.apart write).2.lineTable = _ from table] at member
      exact List.eq_of_mem_replicate member

theorem staying (s : Stretch) : Manner s.Stays where
  advance := .advance
  balk complaint _ := .complain _ _ complaint
  complain token complaint _ := .complain _ token complaint
  emit op stays := stays.write fun inside => inside.line ▸ .emit _ op.byte
  emitConstant value stays := by
    unfold emitConstant
    split
    · refine stays.write fun inside => ?_
      rw [inside.line]
      exact (Chunk.Inks.addConstant ‹_›).trans (.emitPair _ _ _)
    · exact .complain _ _ _
  emitJump op stays := stays.write fun inside => inside.line ▸ .emitJump _ op
  patchJump offset stays := stays.adopt fun _ => .patchJump
  defineLabel name stays := stays.adopt fun _ => .insertLabel
  count loopCount stays := stays.write fun _ => .refl _
  splice := .splice
  apart := .apart
  forget fewer stays := by
    rcases stays with left | ⟨chunk, rfl, inside⟩
    · exact Or.inl left
    · exact Or.inr ⟨chunk, rfl, inside.reading, inside.written,
        fun c member => inside.aside c (fewer member)⟩

end Stretch

/-! ## Declarations -/

/-- A statement reads a token before it does anything else, so the one read before it does not
matter. -/
theorem statement_forgets (p : Pass) (t : Token) :
    Pass.statement { p with previous := t } = p.statement := by
  have climbs (bound : Nat) (level : Level) (p : Pass) :
      climb bound level { p with previous := t } = climb bound level p := by
    cases bound <;> rfl
  have performs (p : Pass) :
      expressionStatement { p with previous := t } = p.expressionStatement :=
    congrArg (emit · .pop) (climbs _ _ _)
  have states (p : Pass) : simpleStatement { p with previous := t } = p.simpleStatement := by
    change simpleWithin p.left { p with previous := t } = simpleWithin p.left p
    cases p.left with
    | zero => exact performs p
    | succ bound =>
      unfold simpleWithin
      rw [performs]
      rfl
  change statementWithin p.left { p with previous := t } = statementWithin p.left p
  cases p.left with
  | zero => exact congrArg (fun q : Pass => (q.endStatement, none)) (states p)
  | succ bound =>
    unfold statementWithin
    rw [states]
    rfl

theorem statement_inked {p : Pass} (calm : p.statement.1.panicking = false) {t : Token}
    {ts : List Token} (ahead : p.ahead = t :: ts ++ p.statement.1.ahead) :
    p.Inked (t :: ts) p.statement.1 := by
  intro n together
  let s : Stretch :=
    { before := t, tokens := t :: ts, rest := p.statement.1.ahead, line := n
      together := List.forall_mem_cons.mpr ⟨together t List.mem_cons_self, together⟩ }
  have start : s.Stays (some p.chunk) { p with previous := t } [] :=
    Or.inr ⟨_, rfl, ⟨[], t :: ts, rfl, ahead, rfl⟩, .refl _, fun _ member => by cases member⟩
  have stays := s.staying.statement start
  rw [statement_forgets] at stays
  rcases stays with (panics | past) | ⟨chunk, same, inside⟩
  · rw [calm] at panics
    cases panics
  · exact absurd past (Nat.lt_irrefl _)
  · cases same
    obtain ⟨done, more, split, left, previous⟩ := inside.reading
    obtain rfl : more = [] := List.self_eq_append_left.mp left
    rw [List.append_nil] at split
    refine ⟨?_, inside.written⟩
    rw [previous, ← split]
    rfl

theorem declaration_inked {p : Pass} (honest : p.Honest) (quiet : p.declaration.1.diagnostics = [])
    {t : Token} {ts : List Token} (ahead : p.ahead = t :: ts ++ p.declaration.1.ahead) :
    p.Inked (t :: ts) p.declaration.1 := by
  unfold declaration at quiet ahead ⊢
  by_cases separated : (p.sees .newline || p.sees .divider) = true
  · rw [if_pos separated] at quiet ahead ⊢
    have next : p.advance.ahead = p.ahead.tail :=
      resume_of_calm (((advance_heeds p).honest honest).calm quiet)
    have tail : p.ahead.tail = ts ++ p.ahead.tail := by
      rw [next] at ahead
      exact congrArg List.tail ahead
    obtain rfl : ts = [] := List.self_eq_append_left.mp tail
    refine .advance ?_
    rw [current, ahead]
    rfl
  · rw [if_neg separated] at quiet ahead ⊢
    have inked : p.statement.1.panicking = false → p.ahead = t :: ts ++ p.statement.1.ahead →
        p.Inked (t :: ts) p.statement.1 := fun calm ahead => statement_inked calm ahead
    have statedHonest := (heeding.statement p).honest honest
    generalize p.statement = read at inked statedHonest quiet ahead ⊢
    obtain ⟨q, opened⟩ := read
    have calm : q.panicking = false := by
      cases opened with
      | none => exact statedHonest.calm ((recover_follows q).quiet quiet)
      | some loop => exact statedHonest.calm quiet
    have awake : q.recover = q := by
      rw [recover, calm]
      rfl
    cases opened with
    | none =>
      dsimp only at ahead ⊢
      rw [awake] at ahead ⊢
      exact inked calm ahead
    | some loop => exact inked calm ahead

end Cellscript.Pass
