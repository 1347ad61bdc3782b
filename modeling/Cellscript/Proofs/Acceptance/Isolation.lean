import Cellscript.Proofs.Acceptance.Expressions
import Cellscript.Proofs.Code.Regrouping

/-!
An expression can be written into a chunk of its own and spliced, or written in place. The two ways
number constants differently on the way, but in the end they come to the same: a splice writes down
the entries that the chunk apart reads as, and these are the ones that are written in place.
-/

set_option autoImplicit false

namespace Cellscript

namespace Chunk

/-- Splicing a chunk that was written from nothing is writing the same entries. -/
theorem splice_eq_writeAll {es : List Entry} {other : Chunk}
    (written : writeAll es {} = (other, none)) (c : Chunk) : c.splice other = writeAll es c := by
  have appends := writeAll_appends (Nat.zero_le _) written
  obtain ⟨new, code, renders⟩ := appends.code
  rw [← show other.code.toList = new from code] at renders
  exact splice_of_unlabelled renders appends.labels

end Chunk

namespace Pass

/-- Reads an expression into a chunk of its own, which is spliced afterwards. -/
def expressionApart (p : Pass) : Pass := (p.apart expression).1.splice (p.apart expression).2

theorem splice_reported {p : Pass} (calm : p.panicking = false) {other chunk : Chunk}
    {problem : Chunk.Error} (refused : p.chunk.splice other = (chunk, some problem)) :
    p.Reported (.chunk problem) (p.splice other) := by
  rw [splice, refused]
  exact (complain_reported (p := { p with chunk }) calm _ _).of_same rfl

/-- Apart, the same entries are written from nothing. -/
theorem Writes.apart {f : Pass → Pass} {ts rest : List Token} {es : List Chunk.Entry}
    (writes : Writes f ts es) {p : Pass} (ahead : p.ahead = ts ++ rest) {other : Chunk}
    (written : Chunk.writeAll es {} = (other, none)) :
    p.apart f = ({ p with previous := ts.getLastD p.previous }.resume rest, other) := by
  have read := writes (p := { p with chunk := {} }) ahead written
  rw [Pass.apart, read]
  dsimp only
  rw [resume_write, resume_chunk]

/-- Where there is no room for all constants, the splice reports what writing in
place may report. -/
theorem Walk.splice_overflows {f : Pass → Pass} {p : Pass} {ts rest : List Token}
    {es : List Chunk.Entry} (walk : Walk f ts (Chunk.entryLines es)) (writes : Writes f ts es)
    (calm : p.panicking = false) (numbered : p.chunk.constants.size ≤ Chunk.maxConstants)
    (ahead : p.ahead = ts ++ rest) (full : ¬ Chunk.Fits p.chunk.constants (Chunk.entryLines es)) :
    ∃ complaint, Overflow rest complaint ∧
      p.Reported complaint ((p.apart f).1.splice (p.apart f).2) := by
  by_cases small : Chunk.Fits #[] (Chunk.entryLines es)
  · -- the chunk apart is whole, and the splice runs out of room
    obtain ⟨other, alone⟩ := Chunk.writeAll_of_fits (c := {}) small
    obtain ⟨problem, refused⟩ := Option.ne_none_iff_exists'.mp
      (mt (Chunk.writeAll_eq_none_iff numbered es).mp full)
    have spliced : p.chunk.splice other = (_, some .tooManyConstants) :=
      (Chunk.splice_eq_writeAll alone p.chunk).trans
        (Prod.ext rfl (Chunk.writeAll_eq_some refused ▸ refused))
    rw [writes.apart ahead alone]
    let q : Pass := { p with previous := ts.getLastD p.previous }
    rcases sound_or_invalid rest with sound | ⟨t, later, flaw, rfl, kind⟩
    · rw [resume_sound _ sound]
      exact ⟨_, .full, (splice_reported (p := { q with ahead := rest }) calm spliced).of_same rfl⟩
    · have reported : q.Reported (.lexical flaw) (q.resume (t :: later)) :=
        resume_reported (p := q) calm kind later
      exact ⟨_, .invalid rfl kind, (reported.of_same rfl).heeds (heeding.splice _ _)⟩
  · obtain ⟨complaint, overflow, reported⟩ :=
      walk.overflows (p := { p with chunk := {} }) calm (Nat.zero_le _) ahead small
    have stopped : p.Reported complaint (p.apart f).1 := ⟨reported.1, reported.2⟩
    exact ⟨complaint, overflow, stopped.heeds (heeding.splice _ _)⟩

/-- An expression that is written apart and spliced is written as if in place. Outside a panic there
are two cases. If there is room for its constants, both ways leave the same pass with the same
chunk, and nothing is complained about, unless the token behind the expression is invalid. If there
is no room, both ways report that there are too many constants, or that invalid token. -/
theorem splicing_apart_is_writing_in_place {p : Pass} {ts rest : List Token} {e : Expression}
    (calm : p.panicking = false) (numbered : p.chunk.constants.size ≤ Chunk.maxConstants)
    (ahead : p.ahead = ts ++ rest) (spelled : e.Spelled .reference ts)
    (delimits : Delimits (validAhead rest)) :
    (Chunk.Fits p.chunk.constants e.code ∧ p.expressionApart = p.expression ∧
        (validAhead rest = rest →
          p.expression.diagnostics = p.diagnostics ∧ p.expression.panicking = false) ∧
        ∀ t later flaw, rest = t :: later → t.kind = .invalid flaw →
          p.Reported (.lexical flaw) p.expression) ∨
      (¬ Chunk.Fits p.chunk.constants e.code ∧
        (∃ complaint, Overflow rest complaint ∧ p.Reported complaint p.expressionApart) ∧
        (∃ complaint, Overflow rest complaint ∧ p.Reported complaint p.expression) ∧
        (validAhead rest = rest →
          p.Reported (.chunk .tooManyConstants) p.expressionApart ∧
            p.Reported (.chunk .tooManyConstants) p.expression)) := by
  obtain ⟨f, walk, same⟩ := expression_walks spelled
  obtain ⟨es, lines, writes⟩ := walk.exact
  have isolated : p.apart expression = p.apart f := by
    rw [apart, apart, same (p := { p with chunk := {} }) ahead delimits]
  rw [expressionApart, isolated, same ahead delimits]
  rw [← lines] at walk ⊢
  by_cases fits : Chunk.Fits p.chunk.constants (Chunk.entryLines es)
  · obtain ⟨chunk, written⟩ := Chunk.writeAll_of_fits fits
    obtain ⟨other, alone⟩ := Chunk.writeAll_of_fits (c := {}) fits.alone
    rw [writes.apart ahead alone, writes ahead written, splice, resume_chunk,
      Chunk.splice_eq_writeAll alone, written]
    refine Or.inl ⟨fits, resume_write _ _ _, fun sound => ?_, ?_⟩
    · rw [resume_sound _ sound]
      exact ⟨rfl, calm⟩
    · rintro t later flaw rfl kind
      exact (resume_reported (by exact calm) kind later).of_same rfl
  · obtain ⟨one, overflow, apart⟩ := walk.splice_overflows writes calm numbered ahead fits
    obtain ⟨other, overflow', inPlace⟩ := walk.overflows calm numbered ahead fits
    refine Or.inr ⟨fits, ⟨one, overflow, apart⟩, ⟨other, overflow', inPlace⟩, fun sound => ?_⟩
    rw [overflow.eq_full sound] at apart
    rw [overflow'.eq_full sound] at inPlace
    exact ⟨apart, inPlace⟩

/-- In front of `b - c` and another token, after a complaint that has been recovered from. -/
def midway (pool : Array Value) (next : Token) : Pass where
  previous := ⟨.newline, "\n", 3⟩
  ahead := [⟨.name, "b", 4⟩, ⟨.minus, "-", 4⟩, ⟨.name, "c", 5⟩, next]
  lastLine := 5
  diagnostics := [⟨1, .finish, .expectedExpression⟩]
  panicking := false
  chunk := { constants := pool }
  loopCount := 0

/-- One of the names is in the pool already, at another place than it gets apart. With room for one
more constant only, the second name is refused in place, and by the splice. An invalid token behind
the expression is reported both ways. -/
theorem splicing_apart_is_writing_in_place_midway :
    let known := midway #[.truth true, .text "c"] ⟨.divider, ",", 5⟩
    let full := midway (Array.replicate 255 (.truth true)) ⟨.divider, ",", 5⟩
    let disturbed := midway #[.truth true, .text "c"] ⟨.invalid .unexpectedCharacter, "@", 5⟩
    (known.expressionApart = known.expression ∧
      known.expression.diagnostics = [⟨1, .finish, .expectedExpression⟩]) ∧
    full.Reported (.chunk .tooManyConstants) full.expressionApart ∧
    disturbed.expressionApart = disturbed.expression ∧
      disturbed.Reported (.lexical .unexpectedCharacter) disturbed.expression := by
  intro known full disturbed
  have minus : (⟨.minus, "-", 4⟩ : Token).kind.binary? = some .subtract := rfl
  have ahead (pool : Array Value) (next : Token) : (midway pool next).ahead =
      [⟨.name, "b", 4⟩, ⟨.minus, "-", 4⟩, ⟨.name, "c", 5⟩] ++ [next] := rfl
  have spelled : (Expression.binary .subtract (.text "b") (.text "c")).Spelled .reference
      [⟨.name, "b", 4⟩, ⟨.minus, "-", 4⟩, ⟨.name, "c", 5⟩] :=
    .of_stronger (Nat.zero_le _) (.binary minus (by decide) (.of_stronger (by decide) (.name rfl))
      (.of_stronger (by decide) (.name rfl)))
  have delimits : Delimits [⟨.divider, ",", 5⟩] := .of_kind rfl rfl (by decide)
  have fits : Chunk.Fits #[.truth true, .text "c"]
      (Expression.binary .subtract (.text "b") (.text "c")).code := by
    unfold Chunk.Fits
    decide +kernel
  have unfit : ¬ Chunk.Fits (Array.replicate 255 (.truth true))
      (Expression.binary .subtract (.text "b") (.text "c")).code := by
    have keys : Chunk.poolKeys (Array.replicate 255 (.truth true)) = ∅ := by
      rw [Chunk.poolKeys, Array.toList_replicate, List.filterMap_replicate_of_none rfl,
        List.toFinset_nil]
    rw [Chunk.Fits, Chunk.size_pooled, Chunk.demand, keys, Finset.sdiff_empty, Array.size_replicate]
    decide
  refine ⟨?_, ?_, ?_⟩
  · have either := splicing_apart_is_writing_in_place (p := known) rfl (by decide)
      (ahead _ _) spelled delimits
    obtain ⟨_, same, quiet, _⟩ := either.resolve_right fun refused => refused.1 fits
    exact ⟨same, (quiet rfl).1⟩
  · have either := splicing_apart_is_writing_in_place (p := full) rfl
      (by simp [full, midway, Chunk.maxConstants]) (ahead _ _) spelled delimits
    exact ((either.resolve_left fun written => unfit written.1).2.2.2 rfl).1
  · have either := splicing_apart_is_writing_in_place (p := disturbed) rfl (by decide) (ahead _ _)
      spelled ⟨rfl, by decide⟩
    obtain ⟨_, same, _, reported⟩ := either.resolve_right fun refused => refused.1 fits
    exact ⟨same, reported _ _ _ rfl rfl⟩

end Pass

end Cellscript
