import Cellscript.Proofs.Language.LongestMatch
import Mathlib.Data.String.Basic

/-!
Scanning cuts a source into spans. A scanner that is called again and again takes one span after the
other, with nothing but blanks and comments between them, until it finishes, and from then on it
takes nothing. Each token carries the text of its span and the number of the line on which the span
starts.
-/

set_option autoImplicit false

namespace Cellscript

namespace Token

/-! ## Newlines -/

theorem Gap.count_newline {text rest : List Char} (gap : Gap text rest) : text.count '\n' = 0 := by
  have plain {front : List Char} (all : ∀ c ∈ front, c = ' ' ∨ c = '\t' ∨ c = '\r') :
      '\n' ∉ front := by
    intro member
    have blank := all _ member
    revert blank
    decide
  refine List.count_eq_zero.mpr ?_
  cases gap with
  | blanks all => exact plain all
  | comment all inside ends => simp [plain all, inside]

theorem newline_not_digit : ¬ Digit '\n' := by
  rw [← isDigit_iff]
  decide

theorem newline_not_letter : ¬ Letter '\n' := by
  rw [← startsName_iff]
  decide

/-- Newlines are tokens of their own. -/
theorem Belongs.count_newline {text : List Char} {kind : Kind} (belongs : Belongs text kind) :
    text.count '\n' = if kind = .newline then 1 else 0 := by
  have digits {ds : List Char} (all : ∀ d ∈ ds, Digit d) : '\n' ∉ ds :=
    fun member => newline_not_digit (all _ member)
  cases belongs with
  | @whole d ds first all =>
    exact List.count_eq_zero.mpr (digits (List.forall_mem_cons.mpr ⟨first, all⟩))
  | @fraction d e ds more first all next others =>
    have front := digits (List.forall_mem_cons.mpr ⟨first, all⟩)
    have back := digits (List.forall_mem_cons.mpr ⟨next, others⟩)
    refine List.count_eq_zero.mpr fun member => ?_
    rw [← List.cons_append] at member
    rcases List.mem_append.mp member with left | right
    · exact front left
    · rcases List.mem_cons.mp right with point | later
      · exact absurd point (by decide)
      · exact back later
  | @name c rest starts continues free =>
    refine List.count_eq_zero.mpr fun member => ?_
    rcases List.mem_cons.mp member with rfl | later
    · exact newline_not_letter starts
    · exact (continues _ later).elim newline_not_letter newline_not_digit
  | keyword listed =>
    have table :
        ∀ word ∈ keywords, word.1.count '\n' = if word.2 = .newline then 1 else 0 := by decide
    exact table _ listed
  | @string words inside =>
    have plain : '\n' ∉ words := fun member => (inside _ member).2 rfl
    exact List.count_eq_zero.mpr (by simp [plain])
  | sign listed =>
    have table : ∀ sign ∈ signs, sign.1.count '\n' = if sign.2 = .newline then 1 else 0 := by decide
    exact table _ listed

theorem Rejected.count_newline {flaw : Flaw} {c : Char} {text rest : List Char}
    (rejected : Rejected flaw (c :: text) rest) (other : c ≠ '\n') :
    (c :: text).count '\n' = 0 := by
  refine List.count_eq_zero.mpr fun member => ?_
  rcases List.mem_cons.mp member with rfl | later
  · exact other rfl
  · cases rejected with
    | character _ => cases later
    | string inside ends => exact (inside _ later).2 rfl

theorem count_newline_of_classify {c : Char} {rest : List Char} {kind : Kind} {n : Nat}
    (cut : classify c rest = (kind, n)) :
    (c :: rest.take n).count '\n' = if kind = .newline then 1 else 0 := by
  cases outcome_of_classify cut with
  | token belongs _ => exact belongs.count_newline
  | invalid rejected =>
    refine rejected.count_newline ?_
    rintro rfl
    cases cut

/-! ## Scanners -/

/-- Where a scanner stands: the number of the line, and the text that is left. -/
structure Scanner where
  line : Nat
  rest : List Char

namespace Scanner

/-- The piece that the next call takes. -/
def next (s : Scanner) : Piece :=
  match afterBlanks s.rest with
  | [] => ⟨.finish s.line, []⟩
  | c :: rest =>
    let cut := classify c rest
    ⟨⟨cut.1, lexemeOf cut.1 (c :: rest.take cut.2), s.line⟩, rest.drop cut.2⟩

/-- Where the scanner stands after a call. -/
def advance (s : Scanner) : Scanner :=
  ⟨if s.next.token.kind = .newline then s.line + 1 else s.line, s.next.rest⟩

theorem next_of_nil {s : Scanner} (found : afterBlanks s.rest = []) :
    s.next = ⟨.finish s.line, []⟩ := by
  rw [next, found]

theorem next_of_cons {s : Scanner} {c : Char} {rest : List Char} {kind : Kind} {n : Nat}
    (found : afterBlanks s.rest = c :: rest) (cut : classify c rest = (kind, n)) :
    s.next = ⟨⟨kind, lexemeOf kind (c :: rest.take n), s.line⟩, rest.drop n⟩ := by
  rw [next, found]
  dsimp only
  rw [cut]

/-- What one call takes from the text that is left. -/
structure Takes (s : Scanner) (gap span : List Char) : Prop where
  split : s.rest = gap ++ (span ++ s.next.rest)
  skipped : afterBlanks s.rest = span ++ s.next.rest
  gap : Gap gap (span ++ s.next.rest)
  finish : s.next.token.kind = .finish ↔ span = []
  finished : s.next.token.kind = .finish → s.next.rest = []
  lexeme : s.next.token.Valid → s.next.token.lexeme = String.ofList span
  line : s.next.token.line = s.line
  newlines : s.advance.line = s.line + span.count '\n'

theorem exists_takes (s : Scanner) : ∃ gap span, s.Takes gap span := by
  obtain ⟨gap, split, skipped⟩ := gap_afterBlanks s.rest
  cases found : afterBlanks s.rest with
  | nil =>
    rw [found] at split skipped
    have piece := next_of_nil found
    have empty : s.next.rest = [] := by rw [piece]
    refine ⟨gap, [], ?_, ?_, ?_, ?_, fun _ => empty, ?_, ?_, ?_⟩
    · rw [empty]
      exact split
    · rw [empty]
      exact found
    · rw [empty]
      exact skipped
    · simp [piece, Token.finish]
    · intro _
      rw [piece]
      rfl
    · rw [piece]
      rfl
    · simp [advance, piece, Token.finish]
  | cons c rest =>
    rcases cut : classify c rest with ⟨kind, n⟩
    have piece := next_of_cons found cut
    have whole : c :: rest = c :: rest.take n ++ s.next.rest := by rw [piece]; simp
    rw [found] at split skipped
    refine ⟨gap, c :: rest.take n, whole ▸ split, whole ▸ found, whole ▸ skipped,
      ?_, ?_, ?_, ?_, ?_⟩
    · simp [piece, classify_ne_finish cut]
    · intro finish
      rw [piece] at finish
      exact absurd finish (classify_ne_finish cut)
    · intro valid
      rw [piece] at valid ⊢
      exact lexemeOf_valid valid _
    · rw [piece]
    · rw [advance, piece, count_newline_of_classify cut]
      dsimp only
      split <;> rfl

/-! ## Calls -/

theorem pieces_eq_next (s : Scanner) :
    pieces s.line s.rest = s.next :: if s.next.token.kind = .finish then []
      else pieces s.advance.line s.advance.rest := by
  cases found : afterBlanks s.rest with
  | nil =>
    rw [pieces_of_nil found, next_of_nil found]
    rfl
  | cons c rest =>
    rcases cut : classify c rest with ⟨kind, n⟩
    rw [pieces_of_cons found cut, advance, next_of_cons found cut, if_neg (classify_ne_finish cut)]

/-- A scanner that has finished finishes again. -/
theorem finish_again {s : Scanner} (finish : s.next.token.kind = .finish) (k : Nat) :
    (advance^[k] s).next.token.kind = .finish := by
  induction k with
  | zero => exact finish
  | succ k ih =>
    rw [Function.iterate_succ_apply']
    obtain ⟨gap, span, takes⟩ := exists_takes (advance^[k] s)
    have empty : (advance (advance^[k] s)).rest = [] := takes.finished ih
    rw [next_of_nil (by rw [empty, afterBlanks])]
    rfl

theorem length_advance {s : Scanner} (unfinished : s.next.token.kind ≠ .finish) :
    s.advance.rest.length < s.rest.length := by
  obtain ⟨gap, span, takes⟩ := exists_takes s
  have taken : 0 < span.length := List.length_pos_iff.mpr (mt takes.finish.mpr unfinished)
  change s.next.rest.length < s.rest.length
  rw [takes.split, List.length_append, List.length_append]
  omega

/-- A script has as many pieces as it takes calls to finish. -/
theorem exists_finish (s : Scanner) :
    ∃ n, pieces s.line s.rest = (List.range (n + 1)).map (fun k => (advance^[k] s).next) ∧
      ∀ k, (advance^[k] s).next.token.kind = .finish ↔ n ≤ k := by
  induction size : s.rest.length using Nat.strong_induction_on generalizing s with
  | _ size ih =>
    rw [pieces_eq_next]
    by_cases finish : s.next.token.kind = .finish
    · refine ⟨0, by rw [if_pos finish]; rfl, fun k => ?_⟩
      exact iff_of_true (finish_again finish k) (Nat.zero_le k)
    · obtain ⟨n, cuts, finishes⟩ := ih _ (size ▸ length_advance finish) s.advance rfl
      refine ⟨n + 1, ?_, fun k => ?_⟩
      · rw [if_neg finish, cuts, @List.range_succ_eq_map (n + 1), List.map_cons, List.map_map]
        rfl
      · cases k with
        | zero => exact iff_of_false finish (Nat.not_succ_le_zero n)
        | succ k => exact (finishes k).trans Nat.succ_le_succ_iff.symm

/-- The scanner of a source after a number of calls. -/
def after (source : String) (k : Nat) : Scanner := advance^[k] ⟨1, source.toList⟩

/-- The piece that a call takes from a source. -/
def call (source : String) (k : Nat) : Piece := (after source k).next

theorem after_succ (source : String) (k : Nat) :
    after source (k + 1) = (after source k).advance :=
  Function.iterate_succ_apply' advance k _

/-- The line is counted by the newlines that have been taken. -/
theorem exists_taken (source : String) (k : Nat) :
    ∃ taken, source.toList = taken ++ (after source k).rest ∧
      (after source k).line = 1 + taken.count '\n' := by
  induction k with
  | zero => exact ⟨[], rfl, rfl⟩
  | succ k ih =>
    obtain ⟨taken, split, line⟩ := ih
    obtain ⟨gap, span, takes⟩ := exists_takes (after source k)
    rw [after_succ]
    refine ⟨taken ++ gap ++ span, ?_, ?_⟩
    · rw [split, takes.split, advance]
      simp only [List.append_assoc]
    · rw [takes.newlines, line, List.count_append, List.count_append, takes.gap.count_newline]
      omega

/-! ## Places -/

/-- The place in a source from which on this text is left. -/
def place (source : String) (left : List Char) : String.Pos.Raw :=
  ⟨source.utf8ByteSize - String.utf8Len left⟩

section Place

variable {source : String} {front middle back : List Char}

theorem place_of_split (split : source.toList = front ++ back) :
    place source back = ⟨String.utf8Len front⟩ := by
  rw [place, ← String.utf8Len_toList, split, String.utf8Len_append, Nat.add_sub_cancel]

theorem place_isValid (split : source.toList = front ++ back) :
    String.Pos.Raw.IsValid source (place source back) := by
  rw [place_of_split split]
  refine String.Pos.Raw.isValid_iff_exists_append.mpr ⟨.ofList front, .ofList back, ?_, ?_⟩
  · rw [← String.ofList_append, ← split, String.ofList_toList]
  · rw [String.rawEndPos_ofList]

theorem extract_place (split : source.toList = front ++ (middle ++ back)) :
    (place source (middle ++ back)).extract source (place source back) = .ofList middle := by
  have later : source.toList = (front ++ middle) ++ back := by rw [split, List.append_assoc]
  rw [place_of_split split, place_of_split later, String.utf8Len_append]
  have whole : source = .ofList (front ++ middle ++ back) := by rw [← later, String.ofList_toList]
  rw [whole]
  exact String.extract_of_valid front middle back

end Place

theorem place_nil (source : String) : place source [] = source.rawEndPos := rfl

theorem place_all (source : String) : place source source.toList = 0 :=
  place_of_split (List.nil_append _).symm

/-! ## Spans -/

/-- Where a scanner stands in its source before a call. -/
def current (source : String) (k : Nat) : String.Pos.Raw := place source (after source k).rest

/-- Where the span starts that a call takes. It ends where the scanner stands after the call. -/
def start (source : String) (k : Nat) : String.Pos.Raw :=
  place source (afterBlanks (after source k).rest)

/-- A call skips a gap and takes the span behind it. -/
structure Spans (source : String) (k : Nat) : Prop where
  skipped : current source k ≤ start source k
  taken : start source k ≤ current source (k + 1)
  nonempty : start source k < current source (k + 1) ↔ (call source k).token.kind ≠ .finish
  starts : (start source k).IsValid source
  ends : (current source (k + 1)).IsValid source
  gap : Gap ((current source k).extract source (start source k)).toList
    ((start source k).extract source source.rawEndPos).toList
  lexeme : (call source k).token.Valid →
    (call source k).token.lexeme = (start source k).extract source (current source (k + 1))
  line : (call source k).token.line =
    1 + (String.Pos.Raw.extract source 0 (start source k)).toList.count '\n'

theorem spans_source (source : String) (k : Nat) : Spans source k := by
  obtain ⟨before, split, line⟩ := exists_taken source k
  obtain ⟨gap, span, takes⟩ := exists_takes (after source k)
  -- the source is what was taken before, the gap, the span and what is left
  generalize left : (after source k).next.rest = rest
  have stands : current source k = place source (gap ++ (span ++ rest)) := by
    rw [current, takes.split, left]
  have begins : start source k = place source (span ++ rest) := by
    rw [start, takes.skipped, left]
  have next : current source (k + 1) = place source rest := by
    rw [current, after_succ, ← left]
    rfl
  rw [takes.split, left] at split
  have front : source.toList = (before ++ gap) ++ (span ++ rest) := by
    rw [split, List.append_assoc]
  have whole : source.toList = (before ++ gap ++ span) ++ rest := by
    rw [front, List.append_assoc (before ++ gap)]
  have size : String.utf8Len span = 0 ↔ (call source k).token.kind = .finish :=
    String.utf8Len_eq_zero.trans takes.finish.symm
  refine ⟨?_, ?_, ?_, ?_, ?_, ?_, ?_, ?_⟩
  · rw [stands, begins, place_of_split split, place_of_split front, String.utf8Len_append]
    exact Nat.le_add_right _ _
  · rw [begins, next, place_of_split front, place_of_split whole, String.utf8Len_append _ span]
    exact Nat.le_add_right _ _
  · rw [begins, next, place_of_split front, place_of_split whole, String.utf8Len_append _ span,
      ne_eq, ← size, String.Pos.Raw.lt_iff]
    dsimp only
    omega
  · rw [begins]
    exact place_isValid front
  · rw [next]
    exact place_isValid whole
  · have behind : source.toList = (before ++ gap) ++ ((span ++ rest) ++ []) := by
      rw [front, List.append_nil]
    have text := extract_place behind
    rw [List.append_nil, place_nil, ← begins] at text
    rw [text, stands, begins, extract_place split, String.toList_ofList, String.toList_ofList]
    exact left ▸ takes.gap
  · intro valid
    rw [begins, next, extract_place front]
    exact takes.lexeme valid
  · have text :=
      extract_place (show source.toList = [] ++ (before ++ gap ++ (span ++ rest)) from front)
    rw [← front, place_all, ← begins] at text
    rw [text, String.toList_ofList, List.count_append, takes.gap.count_newline,
      Nat.add_zero, ← line]
    exact takes.line

/-- Scanning partitions a source. Calls give the pieces of the source until one finishes, and from
then on all of them finish. The spans that they take follow one another, and there is something in
each but the last; they start and end between characters, and blanks and comments are all that is
left out. A valid token has the text of its span, and every token the line on which
its span starts. -/
theorem scanning_partitions_source (source : String) :
    ∃ n, scan source = (List.range (n + 1)).map (call source) ∧
      (∀ k, (call source k).token.kind = .finish ↔ n ≤ k) ∧
      current source 0 = 0 ∧ current source (n + 1) = source.rawEndPos ∧
      ∀ k, Spans source k := by
  obtain ⟨n, cuts, finishes⟩ := exists_finish ⟨1, source.toList⟩
  refine ⟨n, cuts, finishes, place_all source, ?_, spans_source source⟩
  obtain ⟨gap, span, takes⟩ := exists_takes (after source n)
  have empty : (after source (n + 1)).rest = [] := by
    rw [after_succ]
    exact takes.finished ((finishes n).mpr (Nat.le_refl n))
  rw [current, empty, place_nil]

end Scanner

end Token

end Cellscript
