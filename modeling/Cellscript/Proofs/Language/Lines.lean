import Cellscript.Proofs.Language.Partition
import Cellscript.Proofs.Language.Respelling
import Cellscript.Proofs.Language.Tokens
import Mathlib.Data.List.Range

/-!
The lines on which the tokens of a script stand. Only a newline ends a line, also where tokens are
substituted, as long as the newlines are kept.
-/

set_option autoImplicit false

namespace Cellscript

namespace Token

/-- How a token stands to the one in front of it. -/
def Follows (a b : Token) : Prop := a.line ≤ b.line ∧ (a.kind ≠ .newline → b.line = a.line)

/-! ## Scanning -/

theorem Belongs.newline {text : List Char} (belongs : Belongs text .newline) : text = ['\n'] := by
  cases belongs with
  | keyword listed =>
    have table : ∀ word ∈ keywords, word.2 = .newline → word.1 = ['\n'] := by decide
    exact table _ listed rfl
  | sign listed =>
    have table : ∀ sign ∈ signs, sign.2 = .newline → sign.1 = ['\n'] := by decide
    exact table _ listed rfl

namespace Scanner

theorem call_line (source : String) (k : Nat) :
    (call source k).token.line = (after source k).line := by
  obtain ⟨gap, span, takes⟩ := exists_takes (after source k)
  exact takes.line

theorem after_line (source : String) (k : Nat) :
    1 ≤ (after source k).line ∧ (after source k).line ≤ 1 + source.toList.count '\n' := by
  obtain ⟨taken, split, line⟩ := exists_taken source k
  rw [line, split, List.count_append]
  omega

theorem call_follows (source : String) (k : Nat) :
    Follows (call source k).token (call source (k + 1)).token := by
  have next : (after source (k + 1)).line =
      if (call source k).token.kind = .newline then (after source k).line + 1
        else (after source k).line := by
    rw [after_succ]
    rfl
  unfold Follows
  rw [call_line, call_line, next]
  split
  · exact ⟨Nat.le_succ _, fun other => absurd ‹_› other⟩
  · exact ⟨Nat.le_refl _, fun _ => rfl⟩

theorem shape_of_newline {s : Scanner} (kind : s.next.token.kind = .newline) :
    s.next.token.shape = ⟨.newline, "\n"⟩ := by
  cases found : afterBlanks s.rest with
  | nil =>
    rw [next_of_nil found] at kind
    cases kind
  | cons c rest =>
    rcases cut : classify c rest with ⟨other, n⟩
    rw [next_of_cons found cut] at kind ⊢
    obtain rfl : other = .newline := kind
    cases outcome_of_classify cut with
    | token belongs _ =>
      rw [shape, belongs.newline]
      rfl

end Scanner

/-! ## Substitution -/

section Substitution

variable {table : List Substitution}

theorem substitute_line (table : List Substitution) (token : Token) :
    (token.substitute table).line = token.line := by
  rw [substitute_eq]

/-- A token of a shape that no rule is for is kept. -/
theorem substitute_of_no_rule {token : Token} (free : ∀ rule ∈ table, rule.pattern ≠ token.shape) :
    token.substitute table = token := by
  rcases token.shape.substitute_cases table with kept | ⟨rule, among, fits, _⟩
  · rw [substitute_eq, kept]
    rfl
  · exact absurd fits (free rule among)

/-- The tokens of a script come line after line, between its first line and its last. -/
theorem scanThrough_lines (kept : ∀ rule ∈ table, rule.pattern ≠ ⟨.newline, "\n"⟩)
    (source : String) : ((scanThrough table source).map (·.token)).IsChain Follows ∧
      ∀ t ∈ (scanThrough table source).map (·.token),
        1 ≤ t.line ∧ t.line ≤ 1 + source.toList.count '\n' := by
  obtain ⟨n, cuts, _⟩ := Scanner.exists_finish ⟨1, source.toList⟩
  have calls : (scanThrough table source).map (·.token) =
      (List.range (n + 1)).map (fun k => (Scanner.call source k).token.substitute table) := by
    rw [scanThrough_tokens, scan, cuts, List.map_map, List.map_map]
    rfl
  rw [calls]
  constructor
  · rw [List.isChain_map, List.isChain_range_succ]
    intro k _
    obtain ⟨later, same⟩ := Scanner.call_follows source k
    unfold Follows
    rw [substitute_line, substitute_line]
    refine ⟨later, fun other => same fun newline => other ?_⟩
    have shape := Scanner.shape_of_newline newline
    rwa [substitute_of_no_rule fun rule among => shape ▸ kept rule among]
  · intro t member
    obtain ⟨k, _, rfl⟩ := List.mem_map.mp member
    rw [substitute_line, Scanner.call_line]
    exact Scanner.after_line source k

end Substitution

/-! ## One line -/

/-- Tokens of one statement, with what ends it, stand on one line. -/
theorem one_line {front back : List Token} (follows : (front ++ back).IsChain Follows)
    (inLine : ∀ t ∈ front, t.InLine) (short : back.length ≤ 1) :
    ∃ n, ∀ t ∈ front ++ back, t.line = n := by
  induction front with
  | nil =>
    rcases back with _ | ⟨t, _ | ⟨u, more⟩⟩
    · exact ⟨0, List.forall_mem_nil _⟩
    · exact ⟨t.line, by simp⟩
    · simp at short
  | cons t front ih =>
    obtain ⟨first, others⟩ := List.forall_mem_cons.mp inLine
    rw [List.cons_append] at follows
    obtain ⟨n, same⟩ := ih follows.tail others
    rw [List.cons_append]
    cases rest : front ++ back with
    | nil => exact ⟨t.line, by simp⟩
    | cons u us =>
      rw [rest] at follows same
      obtain ⟨⟨_, together⟩, _⟩ := List.isChain_cons_cons.mp follows
      refine ⟨n, List.forall_mem_cons.mpr ⟨?_, same⟩⟩
      have next : u.line = n := same u List.mem_cons_self
      have apart : t.kind ≠ .newline := by
        intro newline
        rw [InLine, newline] at first
        cases first
      rw [← together apart, next]

theorem sorted_lines {ts : List Token} (follows : ts.IsChain Follows) :
    (ts.map (·.line)).Pairwise (· ≤ ·) := by
  rw [← List.isChain_iff_pairwise, List.isChain_map]
  exact follows.imp fun _ _ next => next.1

end Token

theorem Terminator.length_le_one {ts rest : List Token} (ended : Terminator ts rest) :
    ts.length ≤ 1 := by
  cases ended <;> simp

theorem StatementSpelled.one_line {labels ts rest : List Token} {names : List String}
    {s : Option Simple} (labelled : LabelsSpelled labels names)
    (spelled : StatementSpelled ts s rest)
    (follows : (labels ++ ts).IsChain Token.Follows) : ∃ n, ∀ t ∈ labels ++ ts, t.line = n := by
  cases spelled with
  | bare ended => exact Token.one_line follows labelled.inLine ended.length_le_one
  | simple simple ended =>
    rw [← List.append_assoc] at follows ⊢
    exact Token.one_line follows
      (List.forall_mem_append.mpr ⟨labelled.inLine, simple.inLine⟩) ended.length_le_one

theorem Header.Spelled.one_line {labels ts us rest : List Token} {names : List String}
    {header : Header} (labelled : LabelsSpelled labels names) (spelled : header.Spelled ts)
    (ended : Terminator us rest) (follows : (labels ++ ts ++ us).IsChain Token.Follows) :
    ∃ n, ∀ t ∈ labels ++ ts ++ us, t.line = n :=
  Token.one_line follows (List.forall_mem_append.mpr ⟨labelled.inLine, spelled.inLine⟩)
    ended.length_le_one

end Cellscript
