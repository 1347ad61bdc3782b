import Cellscript.Proofs.Language.Rescanning

/-!
Substitutions are respellings. The texts of the tokens that come out of a table, with blanks between
them, are a script that says the same without the table.
-/

set_option autoImplicit false

namespace Cellscript

namespace Token

/-! ## Substituting shapes -/

/-- The shape of the token that finishes a script. -/
def Shape.finish : Shape := ⟨.finish, ""⟩

/-- What becomes of a shape. -/
def Shape.substitute (table : List Substitution) (s : Shape) : Shape :=
  match table.find? (·.pattern = s) with
  | some rule => rule.replacement
  | none => s

theorem substitute_eq (table : List Substitution) (token : Token) :
    token.substitute table = ⟨(token.shape.substitute table).kind,
      (token.shape.substitute table).lexeme, token.line⟩ := by
  unfold substitute Shape.substitute
  cases table.find? (·.pattern = token.shape) <;> rfl

theorem shape_substitute (table : List Substitution) (token : Token) :
    (token.substitute table).shape = token.shape.substitute table := by
  rw [substitute_eq]
  rfl

/-- A shape is kept or becomes the replacement of a rule for it. -/
theorem Shape.substitute_cases (table : List Substitution) (s : Shape) :
    s.substitute table = s ∨
      ∃ rule ∈ table, rule.pattern = s ∧ s.substitute table = rule.replacement := by
  unfold substitute
  cases found : table.find? (·.pattern = s) with
  | none => exact Or.inl rfl
  | some rule =>
    have fits := List.find?_some found
    exact Or.inr ⟨rule, List.mem_of_find?_eq_some found, of_decide_eq_true fits, rfl⟩

theorem substitute_nil (token : Token) : token.substitute [] = token := rfl

theorem scanThrough_tokens (table : List Substitution) (source : String) :
    (scanThrough table source).map (·.token) =
      ((scan source).map (·.token)).map (substitute table) := by
  rw [scanThrough, List.map_map, List.map_map]
  rfl

/-! ## Rules that are given by texts -/

/-- The shape that a text names is read back, and is not that of the end. -/
theorem Shape.rescans_of_first? {text : String} {s : Shape} (named : first? text = some s) :
    s.Rescans ∧ s.kind ≠ .finish := by
  unfold first? scan at named
  cases found : afterBlanks text.toList with
  | nil =>
    rw [pieces_of_nil found] at named
    cases named
  | cons c rest =>
    rcases cut : classify c rest with ⟨kind, n⟩
    rw [pieces_of_cons found cut] at named
    dsimp only [List.head?_cons] at named
    split at named
    · cases named
    · cases named
    · rename_i valid unfinished
      cases named
      exact ⟨rescans_of_cut found cut valid, unfinished⟩

end Token

/-- Two texts name the rule. -/
def Substitution.Named (rule : Substitution) : Prop :=
  ∃ pattern replacement, Substitution.ofTexts? pattern replacement = some rule

theorem Substitution.Named.shapes {rule : Substitution} (named : rule.Named) :
    rule.replacement.Rescans ∧ rule.pattern.kind ≠ .finish := by
  obtain ⟨pattern, replacement, found⟩ := named
  unfold ofTexts? at found
  split at found
  · rename_i first second
    cases found
    exact ⟨(Token.Shape.rescans_of_first? second).1, (Token.Shape.rescans_of_first? first).2⟩
  · cases found

namespace Token

section Table

variable {table : List Substitution}

theorem Shape.Rescans.substitute (named : ∀ rule ∈ table, rule.Named) {s : Shape}
    (rescans : s.Rescans) : (s.substitute table).Rescans := by
  rcases s.substitute_cases table with kept | ⟨rule, among, _, replaced⟩
  · rw [kept]
    exact rescans
  · rw [replaced]
    exact (named rule among).shapes.1

/-- No rule replaces the end. -/
theorem Shape.substitute_finish (named : ∀ rule ∈ table, rule.Named) :
    Shape.finish.substitute table = .finish := by
  rcases Shape.finish.substitute_cases table with kept | ⟨rule, among, fits, _⟩
  · exact kept
  · exact absurd (congrArg Shape.kind fits) (named rule among).shapes.2

theorem numbered_shapes (line : Nat) (shapes : List Shape) :
    (numbered line shapes).map shape = shapes ++ [.finish] := by
  induction shapes generalizing line with
  | nil => rfl
  | cons s shapes ih =>
    rw [numbered, List.map_cons, ih]
    rfl

/-- Substituting gives the shapes that the table gives. -/
theorem substituted_shapes (named : ∀ rule ∈ table, rule.Named) (line : Nat) (shapes : List Shape) :
    ((numbered line shapes).map (substitute table)).map shape =
      shapes.map (Shape.substitute table) ++ [.finish] := by
  have each : shape ∘ substitute table = Shape.substitute table ∘ shape :=
    funext (shape_substitute table)
  rw [List.map_map, each, ← List.map_map, numbered_shapes, List.map_append, List.map_singleton,
    Shape.substitute_finish named]

/-- A table that leaves line breaks alone and makes no new ones keeps tokens on their lines. -/
theorem numbered_substitute (named : ∀ rule ∈ table, rule.Named)
    (breaks : ∀ rule ∈ table, rule.pattern.kind ≠ .newline ∧ rule.replacement.kind ≠ .newline)
    (line : Nat) (shapes : List Shape) :
    (numbered line shapes).map (substitute table) =
      numbered line (shapes.map (Shape.substitute table)) := by
  induction shapes generalizing line with
  | nil =>
    have kept : (Token.finish line).shape.substitute table = .finish :=
      Shape.substitute_finish named
    rw [numbered, List.map_singleton, substitute_eq, kept]
    rfl
  | cons s shapes ih =>
    have same : s.kind = .newline ↔ (s.substitute table).kind = .newline := by
      rcases s.substitute_cases table with kept | ⟨rule, among, fits, replaced⟩
      · rw [kept]
      · rw [replaced, ← fits]
        exact iff_of_false (breaks rule among).1 (breaks rule among).2
    rw [numbered, List.map_cons, List.map_cons, ih, numbered, substitute_eq]
    simp only [same]
    rfl

end Table

/-! ## Writing tokens down -/

/-- The script that the table makes of a script: the texts of the tokens with single blanks
between them. -/
def respelled (table : List Substitution) (source : String) : String :=
  " ".intercalate ((scanThrough table source).map (·.token.lexeme))

/-- The end has no text, so a blank stands behind every other token. -/
theorem intercalate_eq_spaced (shapes : List Shape) :
    (" ".intercalate ((shapes ++ [Shape.finish]).map Shape.lexeme)).toList = spaced shapes := by
  induction shapes with
  | nil => rfl
  | cons s shapes ih =>
    have more : (shapes ++ [Shape.finish]).map Shape.lexeme ≠ [] := by simp
    rw [List.cons_append, List.map_cons, String.intercalate_cons_of_ne_nil more,
      String.toList_append, String.toList_append, ih]
    rfl

end Token

/-- A table of substitutions is a way of spelling. The texts of the tokens that it gives for a valid
script, with single blanks between them, are again a script; scanned without a table, it has the
same kinds and texts of tokens, and if the table leaves line breaks alone, the same lines as well,
so that compiling either comes to the same code or the same complaints. -/
theorem Compiler.substitution_is_respelling (table : List Substitution) (source : String)
    (valid : ∀ piece ∈ Token.scan source, piece.token.Valid)
    (named : ∀ rule ∈ table, rule.Named) :
    ((Token.scanThrough [] (Token.respelled table source)).map (·.token.shape) =
      (Token.scanThrough table source).map (·.token.shape)) ∧
    ((∀ rule ∈ table, rule.pattern.kind ≠ .newline ∧ rule.replacement.kind ≠ .newline) →
      (Token.scanThrough [] (Token.respelled table source)).map (·.token) =
        (Token.scanThrough table source).map (·.token) ∧
      ∀ loopCount,
        (Compiler.compile ⟨[], loopCount⟩ (Token.respelled table source)).2 =
          (Compiler.compile ⟨table, loopCount⟩ source).2 ∧
        (Compiler.compile ⟨[], loopCount⟩ (Token.respelled table source)).1.loopCount =
          (Compiler.compile ⟨table, loopCount⟩ source).1.loopCount) := by
  obtain ⟨shapes, tokens, rescan⟩ := Token.exists_shapes valid
  have rewritten : (Token.scanThrough table source).map (·.token) =
      (Token.numbered 1 shapes).map (Token.substitute table) := by
    rw [Token.scanThrough_tokens, ← tokens]
    rfl
  have changed : (Token.scanThrough table source).map (·.token.shape) =
      shapes.map (Token.Shape.substitute table) ++ [.finish] := by
    rw [← Token.substituted_shapes named 1, ← rewritten, List.map_map]
    rfl
  have text : (Token.respelled table source).toList =
      Token.spaced (shapes.map (Token.Shape.substitute table)) := by
    rw [← Token.intercalate_eq_spaced, ← changed, List.map_map]
    rfl
  have again : (Token.scanThrough [] (Token.respelled table source)).map (·.token) =
      Token.numbered 1 (shapes.map (Token.Shape.substitute table)) := by
    rw [Token.scanThrough_tokens, List.map_congr_left fun token _ => Token.substitute_nil token,
      List.map_id', Token.scan, text]
    refine Token.pieces_spaced (fun s inside => ?_) 1
    obtain ⟨old, among, rfl⟩ := List.mem_map.mp inside
    exact (rescan old among).substitute named
  refine ⟨?_, fun breaks => ?_⟩
  · rw [changed, ← Token.numbered_shapes 1, ← again, List.map_map]
    rfl
  · have same := again.trans ((Token.numbered_substitute named breaks 1 shapes).symm.trans
      rewritten.symm)
    refine ⟨same, fun loopCount => ?_⟩
    simp only [compile, same, and_self]

/-- Texts in which blanks, slashes and dots matter, and a comment. -/
def tangle : String := "\n".intercalate [
  "say \"a // b\"; 'x = 1.5..y // note", "\x7btrue\x7d say .../ | 'x <=> 'y", ""]

theorem Compiler.substitution_is_respelling_on_tangle :
    let rule : Substitution := ⟨⟨.name, "say"⟩, ⟨.print, "print"⟩⟩
    Substitution.ofTexts? "say" " print!" = some rule ∧
      (∀ piece ∈ Token.scan tangle, piece.token.Valid) ∧
      Token.respelled [rule] tangle =
        "print \"a // b\" ; ' x = 1.5 . . y \n \x7b true \x7d print ... / | ' x <=> ' y \n " ∧
      (Compiler.compile ⟨[], 3⟩ (Token.respelled [rule] tangle)).2 =
        (Compiler.compile ⟨[rule], 3⟩ tangle).2 := by
  intro rule
  have given : Substitution.ofTexts? "say" " print!" = some rule := by decide +kernel
  have checked : (Token.scan tangle).all (fun piece =>
      piece.token.kind != .invalid .unterminatedString &&
        piece.token.kind != .invalid .unexpectedCharacter) = true := by
    decide +kernel
  have valid : ∀ piece ∈ Token.scan tangle, piece.token.Valid := by
    intro piece inside flaw
    have fine := List.all_eq_true.mp checked piece inside
    rw [Bool.and_eq_true, bne_iff_ne, bne_iff_ne] at fine
    cases flaw with
    | unterminatedString => exact fine.1
    | unexpectedCharacter => exact fine.2
  have named : ∀ other ∈ [rule], other.Named :=
    List.forall_mem_singleton.mpr ⟨"say", " print!", given⟩
  have breaks : ∀ other ∈ [rule],
      other.pattern.kind ≠ .newline ∧ other.replacement.kind ≠ .newline :=
    List.forall_mem_singleton.mpr (by decide)
  refine ⟨given, valid, by decide +kernel, ?_⟩
  exact (((substitution_is_respelling [rule] tangle valid named).2 breaks).2 3).1

end Cellscript
