import Cellscript.Proofs.Language.Tokens
import Mathlib.Data.List.TakeWhile

/-!
Scanning what was scanned. The text of a valid token, with a blank after it, is cut as that token
again, whatever stood around it before. So the tokens of a script can be written down with blanks
between them and read back, and a table of substitutions does nothing that the script itself could
not say.
-/

set_option autoImplicit false

namespace Cellscript

namespace Token

/-! ## Cutting in front of a blank -/

theorem afterBlanks_blank (text : List Char) : afterBlanks (' ' :: text) = afterBlanks text := by
  rw [afterBlanks, if_pos (by decide)]

section While

variable {p : Char → Bool}

theorem takeWhile_of_stop {front back : List Char} (all : ∀ c ∈ front, p c = true)
    (stops : ∀ c ∈ back.head?, p c = false) : (front ++ back).takeWhile p = front := by
  rw [List.takeWhile_append_of_pos all]
  cases back with
  | nil => rw [List.takeWhile_nil, List.append_nil]
  | cons c back => rw [List.takeWhile_cons_of_neg (by simp [stops c rfl]), List.append_nil]

theorem exists_stop (p : Char → Bool) (text : List Char) :
    ∃ front back, text = front ++ back ∧ (∀ c ∈ front, p c = true) ∧
      ∀ c ∈ back.head?, p c = false := by
  refine ⟨text.takeWhile p, text.dropWhile p, List.takeWhile_append_dropWhile.symm,
    fun c inside => List.mem_takeWhile_imp inside, fun c first => ?_⟩
  have stops := List.head?_dropWhile_not p text
  rw [first] at stops
  exact stops

end While

theorem numberTail_whole {digits back : List Char} (all : ∀ d ∈ digits, d.isDigit = true)
    (stops : ∀ c ∈ back.head?, c.isDigit = false)
    (plain : ∀ d more, back = '.' :: d :: more → d.isDigit = false) :
    numberTail (digits ++ back) = digits.length := by
  unfold numberTail
  rw [takeWhile_of_stop all stops]
  dsimp only
  rw [List.drop_left]
  split
  · rename_i d more
    rw [plain d more rfl]
    rfl
  · rfl

theorem numberTail_fraction {digits fraction back : List Char} {d : Char}
    (all : ∀ d ∈ digits, d.isDigit = true) (digit : d.isDigit = true)
    (more : ∀ d ∈ fraction, d.isDigit = true) (stops : ∀ c ∈ back.head?, c.isDigit = false) :
    numberTail (digits ++ '.' :: d :: (fraction ++ back)) =
      digits.length + 2 + fraction.length := by
  unfold numberTail
  rw [takeWhile_of_stop all (by simp +decide)]
  dsimp only
  rw [List.drop_left]
  change (if d.isDigit then digits.length + 2 + ((fraction ++ back).takeWhile Char.isDigit).length
    else digits.length) = _
  rw [if_pos digit, takeWhile_of_stop more stops]

/-- A number reaches over its digits, and over a point with the digits behind it. -/
theorem numberTail_split (rest : List Char) :
    (∃ digits back, rest = digits ++ back ∧ (∀ d ∈ digits, d.isDigit = true) ∧
      (∀ c ∈ back.head?, c.isDigit = false) ∧
      (∀ d more, back = '.' :: d :: more → d.isDigit = false)) ∨
    ∃ digits d fraction back, rest = digits ++ '.' :: d :: (fraction ++ back) ∧
      (∀ d ∈ digits, d.isDigit = true) ∧ d.isDigit = true ∧
      (∀ d ∈ fraction, d.isDigit = true) ∧ ∀ c ∈ back.head?, c.isDigit = false := by
  obtain ⟨digits, back, rfl, all, stops⟩ := exists_stop Char.isDigit rest
  by_cases fractional : ∃ d others, back = '.' :: d :: others ∧ d.isDigit = true
  · obtain ⟨d, others, rfl, digit⟩ := fractional
    obtain ⟨fraction, back, rfl, more, stops⟩ := exists_stop Char.isDigit others
    exact .inr ⟨digits, d, fraction, back, rfl, all, digit, more, stops⟩
  · refine .inl ⟨digits, back, rfl, all, stops, fun d others same => ?_⟩
    cases digit : d.isDigit with
    | false => rfl
    | true => exact absurd ⟨d, others, same, digit⟩ fractional

theorem take_fraction (digits fraction back : List Char) (d : Char) :
    (digits ++ '.' :: d :: (fraction ++ back)).take (digits.length + 2 + fraction.length) =
      digits ++ '.' :: d :: fraction := by
  rw [Nat.add_assoc, List.take_length_add_append]
  simp [Nat.add_comm 2]

/-- A number ends where a blank follows. -/
theorem numberTail_before_blank (rest more : List Char) :
    numberTail (rest.take (numberTail rest) ++ ' ' :: more) = numberTail rest ∧
      numberTail rest ≤ rest.length := by
  have blank : ∀ c ∈ (' ' :: more).head?, c.isDigit = false := by simp +decide
  obtain ⟨digits, back, rfl, all, stops, plain⟩ |
    ⟨digits, d, fraction, back, rfl, all, digit, others, stops⟩ := numberTail_split rest
  · rw [numberTail_whole all stops plain, List.take_left, numberTail_whole all blank nofun]
    exact ⟨rfl, by simp⟩
  · rw [numberTail_fraction all digit others stops, take_fraction, List.append_assoc,
      List.cons_append, List.cons_append, numberTail_fraction all digit others blank]
    refine ⟨rfl, ?_⟩
    simp only [List.length_append, List.length_cons]
    omega

/-- So does a word. -/
theorem word_before_blank (rest more : List Char) :
    (rest.takeWhile continuesName ++ ' ' :: more).takeWhile continuesName =
      rest.takeWhile continuesName :=
  takeWhile_of_stop (fun _ inside => List.mem_takeWhile_imp inside) (by simp +decide)

theorem stringTail_of_stop {text back : List Char}
    (inside : ∀ c ∈ text, (c != '\x22' && c != '\n') = true)
    (stops : ∀ c ∈ back.head?, (c != '\x22' && c != '\n') = false) :
    stringTail (text ++ back) = if back.head? = some '\x22' then (.string, text.length + 1)
      else (.invalid .unterminatedString, text.length) := by
  unfold stringTail
  rw [takeWhile_of_stop inside stops]
  dsimp only
  rw [List.getElem?_append_right (Nat.le_refl _), Nat.sub_self, List.head?_eq_getElem?]

/-- A string ends with its second quote, whatever follows. -/
theorem stringTail_before_blank {rest : List Char} {kind : Kind} {n : Nat}
    (found : stringTail rest = (kind, n)) (valid : ∀ flaw, kind ≠ .invalid flaw)
    (more : List Char) : stringTail (rest.take n ++ ' ' :: more) = (kind, n) ∧ n ≤ rest.length := by
  obtain ⟨text, back, rfl, inside, stops⟩ := exists_stop (fun c => c != '\x22' && c != '\n') rest
  rw [stringTail_of_stop inside stops] at found
  split at found
  · rename_i closed
    cases found
    obtain ⟨others, rfl⟩ := List.head?_eq_some_iff.mp closed
    rw [List.take_length_add_append, List.append_assoc]
    refine ⟨?_, by simp⟩
    rw [stringTail_of_stop inside (by simp), if_pos (by simp)]
  · cases found
    exact absurd rfl (valid _)

/-- The kind of a token and its end do not change when a blank follows. -/
theorem classify_before_blank {c : Char} {rest : List Char} {kind : Kind} {n : Nat}
    (found : classify c rest = (kind, n)) (valid : ∀ flaw, kind ≠ .invalid flaw)
    (more : List Char) :
    classify c (rest.take n ++ ' ' :: more) = (kind, n) ∧ n ≤ rest.length := by
  unfold classify at found ⊢
  by_cases digit : c.isDigit = true
  · rw [if_pos digit] at found ⊢
    cases found
    obtain ⟨same, bound⟩ := numberTail_before_blank rest more
    exact ⟨by rw [same], bound⟩
  rw [if_neg digit] at found ⊢
  by_cases letter : startsName c = true
  · rw [if_pos letter] at found ⊢
    cases found
    rw [← List.prefix_iff_eq_take.mp (List.takeWhile_prefix _), word_before_blank]
    exact ⟨rfl, (List.takeWhile_sublist _).length_le⟩
  rw [if_neg letter] at found ⊢
  split at found
  case h_26 => exact stringTail_before_blank found valid more
  case h_27 =>
    cases found
    exact absurd rfl (valid _)
  all_goals
    cases found
    exact ⟨rfl, by simp⟩

/-! ## Shapes that are read back -/

/-- In front of a blank, the text of the shape is cut as this shape. -/
def Shape.Rescans (s : Shape) : Prop :=
  (∀ flaw, s.kind ≠ .invalid flaw) ∧ ∃ c tail, s.lexeme.toList = c :: tail ∧ ∀ more,
    afterBlanks (c :: (tail ++ ' ' :: more)) = c :: (tail ++ ' ' :: more) ∧
      classify c (tail ++ ' ' :: more) = (s.kind, tail.length)

theorem lexemeOf_valid {kind : Kind} (valid : ∀ flaw, kind ≠ .invalid flaw) (text : List Char) :
    lexemeOf kind text = String.ofList text := by
  unfold lexemeOf
  split
  · exact absurd rfl (valid _)
  · rfl

/-- What is left after blanks starts neither with a blank nor with a comment. -/
theorem afterBlanks_eq_cons {text rest : List Char} {c : Char}
    (found : afterBlanks text = c :: rest) :
    isBlank c = false ∧ (c == '/' && rest.head? == some '/') = false := by
  fun_induction afterBlanks text with
  | case1 => cases found
  | case2 _ _ _ ih => exact ih found
  | case3 _ _ _ _ ih => exact ih found
  | case4 first others blank comment =>
    cases found
    exact ⟨Bool.eq_false_iff.mpr blank, Bool.eq_false_iff.mpr comment⟩

/-- A lone slash, or whatever else starts no comment, starts none in front of a blank. -/
theorem afterBlanks_before_blank {c : Char} {rest : List Char} {kind : Kind} {n : Nat}
    (cut : classify c rest = (kind, n)) (blank : isBlank c = false) (more : List Char) :
    afterBlanks (c :: (rest.take n ++ ' ' :: more)) = c :: (rest.take n ++ ' ' :: more) := by
  have comment : (c == '/' && (rest.take n ++ ' ' :: more).head? == some '/') = false := by
    by_cases slash : c = '/'
    · subst slash
      have none : (Kind.slash, 0) = (kind, n) := cut
      cases none
      simp
    · simp [slash]
  rw [afterBlanks, if_neg (Bool.eq_false_iff.mp blank), if_neg (Bool.eq_false_iff.mp comment)]

theorem rescans_of_cut {text rest : List Char} {c : Char} {kind : Kind} {n : Nat}
    (found : afterBlanks text = c :: rest) (cut : classify c rest = (kind, n))
    (valid : ∀ flaw, kind ≠ .invalid flaw) :
    Shape.Rescans ⟨kind, lexemeOf kind (c :: rest.take n)⟩ := by
  refine ⟨valid, c, rest.take n, ?_, fun more => ⟨?_, ?_⟩⟩
  · rw [lexemeOf_valid valid, String.toList_ofList]
  · exact afterBlanks_before_blank cut (afterBlanks_eq_cons found).1 more
  · obtain ⟨same, bound⟩ := classify_before_blank cut valid more
    rw [List.length_take, Nat.min_eq_left bound]
    exact same

/-! ## Pieces -/

theorem pieces_of_nil {text : List Char} (found : afterBlanks text = []) (line : Nat) :
    pieces line text = [⟨.finish line, []⟩] := by
  unfold pieces
  split
  · rfl
  · rename_i other
    rw [found] at other
    cases other

theorem pieces_of_cons {text rest : List Char} {c : Char} {kind : Kind} {n : Nat}
    (found : afterBlanks text = c :: rest) (cut : classify c rest = (kind, n)) (line : Nat) :
    pieces line text = ⟨⟨kind, lexemeOf kind (c :: rest.take n), line⟩, rest.drop n⟩ ::
      pieces (if kind = .newline then line + 1 else line) (rest.drop n) := by
  rw [pieces]
  split
  · rename_i other
    rw [found] at other
    cases other
  · rename_i first others other
    rw [found] at other
    cases other
    rw [cut]

theorem pieces_blank (line : Nat) (text : List Char) :
    pieces line (' ' :: text) = pieces line text := by
  cases found : afterBlanks text with
  | nil => rw [pieces_of_nil found, pieces_of_nil ((afterBlanks_blank text).trans found)]
  | cons c rest =>
    rcases cut : classify c rest with ⟨kind, n⟩
    rw [pieces_of_cons found cut, pieces_of_cons ((afterBlanks_blank text).trans found) cut]

/-- The tokens of these shapes on the lines that they are on. -/
def numbered : Nat → List Shape → List Token
  | line, [] => [.finish line]
  | line, s :: shapes =>
    ⟨s.kind, s.lexeme, line⟩ :: numbered (if s.kind = .newline then line + 1 else line) shapes

/-- The texts of the shapes, with a blank behind each. -/
def spaced (shapes : List Shape) : List Char := shapes.flatMap fun s => s.lexeme.toList ++ [' ']

/-- Whatever is written down with blanks is read back. -/
theorem pieces_spaced {shapes : List Shape} (rescan : ∀ s ∈ shapes, s.Rescans) (line : Nat) :
    (pieces line (spaced shapes)).map (·.token) = numbered line shapes := by
  induction shapes generalizing line with
  | nil => rw [show spaced [] = [] from rfl, pieces_of_nil (by rw [afterBlanks])]; rfl
  | cons s shapes ih =>
    obtain ⟨valid, c, tail, lexeme, reads⟩ := rescan s List.mem_cons_self
    obtain ⟨found, cut⟩ := reads (spaced shapes)
    have text : spaced (s :: shapes) = c :: (tail ++ ' ' :: spaced shapes) := by
      simp [spaced, lexeme]
    rw [text, pieces_of_cons found cut, List.map_cons, List.take_left, List.drop_left, pieces_blank,
      ih (fun other inside => rescan other (List.mem_cons_of_mem _ inside)), lexemeOf_valid valid,
      ← lexeme, String.ofList_toList]
    rfl

/-- A text whose tokens are all valid gives shapes that can be read back. -/
theorem exists_shapes {line : Nat} {text : List Char}
    (valid : ∀ piece ∈ pieces line text, piece.token.Valid) :
    ∃ shapes, (pieces line text).map (·.token) = numbered line shapes ∧
    ∀ s ∈ shapes, s.Rescans := by
  induction size : text.length using Nat.strong_induction_on generalizing line text with
  | _ length ih =>
    cases found : afterBlanks text with
    | nil =>
      refine ⟨[], ?_, nofun⟩
      rw [pieces_of_nil found]
      rfl
    | cons c rest =>
      rcases cut : classify c rest with ⟨kind, n⟩
      have cuts := pieces_of_cons found cut line
      rw [cuts] at valid ⊢
      have shorter : (rest.drop n).length < length := by
        have bound := length_afterBlanks_le text
        rw [found, List.length_cons] at bound
        rw [List.length_drop]
        omega
      obtain ⟨shapes, same, rescan⟩ := ih _ shorter
        (fun piece inside => valid piece (List.mem_cons_of_mem _ inside)) rfl
      refine ⟨⟨kind, lexemeOf kind (c :: rest.take n)⟩ :: shapes, ?_, ?_⟩
      · rw [List.map_cons, same]
        rfl
      · exact List.forall_mem_cons.mpr
          ⟨rescans_of_cut found cut (valid _ List.mem_cons_self), rescan⟩

end Token

end Cellscript
