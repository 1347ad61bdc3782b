import Cellscript.Proofs.Language.Rescanning

/-!
Scanning is longest match. Tokens are numbers, words, strings and signs, each class with a form of
its own. Whatever text is left, the cut takes the longest start of it that is a token, for every
continuation; where no start is a token, it skips a character or an open string.
-/

set_option autoImplicit false

namespace Cellscript

namespace Token

/-! ## Classes -/

def Digit (c : Char) : Prop := '0' ≤ c ∧ c ≤ '9'

/-- The letters of names. -/
def Letter (c : Char) : Prop := ('A' ≤ c ∧ c ≤ 'Z') ∨ ('a' ≤ c ∧ c ≤ 'z') ∨ c = '_'

theorem isDigit_iff {c : Char} : c.isDigit = true ↔ Digit c := by
  simp [Char.isDigit, Digit, Char.le_def]

theorem startsName_iff {c : Char} : startsName c = true ↔ Letter c := by
  delta startsName Char.isAlpha Char.isUpper Char.isLower
  simp [Letter, Char.le_def, or_assoc]

theorem continuesName_iff {c : Char} : continuesName c = true ↔ Letter c ∨ Digit c := by
  rw [continuesName, Bool.or_eq_true, startsName_iff, isDigit_iff]

/-- Words that have a kind of their own. -/
def keywords : List (List Char × Kind) :=
  [(['t', 'r', 'u', 'e'], .yes), (['f', 'a', 'l', 's', 'e'], .no),
    (['p', 'r', 'i', 'n', 't'], .print), (['p', 'r'], .pr)]

/-- Texts that are always the same. -/
def signs : List (List Char × Kind) :=
  [(['\n'], .newline), ([';'], .divider), ([','], .divider),
    (['-'], .minus), (['+'], .plus), (['*'], .star), (['/'], .slash),
    (['('], .leftParen), ([')'], .rightParen), (['\x7b'], .leftCurly), (['\x7d'], .rightCurly),
    (['|'], .pipe), (['\x27'], .quote), (['.'], .dot), (['.', '.', '.'], .dots),
    (['!'], .bang), (['!', '='], .bangEqual),
    (['='], .equal), (['=', '='], .equalEqual), (['=', '>'], .equalGreater),
    (['<'], .less), (['<', '='], .lessEqual), (['<', '=', '>'], .lessEqualGreater),
    (['>'], .greater), (['>', '='], .greaterEqual)]

/-- The texts that are tokens, with their kinds. -/
inductive Belongs : List Char → Kind → Prop
  | whole {d : Char} {digits : List Char} (first : Digit d) (all : ∀ d ∈ digits, Digit d) :
      Belongs (d :: digits) .number
  | fraction {d e : Char} {digits more : List Char} (first : Digit d) (all : ∀ d ∈ digits, Digit d)
      (next : Digit e) (others : ∀ d ∈ more, Digit d) :
      Belongs (d :: (digits ++ '.' :: e :: more)) .number
  | name {c : Char} {rest : List Char} (starts : Letter c)
      (continues : ∀ c ∈ rest, Letter c ∨ Digit c)
      (free : ∀ kind, (c :: rest, kind) ∉ keywords) : Belongs (c :: rest) .name
  | keyword {text : List Char} {kind : Kind} (listed : (text, kind) ∈ keywords) : Belongs text kind
  | string {text : List Char} (inside : ∀ c ∈ text, c ≠ '\x22' ∧ c ≠ '\n') :
      Belongs ('\x22' :: (text ++ ['\x22'])) .string
  | sign {text : List Char} {kind : Kind} (listed : (text, kind) ∈ signs) : Belongs text kind

theorem belongs_word {c : Char} {rest : List Char} (starts : Letter c)
    (continues : ∀ c ∈ rest, Letter c ∨ Digit c) : Belongs (c :: rest) (wordKind (c :: rest)) := by
  unfold wordKind
  split_ifs with yes no print pr
  · exact .keyword (by simp [keywords, yes])
  · exact .keyword (by simp [keywords, no])
  · exact .keyword (by simp [keywords, print])
  · exact .keyword (by simp [keywords, pr])
  · refine .name starts continues ?_
    intro kind listed
    simp only [keywords, List.mem_cons, Prod.mk.injEq, List.not_mem_nil, or_false] at listed
    rcases listed with ⟨same, _⟩ | ⟨same, _⟩ | ⟨same, _⟩ | ⟨same, _⟩
    · exact yes same
    · exact no same
    · exact print same
    · exact pr same

theorem wordKind_of_keyword {text : List Char} {kind : Kind} (listed : (text, kind) ∈ keywords) :
    wordKind text = kind := by
  have table : ∀ word ∈ keywords, wordKind word.1 = word.2 := by decide
  exact table _ listed

theorem wordKind_of_free {text : List Char} (free : ∀ kind, (text, kind) ∉ keywords) :
    wordKind text = .name := by
  unfold wordKind
  split_ifs with yes no print pr
  · exact absurd (by simp [keywords, yes]) (free .yes)
  · exact absurd (by simp [keywords, no]) (free .no)
  · exact absurd (by simp [keywords, print]) (free .print)
  · exact absurd (by simp [keywords, pr]) (free .pr)
  · rfl

theorem letters_of_keyword {text : List Char} {kind : Kind} (listed : (text, kind) ∈ keywords) :
    ∃ c rest, text = c :: rest ∧ startsName c = true ∧ ∀ c ∈ rest, continuesName c = true := by
  have table : ∀ word ∈ keywords, word.1.head?.any startsName = true ∧
      word.1.tail.all continuesName = true := by decide
  obtain ⟨starts, continues⟩ := table _ listed
  cases text with
  | nil => cases starts
  | cons c rest => exact ⟨c, rest, rfl, starts, List.all_eq_true.mp continues⟩

/-! ## Numbers -/

theorem length_le_takeWhile {p : Char → Bool} {front text : List Char} (pre : front <+: text)
    (all : ∀ c ∈ front, p c = true) : front.length ≤ (text.takeWhile p).length := by
  obtain ⟨back, rfl⟩ := pre
  rw [List.takeWhile_append_of_pos all, List.length_append]
  exact Nat.le_add_right _ _

theorem belongs_number {c : Char} (digit : c.isDigit = true) (rest : List Char) :
    Belongs (c :: rest.take (numberTail rest)) .number ∧ numberTail rest ≤ rest.length := by
  obtain ⟨digits, back, rfl, all, stops, plain⟩ |
    ⟨digits, d, fraction, back, rfl, all, next, more, stops⟩ := numberTail_split rest
  · rw [numberTail_whole all stops plain, List.take_left]
    exact ⟨.whole (isDigit_iff.mp digit) fun d inside => isDigit_iff.mp (all d inside), by simp⟩
  · rw [numberTail_fraction all next more stops, take_fraction]
    refine ⟨.fraction (isDigit_iff.mp digit) (fun d inside => isDigit_iff.mp (all d inside))
      (isDigit_iff.mp next) fun d inside => isDigit_iff.mp (more d inside), ?_⟩
    simp only [List.length_append, List.length_cons]
    omega

theorem length_le_numberTail_of_whole {digits rest : List Char} (pre : digits <+: rest)
    (all : ∀ d ∈ digits, d.isDigit = true) : digits.length ≤ numberTail rest := by
  refine (length_le_takeWhile pre all).trans ?_
  unfold numberTail
  dsimp only
  split
  · split
    · omega
    · exact Nat.le_refl _
  · exact Nat.le_refl _

theorem length_le_numberTail_of_fraction {digits more rest : List Char} {d : Char}
    (pre : digits ++ '.' :: d :: more <+: rest) (all : ∀ d ∈ digits, d.isDigit = true)
    (next : d.isDigit = true) (others : ∀ d ∈ more, d.isDigit = true) :
    (digits ++ '.' :: d :: more).length ≤ numberTail rest := by
  obtain ⟨back, rfl⟩ := pre
  obtain ⟨fraction, tail, split, run, stops⟩ := exists_stop Char.isDigit (more ++ back)
  have longer : more.length ≤ fraction.length := by
    have bound := length_le_takeWhile (List.prefix_append more back) others
    rwa [split, takeWhile_of_stop run stops] at bound
  rw [List.append_assoc, List.cons_append, List.cons_append, split,
    numberTail_fraction all next run stops]
  simp only [List.length_append, List.length_cons]
  omega

/-! ## Signs -/

theorem sign_head {front rest : List Char} {kind : Kind} {c : Char}
    (listed : (front, kind) ∈ signs) (pre : front <+: c :: rest) : front.head? = some c := by
  have table : ∀ sign ∈ signs, sign.1 ≠ [] := by decide
  cases front with
  | nil => exact absurd rfl (table _ listed)
  | cons first tail => rw [(List.cons_prefix_cons.mp pre).1, List.head?_cons]

/-- The signs that start with a character. -/
def signsFrom (c : Char) : List (List Char × Kind) := signs.filter fun sign => sign.1.head? = some c

theorem mem_signsFrom {front rest : List Char} {kind : Kind} {c : Char}
    (listed : (front, kind) ∈ signs) (pre : front <+: c :: rest) : (front, kind) ∈ signsFrom c :=
  List.mem_filter.mpr ⟨listed, decide_eq_true (sign_head listed pre)⟩

theorem sign_valid {text : List Char} {kind : Kind} (listed : (text, kind) ∈ signs) (flaw : Flaw) :
    kind ≠ .invalid flaw := by
  have table : ∀ sign ∈ signs, sign.2 ≠ .invalid .unterminatedString ∧
      sign.2 ≠ .invalid .unexpectedCharacter := by decide
  cases flaw with
  | unterminatedString => exact (table _ listed).1
  | unexpectedCharacter => exact (table _ listed).2

theorem sign_kind {text : List Char} {kind other : Kind} (listed : (text, kind) ∈ signs)
    (also : (text, other) ∈ signs) : kind = other := by
  have table : ∀ a ∈ signs, ∀ b ∈ signs, a.1 = b.1 → a.2 = b.2 := by decide
  exact table _ listed _ also rfl

/-- How far a sign reaches that is read from its first character on. -/
theorem classify_sign {c : Char} {rest : List Char} (digit : ¬ c.isDigit = true)
    (letter : ¬ startsName c = true) (quote : c ≠ '\x22') :
    (∃ kind n, classify c rest = (kind, n) ∧ (c :: rest.take n, kind) ∈ signs ∧ n ≤ rest.length ∧
      ∀ front other, (front, other) ∈ signs → front <+: c :: rest → front.length ≤ n + 1) ∨
    (classify c rest = (.invalid .unexpectedCharacter, 0) ∧
      ∀ front other, (front, other) ∈ signs → ¬ front <+: c :: rest) := by
  unfold classify
  rw [if_neg digit, if_neg letter]
  split
  case h_26 => exact absurd rfl quote
  case h_27 =>
    refine .inr ⟨rfl, fun front other listed pre => ?_⟩
    have table : ∀ sign ∈ signs, sign.1.head? ∈
        ['\n', ';', ',', '-', '+', '*', '/', '(', ')', '\x7b', '\x7d', '|', '\x27', '.', '!', '=',
          '<', '>'].map some := by decide
    have first := table _ listed
    rw [sign_head listed pre] at first
    simp only [List.map_cons, List.map_nil, List.mem_cons, Option.some.injEq, List.not_mem_nil,
      or_false] at first
    rcases first with rfl | rfl | rfl | rfl | rfl | rfl | rfl | rfl | rfl | rfl | rfl | rfl
      | rfl | rfl | rfl | rfl | rfl | rfl <;> simp at *
  all_goals
    refine .inl ⟨_, _, rfl, ?_, by simp, fun front other listed pre => ?_⟩
    · simp only [List.take_zero, List.take_succ_cons]
      decide
    · -- at most three signs start with the character, and what follows it excludes the longer ones
      have found := mem_signsFrom listed pre
      simp +decide only [signsFrom, signs, List.filter_cons, List.filter_nil, ↓reduceIte,
        List.mem_cons, Prod.mk.injEq, List.not_mem_nil, or_false] at found
      rcases found with ⟨rfl, rfl⟩ | ⟨rfl, rfl⟩ | ⟨rfl, rfl⟩ <;> simp_all [List.cons_prefix_iff]

/-! ## Cuts -/

theorem startsName_of_digit {c : Char} (digit : c.isDigit = true) : startsName c = false := by
  rw [Bool.eq_false_iff]
  intro letter
  have numeral := isDigit_iff.mp digit
  have spelled := startsName_iff.mp letter
  simp only [Digit, Letter, Char.le_def, UInt32.le_iff_toNat_le] at numeral spelled
  rcases spelled with big | small | rfl
  · have apart : '9'.val.toNat < 'A'.val.toNat := by decide
    omega
  · have apart : '9'.val.toNat < 'a'.val.toNat := by decide
    omega
  · revert numeral
    decide

theorem classify_digit {c : Char} (digit : c.isDigit = true) (rest : List Char) :
    classify c rest = (.number, numberTail rest) := by
  unfold classify
  rw [if_pos digit]

theorem classify_letter {c : Char} (letter : startsName c = true) (rest : List Char) :
    classify c rest =
      (wordKind (c :: rest.takeWhile continuesName), (rest.takeWhile continuesName).length) := by
  have digit : ¬ c.isDigit = true := by
    intro digit
    rw [startsName_of_digit digit] at letter
    cases letter
  unfold classify
  rw [if_neg digit, if_pos letter]

theorem classify_quote (rest : List Char) : classify '\x22' rest = stringTail rest := rfl

/-- What is skipped where no token starts: one character, or a quote and the rest of its line. -/
inductive Rejected : Flaw → List Char → List Char → Prop
  | character {c : Char} {rest : List Char} (other : c ≠ '\x22') :
      Rejected .unexpectedCharacter [c] rest
  | string {text rest : List Char} (inside : ∀ c ∈ text, c ≠ '\x22' ∧ c ≠ '\n')
      (ends : ∀ c ∈ rest.head?, c = '\n') : Rejected .unterminatedString ('\x22' :: text) rest

/-- A cut off token belongs to its kind. What is no token is skipped. -/
inductive Outcome (c : Char) (rest : List Char) : Kind → Nat → Prop
  | token {kind : Kind} {n : Nat} (belongs : Belongs (c :: rest.take n) kind)
      (bound : n ≤ rest.length) : Outcome c rest kind n
  | invalid {flaw : Flaw} {n : Nat} (rejected : Rejected flaw (c :: rest.take n) (rest.drop n)) :
      Outcome c rest (.invalid flaw) n

theorem outcome_of_string {rest : List Char} {kind : Kind} {n : Nat}
    (cut : stringTail rest = (kind, n)) : Outcome '\x22' rest kind n := by
  obtain ⟨text, back, rfl, inside, stops⟩ := exists_stop (fun c => c != '\x22' && c != '\n') rest
  have plain : ∀ c ∈ text, c ≠ '\x22' ∧ c ≠ '\n' := by simpa using inside
  rw [stringTail_of_stop inside stops] at cut
  split at cut
  · rename_i closed
    cases cut
    obtain ⟨others, rfl⟩ := List.head?_eq_some_iff.mp closed
    refine .token ?_ (by simp)
    rw [List.take_length_add_append]
    exact .string plain
  · rename_i unclosed
    cases cut
    refine .invalid ?_
    rw [List.take_left, List.drop_left]
    refine .string plain fun c first => ?_
    have stop := stops c first
    simp only [Bool.and_eq_false_iff, bne_eq_false_iff_eq] at stop
    rcases stop with rfl | line
    · exact absurd first unclosed
    · exact line

theorem outcome_of_classify {c : Char} {rest : List Char} {kind : Kind} {n : Nat}
    (cut : classify c rest = (kind, n)) : Outcome c rest kind n := by
  by_cases digit : c.isDigit = true
  · rw [classify_digit digit] at cut
    cases cut
    obtain ⟨belongs, bound⟩ := belongs_number digit rest
    exact .token belongs bound
  by_cases letter : startsName c = true
  · rw [classify_letter letter] at cut
    cases cut
    refine .token ?_ (List.takeWhile_sublist _).length_le
    rw [← List.prefix_iff_eq_take.mp (List.takeWhile_prefix _)]
    refine belongs_word (startsName_iff.mp letter) fun d inside => ?_
    exact continuesName_iff.mp (List.mem_takeWhile_imp inside)
  by_cases quote : c = '\x22'
  · subst quote
    exact outcome_of_string cut
  · obtain ⟨found, m, same, listed, bound, _⟩ | ⟨unknown, _⟩ := classify_sign digit letter quote
    · cases cut.symm.trans same
      exact .token (.sign listed) bound
    · cases cut.symm.trans unknown
      exact .invalid (.character quote)

/-! ## Reach -/

/-- A cut that reaches at least as far as this text, and that is of this kind if it reaches no
further. -/
def Reaches (cut : Kind × Nat) (front : List Char) (kind : Kind) : Prop :=
  (∀ flaw, cut.1 ≠ .invalid flaw) ∧
    (front.length < cut.2 + 1 ∨ front.length = cut.2 + 1 ∧ cut.1 = kind)

theorem reaches_of_le {kind : Kind} {n : Nat} {front : List Char}
    (valid : ∀ flaw, kind ≠ .invalid flaw)
    (bound : front.length ≤ n + 1) : Reaches (kind, n) front kind := by
  refine ⟨valid, ?_⟩
  rcases Nat.lt_or_eq_of_le bound with shorter | same
  · exact .inl shorter
  · exact .inr ⟨same, rfl⟩

theorem wordKind_valid (word : List Char) (flaw : Flaw) : wordKind word ≠ .invalid flaw := by
  unfold wordKind
  split_ifs <;> exact nofun

theorem reaches_word {c : Char} {tail rest : List Char} (pre : tail <+: rest)
    (starts : startsName c = true) (continues : ∀ d ∈ tail, continuesName d = true) :
    Reaches (classify c rest) (c :: tail) (wordKind (c :: tail)) := by
  rw [classify_letter starts]
  refine ⟨wordKind_valid _, ?_⟩
  have bound := length_le_takeWhile pre continues
  rcases Nat.lt_or_eq_of_le bound with shorter | same
  · exact .inl (Nat.succ_lt_succ shorter)
  · have equal : tail = rest.takeWhile continuesName :=
      (List.prefix_of_prefix_length_le pre (List.takeWhile_prefix _) bound).eq_of_length same
    exact .inr ⟨congrArg Nat.succ same, by rw [equal]⟩

/-- Nothing that is a token reaches further than the cut. -/
theorem Belongs.reached {front rest : List Char} {kind : Kind} {c : Char}
    (belongs : Belongs front kind) (pre : front <+: c :: rest) :
    Reaches (classify c rest) front kind := by
  cases belongs with
  | whole first all =>
    obtain ⟨rfl, inner⟩ := List.cons_prefix_cons.mp pre
    rw [classify_digit (isDigit_iff.mpr first)]
    have bound := length_le_numberTail_of_whole inner fun d inside => isDigit_iff.mpr (all d inside)
    exact reaches_of_le nofun (Nat.succ_le_succ bound)
  | fraction first all next others =>
    obtain ⟨rfl, inner⟩ := List.cons_prefix_cons.mp pre
    rw [classify_digit (isDigit_iff.mpr first)]
    have bound := length_le_numberTail_of_fraction inner
      (fun d inside => isDigit_iff.mpr (all d inside))
      (isDigit_iff.mpr next) fun d inside => isDigit_iff.mpr (others d inside)
    exact reaches_of_le nofun (Nat.succ_le_succ bound)
  | name starts continues free =>
    obtain ⟨rfl, inner⟩ := List.cons_prefix_cons.mp pre
    have reaches := reaches_word inner (startsName_iff.mpr starts)
      fun d inside => continuesName_iff.mpr (continues d inside)
    rwa [wordKind_of_free free] at reaches
  | keyword listed =>
    obtain ⟨d, tail, rfl, starts, continues⟩ := letters_of_keyword listed
    obtain ⟨rfl, inner⟩ := List.cons_prefix_cons.mp pre
    have reaches := reaches_word inner starts continues
    rwa [wordKind_of_keyword listed] at reaches
  | @string text inside =>
    obtain ⟨rfl, back, rfl⟩ := List.cons_prefix_cons.mp pre
    have unquoted : ∀ c ∈ text, (c != '\x22' && c != '\n') = true := by simpa using inside
    rw [classify_quote, List.append_assoc, stringTail_of_stop unquoted (by simp), if_pos (by simp)]
    exact reaches_of_le nofun (by simp)
  | sign listed =>
    have heads : ∀ sign ∈ signs, sign.1.head?.any Char.isDigit = false ∧
        sign.1.head?.any startsName = false ∧ sign.1.head? ≠ some '\x22' := by decide
    have first := heads _ listed
    rw [sign_head listed pre] at first
    have digit : ¬ c.isDigit = true := Bool.eq_false_iff.mp first.1
    have letter : ¬ startsName c = true := Bool.eq_false_iff.mp first.2.1
    have quote : c ≠ '\x22' := fun same => first.2.2 (congrArg some same)
    obtain ⟨found, n, same, cut, _, longest⟩ | ⟨_, none⟩ := classify_sign digit letter quote
    · rw [same]
      refine ⟨sign_valid cut, ?_⟩
      rcases Nat.lt_or_eq_of_le (longest front kind listed pre) with shorter | equal
      · exact .inl shorter
      · have whole : front = c :: rest.take n := by
          rw [List.prefix_iff_eq_take.mp pre, equal, List.take_succ_cons]
        exact .inr ⟨equal, sign_kind cut (whole ▸ listed)⟩
    · exact absurd pre (none front kind listed)

/-! ## The longest token -/

/-- The text starts with this token, and with none that is longer. -/
structure Longest (input token rest : List Char) (kind : Kind) : Prop where
  split : input = token ++ rest
  belongs : Belongs token kind
  longest : ∀ front other, front <+: input → Belongs front other → front.length ≤ token.length

theorem Belongs.ne_nil {text : List Char} {kind : Kind} (belongs : Belongs text kind) :
    text ≠ [] := by
  cases belongs with
  | whole | fraction | name | string => exact List.cons_ne_nil _ _
  | keyword listed =>
    have table : ∀ word ∈ keywords, word.1 ≠ [] := by decide
    exact table _ listed
  | sign listed =>
    have table : ∀ sign ∈ signs, sign.1 ≠ [] := by decide
    exact table _ listed

theorem Belongs.ne_finish {text : List Char} {kind : Kind} (belongs : Belongs text kind) :
    kind ≠ .finish := by
  cases belongs with
  | whole | fraction | name | string => exact nofun
  | keyword listed =>
    have table : ∀ word ∈ keywords, word.2 ≠ .finish := by decide
    exact table _ listed
  | sign listed =>
    have table : ∀ sign ∈ signs, sign.2 ≠ .finish := by decide
    exact table _ listed

theorem Belongs.ne_invalid {text : List Char} {kind : Kind} (belongs : Belongs text kind)
    (flaw : Flaw) : kind ≠ .invalid flaw := by
  cases belongs with
  | whole | fraction | name | string => exact nofun
  | keyword listed =>
    rw [← wordKind_of_keyword listed]
    exact wordKind_valid _ flaw
  | sign listed => exact sign_valid listed flaw

section Cut

variable {c : Char} {rest : List Char} {kind : Kind} {n : Nat}

theorem belongs_of_classify (cut : classify c rest = (kind, n))
    (valid : ∀ flaw, kind ≠ .invalid flaw) :
    Belongs (c :: rest.take n) kind ∧ (c :: rest.take n).length = n + 1 := by
  cases outcome_of_classify cut with
  | token belongs bound => exact ⟨belongs, by simp [bound]⟩
  | invalid _ => exact absurd rfl (valid _)

theorem classify_ne_finish (cut : classify c rest = (kind, n)) : kind ≠ .finish := by
  cases outcome_of_classify cut with
  | token belongs _ => exact belongs.ne_finish
  | invalid _ => exact nofun

theorem longest_of_classify (cut : classify c rest = (kind, n))
    (valid : ∀ flaw, kind ≠ .invalid flaw) :
    Longest (c :: rest) (c :: rest.take n) (rest.drop n) kind := by
  obtain ⟨belongs, size⟩ := belongs_of_classify cut valid
  refine ⟨by simp, belongs, fun front other pre also => ?_⟩
  have reaches := also.reached pre
  rw [cut] at reaches
  rw [size]
  rcases reaches.2 with shorter | ⟨same, _⟩
  · exact Nat.le_of_lt shorter
  · exact Nat.le_of_eq same

/-- The longest token is the one that is cut off. -/
theorem Longest.eq_cut {token others : List Char} {other : Kind} (cut : classify c rest = (kind, n))
    (longest : Longest (c :: rest) token others other) :
    (∀ flaw, kind ≠ .invalid flaw) ∧ token = c :: rest.take n ∧ others = rest.drop n ∧
    other = kind := by
  have pre : token <+: c :: rest := ⟨others, longest.split.symm⟩
  obtain ⟨valid, reaches⟩ := longest.belongs.reached pre
  rw [cut] at valid reaches
  obtain ⟨belongs, size⟩ := belongs_of_classify cut valid
  have back := longest.longest _ _ ⟨rest.drop n, by simp⟩ belongs
  rw [size] at back
  rcases reaches with shorter | ⟨same, kinds⟩
  · exact absurd shorter (Nat.not_lt.mpr back)
  · have whole : token = c :: rest.take n := by
      rw [List.prefix_iff_eq_take.mp pre, same, List.take_succ_cons]
    refine ⟨valid, whole, ?_, kinds.symm⟩
    have split := longest.split
    rw [whole, List.cons_append, List.cons.injEq] at split
    exact List.append_cancel_left (split.2.symm.trans (List.take_append_drop n rest).symm)

end Cut

/-! ## Gaps -/

/-- What may be skipped in front of a text: blanks, and a comment up to the end of its line. -/
inductive Gap : List Char → List Char → Prop
  | blanks {text rest : List Char} (all : ∀ c ∈ text, c = ' ' ∨ c = '\t' ∨ c = '\r') : Gap text rest
  | comment {text words rest : List Char} (all : ∀ c ∈ text, c = ' ' ∨ c = '\t' ∨ c = '\r')
      (inside : '\n' ∉ words) (ends : ∀ c ∈ rest.head?, c = '\n') :
      Gap (text ++ '/' :: '/' :: words) rest

theorem isBlank_iff {c : Char} : isBlank c = true ↔ c = ' ' ∨ c = '\t' ∨ c = '\r' := by
  simp [isBlank, or_assoc]

theorem Gap.nil {rest : List Char} : Gap [] rest := .blanks (List.forall_mem_nil _)

theorem Gap.cons {c : Char} {text rest : List Char} (blank : isBlank c = true)
    (gap : Gap text rest) : Gap (c :: text) rest := by
  have first := isBlank_iff.mp blank
  cases gap with
  | blanks all => exact .blanks (List.forall_mem_cons.mpr ⟨first, all⟩)
  | @comment front words _ all inside ends =>
    exact .comment (List.forall_mem_cons.mpr ⟨first, all⟩) inside ends

/-- What a comment leaves starts with the end of its line, where nothing more is skipped. -/
theorem afterBlanks_line (text : List Char) :
    afterBlanks (text.dropWhile (· != '\n')) = text.dropWhile (· != '\n') ∧
      ∀ c ∈ (text.dropWhile (· != '\n')).head?, c = '\n' := by
  have stops := List.head?_dropWhile_not (· != '\n') text
  cases left : text.dropWhile (· != '\n') with
  | nil => exact ⟨by rw [afterBlanks], nofun⟩
  | cons c rest =>
    rw [left] at stops
    have newline : c = '\n' := by simpa using stops
    subst newline
    refine ⟨?_, by simp⟩
    rw [afterBlanks, if_neg (by decide), if_neg (by simp)]

theorem gap_afterBlanks (text : List Char) :
    ∃ gap, text = gap ++ afterBlanks text ∧ Gap gap (afterBlanks text) := by
  fun_induction afterBlanks text with
  | case1 => exact ⟨[], rfl, .nil⟩
  | case2 c rest blank ih =>
    obtain ⟨gap, split, skipped⟩ := ih
    exact ⟨c :: gap, congrArg (c :: ·) split, skipped.cons blank⟩
  | case3 c rest _ comment _ =>
    obtain ⟨same, ends⟩ := afterBlanks_line rest
    obtain ⟨rfl, second⟩ : c = '/' ∧ rest.head? = some '/' := by simpa using comment
    obtain ⟨words, rfl⟩ := List.head?_eq_some_iff.mp second
    rw [same]
    have line : ('/' :: words).takeWhile (· != '\n') = '/' :: words.takeWhile (· != '\n') := rfl
    refine ⟨'/' :: '/' :: words.takeWhile (· != '\n'), ?_, ?_⟩
    · rw [← line, List.cons_append, List.takeWhile_append_dropWhile]
    · have inside : '\n' ∉ words.takeWhile (· != '\n') := by
        intro member
        simpa using List.mem_takeWhile_imp member
      exact Gap.comment (List.forall_mem_nil _) inside ends
  | case4 c rest _ _ => exact ⟨[], rfl, .nil⟩

/-- Neither a blank nor a comment stands in front of the text. -/
structure Clear (text : List Char) : Prop where
  blank : ∀ c ∈ text.head?, c ≠ ' ' ∧ c ≠ '\t' ∧ c ≠ '\r'
  comment : ¬ ['/', '/'] <+: text

theorem Clear.nil : Clear [] := ⟨nofun, by simp⟩

theorem Clear.of_afterBlanks {text rest : List Char} {c : Char}
    (found : afterBlanks text = c :: rest) : Clear (c :: rest) := by
  obtain ⟨blank, comment⟩ := afterBlanks_eq_cons found
  refine ⟨fun first same => ?_, fun pre => ?_⟩
  · cases same
    simpa [isBlank, and_assoc] using blank
  · obtain ⟨more, same⟩ := pre
    cases same
    cases comment

/-! ## Pieces -/

/-- What scanning takes from the start of a text in front of which there is nothing to skip. -/
structure TakesLongest (line : Nat) (input : List Char) (piece : Piece) : Prop where
  finishes : piece.token.kind = .finish ↔ input = []
  token : ∀ token rest kind, Longest input token rest kind ↔
    kind ≠ .finish ∧ (∀ flaw, kind ≠ .invalid flaw) ∧
      piece = ⟨⟨kind, String.ofList token, line⟩, rest⟩
  invalid : (∃ flaw, piece.token.kind = .invalid flaw) ↔
    input ≠ [] ∧ ∀ front kind, front ≠ [] → front <+: input → ¬ Belongs front kind
  skipped : ∀ flaw, piece.token.kind = .invalid flaw →
    ∃ skipped, input = skipped ++ piece.rest ∧ Rejected flaw skipped piece.rest

theorem takesLongest_nil (line : Nat) : TakesLongest line [] ⟨.finish line, []⟩ where
  finishes := by simp [Token.finish]
  token token rest kind := by
    constructor
    · intro longest
      obtain ⟨rfl, rfl⟩ := List.append_eq_nil_iff.mp longest.split.symm
      exact absurd rfl longest.belongs.ne_nil
    · rintro ⟨other, _, same⟩
      exact absurd (congrArg (fun piece => piece.token.kind) same).symm other
  invalid := by simp [Token.finish]
  skipped := by simp [Token.finish]

theorem takesLongest_cons {c : Char} {rest : List Char} {kind : Kind} {n : Nat} (line : Nat)
    (cut : classify c rest = (kind, n)) : TakesLongest line (c :: rest)
      ⟨⟨kind, lexemeOf kind (c :: rest.take n), line⟩, rest.drop n⟩ where
  finishes := by
    simp [classify_ne_finish cut]
  token token others other := by
    constructor
    · intro longest
      obtain ⟨valid, rfl, rfl, rfl⟩ := longest.eq_cut cut
      exact ⟨classify_ne_finish cut, valid, by rw [lexemeOf_valid valid]⟩
    · rintro ⟨_, valid, same⟩
      simp only [Piece.mk.injEq, Token.mk.injEq] at same
      obtain ⟨⟨rfl, lexeme, _⟩, rfl⟩ := same
      rw [lexemeOf_valid valid] at lexeme
      rw [← String.ofList_injective lexeme]
      exact longest_of_classify cut valid
  invalid := by
    constructor
    · rintro ⟨flaw, rfl⟩
      refine ⟨nofun, fun front other _ pre belongs => ?_⟩
      have reaches := belongs.reached pre
      rw [cut] at reaches
      exact reaches.1 flaw rfl
    · rintro ⟨_, none⟩
      by_contra valid
      have longest := longest_of_classify cut fun flaw same => valid ⟨flaw, same⟩
      exact none _ _ (List.cons_ne_nil _ _) ⟨_, longest.split.symm⟩ longest.belongs
  skipped flaw same := by
    refine ⟨c :: rest.take n, by simp, ?_⟩
    cases outcome_of_classify cut with
    | token belongs _ => exact absurd same (belongs.ne_invalid flaw)
    | invalid rejected =>
      cases same
      exact rejected

/-- Scanning is longest match. Wherever it stands, it skips blanks and a comment until neither a
blank nor a comment stands in front, and the piece that it takes there is the longest text that is a
token. The piece is invalid exactly if none is, and then a character is skipped, or a quote and the
rest of its line. The next piece is taken from what is left. -/
theorem pieces_take_longest_match (line : Nat) (text : List Char) :
    ∃ gap input piece later, text = gap ++ input ∧ Gap gap input ∧ Clear input ∧
      pieces line text = piece :: later ∧ TakesLongest line input piece ∧
      later = if piece.token.kind = .finish then []
        else pieces (if piece.token.kind = .newline then line + 1 else line) piece.rest := by
  obtain ⟨gap, split, skipped⟩ := gap_afterBlanks text
  refine ⟨gap, afterBlanks text, ?_⟩
  cases found : afterBlanks text with
  | nil =>
    rw [found] at split skipped
    exact ⟨_, _, split, skipped, .nil, pieces_of_nil found line, takesLongest_nil line, rfl⟩
  | cons c rest =>
    rw [found] at split skipped
    rcases cut : classify c rest with ⟨kind, n⟩
    refine ⟨_, _, split, skipped, .of_afterBlanks found, pieces_of_cons found cut line,
      takesLongest_cons line cut, ?_⟩
    rw [if_neg (classify_ne_finish cut)]

end Token

end Cellscript
