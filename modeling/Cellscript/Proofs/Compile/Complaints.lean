import Cellscript.Proofs.Compile.Habits

/-!
Complaints are never withdrawn, and a pass panics only after a complaint. So when a pass has ended
without complaints, there were none on the way and it never panicked. While a pass panics nothing is
recorded, and only recovery ends a panic.
-/

set_option autoImplicit false

namespace Cellscript

def Token.Kind.isInvalid : Token.Kind → Bool
  | .invalid _ => true
  | _ => false

theorem Token.Kind.invalid_or_valid (kind : Token.Kind) :
    (∃ flaw, kind = .invalid flaw) ∨ ∀ flaw, kind ≠ .invalid flaw :=
  (Classical.em _).imp_right not_exists.mp

/-- The tokens from the next valid one on. -/
def validAhead (tokens : List Token) : List Token := tokens.dropWhile (·.kind.isInvalid)

theorem validAhead_invalid {token : Token} {flaw : Token.Flaw}
    (invalid : token.kind = .invalid flaw)
    (rest : List Token) : validAhead (token :: rest) = validAhead rest :=
  List.dropWhile_cons_of_pos (by rw [invalid]; rfl)

theorem validAhead_stops {token : Token} (valid : ∀ flaw, token.kind ≠ .invalid flaw)
    (rest : List Token) : validAhead (token :: rest) = token :: rest := by
  refine List.dropWhile_cons_of_neg fun invalid => ?_
  unfold Token.Kind.isInvalid at invalid
  split at invalid
  · exact valid _ ‹_›
  · cases invalid

namespace Pass

/-- A panic has a reason. -/
def Honest (p : Pass) : Prop := p.panicking = true → p.diagnostics ≠ []

/-- What a pass does to complaints, recovery included. -/
structure Follows (p q : Pass) : Prop where
  keeps : p.diagnostics <+: q.diagnostics
  honest : p.Honest → q.Honest

namespace Follows

variable {p q r : Pass}

theorem refl (p : Pass) : p.Follows p := ⟨List.prefix_rfl, id⟩

theorem trans (first : p.Follows q) (second : q.Follows r) : p.Follows r :=
  ⟨first.keeps.trans second.keeps, second.honest ∘ first.honest⟩

theorem quiet (follows : p.Follows q) (quiet : q.diagnostics = []) : p.diagnostics = [] :=
  List.prefix_nil.mp (quiet ▸ follows.keeps)

end Follows

/-- What every part of a pass but recovery does to complaints: the first one is recorded and starts
a panic, in which no other is recorded. -/
structure Heeds (p q : Pass) : Prop where
  deaf : p.panicking = true → q.panicking = true ∧ q.diagnostics = p.diagnostics
  alert : p.panicking = false →
    q.panicking = false ∧ q.diagnostics = p.diagnostics ∨
      q.panicking = true ∧ ∃ d, q.diagnostics = p.diagnostics ++ [d]

namespace Heeds

variable {p q r : Pass}

/-- Whatever leaves complaints and panic alone. -/
theorem of_same (diagnostics : q.diagnostics = p.diagnostics)
    (panicking : q.panicking = p.panicking) : p.Heeds q := by
  constructor
  · intro panics
    exact ⟨panicking.trans panics, diagnostics⟩
  · intro calm
    exact Or.inl ⟨panicking.trans calm, diagnostics⟩

theorem refl (p : Pass) : p.Heeds p := .of_same rfl rfl

theorem trans (first : p.Heeds q) (second : q.Heeds r) : p.Heeds r := by
  constructor
  · intro panics
    obtain ⟨still, same⟩ := first.deaf panics
    rw [← same]
    exact second.deaf still
  · intro calm
    rcases first.alert calm with ⟨still, same⟩ | ⟨panics, recorded⟩
    · rw [← same]
      exact second.alert still
    · obtain ⟨still, same⟩ := second.deaf panics
      rw [same]
      exact Or.inr ⟨still, recorded⟩

theorem follows (heeds : p.Heeds q) : p.Follows q := by
  cases panics : p.panicking with
  | true =>
    obtain ⟨_, same⟩ := heeds.deaf panics
    refine ⟨same ▸ List.prefix_rfl, fun honest _ => ?_⟩
    rw [same]
    exact honest panics
  | false =>
    rcases heeds.alert panics with ⟨calm, same⟩ | ⟨_, d, recorded⟩
    · refine ⟨same ▸ List.prefix_rfl, fun _ still => ?_⟩
      rw [calm] at still
      cases still
    · refine ⟨recorded ▸ List.prefix_append _ _, fun _ _ => ?_⟩
      simp [recorded]

theorem calm (heeds : p.Heeds q) (calm : q.panicking = false) : p.panicking = false := by
  cases panics : p.panicking with
  | false => rfl
  | true =>
    rw [(heeds.deaf panics).1] at calm
    cases calm

/-- Where nothing was recorded, nothing has started a panic. -/
theorem calm_of_same (heeds : p.Heeds q) (calm : p.panicking = false)
    (same : q.diagnostics = p.diagnostics) : q.panicking = false := by
  rcases heeds.alert calm with ⟨still, _⟩ | ⟨_, d, recorded⟩
  · exact still
  · rw [same] at recorded
    have longer := congrArg List.length recorded
    rw [List.length_append, List.length_singleton] at longer
    omega

theorem quiet (heeds : p.Heeds q) (quiet : q.diagnostics = []) : p.diagnostics = [] :=
  heeds.follows.quiet quiet

theorem honest (heeds : p.Heeds q) (honest : p.Honest) : q.Honest := heeds.follows.honest honest

end Heeds

theorem Honest.calm {p : Pass} (honest : p.Honest) (quiet : p.diagnostics = []) :
    p.panicking = false := by
  cases panics : p.panicking with
  | false => rfl
  | true => exact absurd quiet (honest panics)

/-! ## Complaining and reading -/

theorem complain_heeds (p : Pass) (token : Token) (complaint : Complaint) :
    p.Heeds (p.complain token complaint) := by
  unfold complain
  split
  · exact .refl p
  · rename_i calm
    exact ⟨fun panics => absurd panics calm, fun _ => Or.inr ⟨rfl, _, rfl⟩⟩

theorem complain_panics (p : Pass) (token : Token) (complaint : Complaint) :
    (p.complain token complaint).panicking = true := by
  unfold complain
  split
  · assumption
  · rfl

/-- A pass that does not panic is not silent after complaining. -/
theorem complain_loud {p : Pass} (honest : p.Honest) (token : Token) (complaint : Complaint) :
    (p.complain token complaint).diagnostics ≠ [] := by
  unfold complain
  by_cases panics : p.panicking = true
  · rw [if_pos panics]
    exact honest panics
  · rw [if_neg panics]
    simp

/-- An invalid token is reported and passed over. -/
theorem resume_invalid (p : Pass) {token : Token} {flaw : Token.Flaw}
    (invalid : token.kind = .invalid flaw) (rest : List Token) :
    p.resume (token :: rest) = (p.complain token (.lexical flaw)).resume rest := by
  rw [resume, invalid]

/-- Any other token comes next. -/
theorem resume_stops (p : Pass) {token : Token} (valid : ∀ flaw, token.kind ≠ .invalid flaw)
    (rest : List Token) : p.resume (token :: rest) = { p with ahead := token :: rest } := by
  unfold resume
  split
  · exact absurd ‹_› (valid _)
  · rfl

theorem resume_heeds (p : Pass) (tokens : List Token) : p.Heeds (p.resume tokens) := by
  induction tokens generalizing p with
  | nil => exact .of_same rfl rfl
  | cons token rest ih =>
    rcases token.kind.invalid_or_valid with ⟨flaw, invalid⟩ | valid
    · rw [resume_invalid p invalid]
      exact (complain_heeds p _ _).trans (ih _)
    · rw [resume_stops p valid]
      exact .of_same rfl rfl

theorem advance_heeds (p : Pass) : p.Heeds p.advance :=
  (Heeds.of_same rfl rfl : p.Heeds { p with previous := p.current }).trans (resume_heeds _ _)

/-! ## Looking ahead -/

section Resuming

variable (p : Pass) (tokens : List Token)

theorem resume_validAhead : (p.resume tokens).ahead = validAhead tokens := by
  induction tokens generalizing p with
  | nil => rfl
  | cons token rest ih =>
    rcases token.kind.invalid_or_valid with ⟨flaw, invalid⟩ | valid
    · rw [resume_invalid p invalid, validAhead_invalid invalid]
      exact ih _
    · rw [resume_stops p valid, validAhead_stops valid]

theorem resume_ahead : (p.resume tokens).ahead <:+ tokens := by
  rw [resume_validAhead]
  exact List.dropWhile_suffix _

/-- What was thought to be ahead does not count. -/
theorem resume_anew (ahead : List Token) : { p with ahead }.resume tokens = p.resume tokens := by
  induction tokens generalizing p with
  | nil => rfl
  | cons token rest ih =>
    rcases token.kind.invalid_or_valid with ⟨flaw, invalid⟩ | valid
    · rw [resume_invalid _ invalid, resume_invalid _ invalid]
      unfold complain
      split
      · exact ih _
      · exact ih { p with panicking := true, diagnostics := _ }
    · rw [resume_stops _ valid, resume_stops _ valid]

/-- It makes no difference whether something is written before or after. -/
theorem resume_write (chunk : Chunk) :
    { p.resume tokens with chunk } = { p with chunk }.resume tokens := by
  induction tokens generalizing p with
  | nil => rfl
  | cons token rest ih =>
    rcases token.kind.invalid_or_valid with ⟨flaw, invalid⟩ | valid
    · rw [resume_invalid _ invalid, resume_invalid _ invalid, ih]
      unfold complain
      split <;> rfl
    · rw [resume_stops _ valid, resume_stops _ valid]

theorem resume_chunk : (p.resume tokens).chunk = p.chunk := by
  have same := congrArg Pass.chunk (resume_write p tokens p.chunk)
  exact same.symm

variable {p tokens}

/-- Where no token is passed over, there was nothing to complain about. -/
theorem resume_of_ahead (kept : (p.resume tokens).ahead = tokens) :
    p.resume tokens = { p with ahead := tokens } := by
  cases tokens with
  | nil => rfl
  | cons token rest =>
    rcases token.kind.invalid_or_valid with ⟨flaw, invalid⟩ | valid
    · rw [resume_invalid p invalid] at kept
      have shorter := (resume_ahead (p.complain token (.lexical flaw)) rest).length_le
      rw [kept, List.length_cons] at shorter
      omega
    · exact resume_stops p valid rest

theorem resume_sound (p : Pass) (sound : validAhead tokens = tokens) :
    p.resume tokens = { p with ahead := tokens } :=
  resume_of_ahead ((resume_validAhead p tokens).trans sound)

/-- While a pass panics, invalid tokens are passed over without a word. -/
theorem resume_of_panicking (panics : p.panicking = true) :
    p.resume tokens = { p with ahead := validAhead tokens } := by
  induction tokens with
  | nil => rfl
  | cons token rest ih =>
    rcases token.kind.invalid_or_valid with ⟨flaw, invalid⟩ | valid
    · rw [resume_invalid p invalid, validAhead_invalid invalid, complain, if_pos panics]
      exact ih
    · rw [resume_stops p valid, validAhead_stops valid]

/-- The first of several invalid tokens is reported, and all are passed over. -/
theorem resume_of_invalid (calm : p.panicking = false) {token : Token} {flaw : Token.Flaw}
    (invalid : token.kind = .invalid flaw) (rest : List Token) :
    p.resume (token :: rest) =
      { p with
        ahead := validAhead rest
        panicking := true
        diagnostics := p.diagnostics ++ [⟨token.line, token.location, .lexical flaw⟩] } := by
  rw [resume_invalid p invalid, complain, calm]
  exact resume_of_panicking rfl

theorem resume_of_calm (calm : (p.resume tokens).panicking = false) :
    (p.resume tokens).ahead = tokens := by
  cases tokens with
  | nil => rfl
  | cons token rest =>
    rcases token.kind.invalid_or_valid with ⟨flaw, invalid⟩ | valid
    · rw [resume_invalid p invalid] at calm
      have panics := (resume_heeds _ rest).calm calm
      rw [complain_panics] at panics
      cases panics
    · rw [resume_stops p valid]

end Resuming

/-! ## Whole passes -/

theorem heeding : Habit Heeds where
  refl := .refl
  trans := .trans
  advance := advance_heeds
  complain := complain_heeds
  write _ _ _ := .of_same rfl rfl

theorem following : Habit Follows where
  refl := .refl
  trans := .trans
  advance p := (advance_heeds p).follows
  complain p token complaint := (complain_heeds p token complaint).follows
  write p chunk loopCount := (heeding.write p chunk loopCount).follows

theorem follows_woken (p : Pass) : p.Follows { p with panicking := false } :=
  ⟨List.prefix_rfl, fun _ => nofun⟩

theorem recover_follows (p : Pass) : p.Follows p.recover := following.recover follows_woken p

theorem declaration_follows (p : Pass) : p.Follows p.declaration.1 :=
  following.declaration follows_woken p

theorem declarations_follows (bound : Nat) (loops : List OpenLoop) (p : Pass) :
    p.Follows (declarations bound loops p) := following.declarations follows_woken bound loops p

end Pass

end Cellscript
