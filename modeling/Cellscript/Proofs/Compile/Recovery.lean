import Cellscript.Proofs.Compile.Complaints
import Cellscript.Proofs.Language.Grammar

/-!
Recovery between statements. A pass is followed from declaration to declaration. It enters one in
panic exactly when something has been recorded since the last statement ended: an invalid token was
passed over between two statements, or the header of a loop was found wrong after its labels. The
mistakes of a statement that is entered in panic are not heard.
-/

set_option autoImplicit false

namespace Cellscript

/-- The complaint is about a token that is none. -/
def Diagnostic.Reports (d : Diagnostic) (t : Token) : Prop :=
  ∃ flaw, t.kind = .invalid flaw ∧ d = ⟨t.line, t.location, .lexical flaw⟩

namespace Pass

/-! ## What is passed over -/

theorem advance_ahead (p : Pass) : p.advance.ahead <:+ p.ahead :=
  (resume_ahead _ _).trans (List.tail_suffix _)

theorem complain_ahead (p : Pass) (token : Token) (complaint : Complaint) :
    (p.complain token complaint).ahead = p.ahead := by
  unfold complain
  split <;> rfl

/-- No token comes back. -/
theorem shortening : Habit fun p q => q.ahead <:+ p.ahead where
  refl _ := List.suffix_rfl
  trans first second := second.trans first
  advance := advance_ahead
  complain p token complaint := complain_ahead p token complaint ▸ List.suffix_rfl
  write _ _ _ := List.suffix_rfl

/-- All that is recorded on the way is about invalid tokens among `tokens`. -/
def Skims (tokens : List Token) (p q : Pass) : Prop :=
  ∃ new, q.diagnostics = p.diagnostics ++ new ∧ ∀ d ∈ new, ∃ t ∈ tokens, d.Reports t

namespace Skims

variable {tokens : List Token} {p q r : Pass}

theorem of_same (same : q.diagnostics = p.diagnostics) : Skims tokens p q :=
  ⟨[], by rw [same, List.append_nil], nofun⟩

theorem trans (first : Skims tokens p q) (second : Skims tokens q r) : Skims tokens p r := by
  obtain ⟨earlier, recorded, reported⟩ := first
  obtain ⟨later, added, alsoReported⟩ := second
  refine ⟨earlier ++ later, by rw [added, recorded, List.append_assoc], fun d member => ?_⟩
  rcases List.mem_append.mp member with early | late
  · exact reported d early
  · exact alsoReported d late

theorem mono {more : List Token} (within : tokens ⊆ more) (skims : Skims tokens p q) :
    Skims more p q := by
  obtain ⟨new, recorded, reported⟩ := skims
  refine ⟨new, recorded, fun d member => ?_⟩
  obtain ⟨t, among, reports⟩ := reported d member
  exact ⟨t, within among, reports⟩

theorem reports {d : Diagnostic} (skims : Skims tokens p q)
    (recorded : q.diagnostics = p.diagnostics ++ [d]) : ∃ t ∈ tokens, d.Reports t := by
  obtain ⟨new, added, reported⟩ := skims
  have same : [d] = new := List.append_cancel_left (recorded.symm.trans added)
  exact reported d (same ▸ List.mem_singleton_self d)

end Skims

theorem complain_skims {tokens : List Token} {t : Token} {flaw : Token.Flaw} (p : Pass)
    (member : t ∈ tokens) (invalid : t.kind = .invalid flaw) :
    Skims tokens p (p.complain t (.lexical flaw)) := by
  unfold complain
  split
  · exact .of_same rfl
  · refine ⟨_, rfl, fun d recorded => ⟨t, member, flaw, invalid, ?_⟩⟩
    exact List.mem_singleton.mp recorded

theorem resume_skims (p : Pass) (tokens : List Token) : Skims tokens p (p.resume tokens) := by
  induction tokens generalizing p with
  | nil => exact .of_same rfl
  | cons token rest ih =>
    rcases token.kind.invalid_or_valid with ⟨flaw, invalid⟩ | valid
    · rw [resume_invalid p invalid]
      have complained := complain_skims p (List.mem_cons_self (l := rest)) invalid
      exact complained.trans ((ih _).mono (List.subset_cons_self token rest))
    · rw [resume_stops p valid]
      exact .of_same rfl

theorem advance_skims (p : Pass) : Skims p.ahead p p.advance := by
  have read : Skims p.ahead.tail p { p with previous := p.current } := .of_same rfl
  exact (read.trans (resume_skims _ _)).mono (List.tail_suffix _).subset

theorem skipToBoundary_skims (bound : Nat) (p : Pass) :
    Skims p.ahead p (skipToBoundary bound p) := by
  induction bound generalizing p with
  | zero => exact .of_same rfl
  | succ bound ih =>
    unfold skipToBoundary
    split
    · exact .of_same rfl
    · exact (advance_skims p).trans ((ih _).mono (advance_ahead p).subset)

/-! ## Opening loops -/

/-- The header of a loop opens it only if nothing was wrong before. -/
theorem loopHeader_calm {p : Pass} {init : Chunk} {loop : OpenLoop}
    (opened : (p.loopHeader init).2 = some loop) : p.panicking = false := by
  cases panics : p.panicking with
  | false => rfl
  | true =>
    have first := heeding.loopPart p init
    unfold loopHeader at opened
    generalize p.loopPart init = part at first opened
    have parts := first.trans (heeding.moreParts part.1.left _)
    dsimp only at opened
    generalize moreParts part.1.left part.1 = rest at parts opened
    have named := parts.trans ((heeding.expect _ .rightCurly .partsClosing).trans
      (heeding.expect _ .name .bodyLabel))
    have exited := named.trans ((heeding.expect _ .divider .labelDivider).trans
      (heeding.expect _ .name .exitLabel))
    rw [if_pos (exited.deaf panics).1] at opened
    cases opened

theorem statementWithin_calm {bound : Nat} {p : Pass} {loop : OpenLoop}
    (opened : (statementWithin bound p).2 = some loop) : p.panicking = false := by
  induction bound generalizing p with
  | zero => cases opened
  | succ bound ih =>
    unfold statementWithin at opened
    split at opened
    · have labelled := (heeding.advance p).trans ((heeding.advance _).trans
        (heeding.defineLabel _ p.advance.previous.lexeme))
      dsimp only at opened
      split at opened
      · cases opened
      · exact labelled.calm (ih opened)
    · split at opened
      · have head := (heeding.advance p).trans (heeding.apart heeding.expression p.advance)
        unfold braceStatement at opened
        dsimp only at opened
        split at opened
        · exact head.calm (loopHeader_calm opened)
        · cases opened
      · cases opened

end Pass

/-! ## From declaration to declaration -/

/-- Where a pass stands before a declaration, or where there is none left. -/
structure Stop where
  /-- How many more steps the pass may take. -/
  turns : Nat
  loops : List OpenLoop
  pass : Pass
  /-- What was recorded when the last statement ended, before the recovery after it. -/
  settled : List Diagnostic

namespace Stop

/-- Whether a declaration is read here: neither the script nor the innermost loop ends. -/
def declares (s : Stop) : Bool := !s.pass.atEnd && !s.loops.head?.any s.pass.seesExit

/-- Nothing has been recorded since the last statement ended. -/
def Undisturbed (s : Stop) : Prop := s.pass.diagnostics = s.settled

/-- The statement that starts here records what it would record if there were no panic. -/
def Heard (s : Stop) : Prop :=
  s.pass.statement.1.diagnostics = { s.pass with panicking := false }.statement.1.diagnostics

/-- The statement that starts here has no mistakes. -/
def Faultless (s : Stop) : Prop :=
  { s.pass with panicking := false }.statement.1.diagnostics = s.pass.diagnostics

/-- The pass that the stop leads to. -/
def outcome (s : Stop) : Pass := Pass.declarations s.turns s.loops s.pass

/-- A statement has ended. -/
def settle (turns : Nat) (loops : List OpenLoop) (p : Pass) : Stop :=
  ⟨turns, loops, p.recover, p.diagnostics⟩

/-- The stop after a declaration. -/
def declared (s : Stop) (turns : Nat) : Stop :=
  if s.pass.sees .newline || s.pass.sees .divider then ⟨turns, s.loops, s.pass.advance, s.settled⟩
  else
    match s.pass.statement with
    | (p, none) => settle turns s.loops p
    | (p, some loop) => ⟨turns, loop :: s.loops, p, s.settled⟩

/-- The stop after this one, unless the pass ends. -/
def next? (s : Stop) : Option Stop :=
  match s.turns, s.loops with
  | 0, _ => none
  | turns + 1, [] => if s.pass.atEnd then none else some (s.declared turns)
  | turns + 1, loop :: outer =>
    if s.pass.seesExit loop then some (settle turns outer (s.pass.closeLoop loop))
    else if s.pass.atEnd then
      some (settle turns outer (s.pass.complainHere (.unclosedLoop loop.exit)))
    else some (s.declared turns)

/-- The stop so many stops later. -/
def after : Nat → Stop → Option Stop
  | 0, s => some s
  | n + 1, s => s.next?.bind (after n)

theorem declared_outcome (s : Stop) (turns : Nat) :
    (s.declared turns).outcome =
      Pass.declarations turns (s.pass.declaration.2.toList ++ s.loops) s.pass.declaration.1 := by
  unfold declared Pass.declaration
  by_cases separated : (s.pass.sees .newline || s.pass.sees .divider) = true
  · rw [if_pos separated, if_pos separated]
    rfl
  · rw [if_neg separated, if_neg separated]
    obtain ⟨q, opened⟩ := s.pass.statement
    cases opened <;> rfl

/-- Stops are where the declarations of the pass are. -/
theorem next?_outcome {s t : Stop} (next : s.next? = some t) : t.outcome = s.outcome := by
  obtain ⟨turns, loops, p, settled⟩ := s
  unfold next? at next
  dsimp only at next
  split at next
  · cases next
  · split at next
    · cases next
    · rename_i goesOn
      cases next
      rw [declared_outcome, outcome, Pass.declarations, if_neg goesOn, List.append_nil]
  · split at next
    · rename_i leaves
      cases next
      rw [outcome, outcome, Pass.declarations, if_pos leaves]
      rfl
    · rename_i stays
      split at next
      · rename_i ends
        cases next
        rw [outcome, outcome, Pass.declarations, if_neg stays, if_pos ends]
        rfl
      · rename_i goesOn
        cases next
        rw [declared_outcome, outcome, Pass.declarations, if_neg stays, if_neg goesOn]

/-- What holds at every stop: either nothing has been recorded since the last statement ended and
the pass does not panic, or one complaint and it does. Outside loops it is about
an invalid token. -/
structure Steady (tokens : List Token) (s : Stop) : Prop where
  ahead : s.pass.ahead <:+ tokens
  recorded : s.pass.panicking = false ∧ s.Undisturbed ∨
    s.pass.panicking = true ∧ ∃ d, s.pass.diagnostics = s.settled ++ [d] ∧
      (s.loops = [] → ∃ t ∈ tokens, d.Reports t)

variable {tokens : List Token} {s t : Stop}

/-- Reading on from a calm pass. -/
theorem Steady.of_skims {turns : Nat} {loops : List OpenLoop} {p q : Pass}
    (ahead : q.ahead <:+ tokens) (calm : p.panicking = false) (heeds : p.Heeds q)
    (skims : p.Skims tokens q) : Steady tokens ⟨turns, loops, q, p.diagnostics⟩ := by
  refine ⟨ahead, ?_⟩
  rcases heeds.alert calm with undisturbed | ⟨panics, d, added⟩
  · exact Or.inl undisturbed
  · exact Or.inr ⟨panics, d, added, fun _ => skims.reports added⟩

theorem settle_steady {turns : Nat} {loops : List OpenLoop} {p : Pass}
    (ahead : p.ahead <:+ tokens) : Steady tokens (settle turns loops p) := by
  unfold settle Pass.recover
  split
  · refine .of_skims (p := { p with panicking := false }) ?_ rfl
      (Pass.heeding.skipToBoundary _ _) ?_
    · exact (Pass.shortening.skipToBoundary _ _).trans ahead
    · exact (Pass.skipToBoundary_skims _ _).mono ahead.subset
  · rename_i calm
    exact ⟨ahead, Or.inl ⟨by simpa using calm, rfl⟩⟩

theorem declared_steady (steady : s.Steady tokens) (turns : Nat) :
    (s.declared turns).Steady tokens := by
  have shorter := (Pass.shortening.statement s.pass).trans steady.ahead
  have heeds := Pass.heeding.statement s.pass
  unfold declared
  split
  · -- A separator keeps a panic and starts one only over an invalid token.
    have ahead := (Pass.advance_ahead s.pass).trans steady.ahead
    rcases steady.recorded with ⟨calm, undisturbed⟩ | ⟨panics, d, added, reports⟩
    · rw [← undisturbed]
      exact .of_skims ahead calm (Pass.heeding.advance s.pass)
        ((Pass.advance_skims s.pass).mono steady.ahead.subset)
    · obtain ⟨still, same⟩ := (Pass.heeding.advance s.pass).deaf panics
      exact ⟨ahead, Or.inr ⟨still, d, same.trans added, reports⟩⟩
  · split
    · rename_i p read
      rw [read] at shorter
      exact settle_steady shorter
    · -- The header of a loop is no statement that has ended: what it records stays.
      rename_i p loop read
      rw [read] at shorter heeds
      have calm : s.pass.panicking = false :=
        Pass.statementWithin_calm (congrArg Prod.snd read)
      refine ⟨shorter, ?_⟩
      rcases steady.recorded with ⟨_, undisturbed⟩ | ⟨panics, _⟩
      · have same : s.pass.diagnostics = s.settled := undisturbed
        rcases heeds.alert calm with ⟨still, kept⟩ | ⟨panics, d, added⟩
        · exact Or.inl ⟨still, kept.trans same⟩
        · exact Or.inr ⟨panics, d, same ▸ added, nofun⟩
      · rw [calm] at panics
        cases panics

theorem next?_steady (steady : s.Steady tokens) (next : s.next? = some t) : t.Steady tokens := by
  obtain ⟨turns, loops, p, settled⟩ := s
  unfold next? at next
  dsimp only at next
  split at next
  · cases next
  · split at next
    · cases next
    · cases next
      exact declared_steady steady _
  · split at next
    · cases next
      exact settle_steady ((Pass.shortening.closeLoop p _).trans steady.ahead)
    · split at next
      · cases next
        exact settle_steady (Pass.complain_ahead p _ _ ▸ steady.ahead)
      · cases next
        exact declared_steady steady _

/-- What holds at a stop and from each stop to the next holds at all later ones. -/
theorem after_induction {motive : Stop → Prop} {n : Nat} (begins : motive s)
    (keeps : ∀ {s t}, motive s → s.next? = some t → motive t) (reached : after n s = some t) :
    motive t := by
  induction n generalizing s with
  | zero => cases reached; exact begins
  | succ n ih =>
    obtain ⟨u, next, later⟩ := Option.bind_eq_some_iff.mp reached
    exact ih (keeps begins next) later

namespace Steady

theorem undisturbed_iff (steady : s.Steady tokens) : s.Undisturbed ↔ s.pass.panicking = false := by
  rcases steady.recorded with ⟨calm, undisturbed⟩ | ⟨panics, d, added, _⟩
  · exact ⟨fun _ => calm, fun _ => undisturbed⟩
  · unfold Undisturbed
    simp [panics, added]

theorem heard_iff (steady : s.Steady tokens) : s.Heard ↔ s.Undisturbed ∨ s.Faultless := by
  rw [steady.undisturbed_iff]
  cases panics : s.pass.panicking with
  | false =>
    have same : { s.pass with panicking := false } = s.pass := by rw [← panics]
    simp [Heard, same]
  | true =>
    obtain ⟨_, silent⟩ := (Pass.heeding.statement s.pass).deaf panics
    rw [Heard, silent, Faultless, eq_comm]
    simp

end Steady

end Stop

/-- Where the compiler starts. -/
def Compiler.firstStop (compiler : Compiler) (source : String) : Stop :=
  let tokens := (Token.scanThrough compiler.substitutions source).map (·.token)
  let p := Pass.start tokens compiler.loopCount
  ⟨2 * p.left + 1, [], p, []⟩

/-- The compiler comes to a stop. -/
def Compiler.Reaches (compiler : Compiler) (source : String) (stop : Stop) : Prop :=
  ∃ n, (compiler.firstStop source).after n = some stop

theorem Compiler.Reaches.outcome {compiler : Compiler} {source : String} {stop : Stop}
    (reached : compiler.Reaches source stop) :
    stop.outcome = (compiler.firstStop source).outcome := by
  obtain ⟨n, later⟩ := reached
  exact Stop.after_induction
    (motive := fun s => s.outcome = (compiler.firstStop source).outcome) rfl
    (fun same next => (Stop.next?_outcome next).trans same) later

theorem Compiler.firstStop_steady (compiler : Compiler) (source : String) :
    (compiler.firstStop source).Steady (compiler.tokens source) :=
  .of_skims (Pass.resume_ahead _ _) rfl (Pass.resume_heeds _ _) (Pass.resume_skims _ _)

theorem Compiler.Reaches.steady {compiler : Compiler} {source : String} {stop : Stop}
    (reached : compiler.Reaches source stop) : stop.Steady (compiler.tokens source) := by
  obtain ⟨n, later⟩ := reached
  exact Stop.after_induction (compiler.firstStop_steady source) Stop.next?_steady later

/-- Every declaration of a script is entered without panic exactly when nothing is recorded between
the end of a statement and the next declaration. At each stop, what has been recorded since is one
complaint, and outside loops it is about an invalid token; it keeps the next statement from being
heard, unless that has no mistakes. -/
theorem Compiler.declarations_enter_calm_iff_undisturbed (compiler : Compiler) (source : String) :
    ((∀ stop, compiler.Reaches source stop → stop.declares = true → stop.pass.panicking = false) ↔
      ∀ stop, compiler.Reaches source stop → stop.declares = true → stop.Undisturbed) ∧
    ∀ stop, compiler.Reaches source stop →
      (compiler.compile source).2 =
        (if stop.outcome.diagnostics = [] then .ok (stop.outcome.emit .halt).chunk.finalize
        else .error stop.outcome.diagnostics) ∧
      (stop.Undisturbed ↔ stop.pass.panicking = false) ∧
      (stop.Heard ↔ stop.Undisturbed ∨ stop.Faultless) ∧
      (¬stop.Undisturbed → ∃ d, stop.pass.diagnostics = stop.settled ++ [d] ∧
        (stop.loops = [] → ∃ t ∈ compiler.tokens source, d.Reports t)) := by
  refine ⟨?_, fun stop reached =>
    ⟨?_, reached.steady.undisturbed_iff, reached.steady.heard_iff, ?_⟩⟩
  · constructor
    · intro calm stop reached declares
      exact reached.steady.undisturbed_iff.mpr (calm stop reached declares)
    · intro undisturbed stop reached declares
      exact reached.steady.undisturbed_iff.mp (undisturbed stop reached declares)
  · rw [reached.outcome]
    simp only [compile, Pass.program, firstStop, Stop.outcome, List.isEmpty_iff]
    rfl
  · intro disturbed
    rcases reached.steady.recorded with ⟨_, undisturbed⟩ | ⟨_, recorded⟩
    · exact absurd undisturbed disturbed
    · exact recorded

/-- An invalid token in front of a line break hides the mistake on the next line. -/
theorem Compiler.invalid_token_hides_next_mistake :
    (∃ stop, Compiler.Reaches {} "@\n)" stop ∧ stop.declares = true ∧
      stop.pass.panicking = true ∧ ¬stop.Heard) ∧
    (({} : Compiler).compile "@\n)").2 =
      .error [⟨1, .nowhere, .lexical .unexpectedCharacter⟩] := by
  have found : ((Compiler.firstStop {} "@\n)").after 1).any fun stop =>
      stop.declares && stop.pass.panicking &&
        stop.pass.statement.1.diagnostics !=
          { stop.pass with panicking := false }.statement.1.diagnostics := by
    decide +kernel
  obtain ⟨stop, reached, disturbed⟩ := (Option.any_eq_true _ _).mp found
  simp only [Bool.and_eq_true, bne_iff_ne] at disturbed
  obtain ⟨⟨declares, panics⟩, unheard⟩ := disturbed
  refine ⟨⟨stop, ⟨1, reached⟩, declares, panics, unheard⟩, ?_⟩
  unfold compile
  dsimp only
  rw [if_neg (by decide +kernel)]
  exact congrArg Except.error (by decide +kernel)

end Cellscript
