import Cellscript.Proofs.Compile.Descent
import Cellscript.Proofs.Language.Tokens

/-!
Compilation comes to its end. From stop to stop a pass reads a token or closes a loop, so its turns
never run out: every declaration that is begun returns with fewer tokens left, and the last stop is
where all tokens have been read and no loop is open.
-/

set_option autoImplicit false

namespace Cellscript

namespace Stop

/-! ## One stop to the next -/

theorem declared_eq (s : Stop) (turns : Nat) :
    (s.declared turns).turns = turns ∧
      (s.declared turns).loops = s.pass.declaration.2.toList ++ s.loops ∧
      (s.declared turns).pass = s.pass.declaration.1 := by
  unfold declared Pass.declaration
  by_cases separated : (s.pass.sees .newline || s.pass.sees .divider) = true
  · rw [if_pos separated, if_pos separated]
    exact ⟨rfl, rfl, rfl⟩
  · rw [if_neg separated, if_neg separated]
    obtain ⟨q, opened⟩ := s.pass.statement
    cases opened <;> exact ⟨rfl, rfl, rfl⟩

/-- A declaration has been read, of a loop perhaps, or the innermost loop has been closed. -/
inductive Moves (s t : Stop) : Prop
  | declared (declares : s.declares = true) (opened : List OpenLoop)
      (loops : t.loops = opened ++ s.loops) (single : opened.length ≤ 1)
      (read : t.pass.left < s.pass.left)
  | closed (passes : s.declares = false) (loop : OpenLoop) (loops : s.loops = loop :: t.loops)
      (kept : t.pass.left ≤ s.pass.left)

variable {s t : Stop}

theorem settle_left {turns : Nat} {loops : List OpenLoop} {p q : Pass}
    (shorter : q.ahead <:+ p.ahead) : (settle turns loops q).pass.left ≤ p.left :=
  Pass.left_le (Pass.shortening.trans shorter (Pass.shortening.recover Pass.shortening_woken q))

theorem declared_moves (declares : s.declares = true) (unfinished : s.pass.atEnd = false)
    (turns : Nat) : (s.declared turns).turns = turns ∧ Moves s (s.declared turns) := by
  obtain ⟨counted, loops, pass⟩ := s.declared_eq turns
  refine ⟨counted, .declared declares _ loops ?_ ?_⟩
  · cases s.pass.declaration.2 <;> simp
  · rw [pass]
    exact Pass.declaration_left_lt unfinished

/-- A pass that has turns left moves on, unless all is read and every loop is closed. -/
theorem next?_cases (running : 0 < s.turns) :
    s.next? = none ∧ s.loops = [] ∧ s.pass.atEnd = true ∨
      ∃ t, s.next? = some t ∧ t.turns + 1 = s.turns ∧ Moves s t := by
  obtain ⟨turns, loops, p, settled⟩ := s
  obtain ⟨turns, rfl⟩ := Nat.exists_eq_succ_of_ne_zero (Nat.ne_of_gt running)
  unfold next?
  dsimp only
  cases loops with
  | nil =>
    cases ends : p.atEnd with
    | true => exact Or.inl ⟨rfl, rfl, rfl⟩
    | false =>
      have declares : declares ⟨turns.succ, [], p, settled⟩ = true := by simp [declares, ends]
      obtain ⟨counted, moves⟩ := declared_moves declares ends turns
      exact Or.inr ⟨_, rfl, congrArg (· + 1) counted, moves⟩
  | cons loop outer =>
    right
    dsimp only
    cases leaves : p.seesExit loop with
    | true =>
      have passes : declares ⟨turns.succ, loop :: outer, p, settled⟩ = false := by
        simp [declares, leaves]
      exact ⟨_, rfl, rfl, .closed passes loop rfl (settle_left (Pass.shortening.closeLoop p loop))⟩
    | false =>
      cases ends : p.atEnd with
      | true =>
        have passes : declares ⟨turns.succ, loop :: outer, p, settled⟩ = false := by
          simp [declares, ends]
        exact ⟨_, rfl, rfl, .closed passes loop rfl (settle_left (Pass.shortening.complain p _ _))⟩
      | false =>
        have declares : declares ⟨turns.succ, loop :: outer, p, settled⟩ = true := by
          simp [declares, ends, leaves]
        obtain ⟨counted, moves⟩ := declared_moves declares ends turns
        exact ⟨_, rfl, congrArg (· + 1) counted, moves⟩

/-! ## Turns -/

/-- How many moves a pass can make at most. -/
def stepsLeft (s : Stop) : Nat := Pass.stepsLeft (s.loops, s.pass)

/-- The turns do not run out. -/
def Supplied (s : Stop) : Prop := s.stepsLeft < s.turns

theorem Moves.stepsLeft_lt (moves : Moves s t) : t.stepsLeft < s.stepsLeft := by
  unfold stepsLeft Pass.stepsLeft
  dsimp only
  cases moves with
  | declared _ opened loops single read =>
    rw [loops, List.length_append]
    omega
  | closed _ loop loops kept =>
    rw [loops, List.length_cons]
    omega

theorem Supplied.running (supplied : s.Supplied) : 0 < s.turns := Nat.zero_lt_of_lt supplied

theorem Supplied.next (supplied : s.Supplied) (counted : t.turns + 1 = s.turns)
    (moves : Moves s t) : t.Supplied := by
  have fewer := moves.stepsLeft_lt
  unfold Supplied at supplied ⊢
  omega

theorem Moves.left_le (moves : Moves s t) : t.pass.left ≤ s.pass.left := by
  cases moves with
  | declared _ _ _ _ read => exact Nat.le_of_lt read
  | closed _ _ _ kept => exact kept

theorem after_succ (next : s.next? = some t) (n : Nat) : s.after (n + 1) = t.after n := by
  rw [after, next, Option.bind_some]

/-! ## Declarations return -/

/-- The loops that are open on top of others are all closed later on, and the others stay open until
then. -/
theorem Supplied.unwinds (supplied : s.Supplied) {inner outer : List OpenLoop}
    (stacked : s.loops = inner ++ outer) :
    ∃ n t, s.after n = some t ∧ t.loops = outer ∧ t.pass.left ≤ s.pass.left ∧
      ∀ k < n, ∀ u, s.after k = some u → outer.length < u.loops.length := by
  induction size : s.stepsLeft using Nat.strong_induction_on generalizing s inner with
  | _ steps ih =>
    cases inner with
    | nil => exact ⟨0, s, rfl, stacked, Nat.le_refl _, nofun⟩
    | cons loop inner =>
      rcases next?_cases supplied.running with ⟨_, none, _⟩ | ⟨t, next, counted, moves⟩
      · rw [none] at stacked
        cases stacked
      · have smaller : t.stepsLeft < steps := size ▸ moves.stepsLeft_lt
        have open_above : ∃ more, t.loops = more ++ outer := by
          cases moves with
          | declared _ opened loops =>
            exact ⟨opened ++ loop :: inner, by rw [loops, stacked, List.append_assoc]⟩
          | closed _ other loops =>
            rw [stacked] at loops
            exact ⟨inner, (List.cons.inj loops).2.symm⟩
        obtain ⟨more, above⟩ := open_above
        obtain ⟨n, u, reached, closed, kept, between⟩ :=
          ih _ smaller (supplied.next counted moves) above rfl
        refine ⟨n + 1, u, (after_succ next n).trans reached, closed,
          Nat.le_trans kept moves.left_le, ?_⟩
        intro k below v later
        cases k with
        | zero =>
          cases later
          rw [stacked, List.length_append, List.length_cons]
          omega
        | succ k =>
          rw [after_succ next] at later
          exact between k (Nat.lt_of_succ_lt_succ below) v later

/-- The stop after the declaration here, with the body of its loop if it opens one: the loops are
those that were open before it, and more are open all the while. -/
def Returns (s t : Stop) : Prop :=
  ∃ n, s.after (n + 1) = some t ∧ t.loops = s.loops ∧
    ∀ k < n, ∀ u, s.after (k + 1) = some u → s.loops.length < u.loops.length

theorem Supplied.returns (supplied : s.Supplied) (declares : s.declares = true) :
    ∃ t, s.Returns t ∧ t.pass.left < s.pass.left := by
  rcases next?_cases supplied.running with ⟨_, none, ends⟩ | ⟨u, next, counted, moves⟩
  · simp [Stop.declares, ends] at declares
  · cases moves with
    | closed passes => rw [declares] at passes; cases passes
    | declared declares opened loops single read =>
      have later := supplied.next counted (.declared declares opened loops single read)
      obtain ⟨n, t, reached, closed, kept, between⟩ := later.unwinds loops
      refine ⟨t, ⟨n, (after_succ next n).trans reached, closed, ?_⟩, Nat.lt_of_le_of_lt kept read⟩
      intro k below v found
      rw [after_succ next] at found
      exact between k below v found

/-! ## The end -/

theorem Supplied.finishes (supplied : s.Supplied) :
    ∃ n t, s.after n = some t ∧ t.loops = [] ∧ t.pass.atEnd = true ∧ t.Supplied := by
  induction size : s.stepsLeft using Nat.strong_induction_on generalizing s with
  | _ steps ih =>
    rcases next?_cases supplied.running with ⟨_, none, ends⟩ | ⟨t, next, counted, moves⟩
    · exact ⟨0, s, rfl, none, ends, supplied⟩
    · have smaller : t.stepsLeft < steps := size ▸ moves.stepsLeft_lt
      obtain ⟨n, last, reached, rest⟩ := ih _ smaller (supplied.next counted moves) rfl
      exact ⟨n + 1, last, (after_succ next n).trans reached, rest⟩

theorem outcome_of_end (supplied : s.Supplied) (outside : s.loops = [])
    (ends : s.pass.atEnd = true) : s.outcome = s.pass.advance := by
  obtain ⟨turns, loops, p, settled⟩ := s
  obtain ⟨turns, rfl⟩ := Nat.exists_eq_succ_of_ne_zero (Nat.ne_of_gt supplied.running)
  cases outside
  rw [outcome, Pass.declarations, if_pos ends]

end Stop

namespace Compiler

variable {compiler : Compiler} {source : String}

theorem firstStop_supplied (compiler : Compiler) (source : String) :
    (compiler.firstStop source).Supplied := Nat.lt_succ_self _

theorem Reaches.supplied {stop : Stop} (reached : compiler.Reaches source stop) :
    stop.Supplied := by
  obtain ⟨n, later⟩ := reached
  refine Stop.after_induction (compiler.firstStop_supplied source) ?_ later
  intro s t supplied next
  rcases Stop.next?_cases supplied.running with ⟨none, _⟩ | ⟨u, found, counted, moves⟩
  · cases next.symm.trans none
  · cases next.symm.trans found
    exact supplied.next counted moves

/-- At the end nothing is ahead. -/
theorem Reaches.ahead_eq_nil {stop : Stop} (reached : compiler.Reaches source stop)
    (ends : stop.pass.atEnd = true) : stop.pass.ahead = [] := by
  cases ahead : stop.pass.ahead with
  | nil => rfl
  | cons t rest =>
    have among : t ∈ compiler.tokens source :=
      reached.steady.ahead.subset (ahead ▸ List.mem_cons_self)
    have unfinished := List.mem_takeWhile_imp (p := fun t : Token => t.kind != .finish) among
    rw [Pass.atEnd, Pass.sees, Pass.current, ahead] at ends
    exact absurd (beq_iff_eq.mp ends) (bne_iff_ne.mp unfinished)

theorem valid_of_compiled {chunk : Chunk} (compiled : (compiler.compile source).2 = .ok chunk) :
    ∀ t ∈ compiler.tokens source, t.Valid := by
  obtain ⟨script, spells, _⟩ := compile_assembles compiled
  exact Script.Spelled.valid spells

/-- Compilation ends for every text, whatever is wrong with it. Each part of a pass reads a token or
closes a loop before it calls itself; a declaration reads a token even if it only fails, and so does
one whose loop has a body, which returns. The last stop is where no loop is open and no token is
left, and none of those that went by was invalid if there is code. -/
theorem compilation_reads_all_tokens :
    Pass.Descends ∧
    (∀ p : Pass, p.atEnd = false → p.declaration.1.left < p.left) ∧
    ∀ (compiler : Compiler) (source : String),
      (∀ stop, compiler.Reaches source stop → stop.declares = true →
        ∃ back, stop.Returns back ∧ back.pass.left < stop.pass.left) ∧
      (∃ last, compiler.Reaches source last ∧ last.loops = [] ∧ last.pass.ahead = [] ∧
        (compiler.firstStop source).pass.program = last.pass.advance.emit .halt) ∧
      ((∃ t ∈ compiler.tokens source, ¬ t.Valid) →
        ∃ diagnostics, (compiler.compile source).2 = .error diagnostics) := by
  refine ⟨Pass.descends, fun p => Pass.declaration_left_lt, fun compiler source => ⟨?_, ?_, ?_⟩⟩
  · intro stop reached declares
    exact reached.supplied.returns declares
  · obtain ⟨n, last, later, outside, ends, supplied⟩ :=
      (compiler.firstStop_supplied source).finishes
    have reached : compiler.Reaches source last := ⟨n, later⟩
    refine ⟨last, reached, outside, reached.ahead_eq_nil ends, ?_⟩
    rw [← Stop.outcome_of_end supplied outside ends, reached.outcome]
    rfl
  · rintro ⟨t, among, invalid⟩
    cases compiled : (compiler.compile source).2 with
    | error diagnostics => exact ⟨diagnostics, rfl⟩
    | ok chunk => exact absurd (valid_of_compiled compiled t among) invalid

/-- A loop that is never closed, whose body has a character that belongs to no token and a mistake
at which recovery stops at once. -/
def wreck : String :=
  "\n".intercalate ["\x7b0 (1) 2 . => 'i\x7d in, out", "@ )", "\x7bprint", "print )"]

theorem compilation_reads_all_tokens_of_wreck :
    let compiler : Compiler := {}
    let first := compiler.firstStop wreck
    (first.pass.atEnd = false ∧ first.pass.declaration.1.left < first.pass.left) ∧
    (compiler.Reaches wreck first ∧ first.declares = true ∧
      ∃ back, first.Returns back ∧ back.pass.left < first.pass.left) ∧
    (∃ t ∈ compiler.tokens wreck, ¬ t.Valid) ∧
      ∃ diagnostics, (compiler.compile wreck).2 = .error diagnostics := by
  intro compiler first
  obtain ⟨_, reads, ends⟩ := compilation_reads_all_tokens
  obtain ⟨returns, _, refuses⟩ := ends compiler wreck
  have unfinished : first.pass.atEnd = false := by decide +kernel
  have declares : first.declares = true := by decide +kernel
  have reached : compiler.Reaches wreck first := ⟨0, rfl⟩
  have stray : (compiler.tokens wreck).any (·.kind == .invalid .unexpectedCharacter) = true := by
    decide +kernel
  have invalid : ∃ t ∈ compiler.tokens wreck, ¬ t.Valid := by
    obtain ⟨t, among, kind⟩ := List.any_eq_true.mp stray
    exact ⟨t, among, fun valid => valid _ (beq_iff_eq.mp kind)⟩
  exact ⟨⟨unfinished, reads _ unfinished⟩, ⟨reached, declares, returns first reached declares⟩,
    invalid, refuses invalid⟩

end Compiler

end Cellscript
