import Cellscript.Proofs.Acceptance.Scripts
import Cellscript.Proofs.Machine.Counting

/-!
Loops as a whole: the parameters get their start values, and from there on the code of a loop goes
through its rounds.
-/

set_option autoImplicit false

namespace Cellscript

open Machine

/-! ## Loops in code -/

/-- A run that comes to a loop with its parameters at their start values goes through its rounds. -/
structure Site.Follows (chunk : Chunk) (site : Site) (out : Nat) (m entered : Machine) : Prop where
  /-- Every round brings the run back to the body, which is entered before any test is made. -/
  rounds : ∀ {n u}, site.header.Rounds (site.Passes chunk) n entered u →
    Reaches chunk n (site.start, m) (site.entry, u)
  /-- The last round brings the run to the exit. -/
  leaves : ∀ {n u v}, site.header.Rounds (site.Passes chunk) n entered u →
    site.header.Leaves (site.Passes chunk) u v → Reaches chunk n (site.start, m) (out, v)
  /-- There is no choice. -/
  unique : ∀ {n u v}, site.header.Rounds (site.Passes chunk) n entered u →
    site.header.Rounds (site.Passes chunk) n entered v → u = v
  /-- If nothing fails there is a last round, or another round after every round. -/
  endless : (∀ n u, site.header.Rounds (site.Passes chunk) n entered u → ∃ t s s' goes,
      site.Passes chunk u t ∧ site.header.advance t.store = .ok () s ∧
        site.header.goesOn s = .ok goes s') →
    (∃ n u v, site.header.Rounds (site.Passes chunk) n entered u ∧
      site.header.Leaves (site.Passes chunk) u v) ∨
    ∀ n, ∃ u, site.header.Rounds (site.Passes chunk) n entered u
  /-- Every parameter of a part that counts goes through its values up to the last one, which the
  body does not see. -/
  counts : ∀ {c : Counter}, c.Drives site.header (site.Passes chunk) m.store entered →
    ∀ {n u}, site.header.Rounds (site.Passes chunk) n entered u →
      (c.Shows u.store (c.value n) ∧
        ∀ k, 0 < k → k ≤ n → ¬ (Value.number (c.value k)).Equal c.last) ∧
      ∀ {v}, site.header.Leaves (site.Passes chunk) u v →
        (Value.number (c.value (n + 1))).Equal c.last ∧ c.Shows v.store (c.value (n + 1))

/-! ## Compiled loops -/

/-- A loop in the code of a chunk, with its labels where they should be. -/
structure Site.Placed (chunk : Chunk) (site : Site) (out : Nat) : Prop where
  assembled : ∃ back, chunk.Assembles (site.front ++ site.lines ++ back)
  driven : ∃ l rest, site.header.links = l :: rest
  entry : chunk.resolve? site.header.start = some site.entry
  onward : chunk.resolve? (LoopBlock.incr.label site.number 0 0) =
    some (codeSize (site.front ++ site.header.initLines site.number))
  exit : chunk.resolve? site.header.exit = some out
  keeps : ∀ {u t}, site.Passes chunk u t → t.stack = u.stack ∧ t.limits = u.limits

/-- There is room on the stack for what the header of a loop does. -/
def Site.Roomy (site : Site) (m : Machine) : Prop :=
  ∀ l ∈ site.header.links, m.stack.length + l.room ≤ m.limits.stackMax

theorem Site.Roomy.of_same {site : Site} {m u : Machine} (roomy : site.Roomy m)
    (same : u.stack = m.stack ∧ u.limits = m.limits) : site.Roomy u := by
  unfold Site.Roomy
  rw [same.1, same.2]
  exact roomy

namespace Site.Placed

variable {chunk : Chunk} {site : Site} {out : Nat} {m u t : Machine} {s s' : Store}

theorem low (placed : site.Placed chunk out) (roomy : site.Roomy m) :
    m.stack.length < m.limits.stackMax := by
  obtain ⟨l, rest, links⟩ := placed.driven
  have fits := Link.fits (roomy l (by rw [links]; exact List.mem_cons_self))
  exact Nat.lt_of_succ_lt fits.inside

/-- The loop is entered with its parameters at their start values. -/
theorem enters (placed : site.Placed chunk out) (roomy : site.Roomy m)
    (begun : site.header.begin m.store = .ok () s) :
    Reaches chunk 0 (site.start, m) (site.entry, { m with store := s }) := by
  obtain ⟨back, assembled⟩ := placed.assembled
  have carried := site.begin_carries assembled placed.entry
    (fun l member => Link.fits (roomy l member)) (placed.low roomy) m rfl rfl
  rw [begun] at carried
  exact carried

/-- A round leads back to the body, or to the exit. -/
theorem turns (placed : site.Placed chunk out) (roomy : site.Roomy u)
    (passed : site.Passes chunk u t) {goes : Bool}
    (advanced : site.header.advance t.store = .ok () s)
    (tested : site.header.goesOn s = .ok goes s') :
    Reaches chunk 1 (site.entry, u) (if goes then site.entry else out, { t with store := s' }) := by
  obtain ⟨back, assembled⟩ := placed.assembled
  have roomy := roomy.of_same (placed.keeps passed)
  have carried := site.round_carries assembled placed.entry placed.onward placed.exit
    (fun l member => Link.fits (roomy l member)) (placed.low roomy) t rfl rfl
  rw [bind_apply_ok advanced, tested] at carried
  obtain ⟨n, _, reached, _⟩ := passed
  have through : Reaches chunk 0 (site.entry, u) (site.finish, t) :=
    ⟨n, t.log, Nat.zero_le n, reached⟩
  rw [← Nat.zero_add 1]
  exact through.trans carried

theorem rounds_reach (placed : site.Placed chunk out) (roomy : site.Roomy m) {n : Nat}
    (rounds : site.header.Rounds (site.Passes chunk) n m u) :
    Reaches chunk n (site.entry, m) (site.entry, u) := by
  induction rounds with
  | none m => exact .refl chunk _
  | next before passed advanced goes ih =>
    have still := roomy.of_same (before.keeps placed.keeps)
    exact (ih roomy).trans (placed.turns still passed advanced goes)

theorem follows (placed : site.Placed chunk out) (roomy : site.Roomy m)
    (begun : site.header.begin m.store = .ok () s) :
    site.Follows chunk out m { m with store := s } := by
  have entered := placed.enters roomy begun
  have still : site.Roomy { m with store := s } := roomy
  constructor
  · intro n u rounds
    rw [← Nat.zero_add n]
    exact entered.trans (placed.rounds_reach still rounds)
  · intro n u v rounds leaves
    obtain ⟨t, _, _, passed, advanced, tested, rfl⟩ := leaves
    have last := placed.turns (still.of_same (rounds.keeps placed.keeps)) passed advanced tested
    exact ((entered.trans (placed.rounds_reach still rounds)).trans last).weaken (by omega)
  · intro n u v first second
    exact Header.Rounds.unique (fun one other => one.unique other) first second
  · exact Header.Rounds.ends_or_goes_on
  · intro c drives n u rounds
    exact ⟨drives.holds begun rounds, drives.reaches_last begun rounds⟩

end Site.Placed

/-- Every loop of a compiled script is in its place. -/
theorem Compiler.Spells.sites_placed {compiler : Compiler} {source : String} {script : Script}
    (spells : compiler.Spells source script) {number : Nat} {chunk : Chunk}
    (assembled : chunk.Assembles (script.code number ++ plainLines [.halt]))
    (finished : chunk.jumps = chunk.labels) {site : Site} (member : site ∈ script.sites [] number) :
    chunk.resolve? (LoopBlock.init.label site.number 0 0) = some site.start ∧
      ∃ out, site.Placed chunk out := by
  obtain ⟨⟨back, split⟩, height⟩ := Script.site_stands member rfl
  rw [List.nil_append] at split
  have whole : chunk.Assembles (site.front ++ site.lines ++ (back ++ plainLines [.halt])) := by
    rw [split, List.append_assoc] at assembled
    exact assembled
  obtain ⟨tokens, spelled⟩ := Script.Spelled.site_header spells member
  obtain ⟨l, rest, links, part, link⟩ := spelled.links
  obtain ⟨start, entry, onward⟩ := Site.labels whole finished ⟨l, rest, links, part, link⟩
  have neutral := script.code_neutral number fun _ leaves => spells.declares_exits number leaves
  obtain ⟨front, after, declared⟩ :=
    List.append_of_mem (spells.declares_exits number (Script.site_exit member))
  have exit : chunk.resolve? site.header.exit = some (codeSize front) := by
    refine (assembled.resolve?_eq_some_iff finished).mpr ?_
    refine ⟨front, after ++ plainLines [.halt], ?_, rfl⟩
    rw [declared]
    simp
  exact ⟨start, codeSize front, ⟨_, whole⟩, ⟨l, rest, links⟩, entry, onward, exit,
    fun passes => passes.keeps assembled finished neutral split height entry⟩

/-- Every loop of a compiled script, however deep, keeps to its scheme: started at its first block
with room on the stack, in a store where the start values can be assigned, it goes through its
rounds. -/
theorem compiled_loops_follow_their_scheme {compiler : Compiler} {source : String} {chunk : Chunk}
    (compiled : (compiler.compile source).2 = .ok chunk) :
    (∃ script, compiler.Spells source script ∧
      chunk.Assembles (script.code compiler.loopCount ++ plainLines [.halt]) ∧
      (compiler.compile source).1.loopCount =
        compiler.loopCount + (script.sites [] compiler.loopCount).length) ∧
    ∀ script, compiler.Spells source script →
      chunk.Assembles (script.code compiler.loopCount ++ plainLines [.halt]) →
      ∀ site ∈ script.sites [] compiler.loopCount, ∃ out,
        chunk.resolve? (LoopBlock.init.label site.number 0 0) = some site.start ∧
        chunk.resolve? site.header.start = some site.entry ∧
        chunk.resolve? site.header.exit = some out ∧
        ∀ (m : Machine) (s : Store), site.Roomy m → site.header.begin m.store = .ok () s →
          site.Follows chunk out m { m with store := s } := by
  obtain ⟨script, spells, assembled, finished, count⟩ := Compiler.compile_assembles compiled
  refine ⟨⟨script, spells, assembled, ?_⟩, ?_⟩
  · rw [count, Script.sites_length]
  · intro script spells assembled site member
    obtain ⟨start, out, placed⟩ := spells.sites_placed assembled finished member
    exact ⟨out, start, placed.entry, placed.exit, fun m s roomy begun => placed.follows roomy begun⟩

/-! ## A nest of loops -/

/-- A loop in the body of another one that has the same exit. -/
def nest : String := "\n".intercalate [
  "\x7b0 (1) 2 . => 'i, 5 (2) \x7b'i < 9\x7d . => 'j => 'k\x7d outer, end",
  "\x7b0 (1) 2 . => 'a => 'b\x7d inner, end", "print 'a", "end..."]

namespace nest

def outer : Header where
  parts := [⟨.number 0, .number 1, .value (.number 2), [.text "i"]⟩,
    ⟨.number 5, .number 2, .condition (.binary .less (.unary .read (.text "i")) (.number 9)),
      [.text "j", .text "k"]⟩]
  start := "outer"
  exit := "end"

/-- The parameters of the inner loop count together. -/
def counter : Counter where
  parameters := [(.text "a", "a"), (.text "b", "b")]
  init := .number 0
  step := .number 1
  target := .number 2
  first := 0
  stride := 1
  last := .number 2

def inner : Header := ⟨[counter.part], "inner", "end"⟩

def body : Script := .simple (.print (.unary .read (.text "a"))) .done

def script : Script := .loop outer (.loop inner body .done) (.mark "end" .done)

def site : Site := ⟨1, inner, body, outer.code 0⟩

theorem tokens : ({} : Compiler).tokens nest =
    ([⟨.leftCurly, "\x7b", 1⟩, ⟨.number, "0", 1⟩, ⟨.leftParen, "(", 1⟩, ⟨.number, "1", 1⟩,
      ⟨.rightParen, ")", 1⟩, ⟨.number, "2", 1⟩, ⟨.dot, ".", 1⟩, ⟨.equalGreater, "=>", 1⟩,
      ⟨.quote, "'", 1⟩, ⟨.name, "i", 1⟩, ⟨.divider, ",", 1⟩, ⟨.number, "5", 1⟩,
      ⟨.leftParen, "(", 1⟩, ⟨.number, "2", 1⟩, ⟨.rightParen, ")", 1⟩, ⟨.leftCurly, "\x7b", 1⟩,
      ⟨.quote, "'", 1⟩, ⟨.name, "i", 1⟩, ⟨.less, "<", 1⟩, ⟨.number, "9", 1⟩,
      ⟨.rightCurly, "\x7d", 1⟩, ⟨.dot, ".", 1⟩, ⟨.equalGreater, "=>", 1⟩, ⟨.quote, "'", 1⟩,
      ⟨.name, "j", 1⟩, ⟨.equalGreater, "=>", 1⟩, ⟨.quote, "'", 1⟩, ⟨.name, "k", 1⟩,
      ⟨.rightCurly, "\x7d", 1⟩, ⟨.name, "outer", 1⟩, ⟨.divider, ",", 1⟩, ⟨.name, "end", 1⟩,
      ⟨.newline, "\n", 1⟩, ⟨.leftCurly, "\x7b", 2⟩, ⟨.number, "0", 2⟩, ⟨.leftParen, "(", 2⟩,
      ⟨.number, "1", 2⟩, ⟨.rightParen, ")", 2⟩, ⟨.number, "2", 2⟩, ⟨.dot, ".", 2⟩,
      ⟨.equalGreater, "=>", 2⟩, ⟨.quote, "'", 2⟩, ⟨.name, "a", 2⟩, ⟨.equalGreater, "=>", 2⟩,
      ⟨.quote, "'", 2⟩, ⟨.name, "b", 2⟩, ⟨.rightCurly, "\x7d", 2⟩, ⟨.name, "inner", 2⟩,
      ⟨.divider, ",", 2⟩, ⟨.name, "end", 2⟩, ⟨.newline, "\n", 2⟩, ⟨.print, "print", 3⟩,
      ⟨.quote, "'", 3⟩, ⟨.name, "a", 3⟩, ⟨.newline, "\n", 3⟩, ⟨.name, "end", 4⟩,
      ⟨.dots, "...", 4⟩] : List Token) := by decide +kernel

theorem spells : ({} : Compiler).Spells nest script := by
  have token (kind : Token.Kind) (lexeme : String) (line : Nat) :
      (⟨kind, lexeme, line⟩ : Token).kind = kind := rfl
  have name (line : Nat) (s : String) : Expression.Spelled .unary [⟨.name, s, line⟩] (.text s) :=
    .name rfl
  have number {s : String} {x : Float} (line : Nat) (read : readNumber? s = some x) :
      Expression.Spelled .reference [⟨.number, s, line⟩] (.number x) :=
    .of_stronger (Nat.zero_le _) (.number rfl read)
  have read (line : Nat) (s : String) {level : Level} :
      Expression.Spelled level [⟨.quote, "'", line⟩, ⟨.name, s, line⟩] (.unary .read (.text s)) :=
    .of_stronger level.rank_le_unary (.unary rfl (name line s))
  have counts (line : Nat) {ts : List Token} {parameters : List Expression}
      (driven : ParametersSpelled ts parameters) :=
    Part.Spelled.part (@number "0" 0 line rfl) (token .leftParen "(" line) (@number "1" 1 line rfl)
      (token .rightParen ")" line) (.value (@number "2" 2 line rfl)) (token .dot "." line)
      (token .equalGreater "=>" line) driven
  have parameter (line : Nat) (s : String) :=
    ParametersSpelled.last (token .quote "'" line) (name line s)
  have pair (line : Nat) (s t : String) :=
    ParametersSpelled.more (token .quote "'" line) (name line s) (token .equalGreater "=>" line)
      (parameter line t)
  have header (line : Nat) (s : String) (differ : s ≠ "end") {ts : List Token} {parts : List Part}
      (driven : PartsSpelled ts parts) :=
    @Header.Spelled.header ⟨.leftCurly, "\x7b", line⟩ ⟨.rightCurly, "\x7d", line⟩ ⟨.name, s, line⟩
      ⟨.divider, ",", line⟩ ⟨.name, "end", line⟩ ts parts rfl driven rfl rfl rfl rfl differ
  have less : (⟨.less, "<", 1⟩ : Token).kind.binary? = some .less := rfl
  have nine : Expression.Spelled .term [⟨.number, "9", 1⟩] (.number 9) :=
    .of_stronger (by decide) (.number rfl rfl)
  have below := Expression.Spelled.binary less (by decide) (read 1 "i") nine
  have asked := Ending.Spelled.condition (token .leftCurly "\x7b" 1)
    (.of_stronger (by decide) below) (token .rightCurly "\x7d" 1)
  have second := Part.Spelled.part (@number "5" 5 1 rfl) (token .leftParen "(" 1)
    (@number "2" 2 1 rfl) (token .rightParen ")" 1) asked (token .dot "." 1)
    (token .equalGreater "=>" 1) (pair 1 "j" "k")
  have outer := header 1 "outer" (by decide)
    (.more (counts 1 (parameter 1 "i")) (token .divider "," 1) (.last second))
  have inner := header 2 "inner" (by decide) (.last (counts 2 (pair 2 "a" "b")))
  have finish : Script.Spelled none [⟨.name, "end", 4⟩, ⟨.dots, "...", 4⟩] (.mark "end" .done) [] :=
    @Script.Spelled.statement none [_, _] [] [] [] ["end"] none .done (.more rfl rfl .none)
      (.bare .finish) (by decide) (by simp [Script.Closes]) (.done rfl)
  have ended : Script.Spelled (some "end") [] .done [⟨.name, "end", 4⟩, ⟨.dots, "...", 4⟩] :=
    .done ⟨_, _, _, rfl, rfl, rfl, rfl⟩
  have shown : Script.Spelled (some "end")
      [⟨.print, "print", 3⟩, ⟨.quote, "'", 3⟩, ⟨.name, "a", 3⟩, ⟨.newline, "\n", 3⟩] body
      [⟨.name, "end", 4⟩, ⟨.dots, "...", 4⟩] :=
    @Script.Spelled.statement (some "end") [] [_, _, _, _] [] _ [] (some _) .done .none
      (.simple (.print (Or.inl rfl) (read 3 "a")) (.token (Or.inl rfl))) (by decide)
      (by simp [Script.Closes]) ended
  have within := Script.Spelled.loop .none inner (.token (Or.inl (token .newline "\n" 2)))
    (by simp [Script.Closes]) shown ended
  have whole := Script.Spelled.loop .none outer (.token (Or.inl (token .newline "\n" 1)))
    (by simp [Script.Closes]) within finish
  unfold Compiler.Spells
  rw [tokens]
  exact whole

theorem compiles : ∃ chunk, (({} : Compiler).compile nest).2 = .ok chunk ∧
    chunk.Assembles (script.code 0 ++ plainLines [.halt]) := by
  refine spells.compiles spells.valid ?_ ?_ ?_
  · decide +kernel
  · decide +kernel
  · exact ⟨⟨⟨trivial, trivial⟩, trivial⟩, trivial⟩

variable {chunk : Chunk}

/-- The store with the values of the two parameters. -/
def holds (x y : Float) : Store :=
  { cells := ⟨1024, #[.number x, .number y]⟩, names := [("b", ⟨1⟩), ("a", ⟨0⟩)] }

/-- The machine with both parameters at the same value. -/
def showing (x : Float) (printed : String) : Machine :=
  { Machine.new {} {} with store := holds x x, sink := ⟨printed.toUTF8, none⟩ }

theorem begun : inner.begin (Machine.new {} {}).store = .ok () (holds 0 0) := rfl

theorem advanced (x y : Float) : inner.advance (holds x y) = .ok () (holds (x + 1) (y + 1)) := rfl

theorem tested (x : Float) :
    inner.goesOn (holds x x) = .ok (!decide ((Value.number x).Equal (.number 2))) (holds x x) := by
  refine Counter.allM_goesOn (List.cons_ne_nil _ _) fun l member => ?_
  rcases List.mem_pair.mp member with rfl | rfl
  · rfl
  · rfl

/-- The body prints, and is left at its end. -/
theorem passes (compiled : (({} : Compiler).compile nest).2 = .ok chunk) :
    chunk.resolve? "end" = some 145 ∧ site.Passes chunk (showing 0 "") (showing 0 "0\n") ∧
      site.Passes chunk (showing 1 "0\n") (showing 1 "0\n1\n") := by
  have through {u t : Machine} (labels : KeepsToLabels chunk 3 (site.entry, u))
      (reached : after chunk 3 (site.entry, u) = some (site.finish, t))
      (first : ∀ k < 3, (after chunk k (site.entry, u)).all (·.1 != site.finish)) :
      site.Passes chunk u t := by
    refine ⟨3, labels, reached, fun k early v there => ?_⟩
    have before := first k early
    rw [there] at before
    exact bne_iff_ne.mp before rfl
  have ran : (({} : Compiler).compile nest).2.toOption.any (fun chunk => decide
      (chunk.resolve? "end" = some 145 ∧
        (KeepsToLabels chunk 3 (site.entry, showing 0 "") ∧
          after chunk 3 (site.entry, showing 0 "") = some (site.finish, showing 0 "0\n") ∧
          ∀ k < 3, (after chunk k (site.entry, showing 0 "")).all (·.1 != site.finish)) ∧
        KeepsToLabels chunk 3 (site.entry, showing 1 "0\n") ∧
          after chunk 3 (site.entry, showing 1 "0\n") = some (site.finish, showing 1 "0\n1\n") ∧
          ∀ k < 3, (after chunk k (site.entry, showing 1 "0\n")).all (·.1 != site.finish))) =
      true := by
    decide +kernel
  rw [compiled] at ran
  obtain ⟨exit, ⟨labels, reached, first⟩, labels', reached', first'⟩ := of_decide_eq_true ran
  exact ⟨exit, through labels reached first, through labels' reached' first'⟩

theorem first_round :
    inner.advance (holds 0 0) = .ok () (holds 1 1) ∧
      inner.goesOn (holds 1 1) = .ok true (holds 1 1) := by
  rw [advanced, tested, show (0 : Float) + 1 = 1 by decide +kernel,
    show decide ((Value.number 1).Equal (.number 2)) = false by decide +kernel]
  exact ⟨rfl, rfl⟩

theorem second_round :
    inner.advance (holds 1 1) = .ok () (holds 2 2) ∧
      inner.goesOn (holds 2 2) = .ok false (holds 2 2) := by
  rw [advanced, tested, show (1 : Float) + 1 = 2 by decide +kernel,
    show decide ((Value.number 2).Equal (.number 2)) = true by decide +kernel]
  exact ⟨rfl, rfl⟩

/-- There is no third round. -/
theorem rounds (compiled : (({} : Compiler).compile nest).2 = .ok chunk) {n : Nat} {m u : Machine}
    (start : m = showing 0 "") (ran : inner.Rounds (site.Passes chunk) n m u) :
    u = showing 0 "" ∨ u = showing 1 "0\n" := by
  obtain ⟨_, first, second⟩ := passes compiled
  induction ran with
  | none m => exact Or.inl start
  | next before passed advanced goes ih =>
    rcases ih start with rfl | rfl
    · cases passed.unique first
      cases first_round.1.symm.trans advanced
      cases first_round.2.symm.trans goes
      exact Or.inr rfl
    · cases passed.unique second
      cases second_round.1.symm.trans advanced
      cases second_round.2.symm.trans goes

/-- The body sees both parameters at the same value, and leaves them there. -/
theorem passed (compiled : (({} : Compiler).compile nest).2 = .ok chunk) {n : Nat} {u t : Machine}
    (ran : inner.Rounds (site.Passes chunk) n (showing 0 "") u) (passed : site.Passes chunk u t) :
    ∃ x, u.store = holds x x ∧ t.store = holds x x := by
  obtain ⟨_, first, second⟩ := passes compiled
  rcases rounds compiled rfl ran with rfl | rfl
  · cases passed.unique first
    exact ⟨0, rfl, rfl⟩
  · cases passed.unique second
    exact ⟨1, rfl, rfl⟩

theorem drives (compiled : (({} : Compiler).compile nest).2 = .ok chunk) :
    counter.Drives inner (site.Passes chunk) (Machine.new {} {}).store (showing 0 "") := by
  have split {front back : List (Expression × String)} {p : Expression × String}
      (parts : counter.parameters = front ++ p :: back) :
      (front = [] ∧ p = (.text "a", "a") ∧ back = [(.text "b", "b")]) ∨
        (front = [(.text "a", "a")] ∧ p = (.text "b", "b") ∧ back = []) := by
    rcases front with _ | ⟨first, _ | ⟨second, more⟩⟩
    · obtain ⟨rfl, rfl⟩ := List.cons.inj parts
      exact Or.inl ⟨rfl, rfl, rfl⟩
    · obtain ⟨same, parts⟩ := List.cons.inj parts
      obtain ⟨rfl, rfl⟩ := List.cons.inj parts
      exact Or.inr ⟨by rw [same], rfl, rfl⟩
    · have long := congrArg List.length parts
      simp [counter] at long
  constructor
  · rfl
  · exact List.cons_ne_nil _ _
  · intro front p back s parts early
    rcases split parts with ⟨rfl, rfl, rfl⟩ | ⟨rfl, rfl, rfl⟩
    · cases early
      exact ⟨_, rfl, rfl, fun _ q none => by cases none⟩
    · cases early
      refine ⟨_, rfl, rfl, fun assigned q member => ?_⟩
      cases List.mem_singleton.mp member
      cases assigned
      rfl
  · intro n u t front p back s ran through parts early
    obtain ⟨x, _, store⟩ := passed compiled ran through
    rw [store] at early
    rcases split parts with ⟨rfl, rfl, rfl⟩ | ⟨rfl, rfl, rfl⟩
    · cases early
      refine ⟨rfl, rfl, fun assigned q member => ?_⟩
      cases List.mem_singleton.mp member
      cases assigned
      rfl
    · cases early
      refine ⟨rfl, rfl, fun assigned q member => ?_⟩
      cases List.mem_singleton.mp member
      cases assigned
      rfl
  · intro n u t s ran through moved
    obtain ⟨x, _, store⟩ := passed compiled ran through
    rw [store, advanced] at moved
    cases moved
    refine ⟨rfl, fun p member => ?_⟩
    rcases List.mem_pair.mp member with rfl | rfl
    · rfl
    · rfl
  · intro n u t ran through p _
    obtain ⟨x, before, after⟩ := passed compiled ran through
    rw [before, after]

end nest

/-- The loops of the nest keep to their scheme. The inner one counts with two parameters: from the
start of its first block the machine prints 0 and 1 and comes to the exit with both at 2. -/
theorem compiled_loops_follow_their_scheme_in_nest :
    let m := Machine.new {} {}
    ∃ chunk, (({} : Compiler).compile nest).2 = .ok chunk ∧
      ({} : Compiler).Spells nest nest.script ∧ (nest.script.sites [] 0).length = 2 ∧
      (∀ site ∈ nest.script.sites [] 0, ∃ out, chunk.resolve? site.header.exit = some out ∧
        ∀ (m : Machine) (s : Store), site.Roomy m → site.header.begin m.store = .ok () s →
          site.Follows chunk out m { m with store := s }) ∧
      nest.site ∈ nest.script.sites [] 0 ∧ nest.site.Roomy m ∧
      nest.inner.begin m.store = .ok () (nest.holds 0 0) ∧
      nest.inner.Rounds (nest.site.Passes chunk) 1 (nest.showing 0 "") (nest.showing 1 "0\n") ∧
      nest.inner.Leaves (nest.site.Passes chunk) (nest.showing 1 "0\n") (nest.showing 2 "0\n1\n") ∧
      chunk.resolve? "end" = some 145 ∧
      Reaches chunk 1 (nest.site.start, m) (145, nest.showing 2 "0\n1\n") ∧
      nest.counter.Drives nest.inner (nest.site.Passes chunk) m.store (nest.showing 0 "") ∧
      ¬ (Value.number (nest.counter.value 1)).Equal (.number 2) ∧
      (Value.number (nest.counter.value 2)).Equal (.number 2) := by
  intro m
  obtain ⟨chunk, compiled, assembled⟩ := nest.compiles
  obtain ⟨_, follow⟩ := compiled_loops_follow_their_scheme compiled
  have member : nest.site ∈ nest.script.sites [] 0 := List.mem_cons_of_mem _ List.mem_cons_self
  have roomy : nest.site.Roomy m := by
    intro l member
    rcases List.mem_pair.mp member with rfl | rfl <;> decide
  obtain ⟨exit, first, second⟩ := nest.passes compiled
  obtain ⟨out, _, _, leaving, follows⟩ := follow _ nest.spells assembled _ member
  obtain rfl : 145 = out := Option.some.inj (exit.symm.trans leaving)
  have scheme := follows m _ roomy nest.begun
  have round : nest.inner.Rounds (nest.site.Passes chunk) 1 (nest.showing 0 "")
      (nest.showing 1 "0\n") := .next (.none _) first nest.first_round.1 nest.first_round.2
  have leaves : nest.inner.Leaves (nest.site.Passes chunk) (nest.showing 1 "0\n")
      (nest.showing 2 "0\n1\n") :=
    ⟨_, _, _, second, nest.second_round.1, nest.second_round.2, rfl⟩
  have drives := nest.drives compiled
  refine ⟨chunk, compiled, nest.spells, rfl, ?_, member, roomy, nest.begun, round, leaves, exit,
    scheme.leaves round leaves, drives, ?_, ?_⟩
  · intro site member
    obtain ⟨out, _, _, exit, follows⟩ := follow _ nest.spells assembled site member
    exact ⟨out, exit, follows⟩
  · exact (scheme.counts drives round).1.2 1 (by decide) (by decide)
  · exact ((scheme.counts drives round).2 leaves).1

end Cellscript
