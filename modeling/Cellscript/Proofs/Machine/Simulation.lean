import Cellscript.Proofs.Compile.Scripts
import Cellscript.Proofs.Machine.Statements

/-!
Compiled programs without loops do what they mean, statement by statement.
-/

set_option autoImplicit false

namespace Cellscript

open Machine

/-! ## Labels -/

theorem Statement.behind?_eq_some {label : String} {program rest : List Statement}
    (found : behind? label program = some rest) :
    ∃ front, program = front ++ mark label :: rest := by
  induction program with
  | nil => cases found
  | cons statement others ih =>
    cases statement with
    | simple s =>
      obtain ⟨front, split⟩ := ih found
      exact ⟨simple s :: front, by rw [split]; rfl⟩
    | mark name =>
      rw [behind?] at found
      split at found
      · rename_i same
        cases found
        exact ⟨[], by rw [same]; rfl⟩
      · obtain ⟨front, split⟩ := ih found
        exact ⟨mark name :: front, by rw [split]; rfl⟩

theorem Statement.behind?_eq_none {label : String} {program : List Statement}
    (missing : behind? label program = none) : mark label ∉ program := by
  induction program with
  | nil => exact List.not_mem_nil
  | cons statement others ih =>
    cases statement with
    | simple s => exact List.not_mem_cons_of_ne_of_not_mem nofun (ih missing)
    | mark name =>
      rw [behind?] at missing
      split at missing
      · cases missing
      · rename_i other
        refine List.not_mem_cons_of_ne_of_not_mem ?_ (ih missing)
        intro same
        cases same
        exact other rfl

namespace Program

variable {chunk : Chunk} {program : List Statement}

theorem mem_lines {name : String} (marked : .mark name ∈ lines program) : .mark name ∈ program := by
  obtain ⟨statement, member, inside⟩ := List.mem_flatMap.mp marked
  cases statement with
  | mark other =>
    cases List.mem_singleton.mp inside
    exact member
  | simple s => exact absurd inside (s.code_unmarked name)

theorem labels (assembled : chunk.Assembles (lines program ++ plainLines [.halt]))
    (finished : chunk.jumps = chunk.labels) : Labels chunk program := by
  intro name
  cases found : Statement.behind? name program with
  | some rest =>
    obtain ⟨front, split⟩ := Statement.behind?_eq_some found
    refine ⟨codeSize (lines front), ?_, front ++ [.mark name], ?_, ?_⟩
    · refine (assembled.resolve?_eq_some_iff finished).mpr
        ⟨lines front, lines rest ++ plainLines [.halt], ?_, rfl⟩
      rw [split, lines_append, List.append_assoc]
      rfl
    · rw [split, List.append_assoc]
      rfl
    · rw [lines_append, codeSize_append]
      rfl
  | none =>
    cases resolved : chunk.resolve? name with
    | none => rfl
    | some target =>
      obtain ⟨front, back, split, _⟩ := (assembled.resolve?_eq_some_iff finished).mp resolved
      have member : Line.mark name ∈ lines program ++ plainLines [.halt] := by
        rw [split]
        exact List.mem_append_right front List.mem_cons_self
      rcases List.mem_append.mp member with inside | last
      · exact absurd (mem_lines inside) (Statement.behind?_eq_none found)
      · exact absurd last (Unmarked.plainLines _ name)

/-! ## Steps -/

/-- Where the code of a program goes on. -/
def Stage.landing (program : List Statement) : Stage → Landing
  | running rest => .within (Resumes program rest)
  | returned => .finish
  | astray => .astray

/-- The stack has room for every statement of the program. -/
def Roomy (program : List Statement) (m : Machine) : Prop :=
  ∀ s, .simple s ∈ program → m.stack.length + s.room ≤ m.limits.stackMax

/-- A stack that has room for the code has room for the program. -/
theorem Roomy.of_size (assembled : chunk.Assembles (lines program ++ plainLines [.halt]))
    {m : Machine} (enough : m.stack.length + chunk.size ≤ m.limits.stackMax) : Roomy program m := by
  intro s member
  obtain ⟨front, rest, split⟩ := List.append_of_mem member
  have fits := s.room_le_codeSize
  have size := assembled.size_eq
  rw [split, lines_append, lines_cons, codeSize_append, codeSize_append, codeSize_append,
    Statement.code] at size
  omega

/-- The code from where a program resumes does the next step of it, in at least one instruction. -/
theorem step_arrives (assembled : chunk.Assembles (lines program ++ plainLines [.halt]))
    (labels : Labels chunk program) {rest : List Statement} {ip : Nat}
    (resumes : Resumes program rest ip) {m : Machine} (roomy : Roomy program m) :
    Arrives chunk 1 (ip, m) m (Stage.landing program) (step program rest m.world) := by
  obtain ⟨front, split, rfl⟩ := resumes
  induction rest generalizing front with
  | nil =>
    rw [List.append_nil] at split
    rw [← split]
    exact ⟨0, _, m, m, rfl, congrFun assembled.step_eq m, rfl⟩
  | cons statement rest ih =>
    cases statement with
    | mark name =>
      -- A label takes no code: what is behind it starts where the label stands.
      have later := ih (front ++ [.mark name]) (by rw [split, List.append_assoc]; rfl)
      rw [lines_append, codeSize_append] at later
      exact later
    | simple s =>
      have here :
          chunk.Assembles (lines front ++ s.code ++ (lines rest ++ plainLines [.halt])) := by
        rw [split, lines_append, lines_cons] at assembled
        simpa only [Statement.code, List.append_assoc] using assembled
      have enough := roomy s (by rw [split]; exact List.mem_append_right front List.mem_cons_self)
      have arrives := s.executes labels (Nat.le_refl _) (lines front) _ m here enough
      have next : Resumes program rest (codeSize (lines front ++ s.code)) := by
        refine ⟨front ++ [.simple s], by rw [split, List.append_assoc]; rfl, ?_⟩
        rw [lines_append]
        simp [lines, Statement.code]
      rw [step, bind_apply]
      generalize s.exec program m.world = done at arrives ⊢
      match done with
      | .ok .onward _ =>
        obtain ⟨_, rfl, reached⟩ := arrives
        exact ⟨_, next, reached⟩
      | .ok (.goto _) _ => exact arrives
      | .ok .stop _ => exact arrives
      | .ok .astray _ => exact arrives
      | .error _ _ => exact arrives

/-- Step by step, the code does as much of a program as is asked for. -/
theorem run_arrives (assembled : chunk.Assembles (lines program ++ plainLines [.halt]))
    (labels : Labels chunk program) (n : Nat) {rest : List Statement} {ip : Nat}
    (resumes : Resumes program rest ip) {m : Machine} (roomy : Roomy program m) :
    Arrives chunk n (ip, m) m (Stage.landing program) (run program n rest m.world) := by
  induction n generalizing rest ip m with
  | zero => exact ⟨ip, resumes, .refl chunk _⟩
  | succ n ih =>
    have first := step_arrives assembled labels resumes roomy
    rw [run, bind_apply]
    generalize step program rest m.world = done at first ⊢
    match done with
    | .ok (.running later) w =>
      obtain ⟨place, continues, reached⟩ := first
      have after := ih continues (m := m.inWorld w) roomy
      rw [Nat.add_comm]
      exact Arrives.after reached after.of_inWorld
    | .ok .returned _ => exact first
    | .ok .astray _ => exact first
    | .error _ _ => exact first

/-! ## Runs -/

/-- A run of the machine comes to where the program has come after `n` statements. -/
def Agrees (chunk : Chunk) (program : List Statement) (m : Machine) (n : Nat) :
    EStateM.Result Fault World Stage → Prop
  | .ok (.running rest) w => ∃ k ≥ n, ∃ ip t, after chunk k (0, m) = some (ip, t) ∧
      Resumes program rest ip ∧ t.world = w ∧ t.stack = m.stack
  | .ok .returned w => ∃ k t, Machine.run chunk k m = (t, .returned) ∧ t.world = w
  | .ok .astray w =>
    ∃ k ip t, after chunk k (0, m) = some (ip, t) ∧ RawGoto chunk ip t ∧ t.world = w
  | .error fault w => ∃ k t line, Machine.run chunk k m = (t, .failed ⟨fault, line⟩) ∧ t.world = w

/-- What the end of a run says the program has come to. -/
def verdict? (w : World) : Outcome → Option (EStateM.Result Fault World Stage)
  | .returned => some (.ok .returned w)
  | .failed failure => some (.error failure.fault w)
  | .unfinished => none

/-- The machine does what the program does. After any number of statements it has come as far, and
where it ends while it keeps to labels, the program has ended in the same way. -/
structure Simulates (chunk : Chunk) (program : List Statement) (m : Machine) : Prop where
  agrees : ∀ n, Agrees chunk program m n (run program n program m.world)
  ends : ∀ k result,
    verdict? (Machine.run chunk k m).1.world (Machine.run chunk k m).2 = some result →
    KeepsToLabels chunk k (0, m) → run program k program m.world = result

theorem Agrees.of_arrives {m : Machine} {n : Nat} {result : EStateM.Result Fault World Stage}
    (arrives : Arrives chunk n (0, m) m (Stage.landing program) result) :
    Agrees chunk program m n result := by
  match result with
  | .ok (.running _) _ =>
    obtain ⟨ip, resumes, k, log, enough, reached⟩ := arrives
    exact ⟨k, enough, ip, _, reached, resumes, rfl, rfl⟩
  | .ok .returned _ => exact Ends.returned arrives
  | .ok .astray _ => exact arrives
  | .error _ _ => exact Ends.failed arrives

theorem simulates (assembled : chunk.Assembles (lines program ++ plainLines [.halt]))
    (finished : chunk.jumps = chunk.labels) {m : Machine} (roomy : Roomy program m) :
    Simulates chunk program m := by
  have forward (n : Nat) : Agrees chunk program m n (run program n program m.world) :=
    .of_arrives (run_arrives assembled (labels assembled finished) n ⟨[], rfl, rfl⟩ roomy)
  refine ⟨forward, fun k result said keeps => ?_⟩
  obtain ⟨t, outcome, ended⟩ : ∃ t outcome, Machine.run chunk k m = (t, outcome) := ⟨_, _, rfl⟩
  rw [ended] at said
  have final : outcome ≠ .unfinished := by
    rintro rfl
    cases said
  have agrees := forward k
  generalize run program k program m.world = done at agrees ⊢
  match done with
  | .ok (.running rest) w =>
    -- The machine has come further than a run that has ended can have come.
    obtain ⟨n, late, ip, u, reached, _⟩ := agrees
    exact absurd (lt_of_after ended final reached) (Nat.not_lt_of_le late)
  | .ok .returned w =>
    obtain ⟨n, u, returned, rfl⟩ := agrees
    obtain ⟨rfl, rfl⟩ := runFrom_unique ended final returned nofun
    exact Option.some.inj said
  | .ok .astray w =>
    obtain ⟨n, ip, u, reached, raw, _⟩ := agrees
    exact absurd raw (keeps n (lt_of_after ended final reached) ip u reached)
  | .error fault w =>
    obtain ⟨n, u, line, failed, rfl⟩ := agrees
    obtain ⟨rfl, rfl⟩ := runFrom_unique ended final failed nofun
    exact Option.some.inj said

end Program

/-! ## Scripts -/

theorem Script.statements?_of_loopless {script : Script} (loopless : script.loops = 0) :
    ∃ program, script.statements? = some program ∧
      ∀ number, script.code number = Program.lines program := by
  induction script with
  | done => exact ⟨[], rfl, fun _ => rfl⟩
  | mark name rest ih =>
    obtain ⟨program, stated, lines⟩ := ih loopless
    refine ⟨.mark name :: program, ?_, fun number => ?_⟩
    · rw [statements?, stated]
      rfl
    · rw [code, lines]
      rfl
  | simple s rest ih =>
    obtain ⟨program, stated, lines⟩ := ih loopless
    refine ⟨.simple s :: program, ?_, fun number => ?_⟩
    · rw [statements?, stated]
      rfl
    · rw [code, lines]
      rfl
  | loop header body rest =>
    rw [loops] at loopless
    omega

/-- A text without loops compiles to code that does what its statements mean, from any store on, in
any machine whose stack has room for each of them. -/
theorem compiled_programs_do_what_they_mean {compiler : Compiler} {source : String} {chunk : Chunk}
    (compiled : (compiler.compile source).2 = .ok chunk)
    (loopless : (compiler.compile source).1.loopCount = compiler.loopCount) :
    ∃ script program, compiler.Spells source script ∧ script.statements? = some program ∧
      chunk.Assembles (Program.lines program ++ plainLines [.halt]) ∧
      ∀ m : Machine, Program.Roomy program m → Program.Simulates chunk program m := by
  obtain ⟨script, spells, assembled, finished, count⟩ := Compiler.compile_assembles compiled
  obtain ⟨program, stated, lines⟩ := script.statements?_of_loopless (by omega)
  rw [lines] at assembled
  exact ⟨script, program, spells, stated, assembled,
    fun m roomy => Program.simulates assembled finished roomy⟩

/-- Goes back once, and then out of a conditional in a conditional. -/
def detour : String := "\n".intercalate [
  "'seen = false", "top...", "\x7b'seen\x7d \x7btrue\x7d out | ! | print \"once\"",
  "'seen = true", "top", "out...", "print seen"]

theorem compiled_programs_do_what_they_mean_on_detour :
    ∃ chunk script program w, (({} : Compiler).compile detour).2 = .ok chunk ∧
      ({} : Compiler).Spells detour script ∧ script.statements? = some program ∧
      Program.Roomy program (Machine.new {} {}) ∧
      Program.Simulates chunk program (Machine.new {} {}) ∧
      Program.run program 60 program ⟨.empty 1024, {}⟩ = .ok .returned w ∧
      w.sink.taken = "once\ntrue\n".toUTF8 := by
  have counted : (({} : Compiler).compile detour).1.loopCount = 0 := by decide +kernel
  have checked : (({} : Compiler).compile detour).2.toOption.any (fun chunk =>
      chunk.size ≤ 64 ∧ KeepsToLabels chunk 60 (0, Machine.new {} {}) ∧
      (run chunk 60 (Machine.new {} {})).2 = .returned ∧
      (run chunk 60 (Machine.new {} {})).1.sink.taken = "once\ntrue\n".toUTF8) = true := by
    decide +kernel
  cases compiled : (({} : Compiler).compile detour).2 with
  | error diagnostics =>
    rw [compiled] at checked
    cases checked
  | ok chunk =>
    rw [compiled] at checked
    obtain ⟨small, keeps, returned, printed⟩ := of_decide_eq_true checked
    obtain ⟨script, program, spells, stated, assembled, simulates⟩ :=
      compiled_programs_do_what_they_mean compiled counted
    have roomy : Program.Roomy program (Machine.new {} {}) :=
      .of_size assembled (Nat.le_trans (Nat.add_le_add_left small 0) (by decide))
    refine ⟨chunk, script, program, (run chunk 60 (Machine.new {} {})).1.world, rfl, spells,
      stated, roomy, simulates _ roomy, ?_, printed⟩
    refine (simulates _ roomy).ends 60 _ ?_ keeps
    rw [returned]
    rfl

end Cellscript
