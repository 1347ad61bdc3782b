import Cellscript.Proofs.Language.Exits
import Cellscript.Proofs.Machine.Frames
import Cellscript.Proofs.Machine.Progress

/-!
Compiled code never goes wrong: at every instruction the stack is as high as the place of the
instruction says, and nothing that was on the stack before the run is touched.
-/

set_option autoImplicit false

namespace Cellscript.Machine

/-- The offset is that of a line where the stack has as many entries as `top`, and a constant loaded
right before is on top of them. -/
def Stands (lines : List Line) (ip : Nat) (top : List Value) : Prop :=
  ∃ front back, lines = front ++ back ∧ ip = codeSize front ∧
    heightAfter 0 front = some top.length ∧
    ∀ before value, front = before ++ [.code (.load value)] → top.head? = some value

/-- A step where the machine stands leads to where it stands again, unless it takes a number as an
offset. It leaves the stack as it was before the run when it ends it, and does not break. -/
def Turns (chunk : Chunk) (lines : List Line) (ip : Nat) (m : Machine) (top : List Value)
    (size : Nat) : Prop :=
  ∃ result final rest, Does (step chunk ip) m top size result final rest ∧
    (∀ next, result = .ok (some next) → RawGoto chunk ip m ∨ Stands lines next rest) ∧
    (result = .ok none → rest = []) ∧ ∀ fault, result = .error fault → ¬ fault.Structural

section Standing

variable {chunk : Chunk} {lines : List Line}

/-- Past a label nothing is on the stack. -/
theorem Stands.of_mark {front back : List Line} {name : String} {height : Nat}
    (known : heightAfter 0 lines = some height) (split : lines = front ++ .mark name :: back) :
    Stands lines (codeSize front) [] := by
  have before := heightAfter_at_mark (split ▸ known)
  refine ⟨front ++ [.mark name], back, ?_, ?_, ?_, ?_⟩
  · rw [split, List.append_assoc]
    rfl
  · simp
  · rw [heightAfter_of_append before]
    rfl
  · intro before value same
    have last := (List.append_inj' same rfl).2
    cases last

/-- What the machine comes to next: an instruction of the lines, or their end with nothing on the
stack. -/
theorem Stands.next {ip : Nat} {top : List Value} (stands : Stands lines ip top)
    (known : heightAfter 0 lines = some 0) :
    (∃ front i back, lines = front ++ .code i :: back ∧ ip = codeSize front ∧
      heightAfter 0 front = some top.length ∧
      ∀ before value, front = before ++ [.code (.load value)] → top.head? = some value) ∨
    ip = codeSize lines ∧ top = [] := by
  obtain ⟨front, back, split, place, height, loaded⟩ := stands
  induction back generalizing front with
  | nil =>
    rw [List.append_nil] at split
    subst split
    rw [height] at known
    exact Or.inr ⟨place, List.length_eq_zero_iff.mp (Option.some.inj known)⟩
  | cons line rest ih =>
    cases line with
    | code i => exact Or.inl ⟨front, i, rest, split, place, height, loaded⟩
    | mark name =>
      have bare := heightAfter_at_mark (split ▸ known)
      have zero : top.length = 0 := Option.some.inj (height.symm.trans bare)
      refine ih (front ++ [.mark name]) ?_ ?_ ?_ ?_
      · rw [split, List.append_assoc]
        rfl
      · simpa using place
      · rw [heightAfter_of_append height, zero]
        rfl
      · intro before value same
        have last := (List.append_inj' same rfl).2
        cases last

/-- Going on with the line after an instruction. -/
theorem Stands.after_code {front back : List Line} {i : Instruction} {height : Nat}
    {rest : List Value} (split : lines = front ++ .code i :: back)
    (known : heightAfter 0 front = some height) (enough : i.takes ≤ height)
    (length : rest.length + i.takes = height + i.gives)
    (loaded : ∀ value, i = .load value → rest.head? = some value) :
    Stands lines (codeSize front + i.width) rest := by
  refine ⟨front ++ [.code i], back, ?_, ?_, ?_, ?_⟩
  · rw [split, List.append_assoc]
    rfl
  · simp
  · rw [heightAfter_of_append known]
    simp only [heightAfter, enough, ↓reduceIte, Option.some.injEq]
    omega
  · intro before value same
    have last := (List.append_inj' same rfl).2
    cases last
    exact loaded value rfl

/-- Passing over lines where a jump may land. -/
theorem Stands.after_jump {front back : List Line} {i : Instruction} {distance : Nat}
    (split : lines = front ++ .code i :: back)
    (before : heightAfter 0 (front ++ [.code i]) = some 0)
    (lands : Lands distance back) : Stands lines (codeSize front + i.width + distance) [] := by
  obtain ⟨skipped, rest, rfl, size, passed⟩ := lands
  have height : heightAfter 0 (front ++ [.code i] ++ skipped) = some 0 :=
    (heightAfter_of_append before skipped).trans passed
  refine ⟨front ++ [.code i] ++ skipped, rest, ?_, ?_, height, ?_⟩
  · rw [split]
    simp
  · simp [size, Nat.add_assoc]
  · intro earlier value same
    rw [same] at height
    obtain ⟨here, _, after⟩ := Option.bind_eq_some_iff.mp
      ((heightAfter_append 0 earlier _).symm.trans height)
    simp [heightAfter, Instruction.takes, Instruction.gives, Instruction.opcode, Opcode.takes,
      Opcode.gives] at after

section Step

variable {front back : List Line} {top : List Value}

/-- The step at an instruction is what the instruction does. -/
theorem Turns.of_perform {i : Instruction} (assembled : chunk.Assembles (front ++ .code i :: back))
    {m : Machine} {size : Nat} {result : Except Fault (Option Nat)} {final : Machine}
    {rest : List Value}
    (does : Does (i.perform chunk (codeSize front + i.width)) m top size result final rest)
    (stands : ∀ next, result = .ok (some next) →
      RawGoto chunk (codeSize front) m ∨ Stands lines next rest)
    (ends : result = .ok none → rest = [])
    (faults : ∀ fault, result = .error fault → ¬ fault.Structural) :
    Turns chunk lines (codeSize front) m top size := by
  refine ⟨result, final, rest, ?_, stands, ends, faults⟩
  rw [assembled.step_eq]
  exact does

theorem load_turns {value : Value} {after : List Line}
    (assembled : chunk.Assembles (front ++ .code (.load value) :: back))
    (split : lines = front ++ .code (.load value) :: after)
    (height : heightAfter 0 front = some top.length) (m : Machine) (size : Nat) :
    Turns chunk lines (codeSize front) m top size := by
  by_cases full : m.limits.stackMax ≤ top.length + size
  · refine .of_perform assembled ((Does.push_full value full).failing _) nofun nofun ?_
    intro fault same
    cases same
    exact id
  · refine .of_perform assembled ((Does.push value full).andThen (.pure _ _ _ _)) ?_ nofun nofun
    intro next same
    cases same
    refine Or.inr (.after_code split height (Nat.zero_le _) rfl ?_)
    intro other same
    cases same
    rfl

theorem straight_turns {op : Opcode} {after : List Line}
    (assembled : chunk.Assembles (front ++ .code (.plain op) :: back))
    (split : lines = front ++ .code (.plain op) :: after)
    (height : heightAfter 0 front = some top.length) (enough : op.takes ≤ top.length)
    (straight : (Instruction.plain op).Straight) (m : Machine) (size : Nat) :
    Turns chunk lines (codeSize front) m top size := by
  obtain ⟨_, encoded, _⟩ := assembled.instruction
  obtain ⟨result, final, rest, does, fine, faults⟩ := perform_frame chunk
    (codeSize front + (Instruction.plain op).width) encoded.1 straight m top size enough
  refine .of_perform assembled does ?_ ?_ faults
  · intro next same
    obtain ⟨length, place⟩ := fine _ same
    cases place
    exact Or.inr (.after_code split height enough length nofun)
  · intro same
    obtain ⟨_, place⟩ := fine _ same
    cases place

/-- Where a label leads, nothing is on the stack. -/
theorem resolve?_stands (assembled : chunk.Assembles (lines ++ plainLines [.halt]))
    (finished : chunk.jumps = chunk.labels) (known : heightAfter 0 lines = some 0) {name : String}
    {target : Nat} (resolved : chunk.resolve? name = some target) : Stands lines target [] := by
  obtain ⟨front, back, split, rfl⟩ := (assembled.resolve?_eq_some_iff finished).mp resolved
  rcases List.append_eq_append_iff.mp split with ⟨more, _, last⟩ | ⟨more, inside, last⟩
  · cases more with
    | nil => cases last
    | cons line more =>
      obtain ⟨_, empty⟩ := List.cons.inj last
      cases more <;> cases empty
  · cases more with
    | nil => cases last
    | cons line more =>
      obtain ⟨rfl, _⟩ := List.cons.inj last
      exact .of_mark known inside

/-- Discarding a value goes on, or goes to a label, or takes a number as an offset. -/
theorem pop_turns {value : Value} {after : List Line}
    (assembled : chunk.Assembles (front ++ .code (.plain .pop) :: back))
    (labels : ∀ {name : String} {target : Nat}, chunk.resolve? name = some target →
      Stands lines target [])
    (split : lines = front ++ .code (.plain .pop) :: after)
    (height : heightAfter 0 front = some 1) {m : Machine} {below : List Value}
    (stack : m.stack = value :: below) :
    Turns chunk lines (codeSize front) m [value] below.length := by
  have looked : Does (ofStore (gotoTarget chunk value)) m [] below.length
      (gotoTarget chunk value m.store) m [] := by
    intro others _
    unfold ofStore
    rw [show (m.withStack ([] ++ others)).store = m.store from rfl]
    cases gotoTarget chunk value m.store <;> rfl
  cases target : gotoTarget chunk value m.store with
  | error fault =>
    rw [target] at looked
    refine .of_perform assembled ((Does.pop value m [] _).andThen (looked.failing _)) nofun nofun ?_
    intro other same
    cases same
    exact gotoTarget_fault target
  | ok place =>
    rw [target] at looked
    refine .of_perform assembled
      ((Does.pop value m [] _).andThen (looked.andThen (.pure _ _ _ _))) ?_ nofun nofun
    intro next same
    cases same
    cases place with
    | none => exact Or.inr (.after_code split height (Nat.le_refl 1) rfl nofun)
    | some offset =>
      rcases gotoTarget_eq_some target with ⟨name, _, resolved⟩ | offset
      · exact Or.inr (labels resolved)
      · exact Or.inl ⟨assembled.opcode_at, value, below, stack, offset⟩

/-- Leaving a loop goes to a label that is there. -/
theorem leave_turns {label : String} {predicate : Value} {after : List Line}
    (assembled : chunk.Assembles (front ++ .code (.plain .jumpIfFalseToLabel) :: back))
    {target : Nat} (resolved : chunk.resolve? label = some target)
    (stands : Stands lines target [])
    (split : lines = front ++ .code (.plain .jumpIfFalseToLabel) :: after)
    (height : heightAfter 0 front = some 2) (m : Machine) (size : Nat) :
    Turns chunk lines (codeSize front) m [.text label, predicate] size := by
  have found : Does (labelOffset chunk (.text label)) m [] size (.ok target) m [] := by
    intro others _
    unfold labelOffset
    rw [show (Value.text label).name?.bind chunk.resolve? = some target from resolved]
    rfl
  have popped : ∀ {result : Except Fault (Option Nat)},
      Does (if predicate.isFalsey then do return some (← labelOffset chunk (.text label))
        else return some (codeSize front + 1)) m [] size result m [] →
      Does (Instruction.perform chunk (.plain .jumpIfFalseToLabel) (codeSize front + 1)) m
        [.text label, predicate] size result m [] := by
    intro result later
    have second : Does (do
        let predicate ← Machine.pop
        if predicate.isFalsey then return some (← labelOffset chunk (.text label))
        else return some (codeSize front + 1)) m [predicate] size result m [] :=
      (Does.pop predicate m [] size).andThen later
    exact (Does.pop (.text label) m [predicate] size).andThen second
  by_cases falsey : predicate.isFalsey = true
  · rw [if_pos falsey] at popped
    refine .of_perform assembled (popped (found.andThen (.pure _ _ _ _))) ?_ nofun nofun
    intro next same
    cases same
    exact Or.inr stands
  · rw [if_neg falsey] at popped
    refine .of_perform assembled (popped (.pure _ _ _ _)) ?_ nofun nofun
    intro next same
    cases same
    exact Or.inr (.after_code split height (Nat.le_refl 2) rfl nofun)

theorem halt_turns (assembled : chunk.Assembles (front ++ .code (.plain .halt) :: back))
    (m : Machine) (size : Nat) : Turns chunk lines (codeSize front) m [] size :=
  .of_perform assembled (.pure none m [] size) nofun (fun _ => rfl) nofun

theorem jump_turns {distance : Nat} {after : List Line}
    (assembled : chunk.Assembles (front ++ .code (.jump distance) :: back))
    (split : lines = front ++ .code (.jump distance) :: after)
    (height : heightAfter 0 front = some 0) (lands : Lands distance after) (m : Machine)
    (size : Nat) : Turns chunk lines (codeSize front) m [] size := by
  refine .of_perform assembled (.pure _ m [] size) ?_ nofun nofun
  intro next same
  cases same
  refine Or.inr (.after_jump split ?_ lands)
  rw [heightAfter_of_append height]
  rfl

theorem branch_turns {distance : Nat} {predicate : Value} {after : List Line}
    (assembled : chunk.Assembles (front ++ .code (.jumpIfFalse distance) :: back))
    (split : lines = front ++ .code (.jumpIfFalse distance) :: after)
    (height : heightAfter 0 front = some 1) (lands : Lands distance after) (m : Machine)
    (size : Nat) : Turns chunk lines (codeSize front) m [predicate] size := by
  refine .of_perform assembled ((Does.pop predicate m [] size).andThen (.pure _ _ _ _)) ?_
    nofun nofun
  intro next same
  cases same
  by_cases falsey : predicate.isFalsey = true
  · rw [if_pos falsey]
    refine Or.inr (.after_jump split ?_ lands)
    rw [heightAfter_of_append height]
    rfl
  · rw [if_neg falsey]
    exact Or.inr (.after_code split height (Nat.le_refl 1) rfl nofun)

end Step

/-- One step, whatever instruction the machine stands at. -/
theorem Stands.turns (assembled : chunk.Assembles (lines ++ plainLines [.halt]))
    (finished : chunk.jumps = chunk.labels) (neutral : Neutral (.mark · ∈ lines) lines) {ip : Nat}
    {top below : List Value} (stands : Stands lines ip top) {m : Machine}
    (stack : m.stack = top ++ below) :
    ip ∈ chunk.sweepFrom 0 ∧ Turns chunk lines ip m top below.length := by
  have labels {name : String} {target : Nat} (resolved : chunk.resolve? name = some target) :
      Stands lines target [] := resolve?_stands assembled finished neutral.height resolved
  rcases stands.next neutral.height with ⟨front, i, back, split, rfl, height, loaded⟩ | ⟨rfl, rfl⟩
  · have here : chunk.Assembles (front ++ .code i :: (back ++ plainLines [.halt])) := by
      rw [split, List.append_assoc] at assembled
      exact assembled
    have sits : Sits (.mark · ∈ lines) [] lines [] := neutral.sits rfl
    obtain ⟨known, same, enough, placed⟩ := sits front back i split
    rw [List.nil_append] at same placed
    rw [List.append_nil] at placed
    have known_eq : known = top.length := Option.some.inj (same.symm.trans height)
    subst known_eq
    refine ⟨here.mem_sweepFrom, ?_⟩
    cases i with
    | load value => exact load_turns here split height m _
    | jump distance =>
      obtain ⟨zero, lands⟩ := placed
      obtain rfl := List.length_eq_zero_iff.mp zero
      exact jump_turns here split height lands m _
    | jumpIfFalse distance =>
      obtain ⟨one, lands⟩ := placed
      obtain ⟨predicate, rfl⟩ := List.length_eq_one_iff.mp one
      exact branch_turns here split height lands m _
    | plain op =>
      by_cases halts : op = .halt
      · subst halts
        obtain rfl := List.length_eq_zero_iff.mp placed
        exact halt_turns here m _
      by_cases pops : op = .pop
      · subst pops
        obtain ⟨value, rfl⟩ := List.length_eq_one_iff.mp placed
        exact pop_turns here labels split height stack
      by_cases leaves : op = .jumpIfFalseToLabel
      · subst leaves
        obtain ⟨two, before, label, front_eq, declared⟩ := placed
        obtain ⟨first, predicate, rfl⟩ := List.length_eq_two.mp two
        cases Option.some.inj (loaded before (.text label) front_eq)
        obtain ⟨start, rest, whole⟩ := List.append_of_mem declared
        have resolved : chunk.resolve? label = some (codeSize start) :=
          (assembled.resolve?_eq_some_iff finished).mpr
            ⟨start, rest ++ plainLines [.halt], by rw [whole]; simp, rfl⟩
        exact leave_turns here resolved (labels resolved) split height m _
      · exact straight_turns here split height enough ⟨halts, pops, leaves⟩ m _
  · exact ⟨assembled.mem_sweepFrom, halt_turns assembled m _⟩

/-- At every instruction of a run the machine stands where the lines say, above the entries that
were there before. -/
theorem Stands.after (assembled : chunk.Assembles (lines ++ plainLines [.halt]))
    (finished : chunk.jumps = chunk.labels) (neutral : Neutral (.mark · ∈ lines) lines)
    {below : List Value} {n ip next : Nat} {m t : Machine} {top : List Value}
    (stands : Stands lines ip top) (stack : m.stack = top ++ below)
    (labels : KeepsToLabels chunk n (ip, m))
    (reached : Machine.after chunk n (ip, m) = some (next, t)) :
    ∃ rest, Stands lines next rest ∧ t.stack = rest ++ below := by
  induction n generalizing ip m top with
  | zero =>
    cases reached
    exact ⟨top, stands, stack⟩
  | succ n ih =>
    have noted : (m.note chunk ip).stack = top ++ below := (note_stack m chunk ip).trans stack
    obtain ⟨_, result, final, rest, does, onward, _⟩ :=
      stands.turns assembled finished neutral noted
    have stepped :
        step chunk ip (m.note chunk ip) = leaving (final.withStack (rest ++ below)) result :=
      does.at_stack noted rfl
    cases result with
    | error fault =>
      rw [Machine.after, stepped] at reached
      cases reached
    | ok place =>
      cases place with
      | none =>
        rw [Machine.after, stepped] at reached
        cases reached
      | some place =>
        rw [after_succ stepped] at reached
        have here : Stands lines place rest :=
          (onward place rfl).resolve_left fun raw => labels 0 (Nat.succ_pos n) ip m rfl raw.of_note
        rw [Nat.add_comm] at labels
        exact ih here rfl (labels.later (after_succ stepped 0)) reached

end Standing

/-- Compiled code keeps to its own instructions and to its own part of the stack: a step does the
same whatever lies below, and leaves it there. A run never breaks, and a run that returns leaves the
stack as it was. -/
theorem compiled_code_never_goes_wrong {compiler : Compiler} {source : String} {chunk : Chunk}
    (compiled : (compiler.compile source).2 = .ok chunk) (m : Machine) (steps : Nat)
    (labels : KeepsToLabels chunk steps (0, m)) :
    (∀ n ≤ steps, ∀ ip t, after chunk n (0, m) = some (ip, t) →
      ip ∈ chunk.sweepFrom 0 ∧ ∃ top, t.stack = top ++ m.stack ∧ ∃ result final rest,
        Does (step chunk ip) (t.note chunk ip) top m.stack.length result final rest) ∧
    (∀ fault line, (run chunk steps m).2 = .failed ⟨fault, line⟩ → ¬ fault.Structural) ∧
    ((run chunk steps m).2 = .returned → (run chunk steps m).1.stack = m.stack) := by
  obtain ⟨script, spells, assembled, finished, _⟩ := Compiler.compile_assembles compiled
  have neutral := script.code_neutral compiler.loopCount fun _ leaves =>
    spells.declares_exits compiler.loopCount leaves
  have start : Stands (script.code compiler.loopCount) 0 [] := ⟨[], _, rfl, rfl, rfl, by simp⟩
  have turns {n ip : Nat} {t : Machine} (early : n ≤ steps)
      (reached : after chunk n (0, m) = some (ip, t)) :
      ip ∈ chunk.sweepFrom 0 ∧ ∃ top, t.stack = top ++ m.stack ∧
        Turns chunk (script.code compiler.loopCount) ip (t.note chunk ip) top m.stack.length := by
    obtain ⟨top, stands, stack⟩ := start.after assembled finished neutral rfl
      (fun k below => labels k (Nat.lt_of_lt_of_le below early)) reached
    obtain ⟨starts, turn⟩ :=
      stands.turns assembled finished neutral ((note_stack _ _ _).trans stack)
    exact ⟨starts, top, stack, turn⟩
  refine ⟨?_, ?_⟩
  · intro n early ip t reached
    obtain ⟨starts, top, stack, result, final, rest, does, _⟩ := turns early reached
    exact ⟨starts, top, stack, result, final, rest, does⟩
  rcases runFrom_cases chunk steps 0 m with ⟨_, _, ends⟩ | ⟨n, early, ip, t, reached, ended⟩
  · rw [run, ends]
    exact ⟨nofun, nofun⟩
  obtain ⟨_, top, stack, result, final, rest, does, _, returns, faults⟩ :=
    turns (Nat.le_of_lt early) reached
  have stepped := does.at_stack ((note_stack _ _ _).trans stack) rfl
  rcases ended with ⟨u, last, ends⟩ | ⟨fault, u, last, ends⟩
  · rw [run, ends]
    refine ⟨nofun, fun _ => ?_⟩
    rw [last] at stepped
    cases result with
    | error fault => cases stepped
    | ok place =>
      cases stepped
      rw [returns rfl]
      rfl
  · rw [run, ends]
    refine ⟨fun other line same => ?_, nofun⟩
    rw [last] at stepped
    cases result with
    | ok place => cases stepped
    | error kind =>
      cases stepped
      cases same
      exact faults fault rfl

/-- A loop with a conditional in a conditional, and a jump past a stop. -/
def roundabout : String := "\n".intercalate [
  "\x7b0 (1) \x7bfalse\x7d . => 'i\x7d top, out",
  "\x7btrue\x7d \x7bfalse\x7d ! | again",
  "again...", "print \"b\"", "out...",
  "\x7btrue\x7d end", "!", "end...", "print \"done\""]

theorem compiled_code_never_goes_wrong_on_roundabout :
    let m := (Machine.new {} {}).withStack [.truth true, .text "kept"]
    ∃ chunk, (({} : Compiler).compile roundabout).2 = .ok chunk ∧ KeepsToLabels chunk 40 (0, m) ∧
      (run chunk 40 m).2 = .returned ∧ (run chunk 40 m).1.stack = [.truth true, .text "kept"] := by
  intro m
  have checked : (({} : Compiler).compile roundabout).2.toOption.any (fun chunk =>
      KeepsToLabels chunk 40 (0, m) ∧ (run chunk 40 m).2 = .returned) = true := by
    decide +kernel
  cases compiled : (({} : Compiler).compile roundabout).2 with
  | error diagnostics =>
    rw [compiled] at checked
    cases checked
  | ok chunk =>
    rw [compiled] at checked
    obtain ⟨labels, returned⟩ := of_decide_eq_true checked
    exact ⟨chunk, rfl, labels, returned,
      (compiled_code_never_goes_wrong compiled m 40 labels).2.2 returned⟩

end Cellscript.Machine
