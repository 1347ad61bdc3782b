import Cellscript.Proofs.Language.Meaning
import Cellscript.Proofs.Machine.Evaluation

/-!
The code of a statement does what the statement means.
-/

set_option autoImplicit false

namespace Cellscript

/-! ## Programs in code -/

def Statement.code : Statement → List Line
  | mark name => [.mark name]
  | simple s => s.code

namespace Program

def lines (program : List Statement) : List Line := program.flatMap Statement.code

theorem lines_cons (statement : Statement) (rest : List Statement) :
    lines (statement :: rest) = statement.code ++ lines rest := rfl

theorem lines_append (front rest : List Statement) :
    lines (front ++ rest) = lines front ++ lines rest :=
  List.flatMap_append

/-- The statements `rest` that a program ends with start at this offset. -/
def Resumes (program rest : List Statement) (offset : Nat) : Prop :=
  ∃ front, program = front ++ rest ∧ offset = codeSize (lines front)

/-- A chunk has the labels of a program, and they stand where the program has them. -/
def Labels (chunk : Chunk) (program : List Statement) : Prop :=
  ∀ name, match Statement.behind? name program with
    | some rest => ∃ target, chunk.resolve? name = some target ∧ Resumes program rest target
    | none => chunk.resolve? name = none

end Program

namespace Machine

def inWorld (m : Machine) (w : World) : Machine := { m with store := w.store, sink := w.sink }

/-- The run comes to a value that it takes as an offset. -/
def Strays (chunk : Chunk) (here : Nat × Machine) (w : World) : Prop :=
  ∃ n ip t, after chunk n here = some (ip, t) ∧ RawGoto chunk ip t ∧ t.world = w

theorem Reaches.strays {chunk : Chunk} {least : Nat} {here there : Nat × Machine} {w : World}
    (first : Reaches chunk least here there) (second : Strays chunk there w) :
    Strays chunk here w := by
  obtain ⟨n, log, _, reached⟩ := first
  obtain ⟨k, ip, t, later, raw, left⟩ := second
  obtain ⟨final, relogged⟩ := after_withLog later log
  refine ⟨n + k, ip, t.withLog final, ?_, raw, left⟩
  rw [after_add, reached]
  exact relogged

/-- Where a run may come to: one of some places, its end, or a value that it takes as an offset. -/
inductive Landing
  | within (places : Nat → Prop)
  | finish
  | astray

/-- From `start` the run comes to a landing in this world. At a place it has the stack of `m`. -/
def Comes (chunk : Chunk) (least : Nat) (start : Nat × Machine) (m : Machine) (w : World) :
    Landing → Prop
  | .within places => ∃ ip, places ip ∧ Reaches chunk least start (ip, m.inWorld w)
  | .finish => Ends chunk start (.ok ()) w
  | .astray => Strays chunk start w

/-- From `start` the run comes to where the result of an action leads, or fails with it. -/
def Arrives {α : Type} (chunk : Chunk) (least : Nat) (start : Nat × Machine) (m : Machine)
    (landing : α → Landing) : EStateM.Result Fault World α → Prop
  | .ok a w => Comes chunk least start m w (landing a)
  | .error fault w => Ends chunk start (.error fault) w

section Arrivals

variable {α : Type} {chunk : Chunk} {least more : Nat} {start there : Nat × Machine} {m : Machine}

theorem Comes.after {w : World} {landing : Landing} (first : Reaches chunk least start there)
    (second : Comes chunk more there m w landing) :
    Comes chunk (least + more) start m w landing := by
  cases landing with
  | within places =>
    obtain ⟨ip, place, reached⟩ := second
    exact ⟨ip, place, first.trans reached⟩
  | finish => exact first.ends second
  | astray => exact first.strays second

theorem Comes.weaken {w : World} {landing : Landing} {fewer : Nat}
    (comes : Comes chunk least start m w landing) (less : fewer ≤ least) :
    Comes chunk fewer start m w landing := by
  cases landing with
  | within places =>
    obtain ⟨ip, place, reached⟩ := comes
    exact ⟨ip, place, reached.weaken less⟩
  | finish => exact comes
  | astray => exact comes

/-- The world of the machine that lends its stack does not matter. -/
theorem Comes.of_inWorld {w old : World} {landing : Landing}
    (comes : Comes chunk least start (m.inWorld old) w landing) :
    Comes chunk least start m w landing := by
  cases landing with
  | within places => exact comes
  | finish => exact comes
  | astray => exact comes

variable {landing : α → Landing} {result : EStateM.Result Fault World α}

theorem Arrives.after (first : Reaches chunk least start there)
    (second : Arrives chunk more there m landing result) :
    Arrives chunk (least + more) start m landing result := by
  cases result with
  | ok a w => exact Comes.after first second
  | error fault w => exact first.ends second

theorem Arrives.weaken {fewer : Nat} (arrives : Arrives chunk least start m landing result)
    (less : fewer ≤ least) : Arrives chunk fewer start m landing result := by
  cases result with
  | ok a w => exact Comes.weaken arrives less
  | error fault w => exact arrives

theorem Arrives.of_inWorld {w : World}
    (arrives : Arrives chunk least start (m.inWorld w) landing result) :
    Arrives chunk least start m landing result := by
  cases result with
  | ok a w => exact Comes.of_inWorld arrives
  | error fault w => exact arrives

end Arrivals

/-- Where a statement leads if the next one stands at `next`. -/
def landing (program : List Statement) (next : Nat) : Flow → Landing
  | .onward => .within (· = next)
  | .goto rest => .within (Program.Resumes program rest)
  | .stop => .finish
  | .astray => .astray

/-- What goes on at `next` comes to `last`. -/
theorem Arrives.andThen {chunk : Chunk} {program : List Statement} {least next last : Nat}
    {start : Nat × Machine} {m : Machine} {result : EStateM.Result Fault World Flow}
    (first : Arrives chunk least start m (landing program next) result)
    (second : ∀ w, Reaches chunk 0 (next, m.inWorld w) (last, m.inWorld w)) :
    Arrives chunk least start m (landing program last) result := by
  match result with
  | .ok .onward w =>
    obtain ⟨_, rfl, reached⟩ := first
    exact ⟨last, rfl, reached.trans (second w)⟩
  | .ok (.goto _) _ => exact first
  | .ok .stop _ => exact first
  | .ok .astray _ => exact first
  | .error _ _ => exact first

/-- Lines that carry out a statement wherever they stand. -/
def Executes (chunk : Chunk) (program : List Statement) (least room : Nat) (lines : List Line)
    (action : World.Action Flow) : Prop :=
  ∀ front back (m : Machine), chunk.Assembles (front ++ lines ++ back) →
    m.stack.length + room ≤ m.limits.stackMax →
    Arrives chunk least (codeSize front, m) m (landing program (codeSize (front ++ lines)))
      (action m.world)

/-- Lines that carry out a statement that depends on the value on the stack. -/
def Uses (chunk : Chunk) (program : List Statement) (room : Nat) (lines : List Line)
    (action : Value → World.Action Flow) : Prop :=
  ∀ front back (m : Machine) (value : Value), chunk.Assembles (front ++ lines ++ back) →
    m.stack.length + room ≤ m.limits.stackMax →
    Arrives chunk 0 (codeSize front, m.withStack (value :: m.stack)) m
      (landing program (codeSize (front ++ lines))) (action value m.world)

section Parts

variable {chunk : Chunk} {program : List Statement} {room : Nat}

theorem Executes.of_value {e : Expression} {lines : List Line} {action : Value → World.Action Flow}
    (fits : e.room ≤ room) (uses : Uses chunk program room lines action) :
    Executes chunk program 1 room (e.code ++ lines) (do action (← World.evaluate e)) := by
  intro front back m assembled enough
  rw [← List.append_assoc] at assembled ⊢
  have carried := e.block (Nat.le_trans (Nat.add_le_add_left fits _) enough) front (lines ++ back)
    (by rw [List.append_assoc] at assembled; exact assembled) m rfl rfl
  rw [bind_apply, World.evaluate]
  cases done : e.eval m.store with
  | error fault s =>
    rw [done] at carried
    rw [show m.world.store = m.store from rfl, done]
    exact carried
  | ok value s =>
    rw [done] at carried
    rw [show m.world.store = m.store from rfl, done]
    have used := uses (front ++ e.code) back (m.inWorld ⟨s, m.sink⟩) value assembled enough
    exact Arrives.after carried used.of_inWorld

theorem print_uses : Uses chunk program room (plainLines [.print]) fun value => do
    World.print value
    return .onward := by
  intro front back m value assembled _
  rw [List.append_assoc] at assembled
  rw [codeSize_append]
  have stepped := congrFun assembled.step_eq (m.withStack (value :: m.stack))
  have printed : step chunk (codeSize front) (m.withStack (value :: m.stack)) =
      (Machine.print (shown m.store value).plain >>= fun _ =>
        return some (codeSize front + 1)) m := stepped
  rw [bind_apply, Machine.print] at printed
  dsimp only
  rw [bind_apply]
  unfold World.print
  rw [World.lineOf_eq]
  dsimp only [world]
  rcases written : m.sink.write ((shown m.store value).plain ++ "\n").toUTF8 with ⟨sink, _ | _⟩
  · rw [written] at printed
    exact ⟨0, codeSize front, _, _, rfl, printed, rfl⟩
  · rw [written] at printed
    exact ⟨_, rfl, (Reaches.of_step printed).weaken (Nat.zero_le 1)⟩

theorem step_discard {front back : List Line}
    (assembled : chunk.Assembles (front ++ .code (.plain .pop) :: back)) (m : Machine)
    (value : Value) : step chunk (codeSize front) (m.withStack (value :: m.stack)) =
      (do return some ((← ofStore (gotoTarget chunk value)).getD (codeSize front + 1)) :
        Action (Option Nat)) m :=
  congrFun assembled.step_eq (m.withStack (value :: m.stack))

/-- A statement that is an expression goes where its value leads. -/
theorem discard_uses (labels : Program.Labels chunk program) :
    Uses chunk program room (plainLines [.pop]) (Flow.of program) := by
  intro front back m value assembled _
  rw [List.append_assoc] at assembled
  rw [codeSize_append]
  have discarded := step_discard assembled m value
  have goes (target : Option Nat) (found : gotoTarget chunk value m.store = .ok target) :
      Reaches chunk 0 (codeSize front, m.withStack (value :: m.stack))
        (target.getD (codeSize front + 1), m) := by
    rw [bind_apply, ofStore, found] at discarded
    exact (Reaches.of_step discarded).weaken (Nat.zero_le 1)
  have fails {fault : Fault} (missing : gotoTarget chunk value m.store = .error fault) :
      Ends chunk (codeSize front, m.withStack (value :: m.stack)) (.error fault) m.world := by
    rw [bind_apply, ofStore, missing] at discarded
    exact ⟨0, codeSize front, _, m, rfl, discarded, rfl⟩
  unfold Flow.of
  cases named : value.name? with
  | none => exact ⟨_, rfl, goes none (by simp [gotoTarget, named])⟩
  | some name =>
    have label := labels name
    dsimp only
    cases found : Statement.behind? name program with
    | some rest =>
      rw [found] at label
      obtain ⟨target, resolved, resumes⟩ := label
      exact ⟨target, resumes, goes (some target) (by simp [gotoTarget, named, resolved])⟩
    | none =>
      rw [found] at label
      rw [show m.world.store = m.store from rfl]
      cases bound : m.store.bound? name with
      | none => exact ⟨_, rfl, goes none (by simp [gotoTarget, named, label, bound])⟩
      | some c =>
        dsimp only
        cases got : m.store.get (m.store.root c) with
        | error fault => exact fails (by simp [gotoTarget, named, label, bound, got])
        | ok held =>
          cases held with
          | number x =>
            refine ⟨0, codeSize front, _, rfl, ⟨assembled.opcode_at, value, m.stack, rfl, ?_⟩, rfl⟩
            simp [namesOffset, withStack, named, label, bound, got]
          | truth b | text t | pointer d | boxed d =>
            exact ⟨_, rfl, goes none (by simp [gotoTarget, named, label, bound, got])⟩

/-- A conditional carries out one of its branches. -/
theorem branch_uses {body other : List Line} {first second : World.Action Flow}
    (chosen : Executes chunk program 0 room body first)
    (otherwise : Executes chunk program 0 room other second) :
    Uses chunk program room (.code (.jumpIfFalse (codeSize body + 2)) ::
        (body ++ .code (.jump (codeSize other)) :: other))
      fun value => if value.isFalsey then second else first := by
  intro front back m value assembled enough
  -- The lines in front of the first branch, behind it, and in front of the second one.
  obtain ⟨above, above_eq⟩ : ∃ above, above = front ++ [.code (.jumpIfFalse (codeSize body + 2))] :=
    ⟨_, rfl⟩
  have branch : chunk.Assembles (front ++ .code (.jumpIfFalse (codeSize body + 2)) ::
      (body ++ .code (.jump (codeSize other)) :: (other ++ back))) := by
    simpa only [List.append_assoc, List.cons_append] using assembled
  have jump :
      chunk.Assembles (above ++ body ++ .code (.jump (codeSize other)) :: (other ++ back)) := by
    rw [above_eq]
    simpa only [List.append_assoc, List.cons_append, List.nil_append] using branch
  have below :
      chunk.Assembles (above ++ body ++ [.code (.jump (codeSize other))] ++ other ++ back) := by
    simpa only [List.append_assoc, List.cons_append, List.nil_append] using jump
  have size : codeSize above = codeSize front + 2 := by
    rw [above_eq, codeSize_append]
    rfl
  have whole : codeSize (front ++ .code (.jumpIfFalse (codeSize body + 2)) ::
      (body ++ .code (.jump (codeSize other)) :: other)) =
      codeSize (above ++ body) + 2 + codeSize other := by
    rw [codeSize_append, codeSize_append, size, codeSize_code, codeSize_append, codeSize_code]
    simp only [Instruction.width]
    omega
  rw [whole]
  have stepped : step chunk (codeSize front) (m.withStack (value :: m.stack)) =
      .ok (some (if value.isFalsey then codeSize front + 2 + (codeSize body + 2)
        else codeSize front + 2)) m := congrFun branch.step_eq (m.withStack (value :: m.stack))
  have entered := Reaches.of_step stepped
  dsimp only
  cases falsey : value.isFalsey with
  | true =>
    have arrived :=
      otherwise (above ++ body ++ [.code (.jump (codeSize other))]) back m below enough
    rw [falsey, if_pos rfl] at entered
    have place : codeSize (above ++ body ++ [.code (.jump (codeSize other))]) =
        codeSize front + 2 + (codeSize body + 2) := by
      rw [codeSize_append, codeSize_append, size]
      rfl
    have last : codeSize (above ++ body ++ [.code (.jump (codeSize other))] ++ other) =
        codeSize (above ++ body) + 2 + codeSize other := by
      rw [codeSize_append, codeSize_append]
      rfl
    rw [place, last] at arrived
    exact (Arrives.after entered arrived).weaken (Nat.zero_le _)
  | false =>
    have arrived := chosen above _ m jump enough
    rw [falsey, if_neg Bool.false_ne_true, ← size] at entered
    have skipped (w : World) : step chunk (codeSize (above ++ body)) (m.inWorld w) =
        .ok (some (codeSize (above ++ body) + 2 + codeSize other)) (m.inWorld w) :=
      congrFun jump.step_eq (m.inWorld w)
    have gone := arrived.andThen fun w => (Reaches.of_step (skipped w)).weaken (Nat.zero_le 1)
    exact (Arrives.after entered gone).weaken (Nat.zero_le _)

theorem Executes.nothing : Executes chunk program 0 room [] (pure .onward) := by
  intro front back m _ _
  rw [List.append_nil]
  exact ⟨_, rfl, .refl chunk _⟩

theorem Executes.uncounted {lines : List Line} {action : World.Action Flow}
    (executes : Executes chunk program 1 room lines action) :
    Executes chunk program 0 room lines action :=
  fun front back m assembled enough =>
    (executes front back m assembled enough).weaken (Nat.zero_le 1)

end Parts

end Machine

open Machine

/-- The code of a statement carries it out. -/
theorem Simple.executes {chunk : Chunk} {program : List Statement}
    (labels : Program.Labels chunk program) (s : Simple) {room : Nat} (fits : s.room ≤ room) :
    Executes chunk program 1 room s.code (s.exec program) := by
  induction s with
  | print e => exact .of_value fits print_uses
  | stop =>
    intro front back m assembled _
    rw [List.append_assoc] at assembled
    exact ⟨0, codeSize front, m, m, rfl, congrFun assembled.step_eq m, rfl⟩
  | perform e => exact .of_value fits (discard_uses labels)
  | when predicate body ih =>
    rw [Simple.room, Nat.max_le] at fits
    exact .of_value fits.1 (branch_uses (ih fits.2).uncounted .nothing)
  | choose predicate body other chosen otherwise =>
    rw [Simple.room, Nat.max_le, Nat.max_le] at fits
    exact .of_value fits.1
      (branch_uses (chosen fits.2.1).uncounted (otherwise fits.2.2).uncounted)

end Cellscript
