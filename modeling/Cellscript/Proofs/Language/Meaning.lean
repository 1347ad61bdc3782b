import Cellscript.Machine.Step
import Cellscript.Proofs.Language.Evaluation

/-!
What programs without loops mean: a machine that goes from statement to statement.
-/

set_option autoImplicit false

namespace Cellscript

/-- Something that changes the world. Where it fails, what was done before that stays. -/
abbrev World.Action := EStateM Fault World

namespace World

def evaluate (e : Expression) : World.Action Value := fun w =>
  match e.eval w.store with
  | .ok value store => .ok value { w with store }
  | .error fault store => .error fault { w with store }

/-- What is printed of a value: the value of the cell that it names, if it is a text that names one,
and else the value itself. -/
def lineOf (s : Store) : Value → String
  | .text name =>
    match s.valueOf? name with
    | some value => value.plain
    | none => name
  | value => value.plain

theorem lineOf_eq (s : Store) (value : Value) : lineOf s value = (Machine.shown s value).plain := by
  cases value with
  | text name =>
    rw [lineOf, Machine.shown]
    cases s.valueOf? name <;> rfl
  | number _ | truth _ | pointer _ | boxed _ => rfl

def print (value : Value) : World.Action Unit := fun w =>
  match w.sink.write (lineOf w.store value ++ "\n").toUTF8 with
  | (sink, true) => .ok () { w with sink }
  | (sink, false) => .error (.output "sink full") { w with sink }

end World

/-! ## Statements -/

/-- A label marks the statement behind it. -/
inductive Statement
  | mark (name : String)
  | simple (s : Simple)

/-- A script without loops is a list of statements. -/
def Script.statements? : Script → Option (List Statement)
  | done => some []
  | mark name rest => rest.statements?.map (.mark name :: ·)
  | simple s rest => rest.statements?.map (.simple s :: ·)
  | loop _ _ _ => none

/-- The statements behind a label. -/
def Statement.behind? (label : String) : List Statement → Option (List Statement)
  | [] => none
  | mark name :: rest => if name = label then some rest else behind? label rest
  | simple _ :: rest => behind? label rest

/-- What comes after a statement: the next one, those behind a label, or nothing. A value that names
a number instead of a label leads the machine astray, out of the reach of the language. -/
inductive Flow
  | onward
  | goto (rest : List Statement)
  | stop
  | astray

/-- Where the value of a statement leads in a program. It leads nowhere if it names a cell that is
gone. -/
def Flow.of (program : List Statement) (value : Value) : World.Action Flow := fun w =>
  match value.name? with
  | none => .ok .onward w
  | some name =>
    match Statement.behind? name program, w.store.bound? name with
    | some rest, _ => .ok (.goto rest) w
    | none, none => .ok .onward w
    | none, some c =>
      match w.store.get (w.store.root c) with
      | .ok (.number _) => .ok .astray w
      | .ok _ => .ok .onward w
      | .error fault => .error fault w

namespace Simple

/-- Carries out a statement of a program. -/
def exec (program : List Statement) : Simple → World.Action Flow
  | print e => do
    World.print (← World.evaluate e)
    return .onward
  | stop => return .stop
  | perform e => do Flow.of program (← World.evaluate e)
  | when predicate body => do
    if (← World.evaluate predicate).isFalsey then return .onward else body.exec program
  | choose predicate body other => do
    if (← World.evaluate predicate).isFalsey then other.exec program else body.exec program

/-- How many entries of the stack a statement takes. -/
def room : Simple → Nat
  | print e => e.room
  | stop => 0
  | perform e => e.room
  | when predicate body => max predicate.room body.room
  | choose predicate body other => max predicate.room (max body.room other.room)

theorem room_le_codeSize (s : Simple) : s.room ≤ codeSize s.code := by
  induction s with
  | print e | perform e =>
    rw [code, codeSize_append]
    exact Nat.le_trans e.room_le_codeSize (Nat.le_add_right _ _)
  | stop => exact Nat.zero_le _
  | when predicate body ih =>
    have first := predicate.room_le_codeSize
    rw [room, code, conditionalLines, codeSize_append, codeSize_code, codeSize_append]
    omega
  | choose predicate body other chosen otherwise =>
    have first := predicate.room_le_codeSize
    rw [room, code, conditionalLines, codeSize_append, codeSize_code, codeSize_append,
      codeSize_code]
    omega

end Simple

/-! ## Programs -/

namespace Program

/-- How far a program has come. -/
inductive Stage
  | running (rest : List Statement)
  | returned
  | astray

/-- Carries out the next statement. A program returns at its end. -/
def step (program : List Statement) : List Statement → World.Action Stage
  | [] => return .returned
  | .mark _ :: rest => step program rest
  | .simple s :: rest => do
    match ← s.exec program with
    | .onward => return .running rest
    | .goto rest => return .running rest
    | .stop => return .returned
    | .astray => return .astray

/-- Carries out so many statements from `rest` on. -/
def run (program : List Statement) : Nat → List Statement → World.Action Stage
  | 0, rest => return .running rest
  | n + 1, rest => do
    match ← step program rest with
    | .running rest => run program n rest
    | stage => return stage

end Program

end Cellscript
