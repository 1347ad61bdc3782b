import Cellscript.Proofs.Code.Heights

/-!
What each instruction in the code of a script is there for: it computes, it loads a number or a text
that the script mentions or a label, or it is one of the two jumps of a conditional.
-/

set_option autoImplicit false

namespace Cellscript

/-- A value that scripts can mention. -/
inductive Value.Constant : Value → Prop
  | number (x : Float) : Constant (.number x)
  | text (s : String) : Constant (.text s)

/-- A conditional among lines, from behind its predicate on. -/
structure Choice where
  front : List Line
  body : Simple
  other : Option Simple
  back : List Line

namespace Choice

def otherLines (c : Choice) : List Line := (c.other.map Simple.code).getD []

/-- Passes over the first branch and the jump at its end. -/
def skip (c : Choice) : Instruction := .jumpIfFalse (codeSize c.body.code + 2)

/-- Passes over the second branch. -/
def leap (c : Choice) : Instruction := .jump (codeSize c.otherLines)

def bodyFront (c : Choice) : List Line := c.front ++ .code c.skip :: c.body.code

def otherBack (c : Choice) : List Line := c.otherLines ++ c.back

def lines (c : Choice) : List Line := c.bodyFront ++ .code c.leap :: c.otherBack

end Choice

/-- What an instruction between lines is there for. -/
inductive Role : List Line → Instruction → List Line → Prop
  | plain {front back : List Line} (op : Opcode) : Role front (.plain op) back
  | load {front back : List Line} {value : Value} (constant : value.Constant) :
      Role front (.load value) back
  | skip (c : Choice) : Role c.front c.skip (c.body.code ++ .code c.leap :: c.otherBack)
  | leap (c : Choice) : Role c.bodyFront c.leap c.otherBack

theorem Role.constant {front back : List Line} {value : Value}
    (role : Role front (.load value) back) : value.Constant := by
  cases role with
  | load constant => exact constant

/-- The two jumps of a conditional: where they stand and how far they lead. -/
def Choice.jumps (c : Choice) : List (Nat × Opcode × Nat) :=
  [(codeSize c.front, .jumpIfFalse, codeSize c.body.code + 2),
    (codeSize c.bodyFront, .jump, codeSize c.otherLines)]

theorem Role.jump {front back : List Line} {distance : Nat}
    (role : Role front (.jump distance) back) :
    ∃ c : Choice, c.lines = front ++ .code (.jump distance) :: back ∧
      (codeSize front, .jump, distance) ∈ c.jumps := by
  generalize same : Instruction.jump distance = i at role
  cases role with
  | plain op => cases same
  | load constant => cases same
  | skip c => cases same
  | leap c =>
    cases same
    exact ⟨c, rfl, by simp [Choice.jumps]⟩

theorem Role.jumpIfFalse {front back : List Line} {distance : Nat}
    (role : Role front (.jumpIfFalse distance) back) :
    ∃ c : Choice, c.lines = front ++ .code (.jumpIfFalse distance) :: back ∧
      (codeSize front, .jumpIfFalse, distance) ∈ c.jumps := by
  generalize same : Instruction.jumpIfFalse distance = i at role
  cases role with
  | plain op => cases same
  | load constant => cases same
  | skip c =>
    cases same
    exact ⟨c, by simp [Choice.lines, Choice.bodyFront, Choice.skip], by simp [Choice.jumps]⟩
  | leap c => cases same

/-- Every instruction of the block plays a role, wherever the block stands. -/
structure Plays (block : List Line) : Prop where
  roles : ∀ {front back : List Line}, Everywhere Role front block back

namespace Plays

variable {first second : List Line}

theorem nil : Plays [] where
  roles := by
    intro front back before after i split
    cases before <;> cases split

theorem append (left : Plays first) (right : Plays second) : Plays (first ++ second) :=
  ⟨Everywhere.append left.roles right.roles⟩

theorem code {i : Instruction} (role : ∀ {front back : List Line}, Role front i back) :
    Plays [.code i] :=
  ⟨Everywhere.code role⟩

theorem mark (name : String) : Plays [.mark name] := ⟨Everywhere.mark name⟩

theorem text (s : String) : Plays [.code (.load (.text s))] := code (.load (.text s))

theorem labelled (name : String) {block : List Line} (plays : Plays block) :
    Plays (.mark name :: block) :=
  (mark name).append plays

theorem plainLines (ops : List Opcode) : Plays (plainLines ops) := by
  induction ops with
  | nil => exact nil
  | cons op rest ih => exact append (code (.plain op)) ih

theorem flatMap {α : Type} {items : List α} {lines : α → List Line}
    (each : ∀ a, Plays (lines a)) : Plays (items.flatMap lines) := by
  induction items with
  | nil => exact nil
  | cons a rest ih => exact append (each a) ih

theorem conditional {predicate : List Line} {body : Simple} (other : Option Simple)
    (asked : Plays predicate) (chosen : Plays body.code)
    (otherwise : Plays ((other.map Simple.code).getD [])) :
    Plays (conditionalLines predicate body.code ((other.map Simple.code).getD [])) := by
  constructor
  intro front back
  let c : Choice := ⟨front ++ predicate, body, other, back⟩
  have lines : conditionalLines predicate body.code c.otherLines =
      predicate ++ ([.code c.skip] ++ (body.code ++ ([.code c.leap] ++ c.otherLines))) := by
    simp [conditionalLines, Choice.skip, Choice.leap, c]
  have skips : Role (front ++ predicate) c.skip
      (body.code ++ ([.code c.leap] ++ c.otherLines) ++ back) := by
    simpa [Choice.otherBack, c] using Role.skip c
  have passes : Role (front ++ predicate ++ [.code c.skip] ++ body.code) c.leap
      (c.otherLines ++ back) := by
    simpa [Choice.bodyFront, Choice.otherBack, c] using Role.leap c
  change Everywhere Role front (conditionalLines predicate body.code c.otherLines) back
  rw [lines]
  apply Everywhere.append asked.roles
  apply Everywhere.append (Everywhere.code skips)
  apply Everywhere.append chosen.roles
  exact Everywhere.append (Everywhere.code passes) otherwise.roles

end Plays

theorem Expression.code_plays (e : Expression) : Plays e.code := by
  induction e with
  | number x => exact .code (.load (.number x))
  | text s => exact .text s
  | truth b => exact .plainLines _
  | unary op e ih => exact ih.append (.plainLines _)
  | binary op left right leftward rightward =>
    exact (leftward.append rightward).append (.plainLines _)

theorem Simple.code_plays (s : Simple) : Plays s.code := by
  induction s with
  | print e => exact e.code_plays.append (.plainLines _)
  | stop => exact .plainLines _
  | perform e => exact e.code_plays.append (.plainLines _)
  | when predicate body ih => exact .conditional none predicate.code_plays ih .nil
  | choose predicate body other first second =>
    exact .conditional (some other) predicate.code_plays first second

theorem Plays.goto (label : String) : Plays (gotoLines label) :=
  (Plays.text label).append (.plainLines _)

namespace Link

theorem init_plays (number : Nat) (l : Link) : Plays (l.init number) :=
  .labelled _ ((l.source.init.code_plays.append l.parameter.code_plays).append (.plainLines _))

theorem incr_plays (number : Nat) (l : Link) : Plays (l.incr number) := by
  have read :=
    (l.parameter.code_plays.append l.parameter.code_plays).append (.plainLines [.getPointer])
  exact .labelled _ ((read.append l.source.step.code_plays).append (.plainLines _))

theorem test_plays (l : Link) : Plays l.test := by
  unfold test
  split
  · rename_i target _
    have read := l.parameter.code_plays.append (.plainLines [.getPointer])
    exact (read.append target.code_plays).append (.plainLines _)
  · rename_i predicate _
    exact predicate.code_plays

theorem cond_plays (number : Nat) (exit : String) (l : Link) : Plays (l.cond number exit) :=
  .labelled _ (l.test_plays.append ((Plays.text exit).append (.plainLines _)))

end Link

theorem Header.code_plays (number : Nat) (header : Header) : Plays (header.code number) := by
  have init : Plays (header.initLines number) :=
    (Plays.flatMap (Link.init_plays number)).append (.goto _)
  have incr : Plays (header.incrLines number) := .flatMap (Link.incr_plays number)
  have cond : Plays (header.condLines number) :=
    (Plays.flatMap (Link.cond_plays number header.exit)).append (.goto _)
  exact ((init.append incr).append cond).append (.mark _)

theorem Script.code_plays (number : Nat) (script : Script) : Plays (script.code number) := by
  induction script generalizing number with
  | done => exact .nil
  | mark name rest ih => exact .labelled name (ih number)
  | simple statement rest ih => exact statement.code_plays.append (ih number)
  | loop header body rest inner outer =>
    have repeated := (header.code_plays number).append (inner (number + 1))
    exact (repeated.append (.goto _)).append (outer _)

end Cellscript
