import Cellscript.Proofs.Compile.Manners

/-!
Habits of a pass: what holds from one moment of a pass to every later one, whatever is written. What
reading, complaining and writing keep to, the pass keeps to as a whole.
-/

set_option autoImplicit false

namespace Cellscript.Pass

/-- What reading, complaining and writing keep to. -/
structure Habit (R : Pass → Pass → Prop) : Prop where
  refl : ∀ p, R p p
  trans : ∀ {p q r}, R p q → R q r → R p r
  advance : ∀ p, R p p.advance
  complain : ∀ p token complaint, R p (p.complain token complaint)
  write : ∀ p chunk loopCount, R p { p with chunk, loopCount }

namespace Habit

variable {R : Pass → Pass → Prop} (habit : Habit R)

include habit

/-! ## Reading -/

theorem expect (p : Pass) (kind : Token.Kind) (complaint : Complaint) :
    R p (p.expect kind complaint) := by
  unfold Pass.expect
  split
  · exact habit.advance p
  · exact habit.complain p _ _

theorem skipToBoundary (bound : Nat) (p : Pass) : R p (Pass.skipToBoundary bound p) := by
  induction bound generalizing p with
  | zero => exact habit.refl p
  | succ bound ih =>
    unfold Pass.skipToBoundary
    split
    · exact habit.refl p
    · exact habit.trans (habit.advance p) (ih _)

/-! ## Writing -/

theorem emit (p : Pass) (op : Opcode) : R p (p.emit op) := habit.write p _ _

theorem adopt (p : Pass) (result : Except Chunk.Error Chunk) : R p (p.adopt result) := by
  cases result with
  | ok chunk => exact habit.write p _ _
  | error e => exact habit.complain p _ _

theorem emitConstant (p : Pass) (value : Value) : R p (p.emitConstant value) := by
  unfold Pass.emitConstant
  split
  · exact habit.write p _ _
  · exact habit.complain p _ _

theorem emitJump (p : Pass) (op : Opcode) : R p (p.emitJump op).1 := habit.write p _ _

theorem patchJump (p : Pass) (offset : Nat) : R p (p.patchJump offset) := habit.adopt p _

theorem defineLabel (p : Pass) (name : String) : R p (p.defineLabel name) := habit.adopt p _

theorem splice (p : Pass) (other : Chunk) : R p (p.splice other) := by
  unfold Pass.splice
  split
  · exact habit.write p _ _
  · exact habit.trans (habit.write p _ _) (habit.complain _ _ _)

theorem apart {write : Pass → Pass} (kept : ∀ p, R p (write p)) (p : Pass) :
    R p (p.apart write).1 := by
  have blank : R p { p with chunk := {} } := habit.write p _ _
  have back : R (write { p with chunk := {} }) (p.apart write).1 := habit.write _ _ _
  exact habit.trans (habit.trans blank (kept _)) back

theorem foldl {α : Type} {write : Pass → α → Pass} (kept : ∀ p a, R p (write p a)) (p : Pass)
    (items : List α) : R p (items.foldl write p) := by
  induction items generalizing p with
  | nil => exact habit.refl p
  | cons a rest ih => exact habit.trans (kept p a) (ih _)

/-! ## Statements

The chunks set aside do not matter to a habit. -/

omit habit in
/-- Since `p` the habit was kept to. -/
def Since (R : Pass → Pass → Prop) (p q : Pass) (_ : List Chunk) : Prop := R p q

theorem since (p : Pass) (cs : List Chunk) : Since R p p cs := habit.refl p

theorem manner : Manner (Since R) where
  advance _ kept := habit.trans kept (habit.advance _)
  balk _ kept := habit.trans (habit.trans kept (habit.advance _)) (habit.complain _ _ _)
  complain _ _ kept := habit.trans kept (habit.complain _ _ _)
  emit _ kept := habit.trans kept (habit.emit _ _)
  emitConstant _ kept := habit.trans kept (habit.emitConstant _ _)
  emitJump _ kept := habit.trans kept (habit.emitJump _ _)
  patchJump _ kept := habit.trans kept (habit.patchJump _ _)
  defineLabel _ kept := habit.trans kept (habit.defineLabel _ _)
  count _ kept := habit.trans kept (habit.write _ _ _)
  splice _ kept := habit.trans kept (habit.splice _ _)
  apart keeps kept := habit.trans kept (habit.apart (fun p => keeps (habit.since p [])) _)
  forget _ kept := kept

theorem emitAll (p : Pass) (ops : List Opcode) : R p (p.emitAll ops) :=
  habit.manner.emitAll ops (habit.since p [])

theorem emitGoto (p : Pass) (label : String) : R p (p.emitGoto label) :=
  habit.manner.emitGoto label (habit.since p [])

section Inner

variable {inner : Level → Pass → Pass}

theorem operand (kept : ∀ level p, R p (inner level p)) (level : Level) (p : Pass) :
    R p (Pass.operand inner level p) :=
  habit.manner.operand (fun level _ before => habit.trans before (kept level _)) level
    (habit.since p [])

theorem applyOperator (kept : ∀ level p, R p (inner level p)) (operator : Operator) (p : Pass) :
    R p (Pass.applyOperator inner operator p) :=
  habit.manner.applyOperator (fun level _ before => habit.trans before (kept level _)) operator
    (habit.since p [])

end Inner

theorem refuseAssignment (level : Level) (p : Pass) : R p (Pass.refuseAssignment level p) :=
  habit.manner.refuseAssignment level (habit.since p [])

theorem climb (bound : Nat) :
    (∀ level p, R p (Pass.climb bound level p)) ∧ ∀ level p, R p (Pass.climbOn bound level p) :=
  ⟨fun level p => (habit.manner.climb bound).1 level (habit.since p []),
    fun level p => (habit.manner.climb bound).2 level (habit.since p [])⟩

theorem expression (p : Pass) : R p p.expression := habit.manner.expression (habit.since p [])

theorem address (p : Pass) : R p p.address := habit.manner.address (habit.since p [])

theorem loopParameter (p : Pass) : R p p.loopParameter.1 :=
  habit.manner.loopParameter (habit.since p [])

theorem moreParameters (bound : Nat) (p : Pass) : R p (Pass.moreParameters bound p).1 :=
  habit.manner.moreParameters bound (habit.since p [])

theorem loopEnd (p : Pass) : R p p.loopEnd.1 := habit.manner.loopEnd (habit.since p [])

theorem loopPart (p : Pass) (init : Chunk) : R p (p.loopPart init).1 :=
  habit.manner.loopPart List.mem_cons_self (habit.since p [init])

theorem moreParts (bound : Nat) (p : Pass) : R p (Pass.moreParts bound p).1 :=
  habit.manner.moreParts bound (habit.since p [])

theorem emitInit (number : Nat) (p : Pass) (l : LoopLink) : R p (Pass.emitInit number p l) :=
  habit.manner.emitInit (List.Subset.refl _) number (habit.since p l.chunks)

theorem emitIncr (number : Nat) (p : Pass) (l : LoopLink) : R p (Pass.emitIncr number p l) :=
  habit.manner.emitIncr (List.Subset.refl _) number (habit.since p l.chunks)

theorem emitTest (p : Pass) (l : LoopLink) : R p (p.emitTest l) :=
  habit.manner.emitTest (List.Subset.refl _) (habit.since p l.chunks)

theorem emitCond (number : Nat) (exit : String) (p : Pass) (l : LoopLink) :
    R p (Pass.emitCond number exit p l) :=
  habit.manner.emitCond (List.Subset.refl _) number exit (habit.since p l.chunks)

theorem emitLoop (p : Pass) (number : Nat) (parts : List LoopPart) (start exit : String) :
    R p (p.emitLoop number parts start exit) :=
  habit.manner.emitLoop number (List.Subset.refl _) start exit (habit.since p _)

theorem closeLoop (p : Pass) (loop : OpenLoop) : R p (p.closeLoop loop) := habit.emitGoto p _

theorem endStatement (p : Pass) : R p p.endStatement := habit.manner.endStatement (habit.since p [])

theorem conditional {branch : Pass → Pass} (kept : ∀ p, R p (branch p)) (predicate : Chunk)
    (p : Pass) : R p (Pass.conditional branch predicate p) :=
  habit.manner.conditional (fun before => habit.trans before (kept _)) List.mem_cons_self
    (habit.since p [predicate])

theorem simpleWithin (bound : Nat) (p : Pass) : R p (Pass.simpleWithin bound p) :=
  habit.manner.simpleWithin bound (habit.since p [])

theorem simpleStatement (p : Pass) : R p p.simpleStatement := habit.simpleWithin p.left p

theorem loopHeader (p : Pass) (init : Chunk) : R p (p.loopHeader init).1 :=
  habit.manner.loopHeader List.mem_cons_self (habit.since p [init])

theorem braceStatement (p : Pass) : R p p.braceStatement.1 :=
  habit.manner.braceStatement (habit.since p [])

theorem statementWithin (bound : Nat) (p : Pass) : R p (Pass.statementWithin bound p).1 :=
  habit.manner.statementWithin bound (habit.since p [])

theorem statement (p : Pass) : R p p.statement.1 := habit.statementWithin p.left p

/-! ## Recovery -/

section Waking

variable (wakes : ∀ p : Pass, R p { p with panicking := false })

include wakes

theorem recover (p : Pass) : R p p.recover := by
  unfold Pass.recover
  split
  · exact habit.trans (wakes p) (habit.skipToBoundary _ _)
  · exact habit.refl p

theorem declaration (p : Pass) : R p p.declaration.1 := by
  have stated := habit.statement p
  unfold Pass.declaration
  split
  · exact habit.advance p
  · split
    · rename_i q read
      rw [read] at stated
      exact habit.trans stated (habit.recover wakes _)
    · rename_i q loop read
      rw [read] at stated
      exact stated

theorem declarations (bound : Nat) (loops : List OpenLoop) (p : Pass) :
    R p (Pass.declarations bound loops p) := by
  induction bound generalizing loops p with
  | zero => exact habit.refl p
  | succ bound ih =>
    cases loops with
    | nil =>
      unfold Pass.declarations
      split
      · exact habit.advance p
      · exact habit.trans (habit.declaration wakes p) (ih _ _)
    | cons loop outer =>
      unfold Pass.declarations
      split
      · have closed := habit.trans (habit.closeLoop p loop) (habit.recover wakes _)
        exact habit.trans closed (ih _ _)
      · split
        · have complained := habit.trans (habit.complain p p.current (.unclosedLoop loop.exit))
            (habit.recover wakes _)
          exact habit.trans complained (ih _ _)
        · exact habit.trans (habit.declaration wakes p) (ih _ _)

end Waking

end Habit

end Cellscript.Pass
