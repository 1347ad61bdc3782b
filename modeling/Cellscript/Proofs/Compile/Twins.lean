import Cellscript.Proofs.Code.Twins
import Cellscript.Proofs.Compile.Headings
import Cellscript.Proofs.Compile.Statements

/-!
Twin passes. Two passes over one script, whose loops are numbered from different numbers on, read
and complain alike at every step and write twin chunks. A pass is a twin of its own where the
numbers are the same, so what is shown of twins holds of single passes too: a label is refused only
if the script declares it.
-/

set_option autoImplicit false

namespace Cellscript

open List (Forall₂)

/-- A choice that is made alike on both sides. -/
theorem rel_ite {α β : Type} {R : α → β → Prop} {condition : Prop} [Decidable condition] {a c : α}
    {b d : β} (holds : condition → R a b) (fails : ¬ condition → R c d) :
    R (if condition then a else c) (if condition then b else d) := by
  by_cases decided : condition
  · rw [if_pos decided, if_pos decided]
    exact holds decided
  · rw [if_neg decided, if_neg decided]
    exact fails decided

/-- The label whose second definition is complained about. -/
def Complaint.duplicate? : Complaint → Option String
  | .chunk e => e.duplicate?
  | _ => none

/-! ## Headers -/

inductive LoopEnd.Twins (r : Renumbering) : LoopEnd → LoopEnd → Prop
  | value {target counterpart : Chunk} (apart : target.Twins r Chunk.NoLabels counterpart) :
      Twins r (.value target) (.value counterpart)
  | condition {predicate counterpart : Chunk}
      (apart : predicate.Twins r Chunk.NoLabels counterpart) :
      Twins r (.condition predicate) (.condition counterpart)

structure LoopPart.Twins (r : Renumbering) (part counterpart : LoopPart) : Prop where
  init : part.init.Twins r Chunk.NoLabels counterpart.init
  step : part.step.Twins r Chunk.NoLabels counterpart.step
  finish : part.finish.Twins r counterpart.finish
  parameters : Forall₂ (Chunk.Twins r Chunk.NoLabels) part.parameters counterpart.parameters

structure LoopLink.Twins (r : Renumbering) (l m : LoopLink) : Prop where
  part : m.part = l.part
  link : m.link = l.link
  source : l.source.Twins r m.source
  parameter : l.parameter.Twins r Chunk.NoLabels m.parameter

theorem LoopLink.all_twins {r : Renumbering} {parts counterparts : List LoopPart}
    (twins : Forall₂ (LoopPart.Twins r) parts counterparts) :
    Forall₂ (LoopLink.Twins r) (LoopLink.all parts) (LoopLink.all counterparts) := by
  refine List.rel_flatMap (forall₂_zipIdx twins 0) ?_
  rintro ⟨source, part⟩ ⟨counterpart, _⟩ ⟨sources, rfl⟩
  refine List.rel_map ?_ (forall₂_zipIdx sources.parameters 0)
  rintro ⟨parameter, link⟩ ⟨other, _⟩ ⟨parameters, rfl⟩
  exact ⟨rfl, rfl, sources, parameters⟩

/-- The headers of one loop, the first after `loop` others. -/
structure Heading.Twins (r : Renumbering) (loop : Nat) (h counterpart : Heading) : Prop where
  first : h.number = r.first + loop
  second : counterpart.number = r.second + loop
  parts : Forall₂ (LoopPart.Twins r) h.parts counterpart.parts
  start : counterpart.start = h.start
  exit : counterpart.exit = h.exit
  starts : Token.Declares r.tokens h.start
  exits : r.Maps h.exit h.exit

namespace Pass

/-! ## Passes -/

/-- Two passes over the tokens of `r` that have numbered so many loops. They agree on everything but
the numbers, and every label that they say is defined twice is declared by the script. -/
structure Twins (r : Renumbering) (loops : Nat)
    (L : List (String × Nat) → List (String × Nat) → Prop) (p q : Pass) : Prop where
  previous : q.previous = p.previous
  ahead : q.ahead = p.ahead
  lastLine : q.lastLine = p.lastLine
  diagnostics : q.diagnostics = p.diagnostics
  panicking : q.panicking = p.panicking
  chunk : p.chunk.Twins r L q.chunk
  first : p.loopCount = r.first + loops
  second : q.loopCount = r.second + loops
  within : p.ahead <:+ r.tokens
  known : p.previous.kind ≠ .finish → p.previous ∈ r.tokens
  excused : ∀ d ∈ p.diagnostics, ∀ name, d.complaint.duplicate? = some name →
    Token.Declares r.tokens name

namespace Twins

variable {r : Renumbering} {loops : Nat} {L : List (String × Nat) → List (String × Nat) → Prop}
  {p q : Pass}

/-! ## Reading -/

theorem current_eq (twins : Twins r loops L p q) : q.current = p.current := by
  unfold current
  rw [twins.ahead, twins.lastLine]

theorem next_eq (twins : Twins r loops L p q) : q.next = p.next := by
  unfold next
  rw [twins.ahead, twins.lastLine]

theorem sees_eq (twins : Twins r loops L p q) (kind : Token.Kind) : q.sees kind = p.sees kind := by
  unfold sees
  rw [twins.current_eq]

theorem seesNext_eq (twins : Twins r loops L p q) (kind : Token.Kind) :
    q.seesNext kind = p.seesNext kind := by
  unfold seesNext
  rw [twins.next_eq]

theorem left_eq (twins : Twins r loops L p q) : q.left = p.left := by
  unfold left
  rw [twins.ahead]

theorem line_eq (twins : Twins r loops L p q) : q.line = p.line := by
  unfold line
  rw [twins.previous]

theorem atEnd_eq (twins : Twins r loops L p q) : q.atEnd = p.atEnd := twins.sees_eq .finish

theorem seesLabel_eq (twins : Twins r loops L p q) : q.seesLabel = p.seesLabel := by
  unfold seesLabel
  rw [twins.sees_eq, twins.seesNext_eq]

theorem atBoundary_eq (twins : Twins r loops L p q) : q.atBoundary = p.atBoundary := by
  unfold atBoundary
  rw [twins.previous, twins.sees_eq, twins.sees_eq, twins.sees_eq]

/-- The next token is one of the script. -/
theorem current_among (twins : Twins r loops L p q) (real : p.current.kind ≠ .finish) :
    p.current ∈ r.tokens := by
  have within := twins.within
  unfold current at real ⊢
  generalize p.ahead = ahead at within real ⊢
  cases ahead with
  | nil => exact absurd rfl real
  | cons t rest => exact within.subset List.mem_cons_self

theorem complain_excused (twins : Twins r loops L p q) (token : Token) {complaint : Complaint}
    (excuse : ∀ name, complaint.duplicate? = some name → Token.Declares r.tokens name) :
    Twins r loops L (p.complain token complaint) (q.complain token complaint) := by
  unfold complain
  rw [twins.panicking, twins.diagnostics]
  refine rel_ite (fun _ => twins) fun _ => ?_
  exact { twins with
    diagnostics := rfl
    panicking := rfl
    excused := List.forall_mem_append.mpr ⟨twins.excused, List.forall_mem_singleton.mpr excuse⟩ }

theorem complain (twins : Twins r loops L p q) (token : Token) (complaint : Complaint)
    (other : complaint.duplicate? = none) :
    Twins r loops L (p.complain token complaint) (q.complain token complaint) := by
  refine twins.complain_excused token fun name about => ?_
  rw [other] at about
  cases about

theorem complainBefore (twins : Twins r loops L p q) (complaint : Complaint)
    (other : complaint.duplicate? = none) :
    Twins r loops L (p.complainBefore complaint) (q.complainBefore complaint) := by
  unfold Pass.complainBefore
  rw [twins.previous]
  exact twins.complain _ _ other

theorem complainHere (twins : Twins r loops L p q) (complaint : Complaint)
    (other : complaint.duplicate? = none) :
    Twins r loops L (p.complainHere complaint) (q.complainHere complaint) := by
  unfold Pass.complainHere
  rw [twins.current_eq]
  exact twins.complain _ _ other

theorem resume (twins : Twins r loops L p q) {tokens : List Token} (within : tokens <:+ r.tokens) :
    Twins r loops L (p.resume tokens) (q.resume tokens) := by
  induction tokens generalizing p q with
  | nil => exact { twins with ahead := rfl, within := within }
  | cons token rest ih =>
    rcases token.kind.invalid_or_valid with ⟨flaw, invalid⟩ | valid
    · rw [resume_invalid p invalid, resume_invalid q invalid]
      exact ih (twins.complain _ _ rfl) ((List.suffix_cons _ _).trans within)
    · rw [resume_stops p valid, resume_stops q valid]
      exact { twins with ahead := rfl, within := within }

theorem advance (twins : Twins r loops L p q) : Twins r loops L p.advance q.advance := by
  have moved : Twins r loops L { p with previous := p.current } { q with previous := q.current } :=
    { twins with previous := twins.current_eq, known := twins.current_among }
  have rest : q.ahead.tail = p.ahead.tail := by rw [twins.ahead]
  unfold Pass.advance
  rw [rest]
  exact moved.resume ((List.tail_suffix _).trans twins.within)

theorem expect (twins : Twins r loops L p q) (kind : Token.Kind) (complaint : Complaint)
    (other : complaint.duplicate? = none) :
    Twins r loops L (p.expect kind complaint) (q.expect kind complaint) := by
  unfold Pass.expect
  rw [twins.sees_eq]
  exact rel_ite (fun _ => twins.advance) fun _ => twins.complainHere _ other

theorem skipToBoundary (bound : Nat) (twins : Twins r loops L p q) :
    Twins r loops L (Pass.skipToBoundary bound p) (Pass.skipToBoundary bound q) := by
  induction bound generalizing p q with
  | zero => exact twins
  | succ bound ih =>
    unfold Pass.skipToBoundary
    rw [twins.atEnd_eq, twins.atBoundary_eq]
    exact rel_ite (fun _ => twins) fun _ => ih twins.advance

theorem recover (twins : Twins r loops L p q) : Twins r loops L p.recover q.recover := by
  have calm : Twins r loops L { p with panicking := false } { q with panicking := false } :=
    { twins with panicking := rfl }
  unfold Pass.recover
  rw [twins.panicking, twins.left_eq]
  exact rel_ite (fun _ => calm.skipToBoundary _) fun _ => twins

/-! ## Writing -/

theorem write {K : List (String × Nat) → List (String × Nat) → Prop} {c d : Chunk}
    (twins : Twins r loops L p q) (chunk : c.Twins r K d) :
    Twins r loops K { p with chunk := c } { q with chunk := d } := { twins with chunk }

theorem emit (twins : Twins r loops L p q) (op : Opcode) :
    Twins r loops L (p.emit op) (q.emit op) := by
  unfold Pass.emit
  rw [twins.line_eq]
  exact twins.write (twins.chunk.emit _ _)

theorem emitAll (ops : List Opcode) (twins : Twins r loops L p q) :
    Twins r loops L (p.emitAll ops) (q.emitAll ops) := by
  induction ops generalizing p q with
  | nil => exact twins
  | cons op rest ih => exact ih (twins.emit op)

theorem emitConstant {v w : Value} (twins : Twins r loops L p q) (maps : r.MapsValue v w) :
    Twins r loops L (p.emitConstant v) (q.emitConstant w) := by
  unfold Pass.emitConstant
  rw [twins.line_eq]
  rcases twins.chunk.addConstant maps with ⟨full, also⟩ | ⟨_, _, _, added, also, grown⟩
  · rw [full, also]
    exact twins.complainBefore _ rfl
  · rw [added, also]
    exact twins.write (grown.emitPair _ _ _)

theorem emitGoto {label counterpart : String} (twins : Twins r loops L p q)
    (maps : r.Maps label counterpart) :
    Twins r loops L (p.emitGoto label) (q.emitGoto counterpart) :=
  (twins.emitConstant (.text maps)).emit .pop

theorem emitJump (twins : Twins r loops L p q) (op : Opcode) :
    Twins r loops L (p.emitJump op).1 (q.emitJump op).1 ∧
    (q.emitJump op).2 = (p.emitJump op).2 := by
  unfold Pass.emitJump
  rw [twins.line_eq, twins.chunk.size_eq]
  exact ⟨twins.write (twins.chunk.emitPair _ _ _), rfl⟩

theorem patchJump (twins : Twins r loops L p q) (offset : Nat) :
    Twins r loops L (p.patchJump offset) (q.patchJump offset) := by
  unfold Pass.patchJump
  rcases twins.chunk.patchJump offset with ⟨_, far, also⟩ | ⟨_, _, patched, also, chunk⟩
  · rw [far, also]
    exact twins.complainBefore _ rfl
  · rw [patched, also]
    exact twins.write chunk

theorem splice {other counterpart : Chunk} (twins : Twins r loops L p q)
    (apart : other.Twins r Chunk.NoLabels counterpart) :
    Twins r loops L (p.splice other) (q.splice counterpart) := by
  obtain ⟨same, plain, chunk⟩ := twins.chunk.splice apart
  unfold Pass.splice
  generalize p.chunk.splice other = one at same plain chunk ⊢
  generalize q.chunk.splice counterpart = two at same chunk ⊢
  obtain ⟨c, problem⟩ := one
  obtain ⟨d, problem'⟩ := two
  cases same
  cases problem with
  | none => exact twins.write chunk
  | some e => exact (twins.write chunk).complainBefore _ plain

/-- Twins write twin chunks apart, without labels. -/
theorem apart {write : Pass → Pass}
    (keeps : ∀ {L p q}, Twins r loops L p q → Twins r loops L (write p) (write q))
    (twins : Twins r loops L p q) :
    Twins r loops L (p.apart write).1 (q.apart write).1 ∧
      (p.apart write).2.Twins r Chunk.NoLabels (q.apart write).2 := by
  have written := keeps (twins.write Chunk.Twins.empty)
  exact ⟨written.write twins.chunk, written.chunk⟩

/-! ## Expressions -/

/-- What the token read last writes stays as it is. -/
theorem maps_previous {text : String} (twins : Twins r loops L p q)
    (real : p.previous.kind ≠ .finish) (writes : p.previous.text? = some text) :
    r.MapsValue (.text text) (.text text) := .text (.written (twins.known real) writes)

theorem emitNumber (twins : Twins r loops L p q) (lexeme : String) :
    Twins r loops L (p.emitNumber lexeme) (q.emitNumber lexeme) := by
  unfold Pass.emitNumber
  cases readNumber? lexeme with
  | some x => exact twins.emitConstant (.number x)
  | none => exact twins.complainBefore _ rfl

section Inner

variable {inner : Level → Pass → Pass}
  (keeps : ∀ level {p q}, Twins r loops L p q → Twins r loops L (inner level p) (inner level q))

include keeps

theorem operand (level : Level) (twins : Twins r loops L p q) :
    Twins r loops L (Pass.operand inner level p) (Pass.operand inner level q) := by
  unfold Pass.operand
  rw [twins.previous]
  cases kind : p.previous.kind with
  | leftParen => exact (keeps _ twins).expect _ _ rfl
  | minus => exact (keeps _ twins).emit _
  | bang => exact (keeps _ twins).emit _
  | quote =>
    have target := keeps .unary twins
    dsimp only
    rw [target.sees_eq]
    exact rel_ite (fun _ => (keeps _ target.advance).emit _) fun _ => target.emit _
  | name =>
    exact twins.emitConstant (twins.maps_previous (by rw [kind]; decide) (Token.text?_name kind))
  | number => exact twins.emitNumber _
  | string =>
    exact twins.emitConstant (twins.maps_previous (by rw [kind]; decide) (Token.text?_string kind))
  | yes => exact twins.emit _
  | no => exact twins.emit _
  | _ => exact twins

theorem applyOperator (operator : Operator) (twins : Twins r loops L p q) :
    Twins r loops L (Pass.applyOperator inner operator p)
      (Pass.applyOperator inner operator q) := by
  have written := (keeps operator.level.stronger twins).emitAll operator.code
  unfold Pass.applyOperator
  dsimp only
  rw [written.sees_eq, written.sees_eq]
  exact rel_ite (fun _ => written.complainHere _ rfl) fun _ => written

end Inner

theorem refuseAssignment (level : Level) (twins : Twins r loops L p q) :
    Twins r loops L (Pass.refuseAssignment level p) (Pass.refuseAssignment level q) := by
  unfold Pass.refuseAssignment
  rw [twins.sees_eq]
  exact rel_ite (fun _ => twins.advance.complainBefore _ rfl) fun _ => twins

theorem climb (bound : Nat) :
    (∀ level {p q}, Twins r loops L p q →
      Twins r loops L (Pass.climb bound level p) (Pass.climb bound level q)) ∧
    ∀ level {p q}, Twins r loops L p q →
      Twins r loops L (Pass.climbOn bound level p) (Pass.climbOn bound level q) := by
  induction bound with
  | zero =>
    refine ⟨fun level p q twins => ?_, fun level p q twins => ?_⟩
    · unfold Pass.climb
      exact twins.advance.complainBefore _ rfl
    · unfold Pass.climbOn
      exact twins
  | succ bound ih =>
    refine ⟨fun level p q twins => ?_, fun level p q twins => ?_⟩
    · have read := twins.advance
      unfold Pass.climb
      dsimp only
      rw [read.previous]
      refine rel_ite (fun _ => ?_) fun _ => read.complainBefore _ rfl
      exact (ih.2 level (read.operand ih.1 level)).refuseAssignment level
    · unfold Pass.climbOn
      rw [twins.current_eq]
      cases p.current.kind.operatorFrom? level with
      | some operator => exact ih.2 level (twins.advance.applyOperator ih.1 operator)
      | none => exact twins

theorem expression (twins : Twins r loops L p q) :
    Twins r loops L p.expression q.expression := by
  unfold Pass.expression
  rw [twins.left_eq]
  exact (climb _).1 _ twins

theorem address (twins : Twins r loops L p q) : Twins r loops L p.address q.address := by
  unfold Pass.address
  rw [twins.left_eq]
  exact (climb _).1 _ twins

/-! ## Simple statements -/

theorem endStatement (twins : Twins r loops L p q) :
    Twins r loops L p.endStatement q.endStatement := by
  unfold Pass.endStatement
  rw [twins.atEnd_eq, twins.sees_eq, twins.sees_eq]
  exact rel_ite (fun _ => twins) fun _ =>
    rel_ite (fun _ => twins.advance) fun _ => twins.complainHere _ rfl

theorem conditional {branch : Pass → Pass} {predicate counterpart : Chunk}
    (keeps : ∀ {p q}, Twins r loops L p q → Twins r loops L (branch p) (branch q))
    (apart : predicate.Twins r Chunk.NoLabels counterpart) (twins : Twins r loops L p q) :
    Twins r loops L (Pass.conditional branch predicate p)
      (Pass.conditional branch counterpart q) := by
  obtain ⟨asked, elseJump⟩ := (twins.splice apart).emitJump .jumpIfFalse
  obtain ⟨chosen, endJump⟩ := (keeps asked).emitJump .jump
  unfold Pass.conditional
  dsimp only
  rw [elseJump, endJump]
  have patched := chosen.patchJump ((p.splice predicate).emitJump .jumpIfFalse).2
  rw [patched.sees_eq]
  exact (rel_ite (fun _ => keeps patched.advance) fun _ => patched).patchJump _

theorem expressionStatement (twins : Twins r loops L p q) :
    Twins r loops L p.expressionStatement q.expressionStatement := twins.expression.emit _

theorem seesReturn_eq (twins : Twins r loops L p q) : q.seesReturn = p.seesReturn := by
  unfold seesReturn
  rw [twins.sees_eq, twins.next_eq, twins.seesNext_eq]

theorem simpleWithin (bound : Nat) (twins : Twins r loops L p q) :
    Twins r loops L (Pass.simpleWithin bound p) (Pass.simpleWithin bound q) := by
  induction bound generalizing p q with
  | zero => exact twins.expressionStatement
  | succ bound ih =>
    unfold Pass.simpleWithin
    rw [twins.sees_eq, twins.sees_eq, twins.sees_eq, twins.seesReturn_eq]
    refine rel_ite (fun _ => twins.advance.expression.emit _) fun _ =>
      rel_ite (fun _ => twins.advance.emit _) fun _ =>
        rel_ite (fun _ => ?_) fun _ => twins.expressionStatement
    obtain ⟨read, predicate⟩ := twins.advance.apart Twins.expression
    dsimp only
    rw [read.sees_eq]
    exact rel_ite (fun _ => read.complainHere _ rfl) fun _ =>
      (read.expect _ _ rfl).conditional ih predicate

theorem simpleStatement (twins : Twins r loops L p q) :
    Twins r loops L p.simpleStatement q.simpleStatement := by
  unfold Pass.simpleStatement
  rw [twins.left_eq]
  exact twins.simpleWithin _

/-! ## Reading the header of a loop -/

theorem loopParameter (twins : Twins r loops L p q) :
    Twins r loops L p.loopParameter.1 q.loopParameter.1 ∧
      p.loopParameter.2.Twins r Chunk.NoLabels q.loopParameter.2 :=
  (twins.expect _ _ rfl).apart Twins.address

theorem moreParameters (bound : Nat) (twins : Twins r loops L p q) :
    Twins r loops L (Pass.moreParameters bound p).1 (Pass.moreParameters bound q).1 ∧
      Forall₂ (Chunk.Twins r Chunk.NoLabels) (Pass.moreParameters bound p).2
        (Pass.moreParameters bound q).2 := by
  induction bound generalizing p q with
  | zero => exact ⟨twins, .nil⟩
  | succ bound ih =>
    unfold Pass.moreParameters
    rw [twins.sees_eq]
    by_cases more : p.sees .equalGreater = true
    · obtain ⟨read, parameter⟩ := twins.advance.loopParameter
      obtain ⟨done, rest⟩ := ih read
      rw [if_pos more, if_pos more]
      exact ⟨done, .cons parameter rest⟩
    · rw [if_neg more, if_neg more]
      exact ⟨twins, .nil⟩

theorem loopEnd (twins : Twins r loops L p q) :
    Twins r loops L p.loopEnd.1 q.loopEnd.1 ∧ p.loopEnd.2.Twins r q.loopEnd.2 := by
  unfold Pass.loopEnd
  rw [twins.sees_eq]
  by_cases braced : p.sees .leftCurly = true
  · obtain ⟨read, predicate⟩ := twins.advance.apart Twins.expression
    rw [if_pos braced, if_pos braced]
    exact ⟨read.expect _ _ rfl, .condition predicate⟩
  · obtain ⟨read, target⟩ := twins.apart Twins.expression
    rw [if_neg braced, if_neg braced]
    exact ⟨read, .value target⟩

theorem loopPart {init counterpart : Chunk} (twins : Twins r loops L p q)
    (apart : init.Twins r Chunk.NoLabels counterpart) :
    Twins r loops L (p.loopPart init).1 (q.loopPart counterpart).1 ∧
      (p.loopPart init).2.Twins r (q.loopPart counterpart).2 := by
  obtain ⟨stepped, step⟩ := (twins.expect .leftParen .stepOpening rfl).apart Twins.expression
  obtain ⟨ended, finish⟩ := (stepped.expect .rightParen .stepClosing rfl).loopEnd
  obtain ⟨driven, parameter⟩ :=
    ((ended.expect .dot .endDot rfl).expect .equalGreater .parameterArrow rfl).loopParameter
  unfold Pass.loopPart
  dsimp only
  rw [driven.left_eq]
  obtain ⟨done, rest⟩ := driven.moreParameters _
  exact ⟨done, apart, step, finish, .cons parameter rest⟩

theorem moreParts (bound : Nat) (twins : Twins r loops L p q) :
    Twins r loops L (Pass.moreParts bound p).1 (Pass.moreParts bound q).1 ∧
      Forall₂ (LoopPart.Twins r) (Pass.moreParts bound p).2 (Pass.moreParts bound q).2 := by
  induction bound generalizing p q with
  | zero => exact ⟨twins, .nil⟩
  | succ bound ih =>
    unfold Pass.moreParts
    rw [twins.sees_eq]
    by_cases more : p.sees .divider = true
    · obtain ⟨begun, init⟩ := twins.advance.apart Twins.expression
      obtain ⟨read, part⟩ := begun.loopPart init
      obtain ⟨done, rest⟩ := ih read
      rw [if_pos more, if_pos more]
      exact ⟨done, .cons part rest⟩
    · rw [if_neg more, if_neg more]
      exact ⟨twins, .nil⟩

/-- A sound header ends with its two labels. -/
theorem header_labels {p named ended : Pass}
    (naming : (p.expect .rightCurly .partsClosing).expect .name .bodyLabel = named)
    (ending : (named.expect .divider .labelDivider).expect .name .exitLabel = ended)
    (calm : ended.panicking = false) :
    ∃ closing start divider exit rest, p.ahead = [closing, start, divider, exit] ++ rest ∧
      closing.kind = .rightCurly ∧ start.kind = .name ∧ divider.kind = .divider ∧
        exit.kind = .name ∧ named.previous = start ∧ ended.previous = exit := by
  subst ending
  have dividedCalm := (heeding.expect _ _ _).calm calm
  have namedCalm := (heeding.expect _ _ _).calm dividedCalm
  obtain ⟨exit, _, exits, tookExit⟩ := expect_took calm (by decide)
  obtain ⟨divider, _, divided, tookDivider⟩ := expect_took dividedCalm (by decide)
  subst naming
  have closedCalm := (heeding.expect _ _ _).calm namedCalm
  obtain ⟨start, _, starts, tookStart⟩ := expect_took namedCalm (by decide)
  obtain ⟨closing, _, closed, tookClosing⟩ := expect_took closedCalm (by decide)
  have took := ((tookClosing.andThen closedCalm tookStart).andThen namedCalm tookDivider).andThen
    dividedCalm tookExit
  exact ⟨closing, start, divider, exit, _, took.ahead, closed, starts, divided, exits,
    tookStart.previous, tookExit.previous⟩

/-- Twins have read the same: a statement, or the header of one loop. -/
inductive Read (r : Renumbering) (loops : Nat)
    (L : List (String × Nat) → List (String × Nat) → Prop) :
    Pass × Option Heading → Pass × Option Heading → Prop
  | statement {p q : Pass} (twins : Twins r loops L p q) : Read r loops L (p, none) (q, none)
  | loop {p q : Pass} {h counterpart : Heading} (twins : Twins r (loops + 1) L p q)
      (headings : h.Twins r loops counterpart) :
      Read r loops L (p, some h) (q, some counterpart)

theorem readHeader {init counterpart : Chunk} (twins : Twins r loops L p q)
    (apart : init.Twins r Chunk.NoLabels counterpart) :
    Read r loops L (p.readHeader init) (q.readHeader counterpart) := by
  obtain ⟨begun, part⟩ := twins.loopPart apart
  unfold Pass.readHeader
  generalize p.loopPart init = one at begun part ⊢
  generalize q.loopPart counterpart = two at begun part ⊢
  dsimp only
  rw [begun.left_eq]
  obtain ⟨read, others⟩ := begun.moreParts one.1.left
  generalize Pass.moreParts one.1.left one.1 = parts at read others ⊢
  generalize Pass.moreParts one.1.left two.1 = counterparts at read others ⊢
  have named := (read.expect .rightCurly .partsClosing rfl).expect .name .bodyLabel rfl
  generalize naming : (parts.1.expect .rightCurly .partsClosing).expect .name .bodyLabel = u
    at named ⊢
  generalize (counterparts.1.expect .rightCurly .partsClosing).expect .name .bodyLabel = v
    at named ⊢
  have ended := (named.expect .divider .labelDivider rfl).expect .name .exitLabel rfl
  generalize ending : (u.expect .divider .labelDivider).expect .name .exitLabel = x at ended ⊢
  generalize (v.expect .divider .labelDivider).expect .name .exitLabel = y at ended ⊢
  rw [ended.panicking, named.previous, ended.previous]
  refine rel_ite (fun _ => .statement ended) fun quiet => rel_ite (fun _ => ?_) fun _ => ?_
  · exact .statement (ended.complainBefore _ rfl)
  · obtain ⟨closing, start, divider, exit, rest, ahead, closed, starts, divided, exits, rfl, rfl⟩ :=
      header_labels naming ending (Bool.eq_false_iff.mpr quiet)
    have together : [closing, u.previous, divider, x.previous] <:+: r.tokens :=
      List.IsInfix.trans ⟨[], rest, ahead.symm⟩ read.within.isInfix
    have finished := ended.endStatement
    refine .loop { finished with first := ?_, second := ?_ }
      ⟨ended.first, ended.second, .cons part others, rfl, rfl,
        .start together closed starts divided exits,
        .written (together.subset (by simp)) (Token.text?_name exits)⟩
    · rw [ended.first, Nat.add_assoc]
    · rw [ended.second, Nat.add_assoc]

theorem readBrace (twins : Twins r loops L p q) : Read r loops L p.readBrace q.readBrace := by
  obtain ⟨read, head⟩ := twins.apart Twins.expression
  unfold Pass.readBrace
  dsimp only
  rw [read.sees_eq]
  refine rel_ite (fun _ => read.readHeader head) fun _ => .statement ?_
  exact ((read.expect _ _ rfl).conditional Twins.simpleStatement head).endStatement

end Twins

end Pass

end Cellscript
