import Cellscript.Proofs.Language.Tree

/-!
The height of the stack is known at every line of a script's code. Labels and jumps are where
nothing is left on the stack, so control may come from anywhere.
-/

set_option autoImplicit false

namespace Cellscript

/-! ## Heights -/

/-- How many entries an instruction takes off the stack. -/
def Opcode.takes : Opcode → Nat
  | halt | constant | yes | no | jump => 0
  | negate | not | print | pop | getPointer | jumpIfFalse => 1
  | add | subtract | multiply | divide | less | greater | equal => 2
  | setPointer | setPointerNoPush | setPointerInverse | exchange | jumpIfFalseToLabel => 2

/-- How many entries an instruction puts on the stack. -/
def Opcode.gives : Opcode → Nat
  | halt | print | pop | setPointerNoPush | jumpIfFalseToLabel | jump | jumpIfFalse => 0
  | _ => 1

def Instruction.opcode : Instruction → Opcode
  | plain op => op
  | load _ => .constant
  | jump _ => .jump
  | jumpIfFalse _ => .jumpIfFalse

def Instruction.takes (i : Instruction) : Nat := i.opcode.takes

def Instruction.gives (i : Instruction) : Nat := i.opcode.gives

/-- How high the stack is after lines. There is no answer where an instruction would take more than
there is, or where a label stands with something left on the stack. -/
def heightAfter : Nat → List Line → Option Nat
  | height, [] => some height
  | height, .mark _ :: lines => if height = 0 then heightAfter 0 lines else none
  | height, .code i :: lines =>
    if i.takes ≤ height then heightAfter (height - i.takes + i.gives) lines else none

theorem heightAfter_append (height : Nat) (front back : List Line) :
    heightAfter height (front ++ back) = (heightAfter height front).bind (heightAfter · back) := by
  induction front generalizing height with
  | nil => rfl
  | cons line rest ih =>
    cases line with
    | mark name =>
      simp only [List.cons_append, heightAfter]
      split
      · exact ih 0
      · rfl
    | code i =>
      simp only [List.cons_append, heightAfter]
      split
      · exact ih _
      · rfl

theorem heightAfter_of_append {height middle : Nat} {front : List Line}
    (before : heightAfter height front = some middle) (back : List Line) :
    heightAfter height (front ++ back) = heightAfter middle back := by
  rw [heightAfter_append, before, Option.bind_some]

/-- In front of an instruction the height is known and large enough. -/
theorem heightAfter_split {height final : Nat} {front back : List Line} {i : Instruction}
    (known : heightAfter height (front ++ .code i :: back) = some final) :
    ∃ here, heightAfter height front = some here ∧ i.takes ≤ here := by
  rw [heightAfter_append] at known
  obtain ⟨here, before, after⟩ := Option.bind_eq_some_iff.mp known
  refine ⟨here, before, ?_⟩
  by_cases enough : i.takes ≤ here
  · exact enough
  · simp only [heightAfter, enough, ↓reduceIte, reduceCtorEq] at after

/-- At a label nothing is on the stack. -/
theorem heightAfter_at_mark {height final : Nat} {front back : List Line} {name : String}
    (known : heightAfter height (front ++ .mark name :: back) = some final) :
    heightAfter height front = some 0 := by
  rw [heightAfter_append] at known
  obtain ⟨here, before, after⟩ := Option.bind_eq_some_iff.mp known
  by_cases zero : here = 0
  · rwa [zero] at before
  · simp only [heightAfter, zero, ↓reduceIte, reduceCtorEq] at after

/-! ## Where instructions may stand -/

/-- Passing over so many bytes ends at a line where nothing is left on the stack. -/
def Lands (distance : Nat) (back : List Line) : Prop :=
  ∃ skipped rest, back = skipped ++ rest ∧ codeSize skipped = distance ∧
    heightAfter 0 skipped = some 0

/-- What holds where an instruction stands between lines, with so many entries on the stack. -/
def Instruction.Placed (labels : String → Prop) (front back : List Line) (height : Nat) :
    Instruction → Prop
  | plain .halt => height = 0
  | plain .pop => height = 1
  | plain .jumpIfFalseToLabel =>
    height = 2 ∧ ∃ before label, front = before ++ [.code (.load (.text label))] ∧ labels label
  | jump distance => height = 0 ∧ Lands distance back
  | jumpIfFalse distance => height = 1 ∧ Lands distance back
  | _ => True

/-- Instructions after which control always goes on with the next line. -/
def Instruction.Straight : Instruction → Prop
  | plain op => op ≠ .halt ∧ op ≠ .pop ∧ op ≠ .jumpIfFalseToLabel
  | load _ => True
  | _ => False

theorem Instruction.Straight.placed {labels : String → Prop} {front back : List Line} {height : Nat}
    {i : Instruction} (straight : i.Straight) : i.Placed labels front back height := by
  unfold Placed
  split <;> simp_all [Straight]

def Fits (labels : String → Prop) (front : List Line) (i : Instruction) (back : List Line) : Prop :=
  ∃ height, heightAfter 0 front = some height ∧ i.takes ≤ height ∧ i.Placed labels front back height

/-- Something holds of every instruction of a block where the block stands. -/
def Everywhere (holds : List Line → Instruction → List Line → Prop)
    (front block back : List Line) : Prop :=
  ∀ (before after : List Line) (i : Instruction), block = before ++ .code i :: after →
    holds (front ++ before) i (after ++ back)

/-- Every instruction of the block fits where the block stands. -/
def Sits (labels : String → Prop) (front block back : List Line) : Prop :=
  Everywhere (Fits labels) front block back

namespace Everywhere

variable {holds : List Line → Instruction → List Line → Prop} {front back : List Line}

theorem append {first second : List Line} (left : Everywhere holds front first (second ++ back))
    (right : Everywhere holds (front ++ first) second back) :
    Everywhere holds front (first ++ second) back := by
  intro before after i split
  rcases List.append_eq_append_iff.mp split with ⟨more, rfl, inner⟩ | ⟨more, inner, outer⟩
  · have fits := right _ _ _ inner
    rwa [List.append_assoc] at fits
  · cases more with
    | nil =>
      rw [List.append_nil] at inner
      subst inner
      have fits := right [] _ _ outer.symm
      rwa [List.append_nil] at fits
    | cons line tail =>
      obtain ⟨rfl, rfl⟩ := List.cons.inj outer
      have fits := left _ _ _ inner
      rwa [← List.append_assoc] at fits

theorem code {i : Instruction} (here : holds front i back) :
    Everywhere holds front [.code i] back := by
  intro before after j split
  cases before with
  | nil =>
    cases split
    rwa [List.append_nil]
  | cons line rest =>
    obtain ⟨_, empty⟩ := List.cons.inj split
    cases rest <;> cases empty

theorem mark (name : String) : Everywhere holds front [.mark name] back := by
  intro before after j split
  cases before with
  | nil => cases split
  | cons line rest =>
    obtain ⟨_, empty⟩ := List.cons.inj split
    cases rest <;> cases empty

end Everywhere

section Blocks

variable {labels : String → Prop} {front back : List Line}

/-- Lines of straight instructions. -/
def Straight (lines : List Line) : Prop :=
  ∀ line ∈ lines, ∃ i : Instruction, line = .code i ∧ i.Straight

theorem Straight.append {first second : List Line} (left : Straight first)
    (right : Straight second) : Straight (first ++ second) := by
  intro line member
  exact (List.mem_append.mp member).elim (left line) (right line)

/-- Straight code sits wherever there is enough on the stack for it. -/
theorem Straight.sits {block : List Line} (straight : Straight block) {height final : Nat}
    (before : heightAfter 0 front = some height) (known : heightAfter height block = some final) :
    Sits labels front block back := by
  rintro start after i rfl
  obtain ⟨here, inside, enough⟩ := heightAfter_split known
  obtain ⟨j, same, plain⟩ := straight (.code i) (by simp)
  cases same
  exact ⟨here, (heightAfter_of_append before _).trans inside, enough, plain.placed⟩

/-- A block that starts and ends with nothing on the stack, wherever it stands. -/
structure Neutral (labels : String → Prop) (block : List Line) : Prop where
  height : heightAfter 0 block = some 0
  sits : ∀ {front back : List Line}, heightAfter 0 front = some 0 → Sits labels front block back

namespace Neutral

theorem nil : Neutral labels [] where
  height := rfl
  sits _ := by
    intro before after i split
    cases before <;> cases split

theorem append {first second : List Line} (left : Neutral labels first)
    (right : Neutral labels second) : Neutral labels (first ++ second) where
  height := (heightAfter_of_append left.height second).trans right.height
  sits before :=
    Everywhere.append (left.sits before)
      (right.sits ((heightAfter_of_append before _).trans left.height))

theorem mark (name : String) : Neutral labels [.mark name] where
  height := rfl
  sits _ := Everywhere.mark name

theorem labelled (name : String) {block : List Line} (neutral : Neutral labels block) :
    Neutral labels (.mark name :: block) := (mark name).append neutral

theorem straight {block : List Line} (straight : Straight block)
    (height : heightAfter 0 block = some 0) : Neutral labels block where
  height := height
  sits before := straight.sits before height

/-- Straight code and an instruction that takes all that is on the stack by then. -/
theorem ending {block : List Line} {height : Nat} {i : Instruction} (straight : Straight block)
    (before : heightAfter 0 block = some height) (takes : i.takes = height) (gives : i.gives = 0)
    (placed : ∀ {front back : List Line}, i.Placed labels (front ++ block) back height) :
    Neutral labels (block ++ [.code i]) where
  height := by
    rw [heightAfter_of_append before]
    simp [heightAfter, takes, gives]
  sits {front back} start := by
    have here := (heightAfter_of_append start block).trans before
    exact Everywhere.append (straight.sits start before)
      (Everywhere.code ⟨height, here, Nat.le_of_eq takes, placed⟩)

theorem flatMap {α : Type} {items : List α} {lines : α → List Line}
    (each : ∀ a ∈ items, Neutral labels (lines a)) : Neutral labels (items.flatMap lines) := by
  induction items with
  | nil => exact nil
  | cons a rest ih =>
    have others := ih fun b member => each b (List.mem_cons_of_mem a member)
    exact (each a List.mem_cons_self).append others

end Neutral

end Blocks

/-! ## The code of trees -/

theorem Straight.plain (ops : List Opcode)
    (plain : ∀ op ∈ ops, op ≠ .halt ∧ op ≠ .pop ∧ op ≠ .jumpIfFalseToLabel) :
    Straight (plainLines ops) := by
  intro line member
  obtain ⟨op, found, rfl⟩ := List.mem_map.mp member
  exact ⟨.plain op, rfl, plain op found⟩

theorem Straight.load (value : Value) : Straight [.code (.load value)] := by
  intro line member
  exact ⟨.load value, List.mem_singleton.mp member, trivial⟩

namespace Expression

theorem code_straight (e : Expression) : Straight e.code := by
  induction e with
  | number x => exact .load _
  | text s => exact .load _
  | truth b => cases b <;> exact .plain _ (by decide)
  | unary op e ih => exact ih.append (.plain _ (by cases op <;> decide))
  | binary op left right leftward rightward =>
    exact (leftward.append rightward).append (.plain _ (by cases op <;> decide))

/-- An expression leaves one entry more than there was. -/
theorem code_height (e : Expression) (height : Nat) :
    heightAfter height e.code = some (height + 1) := by
  induction e generalizing height with
  | number x => rfl
  | text s => rfl
  | truth b => cases b <;> rfl
  | unary op e ih =>
    rw [code, heightAfter_of_append (ih height)]
    cases op <;> simp [plainLines, heightAfter, UnaryOperator.code, Instruction.takes,
      Instruction.gives, Instruction.opcode, Opcode.takes, Opcode.gives]
  | binary op left right leftward rightward =>
    rw [code, List.append_assoc, heightAfter_of_append (leftward height),
      heightAfter_of_append (rightward (height + 1))]
    cases op <;> simp [plainLines, heightAfter, BinaryOperator.code, Instruction.takes,
      Instruction.gives, Instruction.opcode, Opcode.takes, Opcode.gives]

end Expression

section Trees

variable {labels : String → Prop}

/-- Both branches of a conditional start and end with nothing on the stack. -/
theorem Neutral.conditional {predicate body other : List Line} (straight : Straight predicate)
    (asked : heightAfter 0 predicate = some 1) (first : Neutral labels body)
    (second : Neutral labels other) : Neutral labels (conditionalLines predicate body other) := by
  have level : heightAfter 0 (body ++ [.code (.jump (codeSize other))]) = some 0 := by
    rw [heightAfter_of_append first.height]
    rfl
  constructor
  · rw [conditionalLines, heightAfter_of_append asked]
    change heightAfter 0 (body ++ .code (.jump (codeSize other)) :: other) = some 0
    rw [heightAfter_of_append first.height]
    exact second.height
  · intro front back start
    have afterPredicate := (heightAfter_of_append start predicate).trans asked
    have afterJump : heightAfter 0 (front ++ predicate ++
        [.code (.jumpIfFalse (codeSize body + 2))]) = some 0 := by
      rw [heightAfter_of_append afterPredicate]
      rfl
    have afterBody := (heightAfter_of_append afterJump body).trans first.height
    have afterOver : heightAfter 0 (front ++ predicate ++
        [.code (.jumpIfFalse (codeSize body + 2))] ++ body ++
        [.code (.jump (codeSize other))]) = some 0 := by
      rw [heightAfter_of_append afterBody]
      rfl
    have skips : Fits labels (front ++ predicate) (.jumpIfFalse (codeSize body + 2))
        (body ++ .code (.jump (codeSize other)) :: other ++ back) := by
      refine ⟨1, afterPredicate, Nat.le_refl 1, rfl, _, other ++ back, ?_, ?_, level⟩
      · simp
      · simp [Instruction.width]
    have joins :
        Fits labels (front ++ predicate ++ [.code (.jumpIfFalse (codeSize body + 2))] ++ body)
        (.jump (codeSize other)) (other ++ back) :=
      ⟨0, afterBody, Nat.le_refl 0, rfl, other, back, rfl, rfl, second.height⟩
    have lines : conditionalLines predicate body other = predicate ++
        ([.code (.jumpIfFalse (codeSize body + 2))] ++ (body ++
          ([.code (.jump (codeSize other))] ++ other))) := by
      simp [conditionalLines]
    rw [lines]
    refine Everywhere.append (straight.sits start asked) (Everywhere.append (Everywhere.code ?_)
      (Everywhere.append (first.sits afterJump)
        (Everywhere.append (Everywhere.code joins) (second.sits afterOver))))
    simpa using skips

theorem Simple.code_neutral (s : Simple) : Neutral labels s.code := by
  induction s with
  | print e =>
    refine .straight (e.code_straight.append (.plain _ (by decide))) ?_
    exact heightAfter_of_append (e.code_height 0) _
  | stop =>
    have empty : Straight [] := fun _ => nofun
    exact .ending empty rfl rfl rfl rfl
  | perform e => exact .ending e.code_straight (e.code_height 0) rfl rfl rfl
  | when predicate body ih =>
    exact .conditional predicate.code_straight (predicate.code_height 0) ih .nil
  | choose predicate body other first second =>
    exact .conditional predicate.code_straight (predicate.code_height 0) first second

theorem Neutral.goto (label : String) : Neutral labels (gotoLines label) :=
  .ending (.load _) rfl rfl rfl rfl

namespace Link

theorem init_neutral (number : Nat) (l : Link) : Neutral labels (l.init number) := by
  have straight := (l.source.init.code_straight.append l.parameter.code_straight).append
    (.plain [.setPointerInverse] (by decide))
  have assigned : heightAfter 0 (l.source.init.code ++ l.parameter.code ++
      plainLines [.setPointerInverse]) = some 1 := by
    rw [List.append_assoc, heightAfter_of_append (l.source.init.code_height 0),
      heightAfter_of_append (l.parameter.code_height 1)]
    rfl
  have popped : Neutral labels (_ ++ [.code (.plain .pop)]) := .ending straight assigned rfl rfl rfl
  simpa [init, Link.mark, plainLines] using
    popped.labelled (LoopBlock.init.label number l.part l.link)

theorem incr_neutral (number : Nat) (l : Link) : Neutral labels (l.incr number) := by
  have straight := (((l.parameter.code_straight.append l.parameter.code_straight).append
    (.plain [.getPointer] (by decide))).append l.source.step.code_straight).append
    (.plain [.add, .setPointerNoPush] (by decide))
  refine Neutral.labelled _ (.straight straight ?_)
  simp only [List.append_assoc]
  rw [heightAfter_of_append (l.parameter.code_height 0),
    heightAfter_of_append (l.parameter.code_height 1)]
  change heightAfter 2 (l.source.step.code ++ plainLines [.add, .setPointerNoPush]) = some 0
  rw [heightAfter_of_append (l.source.step.code_height 2)]
  rfl

theorem test_straight (l : Link) : Straight l.test := by
  unfold test
  split
  · rename_i target _
    exact ((l.parameter.code_straight.append (.plain _ (by decide))).append
      target.code_straight).append (.plain _ (by decide))
  · rename_i predicate _
    exact predicate.code_straight

theorem test_height (l : Link) : heightAfter 0 l.test = some 1 := by
  unfold test
  split
  · rename_i target _
    simp only [List.append_assoc]
    rw [heightAfter_of_append (l.parameter.code_height 0)]
    change heightAfter 1 (target.code ++ plainLines [.equal, .not]) = some 1
    rw [heightAfter_of_append (target.code_height 1)]
    rfl
  · rename_i predicate _
    exact predicate.code_height 0

theorem cond_neutral (number : Nat) (l : Link) {exit : String} (known : labels exit) :
    Neutral labels (l.cond number exit) := by
  have straight := l.test_straight.append (.load (.text exit))
  have tested : heightAfter 0 (l.test ++ [.code (.load (.text exit))]) = some 2 := by
    rw [heightAfter_of_append l.test_height]
    rfl
  have left : Neutral labels (_ ++ [.code (.plain .jumpIfFalseToLabel)]) :=
    .ending straight tested rfl rfl ⟨rfl, _, exit, (List.append_assoc _ _ _).symm, known⟩
  simpa [cond, Link.mark, plainLines] using
    left.labelled (LoopBlock.cond.label number l.part l.link)

end Link

theorem Header.code_neutral (number : Nat) (header : Header) (known : labels header.exit) :
    Neutral labels (header.code number) := by
  have init : Neutral labels (header.initLines number) :=
    (Neutral.flatMap fun l _ => l.init_neutral number).append (.goto _)
  have incr : Neutral labels (header.incrLines number) :=
    .flatMap fun l _ => l.incr_neutral number
  have cond : Neutral labels (header.condLines number) :=
    (Neutral.flatMap fun l _ => l.cond_neutral number known).append (.goto _)
  exact ((init.append incr).append cond).append (.mark _)

theorem Script.code_neutral (number : Nat) (script : Script)
    (known : ∀ label ∈ script.exits, labels label) : Neutral labels (script.code number) := by
  induction script generalizing number with
  | done => exact .nil
  | mark name rest ih => exact (ih number known).labelled name
  | simple statement rest ih => exact statement.code_neutral.append (ih number known)
  | loop header body rest inner outer =>
    have head := header.code_neutral number (known _ List.mem_cons_self)
    have repeated := inner (number + 1) fun label member => known label (by simp [exits, member])
    have after := outer (number + 1 + body.loops) fun label member =>
      known label (by simp [exits, member])
    exact ((head.append repeated).append (.goto _)).append after

end Trees

end Cellscript
