import Cellscript.Proofs.Language.Scheme
import Cellscript.Proofs.Machine.Evaluation
import Cellscript.Proofs.Machine.Safety
import Cellscript.Proofs.Store.Assignment

/-!
The blocks of a loop, strung together by gotos, run its body again and again until a test ends it.
-/

set_option autoImplicit false

namespace Cellscript

namespace Machine

section Instructions

variable {chunk : Chunk} {max : Nat} {rest : List Value}

theorem refer_block (room : rest.length < max) (value operand : Value) :
    Block chunk max 1 (plainLines [.setPointerInverse]) (operand :: value :: rest)
      (Store.assign operand value) fun c => .pointer c :: rest := by
  intro front back assembled
  have whole : Block chunk max 1 (plainLines [.setPointerInverse]) (operand :: value :: rest)
      (Value.pointer <$> Store.assign operand value) fun result => result :: rest :=
    BinaryOperator.refer.block room value operand
  exact (whole front back assembled).of_map

theorem assign_block (operand value : Value) :
    Block chunk max 1 (plainLines [.setPointerNoPush]) (value :: operand :: rest)
      (Store.assign operand value) fun _ => rest := by
  intro front back assembled
  rw [List.append_assoc] at assembled
  rw [codeSize_append]
  refine .of_step assembled fun m _ stacked => ?_
  obtain ⟨limits, stack, store, sink, log⟩ := m
  cases stacked
  have popped : (Instruction.plain .setPointerNoPush).perform chunk (codeSize front + 1)
      ⟨limits, value :: operand :: rest, store, sink, log⟩ =
      (onStore (Store.assign operand value) >>= fun _ => return some (codeSize front + 1))
        ⟨limits, rest, store, sink, log⟩ := rfl
  cases done : Store.assign operand value store with
  | ok c s => exact popped.trans (bind_apply_ok (onStore_ok done) _)
  | error fault s => exact ⟨_, popped.trans (bind_apply_error (onStore_error done) _), rfl⟩

variable {front back : List Line}

/-- Discarding a value that sends control the same way whatever the store is. -/
theorem discard_carries (assembled : chunk.Assembles (front ++ .code (.plain .pop) :: back))
    {value : Value} {target : Option Nat} (goes : ∀ s, gotoTarget chunk value s = .ok target) :
    Carries chunk max 1 (codeSize front, value :: rest) (pure ())
      fun _ => (target.getD (codeSize front + 1), rest) := by
  refine .of_step assembled fun m _ stacked => ?_
  obtain ⟨limits, stack, store, sink, log⟩ := m
  cases stacked
  have looked (m : Machine) : ofStore (gotoTarget chunk value) m = .ok target m := by
    rw [ofStore, goes]
  exact bind_apply_ok (looked ⟨limits, rest, store, sink, log⟩) _

theorem discard_block (c : Cell) :
    Block chunk max 1 (plainLines [.pop]) (.pointer c :: rest) (pure ()) fun _ => rest := by
  intro front back assembled
  rw [List.append_assoc] at assembled
  rw [codeSize_append]
  have goes (s : Store) : gotoTarget chunk (.pointer c) s = .ok none := rfl
  exact discard_carries assembled goes

theorem goto_carries {label : String} {target : Nat}
    (assembled : chunk.Assembles (front ++ gotoLines label ++ back))
    (resolved : chunk.resolve? label = some target) (room : rest.length < max) :
    Carries chunk max 1 (codeSize front, rest) (pure ()) fun _ => (target, rest) := by
  have load : Block chunk max 1 [.code (.load (.text label))] rest (pure (Value.text label)) _ :=
    .of_push (fun _ => rfl) room
  have shifted :
      chunk.Assembles (front ++ [.code (.load (.text label))] ++ .code (.plain .pop) :: back) := by
    simpa [gotoLines, plainLines] using assembled
  have goes (s : Store) : gotoTarget chunk (.text label) s = .ok (some target) := by
    unfold gotoTarget
    dsimp only [Value.name?]
    rw [resolved]
  have loaded := (load front _ shifted).constant
  exact (loaded.bind fun _ => discard_carries shifted goes).weaken (Nat.le_add_right 1 1)

/-- A test that fails leaves for the exit. -/
theorem leave_carries {label : String} {target : Nat}
    (assembled : chunk.Assembles (front ++ .code (.plain .jumpIfFalseToLabel) :: back))
    (resolved : chunk.resolve? label = some target) (predicate : Value) :
    Carries chunk max 1 (codeSize front, .text label :: predicate :: rest)
      (pure !predicate.isFalsey)
      fun goes => (if goes then codeSize front + 1 else target, rest) := by
  refine .of_step assembled fun m _ stacked => ?_
  obtain ⟨limits, stack, store, sink, log⟩ := m
  cases stacked
  have offset (m : Machine) : labelOffset chunk (.text label) m = .ok target m := by
    unfold labelOffset
    dsimp only [Value.name?, Option.bind_some]
    rw [resolved]
  have popped : (Instruction.plain .jumpIfFalseToLabel).perform chunk (codeSize front + 1)
      ⟨limits, .text label :: predicate :: rest, store, sink, log⟩ =
      (if predicate.isFalsey then do return some (← labelOffset chunk (.text label))
        else return some (codeSize front + 1) : Action (Option Nat))
        ⟨limits, rest, store, sink, log⟩ := rfl
  refine popped.trans ?_
  cases predicate.isFalsey with
  | true => exact bind_apply_ok (offset _) _
  | false => rfl

end Instructions

end Machine

open Machine

/-! ## Blocks -/

section Blocks

variable {chunk : Chunk} {max : Nat} {stack : List Value}

/-- What a parameter needs of the stack fits. -/
structure Link.Fits (l : Link) (size max : Nat) : Prop where
  init : size + l.source.init.room ≤ max
  parameter : size + 1 + l.parameter.room ≤ max
  step : size + 2 + l.source.step.room ≤ max
  finish : size + 1 + l.source.finish.room ≤ max

theorem Link.fits {l : Link} {size : Nat} (room : size + l.room ≤ max) : l.Fits size max := by
  unfold Link.room at room
  constructor <;> omega

theorem Link.Fits.inside {l : Link} {size : Nat} (fits : l.Fits size max) : size + 1 < max := by
  have := fits.parameter
  have := l.parameter.room_pos
  omega

theorem Link.begin_block (l : Link) (number : Nat) (fits : l.Fits stack.length max) :
    Block chunk max 0 (l.init number) stack l.begin fun _ => stack := by
  have low : stack.length < max := Nat.lt_of_succ_lt fits.inside
  have above (value : Value) : (value :: stack).length + l.parameter.room ≤ max := fits.parameter
  have same : l.init number = [.mark (LoopBlock.init.label number l.part l.link)] ++
      (l.source.init.code ++ (l.parameter.code ++
        (plainLines [.setPointerInverse] ++ plainLines [.pop]))) := by
    simp [Link.init, Link.mark, plainLines]
  rw [same]
  apply Block.uncounted
  exact (Block.mark _).append fun _ => (l.source.init.block fits.init).append fun value =>
    (l.parameter.block (above value)).append fun operand =>
      (refer_block low value operand).append discard_block

theorem Link.advance_block (l : Link) (number : Nat) (fits : l.Fits stack.length max) :
    Block chunk max 0 (l.incr number) stack l.advance fun _ => stack := by
  have low : stack.length + l.parameter.room ≤ max := by
    have := fits.parameter
    omega
  have above (operand : Value) : (operand :: stack).length + l.parameter.room ≤ max :=
    fits.parameter
  have inside (operand : Value) : (operand :: stack).length < max := fits.inside
  have high (operand current : Value) :
      (current :: operand :: stack).length + l.source.step.room ≤ max := fits.step
  have same : l.incr number = [.mark (LoopBlock.incr.label number l.part l.link)] ++
      (l.parameter.code ++ (l.parameter.code ++ (plainLines [.getPointer] ++ (l.source.step.code ++
        (plainLines [.add] ++ plainLines [.setPointerNoPush]))))) := by
    simp [Link.incr, Link.mark, plainLines]
  rw [same]
  apply Block.uncounted
  exact (Block.mark _).append fun _ => (l.parameter.block low).append fun operand =>
    (l.parameter.block (above operand)).append fun again =>
      (UnaryOperator.read.block (inside operand) again).append fun current =>
        (l.source.step.block (high operand current)).append fun step =>
          (BinaryOperator.add.block (inside operand) current step).append fun next =>
            (assign_block operand next).ignore

/-- What is computed before a test tells whether the loop goes on. -/
theorem Link.test_block (l : Link) (fits : l.Fits stack.length max) :
    ∃ tested : Store.Action Value,
      Block chunk max 0 l.test stack tested (fun predicate => predicate :: stack) ∧
        l.goesOn = do return !(← tested).isFalsey := by
  unfold Link.test Link.goesOn
  have bound := fits.finish
  cases ending : l.source.finish with
  | condition predicate =>
    rw [ending] at bound
    have room : stack.length + predicate.room ≤ max := by
      rw [Ending.room] at bound
      omega
    exact ⟨predicate.eval, (predicate.block room).uncounted, rfl⟩
  | value target =>
    rw [ending] at bound
    have low : stack.length + l.parameter.room ≤ max := by
      have := fits.parameter
      omega
    have inside : stack.length < max := Nat.lt_of_succ_lt fits.inside
    have high (current : Value) : (current :: stack).length + target.room ≤ max := bound
    refine ⟨do
      let current ← Store.look (← l.parameter.eval)
      let last ← target.eval
      BinaryOperator.notEqual.apply current last, ?_, ?_⟩
    · simp only [List.append_assoc]
      apply Block.uncounted
      exact (l.parameter.block low).append fun operand =>
        (UnaryOperator.read.block inside operand).append fun current =>
          (target.block (high current)).append fun last =>
            BinaryOperator.notEqual.block inside current last
    · simp [BinaryOperator.apply, Value.isFalsey]

variable {front back : List Line} {number entry out : Nat} {exit : String}

theorem Link.cond_carries (l : Link)
    (assembled : chunk.Assembles (front ++ l.cond number exit ++ back))
    (resolved : chunk.resolve? exit = some out) (fits : l.Fits stack.length max) :
    Carries chunk max 0 (codeSize front, stack) l.goesOn
      fun goes => (if goes then codeSize (front ++ l.cond number exit) else out, stack) := by
  obtain ⟨tested, block, same⟩ := l.test_block fits
  have load (predicate : Value) :
      Block chunk max 1 [.code (.load (.text exit))] (predicate :: stack)
      (pure (Value.text exit)) _ := .of_push (fun _ => rfl) fits.inside
  -- The lines in front of the jump are a block; the jump itself may go elsewhere.
  have split : l.cond number exit = [.mark (LoopBlock.cond.label number l.part l.link)] ++ l.test ++
      [.code (.load (.text exit))] ++ plainLines [.jumpIfFalseToLabel] := by
    simp [Link.cond, Link.mark]
  rw [split, ← List.append_assoc, ← List.append_assoc] at assembled ⊢
  have jump := assembled
  rw [List.append_assoc] at jump
  have first := ((Block.mark _).append fun _ => block) front _
    (by rw [List.append_assoc _ _ (plainLines _ ++ back)] at jump; exact jump)
  have second (predicate : Value) := (load predicate (front ++ _) _ jump).constant
  rw [codeSize_append _ (plainLines _), same]
  apply Carries.weaken
  · exact first.bind fun predicate => (second predicate).bind fun _ =>
      leave_carries jump resolved predicate
  · exact Nat.zero_le _

/-- Blocks for all parameters, one after another. -/
theorem forM_block {links : List Link} {lines : Link → List Line} {act : Link → Store.Action Unit}
    (each : ∀ l ∈ links, Block chunk max 0 (lines l) stack (act l) fun _ => stack) :
    Block chunk max 0 (links.flatMap lines) stack (links.forM act) fun _ => stack := by
  induction links with
  | nil => exact .nil () fun _ => stack
  | cons l links ih =>
    rw [List.flatMap_cons]
    have rest := ih fun other member => each other (List.mem_cons_of_mem l member)
    exact (each l List.mem_cons_self).append fun _ => rest

theorem conds_carries {links : List Link}
    (assembled : chunk.Assembles (front ++ links.flatMap (Link.cond number exit) ++ back))
    (resolved : chunk.resolve? exit = some out) (fits : ∀ l ∈ links, l.Fits stack.length max) :
    Carries chunk max 0 (codeSize front, stack) (links.allM Link.goesOn) fun goes =>
      (if goes then codeSize (front ++ links.flatMap (Link.cond number exit)) else out, stack) := by
  induction links generalizing front with
  | nil =>
    rw [List.flatMap_nil, List.append_nil]
    exact .pure true fun goes => (if goes then codeSize front else out, stack)
  | cons l links ih =>
    rw [List.flatMap_cons, ← List.append_assoc] at assembled ⊢
    have first := l.cond_carries (by rw [List.append_assoc] at assembled; exact assembled) resolved
      (fits l List.mem_cons_self)
    have rest := ih assembled fun other member => fits other (List.mem_cons_of_mem l member)
    apply Carries.weaken _ (Nat.zero_le (0 + 0))
    have unfolded : (l :: links).allM Link.goesOn = l.goesOn >>= fun goes =>
      match goes with
      | true => links.allM Link.goesOn
      | false => pure false := rfl
    rw [unfolded]
    refine first.bind fun goes => ?_
    cases goes with
    | true => exact rest
    | false => exact .pure false fun goes => (if goes then _ else out, stack)

end Blocks

/-! ## Loops -/

section Sites

variable {chunk : Chunk} {max out : Nat} {stack : List Value} {site : Site} {back : List Line}

/-- The labels of a loop stand where it starts, where its body starts and where it moves on. -/
theorem Site.labels (assembled : chunk.Assembles (site.front ++ site.lines ++ back))
    (finished : chunk.jumps = chunk.labels)
    (driven : ∃ l rest, site.header.links = l :: rest ∧ l.part = 0 ∧ l.link = 0) :
    chunk.resolve? (LoopBlock.init.label site.number 0 0) = some site.start ∧
      chunk.resolve? site.header.start = some site.entry ∧
      chunk.resolve? (LoopBlock.incr.label site.number 0 0) =
        some (codeSize (site.front ++ site.header.initLines site.number)) := by
  obtain ⟨l, rest, links, part, link⟩ := driven
  have marked {front : List Line} {name : String}
      (split : ∃ after, site.lines ++ back = front ++ .mark name :: after) :
      chunk.resolve? name = some (codeSize (site.front ++ front)) := by
    obtain ⟨after, split⟩ := split
    refine (assembled.resolve?_eq_some_iff finished).mpr ⟨_, after, ?_, rfl⟩
    rw [List.append_assoc, split, List.append_assoc]
  refine ⟨?_, ?_, ?_⟩
  · have first : ∃ after, site.lines ++ back =
        [] ++ .mark (LoopBlock.init.label site.number 0 0) :: after := by
      simp only [Site.lines, Header.code, Header.initLines, links, List.flatMap_cons, Link.init,
        Link.mark, part, link, List.append_assoc, List.cons_append, List.nil_append]
      exact ⟨_, rfl⟩
    rw [marked first, List.append_nil]
    rfl
  · have body : ∃ after, site.lines ++ back = (site.header.initLines site.number ++
        site.header.incrLines site.number ++ site.header.condLines site.number) ++
          .mark site.header.start :: after := by
      simp only [Site.lines, Header.code, List.append_assoc, List.cons_append, List.nil_append]
      exact ⟨_, rfl⟩
    rw [marked body]
    simp [Site.entry, Header.code]
  · refine marked ?_
    simp only [Site.lines, Header.code, Header.incrLines, links, List.flatMap_cons, Link.incr,
      Link.mark, part, link, List.append_assoc, List.cons_append]
    exact ⟨_, rfl⟩

theorem Site.begin_carries (assembled : chunk.Assembles (site.front ++ site.lines ++ back))
    (resolved : chunk.resolve? site.header.start = some site.entry)
    (fits : ∀ l ∈ site.header.links, l.Fits stack.length max) (low : stack.length < max) :
    Carries chunk max 0 (site.start, stack) site.header.begin fun _ => (site.entry, stack) := by
  have blocks : Block chunk max 0 (site.header.links.flatMap (Link.init site.number)) stack
      site.header.begin fun _ => stack :=
    forM_block fun l member => l.begin_block site.number (fits l member)
  have jump : chunk.Assembles (site.front ++ site.header.links.flatMap (Link.init site.number) ++
      gotoLines site.header.start ++ (site.header.incrLines site.number ++
        site.header.condLines site.number ++ [.mark site.header.start] ++
        site.body.code (site.number + 1) ++
        gotoLines (LoopBlock.incr.label site.number 0 0) ++ back)) := by
    simpa only [Site.lines, Header.code, Header.initLines, List.append_assoc] using assembled
  have first := blocks site.front _ (by rw [List.append_assoc] at jump; exact jump)
  have whole := first.bind fun _ => goto_carries jump resolved low
  rw [bind_pure_unit] at whole
  exact whole.weaken (Nat.zero_le _)

/-- From the end of the body every parameter moves on; then the body starts again unless a test ends
the loop. -/
theorem Site.round_carries (assembled : chunk.Assembles (site.front ++ site.lines ++ back))
    (resolved : chunk.resolve? site.header.start = some site.entry)
    (onward : chunk.resolve? (LoopBlock.incr.label site.number 0 0) =
      some (codeSize (site.front ++ site.header.initLines site.number)))
    (leaving : chunk.resolve? site.header.exit = some out)
    (fits : ∀ l ∈ site.header.links, l.Fits stack.length max) (low : stack.length < max) :
    Carries chunk max 1 (site.finish, stack) (do site.header.advance; site.header.goesOn)
      fun goes => (if goes then site.entry else out, stack) := by
  have blocks : Block chunk max 0 (site.header.incrLines site.number) stack site.header.advance
      fun _ => stack := forM_block fun l member => l.advance_block site.number (fits l member)
  have jump : chunk.Assembles (site.front ++ site.header.code site.number ++
      site.body.code (site.number + 1) ++
      gotoLines (LoopBlock.incr.label site.number 0 0) ++ back) := by
    simpa only [Site.lines, List.append_assoc] using assembled
  have again : chunk.Assembles (site.front ++ site.header.initLines site.number ++
      site.header.incrLines site.number ++
      site.header.links.flatMap (Link.cond site.number site.header.exit) ++
      gotoLines site.header.start ++
      (.mark site.header.start :: (site.body.code (site.number + 1) ++
        gotoLines (LoopBlock.incr.label site.number 0 0) ++ back))) := by
    simpa only [Site.lines, Header.code, Header.condLines, List.append_assoc, List.cons_append,
      List.nil_append] using assembled
  have tests := again
  rw [List.append_assoc] at tests
  have steps := tests
  rw [List.append_assoc _ (site.header.links.flatMap _)] at steps
  have back := goto_carries jump onward low
  have ends (goes : Bool) : Carries chunk max 0
      (if goes then codeSize (site.front ++ site.header.initLines site.number ++
        site.header.incrLines site.number ++
        site.header.links.flatMap (Link.cond site.number site.header.exit)) else out, stack)
      (pure goes) fun goes => (if goes then site.entry else out, stack) := by
    cases goes with
    | true => exact (goto_carries again resolved low).weaken (Nat.zero_le 1)
    | false => exact .pure false fun goes => (if goes then site.entry else out, stack)
  have whole := back.bind fun _ => (blocks _ _ steps).bind fun _ =>
    (conds_carries tests leaving fits).bind ends
  rw [bind_pure] at whole
  exact whole.weaken (Nat.le_add_right 1 _)

/-- The body comes to its end without going to an offset. -/
def Site.Passes (chunk : Chunk) (site : Site) (u t : Machine) : Prop :=
  ∃ n, KeepsToLabels chunk n (site.entry, u) ∧
    after chunk n (site.entry, u) = some (site.finish, t) ∧
    ∀ k < n, ∀ v, after chunk k (site.entry, u) ≠ some (site.finish, v)

theorem Site.Passes.unique {u t v : Machine} (first : site.Passes chunk u t)
    (second : site.Passes chunk u v) : t = v := by
  obtain ⟨n, _, reached, none⟩ := first
  obtain ⟨k, _, later, never⟩ := second
  rcases Nat.lt_trichotomy n k with less | rfl | more
  · exact absurd reached (never n less t)
  · rw [reached] at later
    cases later
    rfl
  · exact absurd later (none k more v)

/-- A body that comes to its end leaves the stack as it was. -/
theorem Site.Passes.keeps {lines : List Line} {u t : Machine} (passes : site.Passes chunk u t)
    (assembled : chunk.Assembles (lines ++ plainLines [.halt]))
    (finished : chunk.jumps = chunk.labels)
    (neutral : Neutral (.mark · ∈ lines) lines) (split : lines = site.front ++ site.lines ++ back)
    (height : heightAfter 0 site.front = some 0)
    (resolved : chunk.resolve? site.header.start = some site.entry) :
    t.stack = u.stack ∧ t.limits = u.limits := by
  obtain ⟨n, labels, reached, _⟩ := passes
  refine ⟨?_, (after_evolves reached).limits⟩
  have entered : Stands lines site.entry [] :=
    resolve?_stands assembled finished neutral.height resolved
  obtain ⟨rest, stands, stack⟩ := entered.after assembled finished neutral rfl labels reached
  have empty : rest = [] := by
    rcases stands.next neutral.height with ⟨front, i, after, here, place, level, _⟩ | ⟨_, none⟩
    · have body : Neutral (fun _ => True)
          (site.header.code site.number ++ site.body.code (site.number + 1)) :=
        (site.header.code_neutral site.number trivial).append
          (site.body.code_neutral (site.number + 1) fun _ _ => trivial)
      have goto : lines = site.front ++ site.header.code site.number ++
          site.body.code (site.number + 1) ++
          .code (.load (.text (LoopBlock.incr.label site.number 0 0))) ::
            (plainLines [.pop] ++ back) := by
        rw [split]
        simp [Site.lines, gotoLines]
      rw [split_unique (here.symm.trans goto) place.symm, List.append_assoc,
        heightAfter_of_append height, body.height] at level
      exact List.length_eq_zero_iff.mp (Option.some.inj level).symm
    · exact none
  rw [stack, empty]
  rfl

end Sites

end Cellscript
