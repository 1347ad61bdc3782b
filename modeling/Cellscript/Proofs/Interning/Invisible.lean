import Cellscript.Proofs.Interning.Following
import Cellscript.Proofs.Machine.Habits

/-!
Interning is invisible. A machine with handles runs as the machine with texts does, whatever else is
in the pool and wherever the texts of numbers are interned that are only looked up.
-/

set_option autoImplicit false

namespace Cellscript.Interned

/-- All handles of a chunk lead into the pool. -/
structure Chunk.Held (pool : Pool) (c : Chunk) : Prop where
  constants : ∀ value ∈ c.constants, value.Held pool
  jumps : ∀ entry ∈ c.jumps, pool.Holds entry.1

theorem Chunk.Held.mono {pool later : Pool} {c : Chunk} (held : c.Held pool)
    (grown : pool.Grows later) : c.Held later where
  constants := fun value member => (held.constants value member).mono grown
  jumps := fun entry member => (held.jumps entry member).mono grown

namespace Store

variable {s : Store} {v : Value}

theorem shown_spec (sound : s.Sound) (held : v.Held s.pool) :
    (s.shown v).plain = Cellscript.Machine.shown s.plain v.plain := by
  cases v with
  | text name =>
    have cell := sound.bound?_plain held
    simp only [shown, Cellscript.Machine.shown, Value.plain, Cellscript.Store.valueOf?]
    rw [← cell]
    cases s.bound? name with
    | none => rfl
    | some c =>
      have value : s.plain.cells.get? (s.root c) = (s.cells.get? (s.root c)).map Value.plain :=
        Arena.get?_map _
      simp only [Option.bind_some]
      unfold root at value ⊢
      rw [value]
      cases s.cells.get? (s.plain.root c) <;> rfl
  | _ => rfl

end Store

namespace Machine

open Cellscript.Machine (ActionOf push pop popNumbers onStore ofStore print fetch)

structure Sound (m : Machine) : Prop where
  store : m.store.Sound
  stack : ∀ value ∈ m.stack, value.Held m.store.pool

def view : View Machine Cellscript.Machine := ⟨Machine.plain, fun m => m.store.pool, Machine.Sound⟩

variable {pool : Pool} {v : Value} {chunk : Chunk}

theorem follows {α β : Type} {R : Pool → α → β → Prop} {action : ActionOf Value Store α}
    {other : Cellscript.Machine.Action β}
    (mirrors : ∀ m : Machine, m.Sound → pool.Grows m.store.pool →
      Mirrors view R m.store.pool (action m) (other m.plain)) : Follows view R pool action other :=
  mirrors

/-! ## The parts of instructions -/

theorem push_follows {w : Cellscript.Value} (shows : Shows pool v w) :
    Follows view Same pool (push v) (push w) := by
  obtain ⟨held, rfl⟩ := shows
  refine follows fun m sound grown => ?_
  have depth : m.plain.stack.length = m.stack.length := List.length_map _
  unfold push
  rw [depth]
  by_cases full : m.limits.stackMax ≤ m.stack.length
  · rw [if_pos full, if_pos (show m.plain.limits.stackMax ≤ m.stack.length from full)]
    exact .error sound (.refl _) rfl
  · rw [if_neg full, if_neg (show ¬ m.plain.limits.stackMax ≤ m.stack.length from full)]
    have stack := List.forall_mem_cons.mpr ⟨held.mono grown, sound.stack⟩
    exact .ok ⟨sound.store, stack⟩ (.refl _) rfl rfl

theorem pop_follows : Follows view Shows pool pop pop := by
  refine follows fun m sound _ => ?_
  obtain ⟨limits, stack, store, sink, log⟩ := m
  cases stack with
  | nil => exact .error sound (.refl _) rfl
  | cons value rest =>
    obtain ⟨top, below⟩ := List.forall_mem_cons.mp sound.stack
    exact .ok ⟨sound.store, below⟩ (.refl _) rfl ⟨top, rfl⟩

/-- After a value has been taken off the stack. -/
theorem popThen {α β : Type} {R : Pool → α → β → Prop} {next : Value → ActionOf Value Store α}
    {then' : Cellscript.Value → Cellscript.Machine.Action β}
    (after : ∀ later, pool.Grows later → ∀ value : Value, value.Held later →
      Follows view R later (next value) (then' value.plain)) :
    Follows view R pool (pop >>= next) (pop >>= then') := by
  refine pop_follows.bind fun later grown value _ shows => ?_
  obtain ⟨held, rfl⟩ := shows
  exact after later grown value held

theorem onStore_follows {α β : Type} {R : Pool → α → β → Prop} {action : Store.Action α}
    {other : Cellscript.Store.Action β} (inside : Follows Store.view R pool action other) :
    Follows view R pool (onStore action) (onStore other) := by
  refine follows fun m sound grown => ?_
  have done := inside m.store sound.store grown
  unfold onStore
  have stack {later : Pool} (more : m.store.pool.Grows later) :
      ∀ value ∈ m.stack, value.Held later :=
    fun value member => (sound.stack value member).mono more
  have start : m.plain.store = Store.view.plain m.store := rfl
  rw [start]
  generalize action m.store = one at done ⊢
  generalize other (Store.view.plain m.store) = two at done ⊢
  cases done with
  | ok after more same value =>
    subst same
    exact .ok ⟨after, stack more⟩ more rfl value
  | error after more same =>
    subst same
    exact .error ⟨after, stack more⟩ more rfl

theorem ofStore_plain {α : Type} (read : Cellscript.Store → Except Fault α) :
    (ofStore read : Cellscript.Machine.Action α) = onStore (Store.reading read) := by
  funext m
  unfold ofStore onStore Store.reading
  cases read m.store <;> rfl

theorem print_follows (text : String) : Follows view Same pool (print text) (print text) := by
  refine follows fun m sound _ => ?_
  have sink : m.plain.sink = m.sink := rfl
  unfold print
  rw [sink]
  obtain ⟨after, taken⟩ := m.sink.write (text ++ "\n").toUTF8
  cases taken with
  | true => exact .ok ⟨sound.store, sound.stack⟩ (.refl _) rfl rfl
  | false => exact .error ⟨sound.store, sound.stack⟩ (.refl _) rfl

theorem fetch_follows (code : Cellscript.Chunk) (offset : Nat) :
    Follows view Same pool (fetch code offset) (fetch code offset) := by
  refine follows fun m sound _ => ?_
  unfold fetch
  cases code.byteAt? offset with
  | some byte => exact .ok sound (.refl _) rfl rfl
  | none => exact .error sound (.refl _) rfl

/-! ## Names -/

/-- Where a value that a name is bound to sends control. -/
def numberTarget (chunk : Cellscript.Chunk) : Cellscript.Value → Except Fault (Option Nat)
  | .number x =>
    match Cellscript.Machine.offset? chunk x with
    | some offset => .ok (some offset)
    | none => .error (.invalidJumpTarget (plainText x))
  | _ => .ok none

theorem gotoTarget_bound {code : Cellscript.Chunk} {w : Cellscript.Value} {s : Cellscript.Store}
    {name : String} {c : Cell} (named : w.name? = some name)
    (unlabelled : code.resolve? name = none) (bound : s.bound? name = some c) :
    Cellscript.Machine.gotoTarget code w s = (s.get (s.root c)).bind (numberTarget code) := by
  unfold Cellscript.Machine.gotoTarget
  simp only [named, unlabelled, bound]
  cases s.get (s.root c) with
  | error fault => rfl
  | ok value => cases value <;> rfl

theorem cellTarget_mirrors {s : Store} (sound : s.Sound) (chunk : Chunk) (c : Cell) :
    Mirrors Store.view Same s.pool (cellTarget chunk c s)
      (Store.deliver s.plain ((s.plain.get (s.plain.root c)).bind (numberTarget chunk.plain))) := by
  have found : Mirrors Store.view Shows s.pool (Store.getRoot c s)
      (Store.deliver s.plain (s.plain.get (s.plain.root c))) := Store.get_mirrors (s.root c) sound
  unfold cellTarget
  rw [bind_apply]
  generalize Store.getRoot c s = one at found ⊢
  generalize s.plain.get (s.plain.root c) = read at found ⊢
  cases read with
  | error fault =>
    cases found with
    | error after more same => exact .error after more same
  | ok w =>
    cases found with
    | @ok value _ _ _ after more same shows =>
      obtain ⟨_, rfl⟩ := shows
      cases value with
      | number x =>
        simp only [Except.bind, numberTarget, Value.plain]
        cases Cellscript.Machine.offset? chunk.plain x with
        | some offset => exact .ok after more same rfl
        | none => exact .error after more same
      | _ => exact .ok after more same rfl

theorem nameTarget_mirrors {s : Store} (sound : s.Sound) (code : chunk.Held s.pool) {name : Symbol}
    (holds : s.pool.Holds name) {w : Cellscript.Value} (named : w.name? = some name.text) :
    Mirrors Store.view Same s.pool (nameTarget chunk name s)
      (Store.deliver s.plain (Cellscript.Machine.gotoTarget chunk.plain w s.plain)) := by
  have label : chunk.resolve? name = chunk.plain.resolve? name.text :=
    lookup_plainKeys code.jumps (.held holds)
  have cell := sound.bound?_plain holds
  unfold nameTarget
  cases labelled : chunk.resolve? name with
  | some offset =>
    simp only [Cellscript.Machine.gotoTarget, named, ← label, labelled]
    exact .ok sound (.refl _) rfl rfl
  | none =>
    cases bound : s.bound? name with
    | none =>
      simp only [Cellscript.Machine.gotoTarget, named, ← label, labelled, ← cell, bound]
      exact .ok sound (.refl _) rfl rfl
    | some c =>
      rw [gotoTarget_bound named (label.symm.trans labelled) (cell.symm.trans bound)]
      exact cellTarget_mirrors sound chunk c

theorem gotoTarget_follows (interns : Bool) (held : v.Held pool) (code : chunk.Held pool) :
    Follows Store.view Same pool (gotoTarget interns chunk v)
      (Store.reading (Cellscript.Machine.gotoTarget chunk.plain v.plain)) := by
  refine Store.follows fun s sound grown => ?_
  obtain ⟨name, more, found, grows, is⟩ := Store.nameOf_spec interns (held.mono grown)
  have after := sound.grow grows
  have codeAfter := code.mono (grown.trans grows)
  unfold gotoTarget Store.reading
  rw [bind_apply_ok found]
  generalize named : v.plain.name? = text at is
  cases is with
  | nameless =>
    simp only [Cellscript.Machine.gotoTarget, named]
    exact .ok after grows rfl rfl
  | @unknown text absent =>
    -- a name that has no handle has neither a label nor a cell
    have unlabelled : chunk.plain.resolve? text = none :=
      (lookup_plainKeys codeAfter.jumps (.unknown absent)).symm
    have unbound : s.plain.bound? text = none :=
      (lookup_plainKeys after.names (.unknown absent)).symm
    simp only [Cellscript.Machine.gotoTarget, named, unlabelled, unbound]
    exact .ok after grows rfl rfl
  | held holds => exact (nameTarget_mirrors after codeAfter holds named).mono grows

theorem labelOffset_follows (interns : Bool) (held : v.Held pool) (code : chunk.Held pool) :
    Follows view Same pool (onStore (labelOffset interns chunk v))
      (Cellscript.Machine.labelOffset chunk.plain v.plain) := by
  refine follows fun m sound grown => ?_
  obtain ⟨name, more, found, grows, is⟩ := Store.nameOf_spec interns (held.mono grown)
  have label : name.bind chunk.resolve? = v.plain.name?.bind chunk.plain.resolve? :=
    lookup_plainKeys (code.mono (grown.trans grows)).jumps is
  have after : Sound { m with store := { m.store with pool := more } } :=
    ⟨sound.store.grow grows, fun value member => (sound.stack value member).mono grows⟩
  unfold onStore labelOffset Cellscript.Machine.labelOffset
  rw [bind_apply_ok found, label]
  cases v.plain.name?.bind chunk.plain.resolve? with
  | some offset => exact .ok after grows rfl rfl
  | none => exact .error after grows rfl

/-! ## Instructions -/

/-- What instructions are made of is the same in both dialects, but for the handles. -/
structure Alike (pool : Pool) (d : Dialect Value Store)
    (e : Dialect Cellscript.Value Cellscript.Store) : Prop where
  number : ∀ {later} x, Shows later (d.number x) (e.number x)
  truth : ∀ {later} b, Shows later (d.truth b) (e.truth b)
  pointer : ∀ {later} c, Shows later (d.pointer c) (e.pointer c)
  number? : ∀ v, e.number? v.plain = d.number? v
  isFalsey : ∀ v, e.isFalsey v.plain = d.isFalsey v
  equals : ∀ {later v w}, v.Held later → w.Held later → e.equals v.plain w.plain = d.equals v w
  constant : ∀ index, e.constant? index = (d.constant? index).map Value.plain
  held : ∀ {index v}, d.constant? index = some v → v.Held pool
  shown : ∀ {s v}, s.Sound → v.Held s.pool → e.shown s.plain v.plain = d.shown s v
  goto : ∀ {later v}, pool.Grows later → v.Held later →
    Follows view Same later (d.goto v) (e.goto v.plain)
  label : ∀ {later v}, pool.Grows later → v.Held later →
    Follows view Same later (d.label v) (e.label v.plain)
  assign : ∀ {later operand value}, operand.Held later → value.Held later →
    Follows view Same later (d.assign operand value) (e.assign operand.plain value.plain)
  read : ∀ {later v}, v.Held later → Follows view Shows later (d.read v) (e.read v.plain)
  exchange : ∀ {later left right}, left.Held later → right.Held later →
    Follows view Same later (d.exchange left right) (e.exchange left.plain right.plain)

theorem dialects_alike (policy : Policy) (code : chunk.Held pool) :
    Alike pool (dialect policy chunk) (Cellscript.Machine.dialect chunk.plain) where
  number _ := ⟨trivial, rfl⟩
  truth _ := ⟨trivial, rfl⟩
  pointer _ := ⟨trivial, rfl⟩
  number? _ := rfl
  isFalsey _ := rfl
  equals one other := (Value.equals_plain one other).symm
  constant _ := Array.getElem?_map
  held found := code.constants _ (Array.mem_of_getElem? found)
  shown sound held := congrArg Cellscript.Value.plain (Store.shown_spec sound held).symm
  goto grown held := by
    have follows := onStore_follows (gotoTarget_follows (policy .goto) held (code.mono grown))
    rwa [← ofStore_plain] at follows
  label grown held := labelOffset_follows (policy .label) held (code.mono grown)
  assign one other := onStore_follows (Store.assign_follows one other)
  read held := by
    have follows := onStore_follows (Store.read_follows (policy .read) held)
    rwa [← ofStore_plain] at follows
  exchange one other := onStore_follows (Store.exchange_follows (policy .exchange) one other)

section Performing

variable {d : Dialect Value Store} {e : Dialect Cellscript.Value Cellscript.Store}
  (alike : Alike pool d e)

theorem pushAnd_follows {w : Cellscript.Value} (shows : Shows pool v w) (next : Option Nat) :
    Follows view Same pool (do push v; return next) (do push w; return next) :=
  (push_follows shows).andThen fun _ _ _ => .same next

theorem throwAnd_follows (fault : Fault) (next : Option Nat) :
    Follows view Same pool (do throw fault; return next) (do throw fault; return next) :=
  (Follows.throw (R := Same) fault).bind fun _ _ _ _ _ => .same next

include alike

theorem arithmetic_shows {later : Pool} (op : Opcode) (x y : Float) :
    Shows later (d.arithmetic op x y) (e.arithmetic op x y) := by
  cases op with
  | add | subtract | multiply | divide => exact alike.number _
  | _ => exact alike.truth _

theorem popNumbers_follows :
    Follows view Same pool (popNumbers d.number?) (popNumbers e.number?) := by
  refine popThen fun _ _ b _ => popThen fun _ _ a _ => ?_
  rw [alike.number? a, alike.number? b]
  cases d.number? a with
  | none => exact .throw _
  | some x =>
    cases d.number? b with
    | none => exact .throw _
    | some y => exact .same (x, y)

theorem assigned_follows {later : Pool} {operand value : Value} (one : operand.Held later)
    (other : value.Held later) (next : Option Nat) :
    Follows view Same later
      (do push (d.pointer (← d.assign operand value)); return next)
      (do push (e.pointer (← e.assign operand.plain value.plain)); return next) :=
  (alike.assign one other).andThen fun _ _ c => pushAnd_follows (alike.pointer c) next

/-- The instructions that take an operand from the code. -/
theorem perform_operand_follows (code : Cellscript.Chunk) {op : Opcode} (ip : Nat)
    (width : op.operandWidth = 1) :
    Follows view Same pool (d.perform code op ip) (e.perform code op ip) := by
  cases op with
  | constant =>
    refine (fetch_follows code ip).andThen fun later grown index => ?_
    rw [alike.constant]
    cases found : d.constant? index.toNat with
    | some value => exact pushAnd_follows ⟨(alike.held found).mono grown, rfl⟩ _
    | none => exact throwAnd_follows _ _
  | jump => exact (fetch_follows code ip).andThen fun _ _ _ => .same _
  | jumpIfFalse =>
    refine (fetch_follows code ip).andThen fun _ _ _ => popThen fun _ _ predicate _ => ?_
    rw [alike.isFalsey]
    exact .same _
  | _ => cases width

/-- The instructions that work with cells. -/
theorem perform_store_follows (code : Cellscript.Chunk) {op : Opcode} (ip : Nat)
    (changes : op.changesStore = true) :
    Follows view Same pool (d.perform code op ip) (e.perform code op ip) := by
  cases op with
  | setPointer =>
    exact popThen fun _ _ value held => popThen fun _ grown operand other =>
      assigned_follows alike other (held.mono grown) _
  | setPointerNoPush =>
    refine popThen fun _ _ value held => popThen fun _ grown operand other => ?_
    exact (alike.assign other (held.mono grown)).andThen fun _ _ _ => .same _
  | setPointerInverse =>
    exact popThen fun _ _ operand held => popThen fun _ grown value other =>
      assigned_follows alike (held.mono grown) other _
  | exchange =>
    refine popThen fun _ _ right held => popThen fun _ grown left other => ?_
    exact (alike.exchange other (held.mono grown)).andThen fun _ _ c =>
      pushAnd_follows (alike.pointer c) _
  | _ => cases changes

/-- Printing shows the same text. -/
theorem perform_print_follows (code : Cellscript.Chunk) (ip : Nat) :
    Follows view Same pool (d.perform code .print ip) (e.perform code .print ip) := by
  refine popThen fun _ _ value held => follows fun m sound grown => ?_
  have text : e.shown m.plain.store value.plain = d.shown m.store value :=
    alike.shown sound.store (held.mono grown)
  rw [bind_apply_ok (get_apply m), bind_apply_ok (get_apply m.plain), text]
  exact ((print_follows _).andThen fun _ _ _ => .same _) m sound (.refl m.store.pool)

theorem perform_follows (code : Cellscript.Chunk) (op : Opcode) (ip : Nat) :
    Follows view Same pool (d.perform code op ip) (e.perform code op ip) := by
  cases op with
  | halt => exact .same none
  | yes => exact pushAnd_follows (alike.truth true) _
  | no => exact pushAnd_follows (alike.truth false) _
  | negate =>
    refine popThen fun _ _ value _ => ?_
    rw [alike.number?]
    cases d.number? value with
    | some x => exact pushAnd_follows (alike.number (-x)) _
    | none => exact throwAnd_follows _ _
  | not =>
    refine popThen fun _ _ value _ => ?_
    rw [alike.isFalsey]
    exact pushAnd_follows (alike.truth _) _
  | add | subtract | multiply | divide | less | greater =>
    exact (popNumbers_follows alike).andThen fun _ _ numbers =>
      pushAnd_follows (arithmetic_shows alike _ _ _) _
  | equal =>
    refine popThen fun _ _ b held => popThen fun _ grown a other => ?_
    rw [alike.equals other (held.mono grown)]
    exact pushAnd_follows (alike.truth _) _
  | print => exact perform_print_follows alike code ip
  | pop =>
    exact popThen fun _ grown value held => (alike.goto grown held).andThen fun _ _ _ => .same _
  | getPointer =>
    exact popThen fun _ _ operand held => (alike.read held).bind fun _ _ _ _ shows =>
      pushAnd_follows shows _
  | jumpIfFalseToLabel =>
    refine popThen fun _ grown label held => popThen fun _ more predicate _ => ?_
    rw [alike.isFalsey]
    by_cases falsey : d.isFalsey predicate = true
    · rw [if_pos falsey, if_pos falsey]
      exact (alike.label (grown.trans more) (held.mono more)).andThen fun _ _ _ => .same _
    · rw [if_neg falsey, if_neg falsey]
      exact .same _
  | setPointer | setPointerNoPush | setPointerInverse | exchange =>
    exact perform_store_follows alike code ip rfl
  | constant | jump | jumpIfFalse => exact perform_operand_follows alike code ip rfl

theorem step_follows (code : Cellscript.Chunk) (ip : Nat) :
    Follows view Same pool (d.step code ip) (e.step code ip) := by
  refine (fetch_follows code ip).andThen fun _ grown byte => ?_
  cases Opcode.ofByte? byte with
  | some op => exact fun m sound more => perform_follows alike code op _ m sound (grown.trans more)
  | none => exact .throw _

end Performing

/-! ## Runs -/

theorem note_plain (m : Machine) (code : Cellscript.Chunk) (ip : Nat) :
    plain (m.note code ip) = m.plain.note code ip := by
  have depth : m.plain.stack.length = m.stack.length := List.length_map _
  unfold MachineOf.note
  rw [depth]
  exact apply_ite plain _ _ _

theorem note_sound {m : Machine} (sound : m.Sound) (code : Cellscript.Chunk) (ip : Nat) :
    Sound (m.note code ip) ∧ (m.note code ip).store = m.store := by
  unfold MachineOf.note
  split
  · exact ⟨⟨sound.store, sound.stack⟩, rfl⟩
  · exact ⟨sound, rfl⟩

theorem runFrom_follows {d : Dialect Value Store}
    {e : Dialect Cellscript.Value Cellscript.Store} (alike : Alike pool d e)
    (code : Cellscript.Chunk) (steps ip : Nat) {m : Machine} (sound : m.Sound)
    (grown : pool.Grows m.store.pool) :
    Sound (d.runFrom code steps ip m).1 ∧
      m.store.pool.Grows (d.runFrom code steps ip m).1.store.pool ∧
      (plain (d.runFrom code steps ip m).1, (d.runFrom code steps ip m).2) =
        e.runFrom code steps ip m.plain := by
  induction steps generalizing ip m with
  | zero => exact ⟨sound, .refl _, rfl⟩
  | succ steps ih =>
    obtain ⟨noted, store⟩ := note_sound sound code ip
    have grows : m.store.pool.Grows (m.note code ip).store.pool := store ▸ .refl _
    have done := step_follows alike code ip (m.note code ip) noted (grown.trans grows)
    have start : view.plain (m.note code ip) = m.plain.note code ip := note_plain m code ip
    rw [start] at done
    unfold Dialect.runFrom
    generalize d.step code ip (m.note code ip) = one at done ⊢
    generalize e.step code ip (m.plain.note code ip) = two at done ⊢
    cases done with
    | @ok next _ after _ sound more same value =>
      subst same
      cases value
      have larger := grows.trans more
      cases next with
      | none => exact ⟨sound, larger, rfl⟩
      | some ip =>
        obtain ⟨kept, later, result⟩ := ih ip sound (grown.trans larger)
        exact ⟨kept, larger.trans later, result⟩
    | error sound more same =>
      subst same
      exact ⟨⟨sound.store, List.forall_mem_nil _⟩, grows.trans more, rfl⟩

/-- A machine runs as the one with texts does. -/
theorem run_plain (policy : Policy) (steps : Nat) {m : Machine} (sound : m.Sound)
    (code : chunk.Held m.store.pool) :
    (run policy chunk steps m).1.Sound ∧
      m.store.pool.Grows (run policy chunk steps m).1.store.pool ∧
      ((run policy chunk steps m).1.plain, (run policy chunk steps m).2) =
        Cellscript.Machine.run chunk.plain steps m.plain :=
  runFrom_follows (dialects_alike policy code) chunk.plain steps 0 sound (.refl _)

/-- Interning is invisible. Of all handles that calls in a row give, two are the same exactly if
they are handles to the same text, and a text is found exactly if it was interned before. And a
machine all of whose handles lead into the pool runs as the machine with texts does. So it makes no
difference where names that are only looked up are interned, and two machines with different pools
that hold the same texts run alike. -/
theorem lookups_are_invisible :
    (∀ (pool : Pool) (calls : List Pool.Call),
      (∀ given ∈ pool.answers calls, ∀ other ∈ pool.answers calls, ∀ s ∈ given.2, ∀ t ∈ other.2,
        s.text = given.1.text ∧ ((s == t) = true ↔ s.text = t.text)) ∧
      ∀ (i : Nat) (call : Pool.Call), calls[i]? = some call →
        ∃ answer, (pool.answers calls)[i]? = some (call, answer) ∧
          (answer.isSome ↔
            call = .intern call.text ∨ call.text ∈ pool.texts ∨ .intern call.text ∈ calls.take i)) ∧
    ∀ (policy : Policy) (chunk : Chunk) (steps : Nat) (m : Machine), m.Sound →
      chunk.Held m.store.pool →
      ((run policy chunk steps m).1.Sound ∧
        m.store.pool.Grows (run policy chunk steps m).1.store.pool) ∧
      ((run policy chunk steps m).1.plain, (run policy chunk steps m).2) =
        Cellscript.Machine.run chunk.plain steps m.plain ∧
      ∀ (policy' : Policy) (chunk' : Chunk) (m' : Machine), m'.Sound → chunk'.Held m'.store.pool →
        chunk'.plain = chunk.plain → m'.plain = m.plain →
        (run policy' chunk' steps m').1.plain = (run policy chunk steps m).1.plain ∧
          (run policy' chunk' steps m').2 = (run policy chunk steps m).2 := by
  refine ⟨fun pool calls => ⟨?_, ?_⟩, ?_⟩
  · intro given among other alsoAmong s gives t givesOther
    obtain ⟨last, _, holds⟩ := pool.answers_hold calls
    obtain ⟨held, text⟩ := holds given among s gives
    obtain ⟨heldOther, _⟩ := holds other alsoAmong t givesOther
    refine ⟨text, ?_⟩
    rw [held.beq_eq heldOther, beq_iff_eq]
  · intro i call here
    obtain ⟨before, given, known⟩ := pool.answers_getElem? calls i here
    refine ⟨_, given, ?_⟩
    cases call with
    | intern text => exact ⟨fun _ => Or.inl rfl, fun _ => rfl⟩
    | lookup text =>
      rw [or_iff_right (by simp), ← known]
      exact Pool.lookup?_isSome_iff
  · intro policy chunk steps m sound code
    obtain ⟨kept, grows, same⟩ := run_plain policy steps sound code
    refine ⟨⟨kept, grows⟩, same, ?_⟩
    intro policy' chunk' m' sound' code' chunks machines
    obtain ⟨_, _, same'⟩ := run_plain policy' steps sound' code'
    rw [chunks, machines, ← same] at same'
    exact Prod.mk.inj same'

/-- A chunk that prints `x` and reads the cell that 7 names, and a machine with `x` on its stack,
where `x` has this place in the pool. -/
def asked (pool : Pool) (place : Nat) : Chunk × Machine :=
  ({ code := #[⟨Opcode.constant.byte, 1⟩, ⟨1, 1⟩, ⟨Opcode.print.byte, 1⟩,
        ⟨Opcode.constant.byte, 2⟩, ⟨0, 2⟩, ⟨Opcode.getPointer.byte, 2⟩]
     constants := #[.number 7, .text ⟨place, "x"⟩]
     labels := [("x", 3)]
     jumps := [(⟨place, "x"⟩, 3)] },
    { limits := {}
      stack := [.text ⟨place, "x"⟩]
      store := ⟨.empty 8, [], pool⟩
      sink := {}
      log := #[] })

theorem asked_sound {pool : Pool} {place : Nat} (held : pool.Holds ⟨place, "x"⟩) :
    (asked pool place).2.Sound ∧ (asked pool place).1.Held pool := by
  refine ⟨⟨⟨?_, ?_⟩, ?_⟩, ⟨?_, ?_⟩⟩
  · simp [asked, Arena.All, Arena.empty]
  · simp [asked]
  · simpa [asked, Value.Held] using held
  · simpa [asked, Value.Held] using held
  · simpa [asked] using held

theorem asked_plain (one other : Pool) (i j : Nat) :
    (asked one i).1.plain = (asked other j).1.plain ∧
      (asked one i).2.plain = (asked other j).2.plain := by
  simp [asked, Chunk.plain, plain, Store.plain, Value.plain, plainKeys]

theorem lookups_are_invisible_in_two_pools :
    let one : Pool := ⟨["x"], by decide⟩
    let other : Pool := ⟨["7", "y", "x"], by decide⟩
    let first := run (fun _ => false) (asked one 0).1 9 (asked one 0).2
    let second := run (fun _ => true) (asked other 2).1 9 (asked other 2).2
    (one.Holds ⟨0, "x"⟩ ∧ other.Holds ⟨2, "x"⟩) ∧ second.1.plain = first.1.plain ∧
      second.2 = first.2 := by
  intro one other first second
  have held : one.Holds ⟨0, "x"⟩ ∧ other.Holds ⟨2, "x"⟩ := ⟨rfl, rfl⟩
  obtain ⟨sound, code⟩ := asked_sound held.1
  obtain ⟨otherSound, otherCode⟩ := asked_sound held.2
  obtain ⟨_, runs⟩ := lookups_are_invisible
  have same := (runs (fun _ => false) _ 9 _ sound code).2.2
  obtain ⟨chunks, machines⟩ := asked_plain other one 2 0
  exact ⟨held, same (fun _ => true) _ _ otherSound otherCode chunks machines⟩

end Machine

end Cellscript.Interned
