import Cellscript.Proofs.Interning.Machine
import Cellscript.Proofs.Store.Classes

/-!
A store with handles follows the store with texts. As long as all its handles lead into the pool, it
finds the same cells, meets the same faults and leaves handles that still lead into the pool,
whether or not the texts of numbers are interned where they are only looked up: a text that is not
in the pool names nothing.
-/

set_option autoImplicit false

namespace Cellscript.Interned

/-! ## Following -/

/-- A state with handles, seen as one with texts. -/
structure View (I P : Type) where
  plain : I → P
  pool : I → Pool
  /-- All handles lead into the pool. -/
  Sound : I → Prop

section Following

variable {I P α β γ δ : Type} {view : View I P} {R : Pool → α → β → Prop}
  {Q : Pool → γ → δ → Prop} {pool later : Pool}

/-- Both have succeeded with results that `R` relates, or both have failed with the same fault. The
states are the same but for the handles, and the pool has only grown. -/
inductive Mirrors (view : View I P) (R : Pool → α → β → Prop) (pool : Pool) :
    EStateM.Result Fault I α → EStateM.Result Fault P β → Prop
  | ok {x : α} {y : β} {s : I} {t : P} (sound : view.Sound s) (grown : pool.Grows (view.pool s))
      (same : view.plain s = t) (value : R (view.pool s) x y) :
      Mirrors view R pool (.ok x s) (.ok y t)
  | error {fault : Fault} {s : I} {t : P} (sound : view.Sound s) (grown : pool.Grows (view.pool s))
      (same : view.plain s = t) : Mirrors view R pool (.error fault s) (.error fault t)

/-- One action does with handles what the other does with texts, from any state whose pool has grown
from `pool`. -/
def Follows (view : View I P) (R : Pool → α → β → Prop) (pool : Pool) (action : EStateM Fault I α)
    (other : EStateM Fault P β) : Prop :=
  ∀ s, view.Sound s → pool.Grows (view.pool s) →
    Mirrors view R (view.pool s) (action s) (other (view.plain s))

theorem Mirrors.mono {one : EStateM.Result Fault I α} {other : EStateM.Result Fault P β}
    (mirrors : Mirrors view R later one other) (grown : pool.Grows later) :
    Mirrors view R pool one other := by
  cases mirrors with
  | ok sound more same value => exact .ok sound (grown.trans more) same value
  | error sound more same => exact .error sound (grown.trans more) same

/-- The same result on both sides. -/
def Same (_ : Pool) (x y : α) : Prop := y = x

namespace Follows

theorem pure {x : α} {y : β} (value : ∀ later, pool.Grows later → R later x y) :
    Follows view R pool (Pure.pure x) (Pure.pure y) :=
  fun _ sound grown => .ok sound (.refl _) rfl (value _ grown)

theorem same (x : α) : Follows view Same pool (Pure.pure x) (Pure.pure x) := pure fun _ _ => rfl

theorem throw (fault : Fault) :
    Follows view R pool (MonadExcept.throw fault) (MonadExcept.throw fault) :=
  fun _ sound _ => .error sound (.refl _) rfl

theorem bind {first : EStateM Fault I α} {other : EStateM Fault P β} {next : α → EStateM Fault I γ}
    {then' : β → EStateM Fault P δ} (before : Follows view R pool first other)
    (after : ∀ later, pool.Grows later → ∀ x y, R later x y →
      Follows view Q later (next x) (then' y)) :
    Follows view Q pool (first >>= next) (other >>= then') := by
  intro s sound grown
  have done := before s sound grown
  rw [bind_apply, bind_apply]
  generalize first s = one at done ⊢
  generalize other (view.plain s) = two at done ⊢
  cases done with
  | ok sound more same value =>
    subst same
    exact (after _ (grown.trans more) _ _ value _ sound (.refl _)).mono more
  | error sound more same => exact .error sound more same

/-- After a result that is the same on both sides. -/
theorem andThen {first : EStateM Fault I α} {other : EStateM Fault P α}
    {next : α → EStateM Fault I γ} {then' : α → EStateM Fault P δ}
    (before : Follows view Same pool first other)
    (after : ∀ later, pool.Grows later → ∀ x, Follows view Q later (next x) (then' x)) :
    Follows view Q pool (first >>= next) (other >>= then') := by
  refine before.bind fun later grown x y same => ?_
  cases same
  exact after later grown x

theorem map {first : EStateM Fault I α} {other : EStateM Fault P β} {f : α → γ} {g : β → δ}
    (before : Follows view R pool first other)
    (maps : ∀ later x y, R later x y → Q later (f x) (g y)) :
    Follows view Q pool (f <$> first) (g <$> other) := by
  intro s sound grown
  have done := before s sound grown
  rw [map_apply, map_apply]
  generalize first s = one at done ⊢
  generalize other (view.plain s) = two at done ⊢
  cases done with
  | ok sound more same value => exact .ok sound more same (maps _ _ _ value)
  | error sound more same => exact .error sound more same

end Follows

end Following

/-! ## Values and names -/

/-- The value is a handle into the pool, if it is a handle. -/
def Value.Held (pool : Pool) : Value → Prop
  | .text s => pool.Holds s
  | _ => True

/-- A value and what it is with a text in place of a handle. -/
def Shows (pool : Pool) (v : Value) (w : Cellscript.Value) : Prop := v.Held pool ∧ w = v.plain

variable {pool later : Pool}

theorem Value.Held.mono {v : Value} (held : v.Held pool) (grown : pool.Grows later) :
    v.Held later := by
  cases v with
  | text s => exact Pool.Holds.mono held grown
  | _ => trivial

theorem Value.equals_plain {v w : Value} (one : v.Held pool) (other : w.Held pool) :
    v.equals w = v.plain.equals w.plain := by
  cases v with
  | text s =>
    cases w with
    | text t => exact Pool.Holds.beq_eq one other
    | _ => rfl
  | _ => rfl

theorem Value.stored_held {v : Value} (held : v.Held pool) : v.stored.Held pool := by
  cases v with
  | pointer => trivial
  | _ => exact held

theorem Value.stored_plain (v : Value) : v.stored.plain = Cellscript.Store.stored v.plain := by
  cases v <;> rfl

/-- A handle to a name, or none for a name that is not in the pool. -/
inductive Named (pool : Pool) : Option Symbol → Option String → Prop
  | held {s : Symbol} (holds : pool.Holds s) : Named pool (some s) (some s.text)
  | unknown {text : String} (absent : text ∉ pool.texts) : Named pool none (some text)
  | nameless : Named pool none none

/-- A table whose keys are in the pool has the same entry for a name and for its handle, and none
for a name that has no handle. -/
theorem lookup_plainKeys {α : Type} {table : List (Symbol × α)} {name : Option Symbol}
    {text : Option String} (held : ∀ entry ∈ table, pool.Holds entry.1)
    (named : Named pool name text) :
    name.bind (table.lookup ·) = text.bind ((plainKeys table).lookup ·) := by
  induction table with
  | nil => cases named <;> rfl
  | cons entry rest ih =>
    obtain ⟨key, value⟩ := entry
    obtain ⟨here, others⟩ := List.forall_mem_cons.mp held
    have tail := ih others
    cases named with
    | nameless => rfl
    | held holds =>
      simp only [Option.bind_some, plainKeys, List.map_cons, List.lookup_cons] at tail ⊢
      rw [holds.beq_eq here, tail]
    | unknown absent =>
      rename_i text
      -- every key is in the pool, so the name is none of them
      have other : (text == key.text) = false := by
        rw [beq_eq_false_iff_ne]
        rintro rfl
        exact absent here.mem
      simp only [Option.bind_some, Option.bind_none, plainKeys, List.map_cons, List.lookup_cons]
        at tail ⊢
      rw [other]
      exact tail

/-! ## The store -/

namespace Store

structure Sound (s : Store) : Prop where
  cells : s.cells.All (Value.Held s.pool)
  names : ∀ entry ∈ s.names, s.pool.Holds entry.1

def view : View Store Cellscript.Store := ⟨Store.plain, Store.pool, Store.Sound⟩

theorem follows {α β : Type} {R : Pool → α → β → Prop} {action : Action α}
    {other : Cellscript.Store.Action β}
    (mirrors : ∀ s : Store, s.Sound → pool.Grows s.pool →
      Mirrors view R s.pool (action s) (other s.plain)) :
    Follows view R pool action other := mirrors

/-- The result of something that leaves the state alone. -/
def deliver {σ α : Type} (s : σ) : Except Fault α → EStateM.Result Fault σ α
  | .ok a => .ok a s
  | .error fault => .error fault s

def reading {α : Type} (read : Cellscript.Store → Except Fault α) : Cellscript.Store.Action α :=
  fun s => deliver s (read s)

/-- The action finds what `read` reads off the store with texts. It changes the pool at most. -/
def Finds {α : Type} (pool : Pool) (action : Action α)
    (read : Cellscript.Store → Except Fault α) : Prop :=
  ∀ s, s.Sound → pool.Grows s.pool →
    ∃ grown, s.pool.Grows grown ∧ action s = deliver { s with pool := grown } (read s.plain)

variable {s : Store} {v : Value}

theorem Sound.grow (sound : s.Sound) (grown : s.pool.Grows later) :
    Sound { s with pool := later } where
  cells := fun value member => (sound.cells value member).mono grown
  names := fun entry member => (sound.names entry member).mono grown

theorem Sound.bound?_plain (sound : s.Sound) {name : Symbol} (held : s.pool.Holds name) :
    s.bound? name = s.plain.bound? name.text := lookup_plainKeys sound.names (.held held)

/-- A name that is interned has a handle. -/
theorem nameOf_interned (held : v.Held s.pool) {text : String} (named : v.plain.name? = some text) :
    ∃ name grown, nameOf true v s = .ok (some name) { s with pool := grown } ∧
      s.pool.Grows grown ∧ grown.Holds name ∧ name.text = text := by
  cases v with
  | text t => exact ⟨_, _, rfl, .refl _, held, Option.some.inj named⟩
  | number x =>
    obtain ⟨holds, same⟩ := s.pool.intern_holds (plainText x)
    exact ⟨_, _, rfl, s.pool.intern_grows _, holds, same.trans (Option.some.inj named)⟩
  | _ => cases named

theorem Finds.follows {α : Type} {action : Action α} {read : Cellscript.Store → Except Fault α}
    (finds : Finds pool action read) : Follows view Same pool action (reading read) := by
  refine Store.follows fun s sound grown => ?_
  obtain ⟨more, grows, found⟩ := finds s sound grown
  rw [found, reading]
  cases read s.plain with
  | ok a => exact .ok (sound.grow grows) grows rfl rfl
  | error fault => exact .error (sound.grow grows) grows rfl

/-- Finding the name of a value changes the pool at most. -/
theorem nameOf_spec (interns : Bool) (held : v.Held s.pool) :
    ∃ name grown, nameOf interns v s = .ok name { s with pool := grown } ∧ s.pool.Grows grown ∧
      Named grown name v.plain.name? := by
  cases named : v.plain.name? with
  | none =>
    cases v with
    | text | number => cases named
    | _ => exact ⟨_, _, rfl, .refl _, .nameless⟩
  | some text =>
    cases interns with
    | true =>
      obtain ⟨name, grown, found, grows, holds, rfl⟩ := nameOf_interned held named
      exact ⟨_, _, found, grows, .held holds⟩
    | false =>
      cases v with
      | text t =>
        cases named
        exact ⟨_, _, rfl, .refl _, .held held⟩
      | number x =>
        cases named
        refine ⟨_, _, rfl, .refl _, ?_⟩
        cases found : s.pool.lookup? (plainText x) with
        | some t =>
          obtain ⟨holds, text⟩ := Pool.lookup?_holds found
          rw [← text]
          exact .held holds
        | none =>
          refine .unknown fun known => ?_
          rw [← Pool.lookup?_isSome_iff, found] at known
          cases known
      | _ => cases named

theorem named_finds (interns : Bool) (held : v.Held pool) :
    Finds pool (named interns v) fun s => .ok (s.named? v.plain) := by
  intro s sound grown
  obtain ⟨name, more, found, grows, is⟩ := nameOf_spec interns (held.mono grown)
  refine ⟨more, grows, ?_⟩
  have cell := lookup_plainKeys (sound.grow grows).names is
  unfold named
  rw [bind_apply_ok found]
  exact congrArg (EStateM.Result.ok · _) cell

/-! ## Reading -/

theorem get_mirrors (c : Cell) (sound : s.Sound) :
    Mirrors view Shows s.pool (get c s) (deliver s.plain (s.plain.get c)) := by
  have held : (s.plain.cells.get? c) = (s.cells.get? c).map Value.plain := Arena.get?_map c
  unfold get Cellscript.Store.get
  rw [held]
  cases found : s.cells.get? c with
  | some value => exact .ok sound (.refl _) rfl ⟨sound.cells.get? found, rfl⟩
  | none => exact .error sound (.refl _) rfl

theorem read_follows (interns : Bool) (held : v.Held pool) :
    Follows view Shows pool (read interns v) (reading (·.read v.plain)) := by
  refine follows fun s sound grown => ?_
  unfold reading
  cases v with
  | pointer c => exact get_mirrors c sound
  | boxed c => exact get_mirrors c sound
  | truth b => exact .error sound (.refl _) rfl
  | number | text =>
    obtain ⟨more, grows, found⟩ := named_finds interns held s sound grown
    have after := sound.grow grows
    unfold read Cellscript.Store.read
    dsimp only [Value.plain] at found ⊢
    rw [bind_apply_ok found]
    cases s.plain.named? _ with
    | some c => exact (get_mirrors _ after).mono grows
    | none => exact .error after grows rfl

/-! ## Assigning -/

theorem put_follows (c : Cell) (held : v.Held pool) :
    Follows view Same pool (put c v) (Cellscript.Store.put c v.plain) := by
  refine follows fun s sound grown => ?_
  have changed : s.plain.cells.set? c v.plain = (s.cells.set? c v).map (Arena.map Value.plain) :=
    Arena.set?_map c v
  unfold put Cellscript.Store.put
  rw [changed]
  cases done : s.cells.set? c v with
  | some cells =>
    exact .ok ⟨sound.cells.set? (held.mono grown) done, sound.names⟩ (.refl _) rfl rfl
  | none => exact .error sound (.refl _) rfl

theorem bind_follows {name : Symbol} (held : pool.Holds name) :
    Follows view Same pool (bind name) (Cellscript.Store.bind name.text) := by
  refine follows fun s sound grown => ?_
  have allocated : s.plain.cells.allocate (.number 0) =
      (s.cells.allocate (.number 0)).map fun made => (made.1, made.2.map Value.plain) :=
    Arena.allocate_map (Value.number 0)
  unfold bind Cellscript.Store.bind
  rw [allocated]
  cases done : s.cells.allocate (.number 0) with
  | ok made =>
    have zero : (Value.number 0).Held s.pool := trivial
    refine .ok ⟨sound.cells.allocate zero done, ?_⟩ (.refl _) rfl rfl
    exact List.forall_mem_cons.mpr ⟨held.mono grown, sound.names⟩
  | error full => exact .error sound (.refl _) rfl

theorem cellOf_follows {name : Symbol} {w : Cellscript.Value} (held : pool.Holds name)
    (named : w.name? = some name.text) :
    Follows view Same pool (cellOf name) (Cellscript.Store.target w) := by
  refine follows fun s sound grown => ?_
  have cell := sound.bound?_plain (held.mono grown)
  unfold cellOf
  cases bound : s.bound? name with
  | some c =>
    rw [Cellscript.Store.target_of_bound named (cell.symm.trans bound)]
    exact .ok sound (.refl _) rfl rfl
  | none =>
    rw [Cellscript.Store.target_of_unbound named (cell.symm.trans bound)]
    exact bind_follows held s sound grown

theorem target_named {text : String} (held : v.Held pool) (named : v.plain.name? = some text) :
    Follows view Same pool (target v) (Cellscript.Store.target v.plain) := by
  refine follows fun s sound grown => ?_
  obtain ⟨name, more, found, grows, holds, rfl⟩ := nameOf_interned (held.mono grown) named
  have opened : target v s = cellOf name { s with pool := more } := by
    cases v with
    | number | text =>
      unfold target
      dsimp only
      rw [bind_apply_ok found]
    | _ => cases named
  rw [opened]
  exact (cellOf_follows holds named _ (sound.grow grows) (.refl _)).mono grows

theorem target_follows (held : v.Held pool) :
    Follows view Same pool (target v) (Cellscript.Store.target v.plain) := by
  cases v with
  | pointer c => exact .same c
  | boxed c => exact .same c
  | truth b => exact .throw _
  | number x => exact target_named held rfl
  | text t => exact target_named held rfl

theorem makeAlias_follows (c source : Cell) (name : Symbol) :
    Follows view Same pool (makeAlias c source name)
      (Cellscript.Store.makeAlias c source name.text) := by
  refine follows fun s sound grown => ?_
  unfold makeAlias Cellscript.Store.makeAlias
  by_cases cycle : s.plain.reaches source c = true
  · rw [if_pos cycle, if_pos cycle]
    exact .error sound (.refl _) rfl
  · rw [if_neg cycle, if_neg cycle]
    exact put_follows (v := .pointer source) c trivial s sound grown

theorem overwrite_follows (operand : Value) (c : Cell) (held : v.Held pool) :
    Follows view Same pool (overwrite operand c v)
      (Cellscript.Store.overwrite operand.plain c v.plain) := by
  refine follows fun s sound grown => ?_
  unfold overwrite Cellscript.Store.overwrite
  rw [← Value.stored_plain]
  have stored := v.stored_held held
  cases operand <;> exact put_follows _ stored s sound grown

theorem place_follows (operand : Value) (c : Cell) (held : v.Held pool) :
    Follows view Same pool (place operand c v)
      (Cellscript.Store.place operand.plain c v.plain) := by
  refine follows fun s sound grown => ?_
  have written := overwrite_follows operand c held s sound grown
  unfold place Cellscript.Store.place
  cases v with
  | text name =>
    have cell := sound.bound?_plain (held.mono grown)
    simp only [aliased?, Cellscript.Store.aliased?, Value.plain] at written ⊢
    rw [← cell]
    cases s.bound? name with
    | some source => exact makeAlias_follows c source name s sound grown
    | none => exact written
  | _ => exact written

theorem assign_plain (operand value : Cellscript.Value) :
    Cellscript.Store.assign operand value =
      Cellscript.Store.target operand >>= fun c =>
        Cellscript.Store.place operand c value >>= fun _ => pure c := by
  funext s
  rw [Cellscript.Store.assign_apply, bind_apply]
  cases Cellscript.Store.target operand s with
  | error fault t => rfl
  | ok c t =>
    dsimp only
    rw [map_apply, bind_apply]
    cases Cellscript.Store.place operand c value t <;> rfl

theorem assign_follows {operand : Value} (target : operand.Held pool) (held : v.Held pool) :
    Follows view Same pool (assign operand v)
      (Cellscript.Store.assign operand.plain v.plain) := by
  rw [assign_plain]
  refine (target_follows target).andThen fun later grown c => ?_
  exact (place_follows operand c (held.mono grown)).andThen fun _ _ _ => .same c

/-! ## Exchanging -/

theorem exchangeCell_finds (interns : Bool) (held : v.Held pool) :
    Finds pool (exchangeCell interns v) (·.exchangeCell v.plain) := by
  intro s sound grown
  cases v with
  | pointer | boxed | truth => exact ⟨s.pool, .refl _, rfl⟩
  | number | text =>
    obtain ⟨more, grows, found⟩ := named_finds interns held s sound grown
    refine ⟨more, grows, ?_⟩
    unfold exchangeCell Cellscript.Store.exchangeCell
    dsimp only [Value.plain] at found ⊢
    rw [bind_apply_ok found]
    cases s.plain.named? _ <;> rfl

theorem swapRoots_follows (c d : Cell) :
    Follows view Same pool (swapRoots c d) (Cellscript.Store.swapRoots c d) := by
  refine follows fun s sound _ => ?_
  have swapped : s.plain.cells.swap? (s.root c) (s.root d) =
      (s.cells.swap? (s.root c) (s.root d)).map (Arena.map Value.plain) := Arena.swap?_map _ _
  unfold swapRoots Cellscript.Store.swapRoots
  unfold root at swapped ⊢
  rw [swapped]
  cases done : s.cells.swap? (s.plain.root c) (s.plain.root d) with
  | some cells => exact .ok ⟨sound.cells.swap? done, sound.names⟩ (.refl _) rfl rfl
  | none => exact .error sound (.refl _) rfl

/-- The end of an exchange, when the cells of the operands have been found. -/
def swapFound (left right : Cellscript.Value) :
    Option Cell → Option Cell → Cellscript.Store.Action Cell
  | some c, some d => (fun _ => c) <$> Cellscript.Store.swapRoots c d
  | _, _ => throw (.exchangeOperands left.typeName right.typeName)

theorem exchange_plain (left right : Cellscript.Value) :
    Cellscript.Store.exchange left right =
      reading (·.exchangeCell left) >>= fun c =>
        reading (·.exchangeCell right) >>= fun d => swapFound left right c d := by
  funext s
  unfold Cellscript.Store.exchange
  cases leftIs : s.exchangeCell left with
  | error fault => simp only [bind_apply, reading, leftIs, deliver]
  | ok c =>
    cases rightIs : s.exchangeCell right with
    | error fault => simp only [bind_apply, reading, leftIs, rightIs, deliver]
    | ok d =>
      simp only [bind_apply, reading, leftIs, rightIs, deliver]
      cases c <;> cases d <;> rfl

theorem exchange_follows (interns : Bool) {left right : Value} (one : left.Held pool)
    (other : right.Held pool) :
    Follows view Same pool (exchange interns left right)
      (Cellscript.Store.exchange left.plain right.plain) := by
  rw [exchange_plain]
  refine (exchangeCell_finds interns one).follows.andThen fun later grown c => ?_
  refine (exchangeCell_finds interns (other.mono grown)).follows.andThen fun _ _ d => ?_
  cases c with
  | none => exact .throw _
  | some c =>
    cases d with
    | none => exact .throw _
    | some d => exact (swapRoots_follows c d).map fun _ _ _ _ => rfl

end Store

end Cellscript.Interned
