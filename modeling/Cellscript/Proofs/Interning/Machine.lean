import Cellscript.Machine.Run
import Cellscript.Proofs.Arena
import Cellscript.Proofs.Interning.Pool

/-!
A machine whose texts are handles into a pool. Names are compared by their handles, so a number can
name something only by way of the handle to its text. Where such a name is only looked up, the text
may be interned or not; an assignment always interns it. Forgetting where the entries are gives the
machine that works with the texts themselves.
-/

set_option autoImplicit false

namespace Cellscript.Interned

/-- Where a name is only looked up. -/
inductive Site
  | goto
  | label
  | read
  | exchange

/-- Whether the text of a number is interned at a site, or only looked for in the pool. -/
abbrev Policy := Site → Bool

/-! ## Values and chunks -/

inductive Value
  | number (x : Float)
  | truth (b : Bool)
  | text (s : Symbol)
  | pointer (cell : Cell)
  | boxed (cell : Cell)

namespace Value

def plain : Value → Cellscript.Value
  | number x => .number x
  | truth b => .truth b
  | text s => .text s.text
  | pointer c => .pointer c
  | boxed c => .boxed c

/-- Texts are equal if their handles are the same. -/
def equals : Value → Value → Bool
  | text s, text t => s == t
  | v, w => v.plain.equals w.plain

/-- An address is kept in a cell as a boxed pointer. -/
def stored : Value → Value
  | pointer c => boxed c
  | value => value

end Value

structure Chunk where
  code : Array CodeByte
  constants : Array Value
  labels : List (String × Nat)
  jumps : List (Symbol × Nat)

/-- A table whose keys are texts in place of handles. -/
def plainKeys {α : Type} (table : List (Symbol × α)) : List (String × α) :=
  table.map fun entry => (entry.1.text, entry.2)

namespace Chunk

def plain (c : Chunk) : Cellscript.Chunk where
  code := c.code
  constants := c.constants.map Value.plain
  labels := c.labels
  jumps := plainKeys c.jumps

def resolve? (c : Chunk) (name : Symbol) : Option Nat := c.jumps.lookup name

end Chunk

/-! ## The store -/

/-- Cells and names, and the pool that all handles lead into. -/
structure Store where
  cells : Arena Value
  names : List (Symbol × Cell)
  pool : Pool

abbrev Store.Action := EStateM Fault Store

namespace Store

def plain (s : Store) : Cellscript.Store := ⟨s.cells.map Value.plain, plainKeys s.names⟩

/-- Interns a text. -/
def intern (text : String) : Action Symbol := fun s =>
  .ok (s.pool.intern text).1 { s with pool := (s.pool.intern text).2 }

/-- The name that a value stands for. The text of a number is interned, or else looked for. -/
def nameOf (interns : Bool) (value : Value) : Action (Option Symbol) :=
  match value with
  | .text name => return some name
  | .number x =>
    if interns then some <$> intern (plainText x)
    else fun s => .ok (s.pool.lookup? (plainText x)) s
  | _ => return none

def bound? (s : Store) (name : Symbol) : Option Cell := s.names.lookup name

/-- The cell that a value names. -/
def named (interns : Bool) (value : Value) : Action (Option Cell) := do
  let name ← nameOf interns value
  return name.bind (← EStateM.get).bound?

/-- Aliases are followed without a look at names. -/
def root (s : Store) (c : Cell) : Cell := s.plain.root c

def get (c : Cell) : Action Value := fun s =>
  match s.cells.get? c with
  | some value => .ok value s
  | none => .error (.danglingPointer c.index.toNat) s

/-- The value at the end of the aliases that start at a cell. -/
def getRoot (c : Cell) : Action Value := fun s => get (s.root c) s

def read (interns : Bool) (operand : Value) : Action Value :=
  match operand with
  | .pointer c | .boxed c => get c
  | .truth _ => throw (.invalidPointer operand.plain.typeName)
  | .number _ | .text _ => do
    match ← named interns operand with
    | some c => getRoot c
    | none => throw (.undefinedVariable operand.plain.plain)

/-- Binds a new cell that holds zero to a name. -/
def bind (name : Symbol) : Action Cell := fun s =>
  match s.cells.allocate (.number 0) with
  | .ok (c, cells) => .ok c { s with cells, names := (name, c) :: s.names }
  | .error full => .error (.arenaExhausted full.capacity) s

/-- The cell of a name, which gets one if it has none. -/
def cellOf (name : Symbol) : Action Cell := fun s =>
  match s.bound? name with
  | some c => .ok c s
  | none => bind name s

/-- The cell that an assignment through `operand` is about. -/
def target (operand : Value) : Action Cell :=
  match operand with
  | .pointer c | .boxed c => return c
  | .truth _ | .number _ | .text _ => do
    match ← nameOf true operand with
    | none => throw (.invalidPointer operand.plain.typeName)
    | some name => cellOf name

def put (c : Cell) (value : Value) : Action Unit := fun s =>
  match s.cells.set? c value with
  | some cells => .ok () { s with cells }
  | none => .error (.danglingPointer c.index.toNat) s

def makeAlias (c source : Cell) (name : Symbol) : Action Unit := fun s =>
  if s.plain.reaches source c then .error (.aliasCycle name.text) s else put c (.pointer source) s

def overwrite (operand : Value) (c : Cell) (value : Value) : Action Unit := fun s =>
  let destination :=
    match operand with
    | .boxed d => d
    | _ => s.root c
  put destination value.stored s

def aliased? (s : Store) : Value → Option (Symbol × Cell)
  | .text name => (s.bound? name).map (name, ·)
  | _ => none

/-- The name of a cell makes an alias, any other value is written. -/
def place (operand : Value) (c : Cell) (value : Value) : Action Unit := fun s =>
  match s.aliased? value with
  | some (name, source) => makeAlias c source name s
  | none => overwrite operand c value s

def assign (operand value : Value) : Action Cell := do
  let c ← target operand
  place operand c value
  return c

/-- The cell of an operand of an exchange; none for a value that cannot take part. -/
def exchangeCell (interns : Bool) (operand : Value) : Action (Option Cell) :=
  match operand with
  | .pointer c => return some c
  | .boxed _ | .truth _ => return none
  | .number _ | .text _ => do
    match ← named interns operand with
    | some c => return some c
    | none => throw (.undefinedVariable operand.plain.plain)

def swapRoots (c d : Cell) : Action Unit := fun s =>
  match s.cells.swap? (s.root c) (s.root d) with
  | some cells => .ok () { s with cells }
  | none =>
    .error (.danglingPointer (max (s.root c).index.toNat (s.root d).index.toNat)) s

def exchange (interns : Bool) (left right : Value) : Action Cell := do
  let c ← exchangeCell interns left
  let d ← exchangeCell interns right
  match c, d with
  | some c, some d => (fun _ => c) <$> swapRoots c d
  | _, _ => throw (.exchangeOperands left.plain.typeName right.plain.typeName)

/-- What printing shows of a value: a text that names a cell shows the value there. -/
def shown (s : Store) (value : Value) : Value :=
  match value with
  | .text name => ((s.bound? name).bind fun c => s.cells.get? (s.root c)).getD value
  | _ => value

end Store

/-! ## The machine -/

abbrev Machine := MachineOf Value Store

namespace Machine

open Cellscript.Machine (onStore)

def plain (m : Machine) : Cellscript.Machine where
  limits := m.limits
  stack := m.stack.map Value.plain
  store := m.store.plain
  sink := m.sink
  log := m.log

/-- Where the number in a cell sends control. -/
def cellTarget (chunk : Chunk) (c : Cell) : Store.Action (Option Nat) := do
  match ← Store.getRoot c with
  | .number x =>
    match Cellscript.Machine.offset? chunk.plain x with
    | some offset => return some offset
    | none => throw (.invalidJumpTarget (plainText x))
  | _ => return none

/-- Where a name sends control: to its label, else to the offset that its cell holds. -/
def nameTarget (chunk : Chunk) (name : Symbol) : Store.Action (Option Nat) := fun s =>
  match chunk.resolve? name, s.bound? name with
  | some offset, _ => .ok (some offset) s
  | none, none => .ok none s
  | none, some c => cellTarget chunk c s

def gotoTarget (interns : Bool) (chunk : Chunk) (value : Value) : Store.Action (Option Nat) := do
  match ← Store.nameOf interns value with
  | none => return none
  | some name => nameTarget chunk name

/-- The offset of the label that a value names. -/
def labelOffset (interns : Bool) (chunk : Chunk) (label : Value) : Store.Action Nat := do
  match (← Store.nameOf interns label).bind chunk.resolve? with
  | some offset => return offset
  | none => throw (.undefinedLabel label.plain.plain)

/-- Handles are names, and texts only by way of them. -/
def dialect (policy : Policy) (chunk : Chunk) : Dialect Value Store where
  number := .number
  truth := .truth
  pointer := .pointer
  number? value := value.plain.number?
  isFalsey value := value.plain.isFalsey
  equals := Value.equals
  constant? index := chunk.constants[index]?
  shown s value := (s.shown value).plain.plain
  goto value := onStore (gotoTarget (policy .goto) chunk value)
  label value := onStore (labelOffset (policy .label) chunk value)
  assign operand value := onStore (Store.assign operand value)
  read operand := onStore (Store.read (policy .read) operand)
  exchange left right := onStore (Store.exchange (policy .exchange) left right)

def run (policy : Policy) (chunk : Chunk) (steps : Nat) (m : Machine) :
    Machine × Cellscript.Machine.Outcome := (dialect policy chunk).runFrom chunk.plain steps 0 m

end Machine

end Cellscript.Interned
