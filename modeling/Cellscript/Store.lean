import Cellscript.Fault

/-!
The store: cells, and names bound to them. A name keeps its cell for good. A cell that holds a
pointer is an alias of the cell it points to; following aliases leads from every cell to its root,
the cell that holds the value.
-/

set_option autoImplicit false

namespace Cellscript

structure Store where
  cells : Arena Value
  names : List (String × Cell)
deriving DecidableEq

/-- Something done to the store. Where it fails, what was done before that stays. -/
abbrev Store.Action := EStateM Fault Store

namespace Store

def empty (capacity : Nat) : Store := ⟨.empty capacity, []⟩

def clear (s : Store) : Store := ⟨s.cells.clear, []⟩

def bound? (s : Store) (name : String) : Option Cell := s.names.lookup name

def named? (s : Store) (value : Value) : Option Cell := value.name?.bind s.bound?

/-! ## Aliases -/

/-- The cell that `c` is an alias of. -/
def link? (s : Store) (c : Cell) : Option Cell :=
  match s.cells.get? c with
  | some (.pointer d) => some d
  | _ => none

/-- Follows at most `bound` aliases. -/
def follow (s : Store) : Nat → Cell → Cell
  | 0, c => c
  | bound + 1, c =>
    match s.link? c with
    | some d => s.follow bound d
    | none => c

/-- The cell at the end of the aliases that start at `c`. -/
def root (s : Store) (c : Cell) : Cell := s.follow (s.cells.size + 1) c

/-- Whether at most `bound` cells on, the aliases that start at `c` have come past `d`. -/
def reachesWithin (s : Store) : Nat → Cell → Cell → Bool
  | 0, _, _ => false
  | bound + 1, c, d =>
    if c = d then true
    else
      match s.link? c with
      | some e => s.reachesWithin bound e d
      | none => false

/-- Whether the aliases that start at `c` pass through `d`. -/
def reaches (s : Store) (c d : Cell) : Bool := s.reachesWithin (s.cells.size + 1) c d

/-! ## Reading -/

def get (s : Store) (c : Cell) : Except Fault Value :=
  match s.cells.get? c with
  | some value => .ok value
  | none => .error (.danglingPointer c.index.toNat)

def valueOf? (s : Store) (name : String) : Option Value :=
  (s.bound? name).bind fun c => s.cells.get? (s.root c)

/-- What is read through an operand. An address gives the cell as it stands, a name the root of its
cell. -/
def read (s : Store) (operand : Value) : Except Fault Value :=
  match operand with
  | .pointer c | .boxed c => s.get c
  | .truth _ => .error (.invalidPointer operand.typeName)
  | .number _ | .text _ =>
    match s.named? operand with
    | some c => s.get (s.root c)
    | none => .error (.undefinedVariable operand.plain)

/-! ## Writing -/

/-- Binds a new cell that holds zero to a name. -/
def bind (name : String) : Action Cell := fun s =>
  match s.cells.allocate (.number 0) with
  | .ok (c, cells) => .ok c ⟨cells, (name, c) :: s.names⟩
  | .error full => .error (.arenaExhausted full.capacity) s

/-- The cell that an assignment through `operand` is about. A name without a cell gets one. -/
def target (operand : Value) : Action Cell := fun s =>
  match operand with
  | .pointer c | .boxed c => .ok c s
  | .truth _ | .number _ | .text _ =>
    match operand.name? with
    | none => .error (.invalidPointer operand.typeName) s
    | some name =>
      match s.bound? name with
      | some c => .ok c s
      | none => bind name s

def put (c : Cell) (value : Value) : Action Unit := fun s =>
  match s.cells.set? c value with
  | some cells => .ok () { s with cells }
  | none => .error (.danglingPointer c.index.toNat) s

/-- Makes `c` an alias of `source`, unless `source` is an alias of `c`. -/
def makeAlias (c source : Cell) (name : String) : Action Unit := fun s =>
  if s.reaches source c then .error (.aliasCycle name) s else put c (.pointer source) s

/-- An address is kept in a cell as a boxed pointer, since a pointer there would be an alias. -/
def stored : Value → Value
  | .pointer c => .boxed c
  | value => value

/-- Writes a value through `operand`, whose cell is `c`. A boxed pointer is written to as it stands,
everything else at its root. -/
def overwrite (operand : Value) (c : Cell) (value : Value) : Action Unit := fun s =>
  let destination :=
    match operand with
    | .boxed d => d
    | _ => s.root c
  put destination (stored value) s

/-- The name that a value has if it is a text bound to a cell, and the cell. -/
def aliased? (s : Store) : Value → Option (String × Cell)
  | .text name => (s.bound? name).map (name, ·)
  | _ => none

/-- Assigns `value` through `operand`: the name of a cell makes an alias, any other value is
written. Gives the cell that the assignment is about. -/
def assign (operand value : Value) : Action Cell := do
  let c ← target operand
  match (← EStateM.get).aliased? value with
  | some (name, source) => makeAlias c source name
  | none => overwrite operand c value
  return c

/-! ## Exchanging -/

/-- The cell of an operand of an exchange; none for a value that cannot take part. -/
def exchangeCell (s : Store) (operand : Value) : Except Fault (Option Cell) :=
  match operand with
  | .pointer c => .ok (some c)
  | .boxed _ | .truth _ => .ok none
  | .number _ | .text _ =>
    match s.named? operand with
    | some c => .ok (some c)
    | none => .error (.undefinedVariable operand.plain)

def swapRoots (c d : Cell) : Action Unit := fun s =>
  match s.cells.swap? (s.root c) (s.root d) with
  | some cells => .ok () { s with cells }
  | none =>
    .error (.danglingPointer (max (s.root c).index.toNat (s.root d).index.toNat)) s

/-- Swaps what two operands stand for. Gives the cell of the left one. -/
def exchange (left right : Value) : Action Cell := fun s =>
  match s.exchangeCell left, s.exchangeCell right with
  | .error fault, _ => .error fault s
  | .ok _, .error fault => .error fault s
  | .ok (some c), .ok (some d) => ((fun _ => c) <$> swapRoots c d) s
  | .ok _, .ok _ => .error (.exchangeOperands left.typeName right.typeName) s

end Store

end Cellscript
