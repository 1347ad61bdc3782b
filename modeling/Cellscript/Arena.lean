/-!
An arena: slots that are filled one after the other up to a fixed capacity and are reached by
handles. A slot is never given back on its own; clearing empties the whole arena.
-/

set_option autoImplicit false

namespace Cellscript

/-- The number of a slot, in 32 bits. -/
structure Arena.Handle where
  index : UInt32
deriving DecidableEq

structure Arena (α : Type) where
  capacity : Nat
  slots : Array α
deriving DecidableEq

/-- Every slot is in use. -/
structure Arena.Full where
  capacity : Nat

def Arena.Full.message (full : Arena.Full) : String :=
  "arena exhausted (" ++ toString full.capacity ++ " cells)"

namespace Arena

variable {α : Type}

def empty (capacity : Nat) : Arena α := ⟨capacity, #[]⟩

def size (a : Arena α) : Nat := a.slots.size

/-- Fills the next slot and gives its handle. -/
def allocate (a : Arena α) (value : α) : Except Full (Handle × Arena α) :=
  if a.capacity ≤ a.size then .error ⟨a.capacity⟩
  else .ok (⟨a.size.toUInt32⟩, { a with slots := a.slots.push value })

def get? (a : Arena α) (h : Handle) : Option α := a.slots[h.index.toNat]?

def set? (a : Arena α) (h : Handle) (value : α) : Option (Arena α) :=
  if h.index.toNat < a.size then
    some { a with slots := a.slots.setIfInBounds h.index.toNat value }
  else none

/-- Swaps the contents of two slots that are in use. -/
def swap? (a : Arena α) (h k : Handle) : Option (Arena α) :=
  match a.get? h, a.get? k with
  | some x, some y => (a.set? h y).bind (·.set? k x)
  | _, _ => none

def clear (a : Arena α) : Arena α := { a with slots := #[] }

end Arena

end Cellscript
