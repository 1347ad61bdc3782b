import Cellscript.Machine.Basic
import Cellscript.Text.Blank
import Cellscript.Token.Substitution
import Cellscript.Toml.Document

/-!
Settings: limits of the machine and rules for substitutions, as a TOML document gives them. Keys
that are not settings are passed over; a setting of the wrong type spoils the document.
-/

set_option autoImplicit false

namespace Cellscript

structure Settings where
  limits : Limits := {}
  rules : List Substitution.Rule := []

namespace Settings

open Toml

def natural? : Item → Option Nat
  | .integer n => if 0 ≤ n then some n.toNat else none
  | _ => none

def boolean? : Item → Option Bool
  | .boolean b => some b
  | _ => none

def string? : Item → Option String
  | .string s => some s
  | _ => none

def optional {α : Type} (read : Item → Option α) (otherwise : α) : Option Item → Option α
  | none => some otherwise
  | some item => read item

/-- The fields of a record: by key in a table, by position in an array. A moment is a record too,
but has none of these fields. -/
def fields? (keys : List String) : Item → Option (List (Option Item))
  | .table _ entries => some (keys.map fun key => entries.lookup key)
  | .array items => some (keys.zipIdx.map fun (_, i) => items[i]?)
  | .tables rows => some (keys.zipIdx.map fun (_, i) => (rows[i]?).map (.table .header))
  | .moment _ => some (keys.map fun _ => none)
  | _ => none

def limits? (item : Item) : Option Limits :=
  match fields? ["stack_max", "arena_capacity", "trace"] item with
  | some [stack, arena, trace] => do
    let stackMax ← optional natural? ({} : Limits).stackMax stack
    let arenaCapacity ← optional natural? ({} : Limits).arenaCapacity arena
    let trace ← optional boolean? ({} : Limits).trace trace
    return { stackMax, arenaCapacity, trace }
  | _ => none

def rule? (item : Item) : Option Substitution.Rule :=
  match fields? ["from", "to"] item with
  | some [some pattern, some replacement] => do
    return ⟨← string? pattern, ← string? replacement⟩
  | _ => none

def rules? : Item → Option (List Substitution.Rule)
  | .array items => items.mapM rule?
  | .tables rows => rows.mapM fun row => rule? (.table .header row)
  | _ => none

def ofToml? (text : String) : Option Settings := do
  let entries ← Toml.read? text
  let limits ← optional limits? {} (entries.lookup "vm")
  let rules ← optional rules? [] (entries.lookup "rewrites")
  return { limits, rules }

/-- The table of substitutions, or the first rule that spells none. -/
def substitutions (s : Settings) : Except Substitution.Rule (List Substitution) :=
  Substitution.table s.rules

def withTrace (s : Settings) (forced : Bool) : Settings :=
  { s with limits := { s.limits with trace := s.limits.trace || forced } }

/-- Whether the value of a switch in the environment turns it on. A switch that is not set is off,
and so are the words for off. -/
def isSwitchedOn : Option String → Bool
  | none => false
  | some value =>
    let word := String.ofList ((trimmed value.toList).map Char.toLower)
    !(word == "" || word == "0" || word == "false" || word == "off")

end Settings

end Cellscript
