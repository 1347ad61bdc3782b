import Cellscript.Proofs.Store.Soundness

/-!
Faults that broken code alone can meet, and the faults that the store can meet, which are others.
-/

set_option autoImplicit false

namespace Cellscript

/-- Faults that only broken code meets. -/
def Fault.Structural : Fault → Prop
  | .stackUnderflow | .invalidOpcode _ | .invalidConstant _ | .missingReturn | .undefinedLabel _ =>
    True
  | _ => False

/-- Faults that come from what is in the store and from what is asked of it. -/
def Fault.OfStore : Fault → Prop
  | .invalidPointer _ | .undefinedVariable _ | .exchangeOperands _ _ | .aliasCycle _
  | .danglingPointer _ | .arenaExhausted _ => True
  | _ => False

theorem Fault.OfStore.not_structural {fault : Fault} (met : fault.OfStore) :
    ¬ fault.Structural := by
  intro structural
  unfold Fault.OfStore at met
  split at met
  case h_7 => exact met
  all_goals exact structural

namespace Store

variable {s t : Store} {fault : Fault}

theorem get_fault {c : Cell} (failed : s.get c = .error fault) : fault.OfStore := by
  unfold get at failed
  split at failed
  · cases failed
  · cases failed
    trivial

theorem read_fault {operand : Value} (failed : s.read operand = .error fault) :
    fault.OfStore := by
  unfold read at failed
  split at failed
  · exact get_fault failed
  · exact get_fault failed
  · cases failed
    trivial
  all_goals
    split at failed
    · exact get_fault failed
    · cases failed
      trivial

theorem target_fault {operand : Value} (failed : target operand s = .error fault t) :
    fault.OfStore := by
  unfold target bind at failed
  split at failed
  · cases failed
  · cases failed
  all_goals
    split at failed
    · cases failed
      trivial
    · split at failed
      · cases failed
      · split at failed <;> cases failed
        trivial

theorem put_fault {c : Cell} {value : Value} (failed : put c value s = .error fault t) :
    fault.OfStore := by
  unfold put at failed
  split at failed <;> cases failed
  trivial

theorem place_fault {operand value : Value} {c : Cell}
    (failed : place operand c value s = .error fault t) : fault.OfStore := by
  unfold place makeAlias overwrite at failed
  split at failed
  · split at failed
    · cases failed
      trivial
    · exact put_fault failed
  · exact put_fault failed

theorem assign_fault {operand value : Value} (failed : assign operand value s = .error fault t) :
    fault.OfStore := by
  rw [assign_apply] at failed
  cases reached : target operand s with
  | error other u =>
    rw [reached] at failed
    cases failed
    exact target_fault reached
  | ok c u =>
    rw [reached] at failed
    exact place_fault (map_eq_error failed)

theorem exchangeCell_fault {operand : Value} (failed : s.exchangeCell operand = .error fault) :
    fault.OfStore := by
  unfold exchangeCell at failed
  split at failed
  · cases failed
  · cases failed
  · cases failed
  all_goals
    split at failed <;> cases failed
    trivial

theorem exchange_fault {left right : Value} (failed : exchange left right s = .error fault t) :
    fault.OfStore := by
  unfold exchange at failed
  split at failed
  · rename_i found
    cases failed
    exact exchangeCell_fault found
  · rename_i found
    cases failed
    exact exchangeCell_fault found
  · rw [map_apply] at failed
    unfold swapRoots at failed
    split at failed
    · cases failed
    · rename_i swapped
      cases failed
      split at swapped <;> cases swapped
      trivial
  · cases failed
    trivial

end Store

end Cellscript
