import Cellscript.Proofs.Machine.Progress

/-!
Where an instruction sends control, in the terms of a listing: on to the next instruction that the
listing finds, or to where a jump shows, or to a label or an offset that a value names. This holds
of all bytes, compiled or not.
-/

set_option autoImplicit false

namespace Cellscript

/-- The instruction at an offset, if there is one. -/
def Chunk.opcodeAt? (c : Chunk) (offset : Nat) : Option Opcode :=
  (c.byteAt? offset).bind Opcode.ofByte?

theorem Chunk.width_of_opcode {c : Chunk} {offset : Nat} {op : Opcode}
    (found : c.opcodeAt? offset = some op) : c.width offset = 1 + op.operandWidth := by
  unfold opcodeAt? at found
  simp only [width, found]

/-- The line of a listing for the instruction at an offset ends with an arrow to the target. -/
def Chunk.ShowsTarget (c : Chunk) (offset target : Nat) : Prop :=
  ∃ text, c.instructionText offset = text ++ " -> " ++ offsetText target

theorem Chunk.offsetText_toList (n : Nat) :
    (offsetText n).toList =
      List.replicate (4 - (toString n).length) '0' ++ Nat.toDigits 10 n := by
  rw [offsetText, rightAligned, String.toList_append, String.toList_ofList,
    Nat.toString_eq_ofList_toDigits, String.toList_ofList]

/-- No blank stands in the text of an offset. -/
theorem Chunk.ne_blank_of_mem_offsetText {n : Nat} {c : Char} (inside : c ∈ (offsetText n).toList) :
    c ≠ ' ' := by
  rw [offsetText_toList, List.mem_append] at inside
  rcases inside with filled | digit
  · rw [List.eq_of_mem_replicate filled]
    decide
  · rintro rfl
    exact absurd (Nat.isDigit_of_mem_toDigits (by omega) (by omega) digit) (by decide)

theorem Chunk.offsetText_injective {n k : Nat} (same : offsetText n = offsetText k) : n = k := by
  have value (n : Nat) : Nat.ofDigitChars 10 (offsetText n).toList 0 = n := by
    rw [offsetText_toList, Nat.ofDigitChars_append, Nat.ofDigitChars_replicate_zero,
      Nat.mul_zero, Nat.ofDigitChars_ten_toDigits]
  rw [← value n, same, value k]

/-- A line shows one target at most, since it is what stands behind the last blank. -/
theorem Chunk.ShowsTarget.unique {c : Chunk} {offset n k : Nat} (first : c.ShowsTarget offset n)
    (second : c.ShowsTarget offset k) : n = k := by
  have behind (text : String) (n : Nat) :
      (text ++ " -> " ++ offsetText n).toList.reverse.takeWhile (· ≠ ' ') =
        (offsetText n).toList.reverse := by
    rw [String.toList_append, String.toList_append, List.reverse_append,
      List.takeWhile_append_of_pos fun c inside =>
        decide_eq_true (ne_blank_of_mem_offsetText (List.mem_reverse.mp inside))]
    simp
  obtain ⟨text, shown⟩ := first
  obtain ⟨other, also⟩ := second
  have texts : (offsetText n).toList.reverse = (offsetText k).toList.reverse := by
    rw [← behind text n, ← shown, also, behind other k]
  exact offsetText_injective (String.toList_injective (List.reverse_injective texts))

/-- A jump shows where it leads. -/
theorem Chunk.showsTarget {c : Chunk} {offset : Nat} {op : Opcode} {operand : UInt8}
    (found : c.opcodeAt? offset = some op) (jumps : op = .jump ∨ op = .jumpIfFalse)
    (distance : c.byteAt? (offset + 1) = some operand) :
    c.ShowsTarget offset (offset + 2 + operand.toNat) := by
  obtain ⟨byte, here, decoded⟩ := Option.bind_eq_some_iff.mp found
  have single : op.operandWidth = 1 := by rcases jumps with rfl | rfl <;> rfl
  have plain : op ≠ .constant := by rcases jumps with rfl | rfl <;> decide
  refine ⟨c.lead offset ++ (leftAligned 26 op.name ++ " " ++
    rightAligned 3 ' ' (toString operand.toNat)), ?_⟩
  simp only [instructionText, body, here, decoded, single, distance, operandText, plain, ↓reduceIte,
    String.append_assoc]

namespace Machine

/-! ## What has come of the parts of an instruction -/

section Parts

variable {m n : Machine}

theorem fetch_eq_ok {chunk : Chunk} {offset : Nat} {byte : UInt8}
    (done : fetch chunk offset m = .ok byte n) : chunk.byteAt? offset = some byte ∧ n = m := by
  unfold fetch at done
  split at done
  · rename_i found
    cases done
    exact ⟨found, rfl⟩
  · cases done

theorem pop_eq_ok {value : Value} (done : pop m = .ok value n) :
    m.stack = value :: n.stack ∧ n.store = m.store := by
  unfold pop at done
  split at done
  · rename_i stack
    cases done
    exact ⟨stack, rfl⟩
  · cases done

theorem ofStore_eq_ok {α : Type} {read : Store → Except Fault α} {a : α}
    (done : ofStore read m = .ok a n) : read m.store = .ok a := by
  unfold ofStore at done
  split at done
  · rename_i found
    cases done
    exact found
  · cases done

theorem labelOffset_eq_ok {chunk : Chunk} {label : Value} {offset : Nat}
    (done : labelOffset chunk label m = .ok offset n) :
    label.name?.bind chunk.resolve? = some offset := by
  unfold labelOffset at done
  split at done
  · rename_i found
    cases done
    exact found
  · cases done

end Parts

/-- Whenever the action succeeds, `post` holds of what it gives. -/
def Gives {α : Type} (post : α → Prop) (action : Action α) : Prop :=
  ∀ m a n, action m = .ok a n → post a

namespace Gives

variable {α β : Type}

theorem pure (a : α) : Gives (· = a) (Pure.pure a : Action α) := by
  intro m b n done
  cases done
  rfl

theorem andThen {post : β → Prop} (first : Action α) {next : α → Action β}
    (after : ∀ a, Gives post (next a)) : Gives post (first >>= next) := by
  intro m b n done
  obtain ⟨a, t, _, later⟩ := bind_eq_ok done
  exact after a t b n later

theorem pushAnd (value : Value) (next : Option Nat) :
    Gives (· = next) (do push value; return next) := andThen _ fun _ => pure next

end Gives

/-! ## Instructions -/

/-- The instruction at `ip` sends the machine to `target`. -/
inductive Leaves (chunk : Chunk) (ip : Nat) (m : Machine) : Nat → Prop
  /-- A jump leads where the listing shows. -/
  | jump {target : Nat} (op : chunk.opcodeAt? ip = some .jump)
      (shown : chunk.ShowsTarget ip target) : Leaves chunk ip m target
  /-- So does a jump that depends on a value, if the value counts as false. -/
  | branch {target : Nat} {predicate : Value} {rest : List Value}
      (op : chunk.opcodeAt? ip = some .jumpIfFalse) (stack : m.stack = predicate :: rest)
      (falsey : predicate.isFalsey = true) (shown : chunk.ShowsTarget ip target) :
      Leaves chunk ip m target
  /-- A value that is discarded leads to the label that it names. -/
  | label {target : Nat} {value : Value} {name : String} {rest : List Value}
      (op : chunk.opcodeAt? ip = some .pop) (stack : m.stack = value :: rest)
      (named : value.name? = some name) (resolved : chunk.resolve? name = some target) :
      Leaves chunk ip m target
  /-- Or to the number in the cell that it names. -/
  | offset {target : Nat} {value : Value} {rest : List Value}
      (op : chunk.opcodeAt? ip = some .pop) (stack : m.stack = value :: rest)
      (raw : namesOffset chunk value m.store = true)
      (chosen : gotoTarget chunk value m.store = .ok (some target)) : Leaves chunk ip m target
  /-- A loop is left by way of a label. -/
  | leave {target : Nat} {label predicate : Value} {rest : List Value}
      (op : chunk.opcodeAt? ip = some .jumpIfFalseToLabel)
      (stack : m.stack = label :: predicate :: rest) (falsey : predicate.isFalsey = true)
      (resolved : label.name?.bind chunk.resolve? = some target) : Leaves chunk ip m target

/-- Instructions that never send control elsewhere. -/
abbrev Onward (op : Opcode) : Prop :=
  op ≠ .halt ∧ op ≠ .pop ∧ op ≠ .jumpIfFalseToLabel ∧ op ≠ .jump ∧ op ≠ .jumpIfFalse

/-- Where an instruction with operands starting at `ip` leads if it stays in line. -/
theorem perform_onward (chunk : Chunk) {op : Opcode} (ip : Nat) (onward : Onward op) :
    Gives (· = some (ip + op.operandWidth)) (perform chunk op ip) := by
  obtain ⟨halts, pops, leaves, jumps, branches⟩ := onward
  cases op with
  | halt => exact absurd rfl halts
  | pop => exact absurd rfl pops
  | jumpIfFalseToLabel => exact absurd rfl leaves
  | jump => exact absurd rfl jumps
  | jumpIfFalse => exact absurd rfl branches
  | constant =>
    refine .andThen _ fun index => ?_
    split
    · exact .pushAnd _ _
    · exact .andThen _ fun _ => .pure _
  | yes | no => exact .pushAnd _ _
  | negate =>
    refine .andThen _ fun value => ?_
    split
    · exact .pushAnd _ _
    · exact .andThen _ fun _ => .pure _
  | not => exact .andThen _ fun _ => .pushAnd _ _
  | add | subtract | multiply | divide | less | greater =>
    exact .andThen _ fun _ => .pushAnd _ _
  | equal => exact .andThen _ fun _ => .andThen _ fun _ => .pushAnd _ _
  | print => exact .andThen _ fun _ => .andThen _ fun _ => .andThen _ fun _ => .pure _
  | setPointer | setPointerInverse | exchange =>
    exact .andThen _ fun _ => .andThen _ fun _ => .andThen _ fun _ => .pushAnd _ _
  | setPointerNoPush =>
    exact .andThen _ fun _ => .andThen _ fun _ => .andThen _ fun _ => .pure _
  | getPointer => exact .andThen _ fun _ => .andThen _ fun _ => .pushAnd _ _

section Step

variable {chunk : Chunk} {ip next : Nat} {m n : Machine}

theorem gotoTarget_of_label {value : Value} {name : String} {target : Nat} {s : Store}
    (named : value.name? = some name) (resolved : chunk.resolve? name = some target) :
    gotoTarget chunk value s = .ok (some target) := by
  simp only [gotoTarget, named, resolved]

/-- Where a value that is discarded leads, by its name or by the number that it names. -/
theorem Leaves.chosen {target : Nat} {value : Value} {rest : List Value}
    (left : Leaves chunk ip m target) (op : chunk.opcodeAt? ip = some .pop)
    (stack : m.stack = value :: rest) : gotoTarget chunk value m.store = .ok (some target) := by
  cases left with
  | label _ same named resolved =>
    cases stack.symm.trans same
    exact gotoTarget_of_label named resolved
  | offset _ same _ chosen =>
    cases stack.symm.trans same
    exact chosen
  | jump found | branch found | leave found => cases op.symm.trans found

/-- An instruction has one target at most. -/
theorem Leaves.unique {target other : Nat} (left : Leaves chunk ip m target)
    (also : Leaves chunk ip m other) : target = other := by
  cases left with
  | jump op shown =>
    cases also with
    | jump _ again => exact shown.unique again
    | branch found | label found | offset found | leave found => cases op.symm.trans found
  | branch op _ _ shown =>
    cases also with
    | branch _ _ _ again => exact shown.unique again
    | jump found | label found | offset found | leave found => cases op.symm.trans found
  | label op stack named resolved =>
    cases (also.chosen op stack).symm.trans (gotoTarget_of_label named resolved)
    rfl
  | offset op stack _ chosen =>
    cases (also.chosen op stack).symm.trans chosen
    rfl
  | leave op stack _ resolved =>
    cases also with
    | leave _ same _ again =>
      cases stack.symm.trans same
      exact Option.some.inj (resolved.symm.trans again)
    | jump found | branch found | label found | offset found => cases op.symm.trans found

/-- The next instruction is the one that the instruction at `ip` leaves for, if it leaves for any,
and the next one in line if not. -/
def Goes (chunk : Chunk) (ip : Nat) (m : Machine) (next : Nat) : Prop :=
  (∀ target, Leaves chunk ip m target → next = target) ∧
    (Leaves chunk ip m next ∨ next = ip + chunk.width ip)

theorem Goes.away (left : Leaves chunk ip m next) : Goes chunk ip m next :=
  ⟨fun _ other => left.unique other, Or.inl left⟩

theorem Goes.inLine {op : Opcode} (found : chunk.opcodeAt? ip = some op)
    (stays : ∀ target, ¬ Leaves chunk ip m target) (place : next = ip + 1 + op.operandWidth) :
    Goes chunk ip m next := by
  refine ⟨fun target left => absurd left (stays target), Or.inr ?_⟩
  rw [Chunk.width_of_opcode found]
  omega

theorem Goes.onward {op : Opcode} (found : chunk.opcodeAt? ip = some op) (onward : Onward op)
    (place : next = ip + 1 + op.operandWidth) : Goes chunk ip m next := by
  obtain ⟨_, pops, leaves, jumps, branches⟩ := onward
  refine .inLine found ?_ place
  intro target left
  cases left with
  | jump other => exact jumps (Option.some.inj (found.symm.trans other))
  | branch other => exact branches (Option.some.inj (found.symm.trans other))
  | label other => exact pops (Option.some.inj (found.symm.trans other))
  | offset other => exact pops (Option.some.inj (found.symm.trans other))
  | leave other => exact leaves (Option.some.inj (found.symm.trans other))

theorem Goes.jump (found : chunk.opcodeAt? ip = some .jump)
    (done : perform chunk .jump (ip + 1) m = .ok (some next) n) : Goes chunk ip m next := by
  obtain ⟨operand, t, fetched, later⟩ := bind_eq_ok done
  cases later
  have shown := Chunk.showsTarget found (Or.inl rfl) (fetch_eq_ok fetched).1
  exact .away (.jump found shown)

theorem Goes.branch (found : chunk.opcodeAt? ip = some .jumpIfFalse)
    (done : perform chunk .jumpIfFalse (ip + 1) m = .ok (some next) n) : Goes chunk ip m next := by
  obtain ⟨operand, t, fetched, later⟩ := bind_eq_ok done
  obtain ⟨distance, rfl⟩ := fetch_eq_ok fetched
  obtain ⟨predicate, u, popped, last⟩ := bind_eq_ok later
  obtain ⟨stack, _⟩ := pop_eq_ok popped
  cases last
  by_cases falsey : (dialect chunk).isFalsey predicate = true
  · rw [if_pos falsey]
    exact .away (.branch found stack falsey (Chunk.showsTarget found (Or.inr rfl) distance))
  · rw [if_neg falsey]
    refine .inLine found ?_ rfl
    intro target left
    cases left with
    | branch _ other isFalsey =>
      cases stack.symm.trans other
      exact falsey isFalsey
    | jump other | label other | offset other | leave other => cases found.symm.trans other

theorem Goes.discard (found : chunk.opcodeAt? ip = some .pop)
    (done : perform chunk .pop (ip + 1) m = .ok (some next) n) : Goes chunk ip m next := by
  obtain ⟨value, t, popped, later⟩ := bind_eq_ok done
  obtain ⟨stack, store⟩ := pop_eq_ok popped
  obtain ⟨place, u, looked, last⟩ := bind_eq_ok later
  have chosen := ofStore_eq_ok looked
  rw [store] at chosen
  cases last
  cases place with
  | some target =>
    rcases gotoTarget_eq_some chosen with ⟨name, named, resolved⟩ | raw
    · exact .away (.label found stack named resolved)
    · exact .away (.offset found stack raw chosen)
  | none =>
    refine .inLine found ?_ rfl
    intro target left
    cases chosen.symm.trans (left.chosen found stack)

theorem Goes.leave (found : chunk.opcodeAt? ip = some .jumpIfFalseToLabel)
    (done : perform chunk .jumpIfFalseToLabel (ip + 1) m = .ok (some next) n) :
    Goes chunk ip m next := by
  obtain ⟨label, t, poppedLabel, later⟩ := bind_eq_ok done
  obtain ⟨predicate, u, popped, last⟩ := bind_eq_ok later
  obtain ⟨first, _⟩ := pop_eq_ok poppedLabel
  obtain ⟨second, _⟩ := pop_eq_ok popped
  have stack : m.stack = label :: predicate :: u.stack := by rw [first, second]
  by_cases falsey : (dialect chunk).isFalsey predicate = true
  · rw [if_pos falsey] at last
    obtain ⟨target, v, resolved, final⟩ := bind_eq_ok last
    cases final
    exact .away (.leave found stack falsey (labelOffset_eq_ok resolved))
  · rw [if_neg falsey] at last
    cases last
    refine .inLine found ?_ rfl
    intro target left
    cases left with
    | leave _ other isFalsey =>
      cases stack.symm.trans other
      exact falsey isFalsey
    | jump other | branch other | label other | offset other => cases found.symm.trans other

/-- A step that does not end the run goes where the listing and the labels say. -/
theorem step_goes (done : step chunk ip m = .ok (some next) n) : Goes chunk ip m next := by
  obtain ⟨byte, t, fetched, later⟩ := bind_eq_ok done
  obtain ⟨here, rfl⟩ := fetch_eq_ok fetched
  cases decoded : Opcode.ofByte? byte with
  | none =>
    rw [decoded] at later
    cases later
  | some op =>
    rw [decoded] at later
    have found : chunk.opcodeAt? ip = some op := by
      rw [Chunk.opcodeAt?, here, Option.bind_some, decoded]
    cases op with
    | halt => cases later
    | jump => exact .jump found later
    | jumpIfFalse => exact .branch found later
    | pop => exact .discard found later
    | jumpIfFalseToLabel => exact .leave found later
    | _ =>
      have place := perform_onward chunk (ip + 1) (by decide) _ _ _ later
      exact .onward found (by decide) (Option.some.inj place)

end Step

end Machine

end Cellscript
