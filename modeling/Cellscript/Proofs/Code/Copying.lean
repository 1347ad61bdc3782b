import Cellscript.Chunk.Splice
import Cellscript.Proofs.Code.Extension

/-!
Copying code from one chunk to another. Code is read as entries: instructions with their lines,
where a constant is given by its value. Copying writes the entries down one after the other, and
what it has written reads as these entries again.
-/

set_option autoImplicit false

namespace Cellscript

namespace Chunk

/-! ## Jumps -/

/-- A jump by its opcode. -/
def jumpBy : Opcode → Nat → Instruction
  | .jump, distance => .jump distance
  | _, distance => .jumpIfFalse distance

theorem width_jumpBy (op : Opcode) (distance : Nat) : (jumpBy op distance).width = 2 := by
  cases op <;> rfl

theorem load_ne_jumpBy (value : Value) (op : Opcode) (distance : Nat) :
    (Instruction.load value = jumpBy op distance) = False := by
  cases op <;> simp [jumpBy]

theorem encodes_jumpBy {op : Opcode} (isJump : op = .jump ∨ op = .jumpIfFalse) {distance : Nat}
    {pool : Array Value} {bytes : List UInt8} :
    (jumpBy op distance).Encodes pool bytes ↔
      ∃ operand : UInt8, operand.toNat = distance ∧ bytes = [op.byte, operand] := by
  rcases isJump with rfl | rfl <;> rfl

/-! ## Entries -/

/-- An instruction with its line. The distance of a jump is a byte with a line of its own. -/
inductive Entry
  | plain (op : Opcode) (single : op.operandWidth = 0) (line : Nat)
  | load (value : Value) (line : Nat)
  | jump (op : Opcode) (isJump : op = .jump ∨ op = .jumpIfFalse) (line : Nat) (operand : CodeByte)

def Entry.instruction : Entry → Instruction
  | plain op _ _ => .plain op
  | load value _ => .load value
  | jump op _ _ operand => jumpBy op operand.value.toNat

def entryLines (es : List Entry) : List Line := es.map fun e => .code e.instruction

/-- The code reads as these entries where constants are numbered by `pool`. -/
inductive Renders (pool : Array Value) : List CodeByte → List Entry → Prop
  | nil : Renders pool [] []
  | plain {op : Opcode} {line : Nat} {code : List CodeByte} {es : List Entry}
      (single : op.operandWidth = 0) (rest : Renders pool code es) :
      Renders pool (⟨op.byte, line⟩ :: code) (.plain op single line :: es)
  | load {value : Value} {line : Nat} {index : CodeByte} {code : List CodeByte} {es : List Entry}
      (found : pool[index.value.toNat]? = some value) (rest : Renders pool code es) :
      Renders pool (⟨Opcode.constant.byte, line⟩ :: index :: code) (.load value line :: es)
  | jump {op : Opcode} {line : Nat} {operand : CodeByte} {code : List CodeByte} {es : List Entry}
      (isJump : op = .jump ∨ op = .jumpIfFalse) (rest : Renders pool code es) :
      Renders pool (⟨op.byte, line⟩ :: operand :: code) (.jump op isJump line operand :: es)

namespace Renders

variable {pool wider : Array Value} {code more : List CodeByte} {es others : List Entry}

theorem mono (grows : Grows pool wider) (renders : Renders pool code es) :
    Renders wider code es := by
  induction renders with
  | nil => exact .nil
  | plain single _ ih => exact .plain single ih
  | load found _ ih => exact .load (grows _ _ found) ih
  | jump isJump _ ih => exact .jump isJump ih

theorem append (first : Renders pool code es) (second : Renders pool more others) :
    Renders pool (code ++ more) (es ++ others) := by
  induction first with
  | nil => exact second
  | plain single _ ih => exact .plain single ih
  | load found _ ih => exact .load found ih
  | jump isJump _ ih => exact .jump isJump ih

theorem encodes (renders : Renders pool code es) :
    Encodes pool (code.map (·.value)) (entryLines es) := by
  induction renders with
  | nil => rfl
  | plain single _ ih => exact ⟨_, _, rfl, ⟨single, rfl⟩, ih⟩
  | load found _ ih => exact ⟨[_, _], _, rfl, ⟨_, found, rfl⟩, ih⟩
  | jump isJump _ ih =>
    exact ⟨[_, _], _, rfl, (encodes_jumpBy isJump).mpr ⟨_, rfl, rfl⟩, ih⟩

end Renders

theorem eq_pair_of_values {code : List CodeByte} {x y : UInt8}
    (values : code.map (·.value) = [x, y]) :
    ∃ line operand, code = [⟨x, line⟩, operand] ∧ operand.value = y := by
  obtain ⟨b, rest, rfl, rfl, others⟩ := List.map_eq_cons_iff.mp values
  obtain ⟨operand, none, rfl, second, empty⟩ := List.map_eq_cons_iff.mp others
  rw [List.map_eq_nil_iff.mp empty]
  exact ⟨b.line, operand, rfl, second⟩

theorem renders_jump {pool : Array Value} (op : Opcode) (isJump : op = .jump ∨ op = .jumpIfFalse)
    {distance : Nat} {code : List CodeByte}
    (encoded : (jumpBy op distance).Encodes pool (code.map (·.value))) :
    ∃ e : Entry, e.instruction = jumpBy op distance ∧ Renders pool code [e] := by
  obtain ⟨target, rfl, bytes⟩ := (encodes_jumpBy isJump).mp encoded
  obtain ⟨line, operand, rfl, rfl⟩ := eq_pair_of_values bytes
  exact ⟨.jump op isJump line operand, rfl, .jump isJump .nil⟩

theorem renders_instruction {pool : Array Value} {i : Instruction} {code : List CodeByte}
    (encoded : i.Encodes pool (code.map (·.value))) :
    ∃ e : Entry, e.instruction = i ∧ Renders pool code [e] := by
  cases i with
  | plain op =>
    obtain ⟨single, bytes⟩ := encoded
    obtain ⟨⟨byte, line⟩, none, rfl, same, empty⟩ := List.map_eq_cons_iff.mp bytes
    dsimp only at same
    rw [List.map_eq_nil_iff.mp empty, same]
    exact ⟨.plain op single line, rfl, .plain single .nil⟩
  | load value =>
    obtain ⟨index, found, bytes⟩ := encoded
    obtain ⟨line, operand, rfl, rfl⟩ := eq_pair_of_values bytes
    exact ⟨.load value line, rfl, .load found .nil⟩
  | jump distance => exact renders_jump .jump (Or.inl rfl) encoded
  | jumpIfFalse distance => exact renders_jump .jumpIfFalse (Or.inr rfl) encoded

/-! ## Writing entries -/

/-- Appends an instruction. A constant is asked for by its value. -/
def write (c : Chunk) : Entry → Except Error Chunk
  | .plain op _ line => .ok (c.emit op.byte line)
  | .load value line =>
    match c.addConstant value with
    | .error e => .error e
    | .ok (index, d) => .ok (d.emitPair .constant index line)
  | .jump op _ line operand => .ok ((c.emit op.byte line).push operand)

/-- Appends entries as far as it goes. -/
def writeAll : List Entry → Chunk → Chunk × Option Error
  | [], c => (c, none)
  | e :: es, c =>
    match c.write e with
    | .error problem => (c, some problem)
    | .ok d => writeAll es d

/-- Goes on with what has been built, unless there was a problem. -/
def andThen : Chunk × Option Error → (Chunk → Chunk × Option Error) → Chunk × Option Error
  | (c, some problem), _ => (c, some problem)
  | (c, none), next => next c

theorem writeAll_append (front back : List Entry) (c : Chunk) :
    writeAll (front ++ back) c = andThen (writeAll front c) (writeAll back) := by
  induction front generalizing c with
  | nil => rfl
  | cons e front ih =>
    rw [List.cons_append, writeAll, writeAll]
    cases c.write e with
    | error problem => rfl
    | ok d => exact ih d

/-- Code is copied by writing down what it reads as. -/
theorem copyCode_eq_writeAll {pool : Array Value} {code : List CodeByte} {es : List Entry}
    (renders : Renders pool code es) (offset : Nat) (c : Chunk) :
    copyCode pool offset code c = writeAll es c := by
  induction renders generalizing offset c with
  | nil => rfl
  | plain single _ ih =>
    simp only [copyCode, Opcode.ofByte?_byte, single, ↓reduceIte]
    exact ih _ _
  | @load value line index code es found _ ih =>
    simp only [copyCode, Opcode.ofByte?_byte, Opcode.operandWidth, Nat.succ_ne_self, ↓reduceIte,
      found, writeAll, write]
    cases c.addConstant value with
    | error e => rfl
    | ok added => exact ih _ _
  | jump isJump _ ih =>
    rcases isJump with rfl | rfl
    · simp only [copyCode, Opcode.ofByte?_byte, Opcode.operandWidth, Nat.succ_ne_self, ↓reduceIte,
        reduceCtorEq]
      exact ih _ _
    · simp only [copyCode, Opcode.ofByte?_byte, Opcode.operandWidth, Nat.succ_ne_self, ↓reduceIte,
        reduceCtorEq]
      exact ih _ _

theorem byte_of_ofByte? {b : UInt8} {op : Opcode} (known : Opcode.ofByte? b = some op) :
    op.byte = b := by
  obtain ⟨inside, rfl⟩ := List.getElem?_eq_some_iff.mp known
  have listed : ∀ k : Fin Opcode.all.length, (Opcode.all.get k).byte.toNat = k := by decide
  exact UInt8.toNat_inj.mp (listed ⟨b.toNat, inside⟩)

theorem eq_of_ofByte? {first : CodeByte} {op : Opcode}
    (known : Opcode.ofByte? first.value = some op) : first = ⟨op.byte, first.line⟩ := by
  rw [byte_of_ofByte? known]

theorem isJump_of_operand {op : Opcode} (pair : op.operandWidth ≠ 0) (other : op ≠ .constant) :
    op = .jump ∨ op = .jumpIfFalse := by
  cases op <;> simp_all [Opcode.operandWidth]

/-- What has been copied to its end can be read. -/
theorem renders_of_copyCode {pool : Array Value} {offset : Nat} {code : List CodeByte} {c : Chunk}
    (copied : (copyCode pool offset code c).2 = none) : ∃ es, Renders pool code es := by
  fun_induction copyCode pool offset code c with
  | case1 offset c => exact ⟨[], .nil⟩
  | case2 offset first rest c unknown => cases copied
  | case3 offset first rest c op known single ih =>
    obtain ⟨es, renders⟩ := ih copied
    rw [eq_of_ofByte? known]
    exact ⟨_, .plain single renders⟩
  | case4 offset first c op known pair => cases copied
  | case5 offset first c operand rest missing known pair => cases copied
  | case6 offset first c operand rest value found e full known pair => cases copied
  | case7 offset first c operand rest value found index d added known pair ih =>
    obtain ⟨es, renders⟩ := ih copied
    rw [eq_of_ofByte? known]
    exact ⟨_, .load found renders⟩
  | case8 offset first c op known pair operand rest other ih =>
    obtain ⟨es, renders⟩ := ih copied
    rw [eq_of_ofByte? known]
    exact ⟨_, .jump (isJump_of_operand pair other) renders⟩

/-! ## What has been written -/

/-- The entries have been appended, and nothing else has changed but for the constants that they
load. -/
structure Appends (c : Chunk) (es : List Entry) (d : Chunk) : Prop where
  code : ∃ new : List CodeByte, d.code.toList = c.code.toList ++ new ∧ Renders d.constants new es
  constants : d.constants = pooled c.constants (entryLines es)
  numbered : d.constants.size ≤ maxConstants
  labels : d.labels = c.labels
  jumps : d.jumps = c.jumps

namespace Appends

variable {c d e : Chunk} {es others : List Entry}

theorem refl (numbered : c.constants.size ≤ maxConstants) : c.Appends [] c :=
  ⟨⟨[], (List.append_nil _).symm, .nil⟩, rfl, numbered, rfl, rfl⟩

theorem trans (first : c.Appends es d) (second : d.Appends others e) :
    c.Appends (es ++ others) e where
  code := by
    obtain ⟨new, code, renders⟩ := first.code
    obtain ⟨newer, later, laterRenders⟩ := second.code
    refine ⟨new ++ newer, by rw [later, code, List.append_assoc], ?_⟩
    have kept : Grows d.constants e.constants := by
      rw [second.constants]
      exact grows_pooled d.constants (entryLines others)
    exact (renders.mono kept).append laterRenders
  constants := by
    rw [second.constants, first.constants, entryLines, entryLines, entryLines, List.map_append,
      pooled_append]
  numbered := second.numbered
  labels := second.labels.trans first.labels
  jumps := second.jumps.trans first.jumps

theorem extension (appends : c.Appends es d) : c.Extends (entryLines es) d where
  code := by
    obtain ⟨new, code, renders⟩ := appends.code
    exact ⟨new, code, renders.encodes⟩
  constants := appends.constants
  numbered := appends.numbered
  labels := appends.labels
  jumps := appends.jumps

end Appends

theorem pooled_jumpBy (pool : Array Value) (op : Opcode) (distance : Nat) (lines : List Line) :
    pooled pool (.code (jumpBy op distance) :: lines) = pooled pool lines := by
  cases op <;> rfl

/-- Jumps take no room in the pool. -/
theorem fits_jumpBy {pool : Array Value} {front back : List Line} (op : Opcode) (distance : Nat) :
    Fits pool (front ++ .code (jumpBy op distance) :: back) ↔ Fits pool (front ++ back) := by
  rw [Fits, Fits, pooled_append, pooled_append, pooled_jumpBy]

theorem write_appends {c d : Chunk} {e : Entry} (numbered : c.constants.size ≤ maxConstants)
    (written : c.write e = .ok d) : c.Appends [e] d := by
  cases e with
  | plain op single line =>
    cases written
    exact ⟨⟨_, Array.toList_push, .plain single .nil⟩, rfl, numbered, rfl, rfl⟩
  | load value line =>
    rw [write] at written
    cases added : c.addConstant value with
    | error problem =>
      rw [added] at written
      cases written
    | ok result =>
      obtain ⟨index, next⟩ := result
      rw [added] at written
      cases written
      obtain ⟨rfl, found, room⟩ := addConstant_eq_ok numbered added
      refine ⟨⟨[⟨Opcode.constant.byte, line⟩, ⟨index, line⟩], ?_, .load found .nil⟩, rfl, room,
        rfl, rfl⟩
      simp [emitPair, emit, push]
  | jump op isJump line operand =>
    cases written
    refine ⟨⟨[⟨op.byte, line⟩, operand], ?_, .jump isJump .nil⟩, (pooled_jumpBy _ op _ []).symm,
      numbered, rfl, rfl⟩
    simp [emit, push]

theorem writeAll_appends {c d : Chunk} {es : List Entry}
    (numbered : c.constants.size ≤ maxConstants)
    (written : writeAll es c = (d, none)) : c.Appends es d := by
  induction es generalizing c with
  | nil =>
    cases written
    exact .refl numbered
  | cons e es ih =>
    rw [writeAll] at written
    cases first : c.write e with
    | error problem =>
      rw [first] at written
      cases written
    | ok next =>
      rw [first] at written
      have start := write_appends numbered first
      exact start.trans (ih start.numbered written)

/-- Nothing is refused while there is room for the constants. -/
theorem writeAll_of_fits {c : Chunk} {es : List Entry} (fits : Fits c.constants (entryLines es)) :
    ∃ d, writeAll es c = (d, none) := by
  induction es generalizing c with
  | nil => exact ⟨c, rfl⟩
  | cons e es ih =>
    have both : Fits c.constants (entryLines [e] ++ entryLines es) := fits
    obtain ⟨now, later⟩ := both.of_append
    have written : ∃ d, c.write e = .ok d := by
      cases e with
      | plain op single line => exact ⟨_, rfl⟩
      | jump op isJump line operand => exact ⟨_, rfl⟩
      | load value line =>
        obtain ⟨index, d, added⟩ := addConstant_of_fits now
        exact ⟨_, by rw [write, added]⟩
    obtain ⟨d, written⟩ := written
    rw [← (write_appends now.numbered written).constants] at later
    rw [writeAll, written]
    exact ih later

theorem writeAll_eq_none_iff {c : Chunk} (numbered : c.constants.size ≤ maxConstants)
    (es : List Entry) : (writeAll es c).2 = none ↔ Fits c.constants (entryLines es) := by
  constructor
  · intro done
    have appends : c.Appends es (writeAll es c).1 :=
      writeAll_appends numbered (Prod.ext rfl done)
    rw [Fits, ← appends.constants]
    exact appends.numbered
  · intro fits
    obtain ⟨d, done⟩ := writeAll_of_fits fits
    rw [done]

/-- Code is copied to its end exactly if it can be read and there is room for its constants. -/
theorem copyCode_eq_none_iff {c : Chunk} (numbered : c.constants.size ≤ maxConstants)
    (pool : Array Value) (offset : Nat) (code : List CodeByte) :
    (copyCode pool offset code c).2 = none ↔
      ∃ es, Renders pool code es ∧ Fits c.constants (entryLines es) := by
  constructor
  · intro copied
    obtain ⟨es, renders⟩ := renders_of_copyCode copied
    rw [copyCode_eq_writeAll renders] at copied
    exact ⟨es, renders, (writeAll_eq_none_iff numbered es).mp copied⟩
  · rintro ⟨es, renders, fits⟩
    rw [copyCode_eq_writeAll renders]
    exact (writeAll_eq_none_iff numbered es).mpr fits

/-- What has been copied to its end is appended as the entries that it reads as. -/
theorem copyCode_appends {c d : Chunk} (numbered : c.constants.size ≤ maxConstants)
    {pool : Array Value} {offset : Nat} {code : List CodeByte}
    (copied : copyCode pool offset code c = (d, none)) :
    ∃ es, Renders pool code es ∧ c.Appends es d := by
  obtain ⟨es, renders⟩ := renders_of_copyCode (congrArg Prod.snd copied)
  rw [copyCode_eq_writeAll renders] at copied
  exact ⟨es, renders, writeAll_appends numbered copied⟩

end Chunk

end Cellscript
