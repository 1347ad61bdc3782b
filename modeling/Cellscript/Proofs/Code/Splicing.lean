import Cellscript.Proofs.Code.Building
import Cellscript.Proofs.Code.Capacity
import Cellscript.Proofs.Code.Words

/-!
Splicing puts the program of one chunk behind that of another. It goes through exactly if the code
can be read to its end, its constants are in the pool and find room in the other one, and no label
is defined twice. What is copied then reads as the same instructions.
-/

set_option autoImplicit false

namespace Cellscript

/-! ## Words and their constants -/

namespace Word

/-- The constant that a word loads from a pool. -/
def constant? (pool : Array Value) (w : Word) : Option Value :=
  if w.op = .constant then w.operand.bind fun index => pool[index.toNat]? else none

theorem decodeFrom_append {offset : Nat} {front : List UInt8} {words : List Word}
    (decoded : decodeFrom offset front = some words) (back : List UInt8) :
    decodeFrom offset (front ++ back) =
      (decodeFrom (offset + front.length) back).map (words ++ ·) := by
  fun_induction decodeFrom offset front generalizing words with
  | case1 offset =>
    cases decoded
    simp
  | case2 offset byte rest unknown => cases decoded
  | case3 offset byte rest op known single ih =>
    obtain ⟨later, found, rfl⟩ := Option.map_eq_some_iff.mp decoded
    rw [List.cons_append, decodeFrom, known]
    simp only [single, ↓reduceIte, ih found, Option.map_map, List.length_cons]
    rw [Nat.add_right_comm, Nat.add_assoc]
    rfl
  | case4 offset byte op known pair => cases decoded
  | case5 offset byte op known pair operand rest ih =>
    obtain ⟨later, found, rfl⟩ := Option.map_eq_some_iff.mp decoded
    rw [List.cons_append, List.cons_append, decodeFrom, known]
    simp only [pair, ↓reduceIte, ih found, Option.map_map, List.length_cons]
    rw [show offset + 2 + rest.length = offset + (rest.length + 1 + 1) by omega]
    rfl

end Word

/-- The constant that a line loads. -/
def Line.load? : Line → Option Value
  | code (.load value) => some value
  | _ => none

/-- A word loads what the instruction loads that it was read from. -/
theorem Word.Stands.constant?_eq {pool : Array Value} {offset : Nat} {i : Instruction} {w : Word}
    (stands : Word.Stands pool offset i w) : w.constant? pool = Line.load? (.code i) := by
  cases stands with
  | plain single =>
    refine if_neg ?_
    rintro rfl
    cases single
  | load found => simpa [Word.constant?, Line.load?] using found
  | jump distance => rfl
  | jumpIfFalse distance => rfl

namespace Reads

variable {pool : Array Value} {offset : Nat} {lines : List Line} {words : List Word}

theorem constants (reads : Reads pool offset lines words) :
    words.filterMap (Word.constant? pool) = lines.filterMap Line.load? := by
  induction reads with
  | nil => rfl
  | mark name _ ih => exact ih
  | code stands _ ih => simp only [List.filterMap_cons, stands.constant?_eq, ih]

theorem constant_isSome (reads : Reads pool offset lines words) {w : Word} (member : w ∈ words)
    (loads : w.op = .constant) : (w.constant? pool).isSome := by
  induction reads with
  | nil => cases member
  | mark name _ ih => exact ih member
  | code stands _ ih =>
    rcases List.mem_cons.mp member with rfl | later
    · rw [stands.constant?_eq]
      cases stands with
      | plain single =>
        cases loads
        cases single
      | load found => rfl
      | jump distance => cases loads
      | jumpIfFalse distance => cases loads
    · exact ih later

end Reads

namespace Chunk

/-- Code that can be read to its end, with constants that are there, reads as entries. -/
theorem renders_of_decodeFrom {pool : Array Value} {offset : Nat} {code : List CodeByte}
    {words : List Word} (decoded : Word.decodeFrom offset (code.map (·.value)) = some words)
    (found : ∀ w ∈ words, w.op = .constant → (w.constant? pool).isSome) :
    ∃ es, Renders pool code es := by
  generalize same : code.map (·.value) = bytes at decoded
  fun_induction Word.decodeFrom offset bytes generalizing code words with
  | case1 offset =>
    rw [List.map_eq_nil_iff.mp same]
    exact ⟨[], .nil⟩
  | case2 offset byte rest unknown => cases decoded
  | case3 offset byte rest op known single ih =>
    obtain ⟨later, readable, rfl⟩ := Option.map_eq_some_iff.mp decoded
    obtain ⟨first, code, rfl, rfl, others⟩ := List.map_eq_cons_iff.mp same
    obtain ⟨es, renders⟩ :=
      ih (fun w member => found w (List.mem_cons_of_mem _ member)) others readable
    rw [eq_of_ofByte? known]
    exact ⟨_, .plain single renders⟩
  | case4 offset byte op known pair => cases decoded
  | case5 offset byte op known pair operand rest ih =>
    obtain ⟨later, readable, rfl⟩ := Option.map_eq_some_iff.mp decoded
    obtain ⟨first, behind, rfl, rfl, second⟩ := List.map_eq_cons_iff.mp same
    obtain ⟨index, code, rfl, rfl, others⟩ := List.map_eq_cons_iff.mp second
    obtain ⟨es, renders⟩ :=
      ih (fun w member => found w (List.mem_cons_of_mem _ member)) others readable
    rw [eq_of_ofByte? known]
    by_cases loads : op = .constant
    · subst loads
      obtain ⟨value, here⟩ := Option.isSome_iff_exists.mp (found _ List.mem_cons_self rfl)
      exact ⟨_, .load here renders⟩
    · exact ⟨_, .jump (isJump_of_operand pair loads) renders⟩

/-! ## Copies -/

/-- A word of one chunk stands in another one `base` bytes further on: the same instruction on the
same line, which loads the same constant or jumps over the same distance. -/
structure Copies (source target : Chunk) (base : Nat) (w copy : Word) : Prop where
  offset : copy.offset = base + w.offset
  op : copy.op = w.op
  line : target.lineAt copy.offset = source.lineAt w.offset
  constant : w.op = .constant → ∃ value,
    w.constant? source.constants = some value ∧ copy.constant? target.constants = some value
  operand : w.op ≠ .constant → copy.operand = w.operand

theorem lineAt_of_split {c : Chunk} {front back : List CodeByte} {b : CodeByte}
    (split : c.code.toList = front ++ b :: back) : c.lineAt front.length = b.line := by
  have found : c.code[front.length]? = some b := by
    rw [← Array.getElem?_toList, split, List.getElem?_append_right (Nat.le_refl _), Nat.sub_self]
    rfl
  rw [lineAt, found]

/-- Code from `start` on in one chunk and code `base` bytes further on in another are read as the
same words. -/
def Mirrors (source target : Chunk) (base start : Nat) (code new : List CodeByte) : Prop :=
  ∃ words copies, Word.decodeFrom start (code.map (·.value)) = some words ∧
    Word.decodeFrom (base + start) (new.map (·.value)) = some copies ∧
    List.Forall₂ (source.Copies target base) words copies

section Mirrors

variable {source target : Chunk} {base : Nat} {front before code new : List CodeByte} {op : Opcode}
  {line : Nat}

theorem Mirrors.single (single : op.operandWidth = 0)
    (here : source.code.toList = front ++ ⟨op.byte, line⟩ :: code)
    (there : target.code.toList = before ++ ⟨op.byte, line⟩ :: new)
    (shift : before.length = base + front.length)
    (later : source.Mirrors target base (front.length + 1) code new) :
    source.Mirrors target base front.length (⟨op.byte, line⟩ :: code) (⟨op.byte, line⟩ :: new) := by
  obtain ⟨words, copies, read, reread, same⟩ := later
  refine ⟨⟨front.length, op, none⟩ :: words, ⟨base + front.length, op, none⟩ :: copies, ?_, ?_,
    .cons ?_ same⟩
  · rw [List.map_cons, Word.decodeFrom_single _ single, read]
    rfl
  · rw [List.map_cons, Word.decodeFrom_single _ single, Nat.add_assoc, reread]
    rfl
  · refine ⟨rfl, rfl, ?_, ?_, fun _ => rfl⟩
    · rw [← shift, lineAt_of_split here, lineAt_of_split there]
    · rintro rfl
      cases single

theorem Mirrors.pair (pair : op.operandWidth = 1) {operand copied : CodeByte}
    (here : source.code.toList = front ++ ⟨op.byte, line⟩ :: operand :: code)
    (there : target.code.toList = before ++ ⟨op.byte, line⟩ :: copied :: new)
    (shift : before.length = base + front.length)
    (constant : op = .constant → ∃ value, source.constants[operand.value.toNat]? = some value ∧
      target.constants[copied.value.toNat]? = some value)
    (kept : op ≠ .constant → copied = operand)
    (later : source.Mirrors target base (front.length + 2) code new) :
    source.Mirrors target base front.length (⟨op.byte, line⟩ :: operand :: code)
      (⟨op.byte, line⟩ :: copied :: new) := by
  obtain ⟨words, copies, read, reread, same⟩ := later
  refine ⟨⟨front.length, op, some operand.value⟩ :: words,
    ⟨base + front.length, op, some copied.value⟩ :: copies, ?_, ?_, .cons ?_ same⟩
  · rw [List.map_cons, List.map_cons, Word.decodeFrom_pair _ pair, read]
    rfl
  · rw [List.map_cons, List.map_cons, Word.decodeFrom_pair _ pair, Nat.add_assoc, reread]
    rfl
  · refine ⟨rfl, rfl, ?_, ?_, ?_⟩
    · rw [← shift, lineAt_of_split here, lineAt_of_split there]
    · rintro rfl
      exact constant rfl
    · intro other
      rw [kept other]

end Mirrors

/-- Code that reads as the same entries in two chunks has the same words there. -/
theorem Renders.mirrors {source target : Chunk} {base : Nat} {code new : List CodeByte}
    {es : List Entry} (original : Renders source.constants code es)
    (copy : Renders target.constants new es) {front before : List CodeByte}
    (here : source.code.toList = front ++ code) (there : target.code.toList = before ++ new)
    (shift : before.length = base + front.length) :
    source.Mirrors target base front.length code new := by
  induction original generalizing new front before with
  | nil =>
    cases copy
    exact ⟨[], [], rfl, rfl, .nil⟩
  | @plain op line code es single _ ih =>
    cases copy with
    | plain _ rest =>
      refine .single single here there shift ?_
      rw [List.append_cons] at here there
      simpa using ih rest here there (by simp [shift, Nat.add_assoc])
  | @load value line index code es found _ ih =>
    cases copy with
    | load renumbered rest =>
      refine .pair rfl here there shift (fun _ => ⟨value, found, renumbered⟩) (absurd rfl) ?_
      rw [List.append_cons, List.append_cons] at here there
      simpa using ih rest here there (by simp [shift, Nat.add_assoc])
  | @jump op line operand code es isJump _ ih =>
    cases copy with
    | jump _ rest =>
      have pair : op.operandWidth = 1 := by rcases isJump with rfl | rfl <;> rfl
      have other : op ≠ .constant := by rcases isJump with rfl | rfl <;> decide
      refine .pair pair here there shift (absurd · other) (fun _ => rfl) ?_
      rw [List.append_cons, List.append_cons] at here there
      simpa using ih rest here there (by simp [shift, Nat.add_assoc])

/-! ## Room for constants -/

/-- What tells the constants of a pool apart. -/
def poolKeys (pool : Array Value) : Finset (UInt64 ⊕ String) :=
  (pool.toList.filterMap Value.key?).toFinset

/-- How large a pool gets when these constants are asked for. Numbers with the same bits share one
place, and so do equal texts; any other constant takes a place each time. -/
def demand (pool : Array Value) (values : List Value) : Nat :=
  pool.size + ((values.filterMap Value.key?).toFinset \ poolKeys pool).card +
    values.countP (·.key?.isNone)

theorem any_shares_iff {pool : Array Value} {value : Value} :
    pool.any (shares · value) = true ↔ ∃ key ∈ poolKeys pool, value.key? = some key := by
  simp only [Array.any_eq_true', shares_eq_true_iff, poolKeys, List.mem_toFinset,
    List.mem_filterMap, Array.mem_toList_iff]
  constructor
  · rintro ⟨other, old, keyed, same⟩
    obtain ⟨key, keyed⟩ := Option.isSome_iff_exists.mp keyed
    exact ⟨key, ⟨other, old, keyed⟩, same ▸ keyed⟩
  · rintro ⟨key, ⟨other, old, first⟩, second⟩
    exact ⟨other, old, by rw [first]; rfl, first.trans second.symm⟩

/-- Asking for a constant first and for others later is asking for all of them. -/
theorem demand_interned (pool : Array Value) (value : Value) (values : List Value) :
    demand (interned pool value) values = demand pool (value :: values) := by
  unfold interned
  cases keyed : value.key? with
  | none =>
    have fresh : ¬ pool.any (shares · value) = true := by
      rw [any_shares_iff, keyed]
      simp
    rw [if_neg fresh]
    simp only [demand, poolKeys, Array.size_push, Array.toList_push, List.filterMap_append,
      List.filterMap_cons, List.filterMap_nil, List.append_nil, List.countP_cons, keyed,
      Option.isNone_none, ↓reduceIte]
    omega
  | some key =>
    by_cases shared : key ∈ poolKeys pool
    · rw [if_pos (any_shares_iff.mpr ⟨key, shared, keyed⟩)]
      simp [demand, keyed, Finset.insert_sdiff_of_mem _ shared]
    · have fresh : ¬ pool.any (shares · value) = true := by
        rw [any_shares_iff, keyed]
        simpa using shared
      have keys : poolKeys (pool.push value) = insert key (poolKeys pool) := by
        ext other
        simp [poolKeys, keyed, eq_comm]
      have split (wanted : Finset (UInt64 ⊕ String)) : insert key wanted \ poolKeys pool =
          insert key (wanted \ insert key (poolKeys pool)) := by
        ext other
        by_cases same : other = key
        · subst same
          simp [shared]
        · simp [same]
      have apart (wanted : Finset (UInt64 ⊕ String)) :
          key ∉ wanted \ insert key (poolKeys pool) := by
        simp
      rw [if_neg fresh]
      simp only [demand, keys, Array.size_push, List.filterMap_cons, keyed,
        List.toFinset_cons, split, Finset.card_insert_of_notMem (apart _), List.countP_cons,
        Option.isNone_some, Bool.false_eq_true, ↓reduceIte]
      omega

theorem size_pooled (pool : Array Value) (lines : List Line) :
    (pooled pool lines).size = demand pool (lines.filterMap Line.load?) := by
  fun_induction pooled pool lines with
  | case1 pool => simp [demand]
  | case2 pool value lines ih => rw [ih, demand_interned]; rfl
  | case3 pool line lines other ih =>
    have nothing : line.load? = none := by
      unfold Line.load?
      split
      · exact absurd rfl (other _)
      · rfl
    rw [ih, List.filterMap_cons_none nothing]

/-- Constants that find room in a pool find room in an empty one: those that they share a place with
take one up here as well. -/
theorem Fits.alone {pool : Array Value} {lines : List Line} (fits : Fits pool lines) :
    Fits #[] lines := by
  rw [Fits, size_pooled, demand] at fits ⊢
  generalize (List.filterMap Value.key? (lines.filterMap Line.load?)).toFinset = wanted at *
  have held : (poolKeys pool).card ≤ pool.size :=
    (List.toFinset_card_le _).trans (List.length_filterMap_le _ _)
  have split : wanted.card ≤ (wanted \ poolKeys pool).card + (poolKeys pool).card :=
    Finset.card_le_card_sdiff_add_card
  have unshared : wanted \ poolKeys #[] = wanted := by simp [poolKeys]
  rw [unshared, Array.size_empty]
  omega

/-! ## Splices -/

/-- The instructions of a chunk, if its code can be read to the end. -/
def words? (c : Chunk) : Option (List Word) := Word.decodeFrom 0 c.bytes

/-- What it takes to splice a chunk that has these words. -/
structure Accepts (c other : Chunk) (words : List Word) : Prop where
  read : other.words? = some words
  constants : ∀ w ∈ words, w.op = .constant → (w.constant? other.constants).isSome
  room : demand c.constants (words.filterMap (Word.constant? other.constants)) ≤ maxConstants
  labels : ∀ name, c.label? name = none ∨ other.label? name = none

/-- The chunk `joined` has what `c` has, and the program of `other` behind it. -/
structure Joins (c other joined : Chunk) : Prop where
  code : c.code.toList <+: joined.code.toList
  size : joined.size = c.size + other.size
  constants : Grows c.constants joined.constants
  labels : ∀ name,
    joined.label? name = (c.label? name).or ((other.label? name).map (c.size + ·))
  jumps : joined.jumps = c.jumps
  words : ∃ words copies, other.words? = some words ∧
    Word.decodeFrom c.size (joined.bytes.drop c.size) = some copies ∧
    List.Forall₂ (other.Copies joined c.size) words copies ∧
    ∀ own, c.words? = some own → joined.words? = some (own ++ copies)

theorem splice_eq_iff {c other joined : Chunk} :
    c.splice other = (joined, none) ↔
      ∃ copied, copyCode other.constants 0 other.code.toList c = (copied, none) ∧
        copyLabels c.size other.labels copied = (joined, none) := by
  unfold Chunk.splice
  split
  · rename_i refused
    simp [refused]
  · rename_i done
    simp [done]

theorem lookup_shift (base : Nat) (labels : List (String × Nat)) (name : String) :
    (labels.map fun label => (label.1, base + label.2)).lookup name =
      (labels.lookup name).map (base + ·) := by
  induction labels with
  | nil => rfl
  | cons label labels ih =>
    rw [List.map_cons, List.lookup_cons, List.lookup_cons, ih]
    cases name == label.1 <;> rfl

/-- Entries and words tell the same of code: whether it can be read, and which room it needs. -/
theorem exists_renders_iff {pool held : Array Value} {code : List CodeByte} (offset : Nat) :
    (∃ es, Renders pool code es ∧ Fits held (entryLines es)) ↔
      ∃ words, Word.decodeFrom offset (code.map (·.value)) = some words ∧
        (∀ w ∈ words, w.op = .constant → (w.constant? pool).isSome) ∧
        demand held (words.filterMap (Word.constant? pool)) ≤ maxConstants := by
  constructor
  · rintro ⟨es, renders, fits⟩
    obtain ⟨words, decoded, reads⟩ := renders.encodes.reads offset
    refine ⟨words, decoded, fun w member loads => reads.constant_isSome member loads, ?_⟩
    rw [reads.constants, ← size_pooled]
    exact fits
  · rintro ⟨words, decoded, found, room⟩
    obtain ⟨es, renders⟩ := renders_of_decodeFrom decoded found
    obtain ⟨again, reread, reads⟩ := renders.encodes.reads offset
    cases decoded.symm.trans reread
    refine ⟨es, renders, ?_⟩
    rw [Fits, size_pooled, ← reads.constants]
    exact room

/-- A splice is carried through exactly if the other chunk is acceptable. -/
theorem splice_eq_none_iff {c other : Chunk} (proper : c.Proper) (source : other.Proper) :
    (c.splice other).2 = none ↔ ∃ words, c.Accepts other words := by
  have labels (copied : Chunk) (same : copied.labels = c.labels) :
      (copyLabels c.size other.labels copied).2 = none ↔
        ∀ name, c.label? name = none ∨ other.label? name = none := by
    rw [copyLabels_eq_none_iff source.distinct]
    refine forall_congr' fun name => ?_
    rw [other.label?_eq_none_iff, label?, same, ← label?, or_comm, or_iff_not_imp_left, not_not]
  have readable := (copyCode_eq_none_iff proper.numbered other.constants 0 other.code.toList).trans
    (exists_renders_iff 0)
  constructor
  · intro done
    obtain ⟨copied, code, marks⟩ := splice_eq_iff.mp (Prod.ext rfl done)
    obtain ⟨words, read, found, room⟩ := readable.mp (congrArg Prod.snd code)
    obtain ⟨_, _, appends⟩ := copyCode_appends proper.numbered code
    exact ⟨words, read, found, room, (labels copied appends.labels).mp (congrArg Prod.snd marks)⟩
  · rintro ⟨words, read, found, room, free⟩
    have code : copyCode other.constants 0 other.code.toList c = (_, none) :=
      Prod.ext rfl (readable.mpr ⟨words, read, found, room⟩)
    obtain ⟨_, _, appends⟩ := copyCode_appends proper.numbered code
    have marks : copyLabels c.size other.labels _ = (_, none) :=
      Prod.ext rfl ((labels _ appends.labels).mpr free)
    exact congrArg Prod.snd (splice_eq_iff.mpr ⟨_, code, marks⟩)

theorem splice_joins {c other joined : Chunk} (proper : c.Proper)
    (spliced : c.splice other = (joined, none)) : c.Joins other joined := by
  obtain ⟨copied, code, marks⟩ := splice_eq_iff.mp spliced
  obtain ⟨es, renders, appends⟩ := copyCode_appends proper.numbered code
  obtain ⟨new, appended, copy⟩ := appends.code
  have same := copyLabels_eq_none marks
  have there : joined.code.toList = c.code.toList ++ new := by rw [same, appended]
  have pool : joined.constants = copied.constants := by rw [same]
  have behind : joined.bytes = c.bytes ++ new.map (·.value) := by
    rw [bytes, there, List.map_append, bytes]
  have tail : joined.bytes.drop c.size = new.map (·.value) := by
    rw [behind, ← c.length_bytes, List.drop_left]
  rw [← pool] at copy
  refine ⟨⟨new, there.symm⟩, ?_, ?_, fun name => ?_, ?_, ?_⟩
  · have length : copied.size = c.size + other.size := size_of_copyCode proper.numbered code
    rw [same]
    exact length
  · rw [pool, appends.constants]
    exact grows_pooled c.constants (entryLines es)
  · rw [same, label?, label?, label?, List.lookup_append, lookup_shift, appends.labels]
  · rw [same, appends.jumps]
  · obtain ⟨words, copies, read, reread, copied⟩ :=
      renders.mirrors copy (List.nil_append _).symm there (Nat.add_zero _).symm
    refine ⟨words, copies, read, tail ▸ reread, copied, fun own known => ?_⟩
    rw [words?, behind, Word.decodeFrom_append known, Nat.zero_add, c.length_bytes]
    exact Option.map_eq_some_iff.mpr ⟨copies, reread, rfl⟩

/-- A splice is carried through exactly if the code of the other chunk can be read to its end, its
constants are in its pool and find room, and no label is taken. Then the program of the other chunk
stands behind the old one, which is as it was. -/
theorem splice_concatenates_programs {c other : Chunk} (built : Becomes {} c)
    (source : Becomes {} other) :
    ((c.splice other).2 = none ↔ ∃ words, c.Accepts other words) ∧
      ((c.splice other).2 = none → c.Joins other (c.splice other).1) := by
  have proper := built.proper empty_proper
  exact ⟨splice_eq_none_iff proper (source.proper empty_proper),
    fun done => splice_joins proper (Prod.ext rfl done)⟩

/-- Loads a constant in front of a label. -/
def opening : Chunk where
  code := #[⟨1, 1⟩, ⟨0, 1⟩]
  constants := #[.text "a"]
  labels := [("top", 2)]

/-- Jumps over the second of two constants, in front of a label. Each operand is an
opcode as well. -/
def ending : Chunk where
  code := #[⟨1, 7⟩, ⟨2, 7⟩, ⟨22, 7⟩, ⟨2, 7⟩, ⟨1, 8⟩, ⟨1, 8⟩]
  constants := #[.text "b", .text "a", .truth true]
  labels := [("end", 6)]

theorem Becomes.push_constant {c d : Chunk} (becomes : Becomes c d) (value : Value)
    (fresh : d.constants.findIdx? (shares · value) = none)
    (room : d.constants.size < maxConstants) :
    Becomes c { d with constants := d.constants.push value } := by
  refine becomes.addConstant (show d.addConstant value = .ok (d.constants.size.toUInt8, _) from ?_)
  rw [Chunk.addConstant, fresh]
  exact if_neg (Nat.not_le.mpr room)

theorem opening_built : Becomes {} opening := by
  have pool := (Becomes.refl {}).push_constant (.text "a") (by decide +kernel) (by decide)
  have loaded := pool.emitPair .constant 0 1
  exact loaded.defineLabel (show Chunk.defineLabel _ "top" = .ok opening from rfl)

theorem ending_built : Becomes {} ending := by
  have first := (Becomes.refl {}).push_constant (.text "b") (by decide +kernel) (by decide)
  have second := first.push_constant (.text "a") (by decide +kernel) (by decide)
  have third := second.push_constant (.truth true) (by decide +kernel) (by decide)
  have jumping := (third.emitPair .constant 2 7).emitJump .jumpIfFalse 7
  have written := (jumping.emitPair .constant 1 8).patchJump
    (show Chunk.patchJump _ 3 = .ok { ending with labels := [] } from rfl)
  exact written.defineLabel (show Chunk.defineLabel _ "end" = .ok ending from rfl)

/-- The ending goes behind the opening, and not behind itself, where its label is taken. -/
theorem splice_concatenates_opening_and_ending :
    Becomes {} opening ∧ Becomes {} ending ∧ opening.Joins ending (opening.splice ending).1 ∧
      ¬ ∃ words, ending.Accepts ending words := by
  have done : (opening.splice ending).2 = none := by decide +kernel
  have refused : (ending.splice ending).2 ≠ none := by decide +kernel
  refine ⟨opening_built, ending_built, ?_, ?_⟩
  · exact (splice_concatenates_programs opening_built ending_built).2 done
  · exact mt (splice_concatenates_programs ending_built ending_built).1.mpr refused

end Chunk

end Cellscript
