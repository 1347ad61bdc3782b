import Cellscript.Proofs.Code.Roles
import Cellscript.Proofs.Code.Words
import Cellscript.Proofs.Language.Exits
import Cellscript.Proofs.Language.Scheme
import Cellscript.Proofs.Machine.Decoding

/-!
Compiled chunks are well formed: their bytes are instructions up to a last one that halts, operands
and labels lead to where something is, every jump is patched, and what a loop jumps to by name is a
label.
-/

set_option autoImplicit false

namespace Cellscript

/-- An instruction of the chunk starts at the offset. -/
def Chunk.Starts (c : Chunk) (words : List Word) (offset : Nat) : Prop :=
  offset < c.size ∧ ∃ w ∈ words, w.offset = offset

/-- The word loads the name of a label. -/
def Chunk.LoadsLabel (c : Chunk) (w : Word) (name : String) : Prop :=
  w.op = .constant ∧ (∃ index ∈ w.operand, c.constants[index.toNat]? = some (.text name)) ∧
    (c.label? name).isSome

/-- What is expected of a chunk that is read as these words. Code and lines are equally long by the
way a chunk is made, since every byte comes with its line. -/
structure Chunk.WellFormed (c : Chunk) (words : List Word) : Prop where
  lined : (c.code.map CodeByte.value).size = (c.code.map CodeByte.line).size
  decodes : Word.decodeFrom 0 c.bytes = some words
  halts : ∃ before, words = before ++ [⟨c.size - 1, .halt, none⟩]
  numbered : c.constants.size ≤ Chunk.maxConstants
  constants : ∀ value ∈ c.constants, value.Constant
  loads : ∀ w ∈ words, w.op = .constant → ∃ index ∈ w.operand, index.toNat < c.constants.size
  jumps : ∀ w ∈ words, w.op = .jump ∨ w.op = .jumpIfFalse →
    ∃ distance ∈ w.operand, c.Starts words (w.offset + 1 + 1 + distance.toNat)
  labels : ∀ name offset, (name, offset) ∈ c.labels → c.Starts words offset
  leaves : ∀ before w after, words = before ++ w :: after → w.op = .jumpIfFalseToLabel →
    ∃ earlier load name, before = earlier ++ [load] ∧ c.LoadsLabel load name
  resolves : ∀ name, c.resolve? name = c.label? name

/-- The gotos of a loop to its body and to its first step block: where they stand and what they
load. -/
def Site.gotos (site : Site) : List (Nat × String) :=
  let started := site.front ++ site.header.links.flatMap (Link.init site.number)
  let tested := site.front ++ site.header.initLines site.number ++
    site.header.incrLines site.number ++
    site.header.links.flatMap (Link.cond site.number site.header.exit)
  [(codeSize started, site.header.start), (codeSize tested, site.header.start),
    (site.finish, LoopBlock.incr.label site.number 0 0)]

theorem Site.goto_stands {site : Site} {goto : Nat × String} (member : goto ∈ site.gotos) :
    ∃ front after, site.front ++ site.lines = front ++ gotoLines goto.2 ++ after ∧
      codeSize front = goto.1 := by
  simp only [gotos, List.mem_cons, List.not_mem_nil, or_false] at member
  rcases member with rfl | rfl | rfl
  · refine ⟨_, site.header.incrLines site.number ++ site.header.condLines site.number ++
      [.mark site.header.start] ++ site.body.code (site.number + 1) ++
      gotoLines (LoopBlock.incr.label site.number 0 0), ?_, rfl⟩
    simp [lines, Header.code, Header.initLines]
  · refine ⟨_, [.mark site.header.start] ++ site.body.code (site.number + 1) ++
      gotoLines (LoopBlock.incr.label site.number 0 0), ?_, rfl⟩
    simp [lines, Header.code, Header.condLines]
  · refine ⟨_, [], ?_, rfl⟩
    simp [lines]

/-- The gotos of a loop name its own labels. -/
theorem Site.goto_declared {site : Site} {ts : List Token} (spelled : site.header.Spelled ts)
    {goto : Nat × String} (member : goto ∈ site.gotos) : Line.mark goto.2 ∈ site.lines := by
  have start : Line.mark site.header.start ∈ site.lines := by simp [lines, Header.code]
  obtain ⟨l, rest, links, part, link⟩ := spelled.links
  have incr : Line.mark (LoopBlock.incr.label site.number 0 0) ∈ site.lines := by
    simp [lines, Header.code, Header.incrLines, links, Link.incr, Link.mark, part, link]
  simp only [gotos, List.mem_cons, List.not_mem_nil, or_false] at member
  rcases member with rfl | rfl | rfl
  · exact start
  · exact start
  · exact incr

namespace Chunk.Assembles

variable {c : Chunk} {words : List Word}

/-- An instruction starts at every line that is not behind the last instruction. -/
theorem starts {front back : List Line} {i : Instruction}
    (assembled : c.Assembles (front ++ (back ++ [.code i])))
    (reads : Reads c.constants 0 (front ++ (back ++ [.code i])) words) :
    c.Starts words (codeSize front) := by
  obtain ⟨before, after, rfl, _, later⟩ := reads.of_append
  obtain ⟨w, rest, rfl, offset⟩ := later.first
  have size := assembled.size_eq
  have positive := i.width_pos
  simp only [codeSize_append, codeSize_code, codeSize_nil] at size
  refine ⟨by omega, w, by simp, ?_⟩
  rw [offset, Nat.zero_add]

theorem label_isSome {lines : List Line} (assembled : c.Assembles lines) {name : String}
    (declared : Line.mark name ∈ lines) : (c.label? name).isSome := by
  rw [Option.isSome_iff_ne_none, ne_eq, label?_eq_none_iff, not_not, assembled.labels]
  obtain ⟨front, back, rfl⟩ := List.append_of_mem declared
  exact List.mem_map_of_mem (mem_labelsFrom.mpr ⟨front, back, rfl, rfl⟩)

/-- Where a text is loaded that names a label. -/
theorem loadsLabel {lines : List Line} (assembled : c.Assembles lines) {name : String}
    (declared : Line.mark name ∈ lines) {offset : Nat} {back : List Line}
    (reads : Reads c.constants offset (.code (.load (.text name)) :: back) words) :
    ∃ load rest, words = load :: rest ∧ load.offset = offset ∧ c.LoadsLabel load name ∧
      Reads c.constants (offset + 2) back rest := by
  cases reads with
  | code stands later =>
    refine ⟨_, _, rfl, stands.offset_eq, ?_, later⟩
    cases stands with
    | load found => exact ⟨rfl, ⟨_, rfl, found⟩, assembled.label_isSome declared⟩

end Chunk.Assembles

theorem split_before_last {front back code : List Line} {line last : Line}
    (split : code ++ [last] = front ++ line :: back) (other : line ≠ last) :
    ∃ after, code = front ++ line :: after ∧ back = after ++ [last] := by
  rcases List.eq_nil_or_concat back with rfl | ⟨after, final, rfl⟩
  · obtain ⟨_, same⟩ := List.append_inj' split rfl
    cases same
    exact absurd rfl other
  · rw [List.concat_eq_append] at split ⊢
    rw [← List.cons_append, ← List.append_assoc] at split
    obtain ⟨rfl, same⟩ := List.append_inj' split rfl
    cases same
    exact ⟨after, rfl, rfl⟩

/-- The lines of a whole program. -/
def Script.program (number : Nat) (script : Script) : List Line :=
  script.code number ++ plainLines [.halt]

section Program

variable {c : Chunk} {script : Script} {number : Nat} {words : List Word} {w : Word}

/-- All but the last line of a program is in the code of its script. -/
theorem Script.program_split {front back : List Line} {line : Line}
    (split : script.program number = front ++ line :: back) (other : line ≠ .code (.plain .halt)) :
    ∃ after, script.code number = front ++ line :: after ∧ back = after ++ plainLines [.halt] :=
  split_before_last split other

/-- Where a jump lands, an instruction starts. -/
theorem Chunk.Assembles.lands (assembled : c.Assembles (script.program number))
    (reads : Reads c.constants 0 (script.program number) words) {front after : List Line}
    {i : Instruction} (width : i.width = 2)
    (code : script.code number = front ++ .code i :: after) {distance : Nat}
    (lands : Lands distance after) : c.Starts words (codeSize front + 1 + 1 + distance) := by
  obtain ⟨skipped, rest, rfl, size, _⟩ := lands
  have program : script.program number =
      (front ++ .code i :: skipped) ++ (rest ++ [.code (.plain .halt)]) := by
    rw [Script.program, code]
    simp [plainLines]
  rw [program] at assembled reads
  have starts := assembled.starts reads
  rw [codeSize_append, codeSize_code, width, size] at starts
  rwa [show codeSize front + 1 + 1 + distance = codeSize front + (2 + distance) by omega]

/-- A jump is one of a conditional, and leads to an instruction. -/
theorem Chunk.Assembles.jump (assembled : c.Assembles (script.program number))
    (reads : Reads c.constants 0 (script.program number) words) (member : w ∈ words)
    (op : w.op = .jump ∨ w.op = .jumpIfFalse) :
    ∃ distance ∈ w.operand, c.Starts words (w.offset + 1 + 1 + distance.toNat) ∧
      ∃ choice : Choice, choice.lines = script.program number ∧
        (w.offset, w.op, distance.toNat) ∈ choice.jumps := by
  obtain ⟨before, after, rfl⟩ := List.append_of_mem member
  obtain ⟨front, i, back, split, _, stands⟩ := reads.split
  rw [Nat.zero_add] at stands
  have sits : Sits (fun _ => True) [] (script.code number) [] :=
    (script.code_neutral number fun _ _ => trivial).sits rfl
  have roles : Everywhere Role [] (script.code number) (plainLines [.halt]) :=
    (script.code_plays number).roles
  cases stands with
  | plain single => rcases op with rfl | rfl <;> cases single
  | load found => rcases op with op | op <;> cases op
  | jump distance =>
    obtain ⟨after, code, rfl⟩ := Script.program_split split nofun
    obtain ⟨_, _, _, _, lands⟩ := sits _ _ _ code
    obtain ⟨choice, lines, jumps⟩ := (roles _ _ _ code).jump
    rw [List.append_nil] at lands
    exact ⟨distance, rfl, assembled.lands reads rfl code lands, choice,
      lines.trans split.symm, jumps⟩
  | jumpIfFalse distance =>
    obtain ⟨after, code, rfl⟩ := Script.program_split split nofun
    obtain ⟨_, _, _, _, lands⟩ := sits _ _ _ code
    obtain ⟨choice, lines, jumps⟩ := (roles _ _ _ code).jumpIfFalse
    rw [List.append_nil] at lands
    exact ⟨distance, rfl, assembled.lands reads rfl code lands, choice,
      lines.trans split.symm, jumps⟩

/-- Leaving a loop by name is right behind the load of a label. -/
theorem Chunk.Assembles.leave (assembled : c.Assembles (script.program number))
    {before after : List Word}
    (reads : Reads c.constants 0 (script.program number) (before ++ w :: after))
    (declared : ∀ label ∈ script.exits, Line.mark label ∈ script.code number)
    (op : w.op = .jumpIfFalseToLabel) :
    ∃ earlier load name, before = earlier ++ [load] ∧ c.LoadsLabel load name := by
  obtain ⟨front, i, back, split, read, stands⟩ := reads.split
  cases stands with
  | plain single =>
    cases op
    obtain ⟨after, code, rfl⟩ := Script.program_split split nofun
    have sits : Sits (.mark · ∈ script.code number) [] (script.code number) [] :=
      (script.code_neutral number declared).sits rfl
    obtain ⟨_, _, _, _, start, label, rfl, known⟩ := sits _ _ _ code
    obtain ⟨earlier, last, rfl, _, loaded⟩ := read.of_append
    obtain ⟨load, rest, rfl, _, loads, final⟩ :=
      assembled.loadsLabel (List.mem_append_left _ known) loaded
    cases final
    exact ⟨earlier, load, label, rfl, loads⟩
  | load found => cases op
  | jump distance => cases op
  | jumpIfFalse distance => cases op

theorem Chunk.Assembles.goto (assembled : c.Assembles (script.program number))
    (reads : Reads c.constants 0 (script.program number) words) {front back : List Line}
    {name : String} (split : script.program number = front ++ gotoLines name ++ back)
    (declared : Line.mark name ∈ script.program number) :
    ∃ before load pop after, words = before ++ load :: pop :: after ∧
      load.offset = codeSize front ∧ c.LoadsLabel load name ∧ pop.op = .pop := by
  rw [split, List.append_assoc] at reads
  obtain ⟨before, after, rfl, _, later⟩ := reads.of_append
  obtain ⟨load, rest, rfl, offset, loads, final⟩ := assembled.loadsLabel declared later
  rw [Nat.zero_add] at offset
  cases final with
  | code stands last =>
    cases stands with
    | plain single => exact ⟨before, load, _, _, rfl, offset, loads, rfl⟩

theorem Script.program_constant {value : Value}
    (loaded : Line.code (.load value) ∈ script.program number) : value.Constant := by
  obtain ⟨front, back, split⟩ := List.append_of_mem loaded
  obtain ⟨after, code, rfl⟩ := Script.program_split split nofun
  have roles : Everywhere Role [] (script.code number) [] := (script.code_plays number).roles
  exact (roles _ _ _ code).constant

theorem Chunk.Holds.wellFormed (holds : c.Holds (script.program number))
    (finished : c.jumps = c.labels)
    (declared : ∀ label ∈ script.exits, Line.mark label ∈ script.code number)
    (decoded : Word.decodeFrom 0 c.bytes = some words)
    (reads : Reads c.constants 0 (script.program number) words) : c.WellFormed words where
  lined := by rw [Array.size_map, Array.size_map]
  decodes := decoded
  halts := by
    have size := holds.size_eq
    obtain ⟨before, after, rfl, _, last⟩ := reads.of_append
    cases last with
    | code stands final =>
      cases final
      cases stands
      refine ⟨before, ?_⟩
      rw [size, Script.program, codeSize_append, Nat.zero_add]
      rfl
  numbered := holds.numbered
  constants value member := Script.program_constant (holds.used value member)
  loads := by
    intro w member op
    obtain ⟨before, after, rfl⟩ := List.append_of_mem member
    obtain ⟨_, _, _, _, _, stands⟩ := reads.split
    cases stands with
    | plain single =>
      cases op
      cases single
    | load found => exact ⟨_, rfl, (Array.getElem?_eq_some_iff.mp found).1⟩
    | jump distance => cases op
    | jumpIfFalse distance => cases op
  jumps := by
    intro w member op
    obtain ⟨distance, operand, starts, _⟩ := holds.toAssembles.jump reads member op
    exact ⟨distance, operand, starts⟩
  labels := by
    intro name offset member
    rw [holds.labels] at member
    obtain ⟨front, back, split, rfl⟩ := mem_labelsFrom.mp member
    obtain ⟨after, _, rfl⟩ := Script.program_split split nofun
    have assembled : c.Assembles (front ++ ((.mark name :: after) ++ [.code (.plain .halt)])) :=
      split ▸ holds.toAssembles
    rw [Nat.zero_add]
    exact assembled.starts (split ▸ reads)
  leaves before w after split op := holds.toAssembles.leave (split ▸ reads) declared op
  resolves name := by rw [resolve?, finished, label?]

end Program

/-- A compiled chunk is well formed, its jumps are those of the conditionals of the script, and the
gotos of its loops name labels. -/
theorem Compiler.compiled_chunks_are_well_formed {compiler : Compiler} {source : String}
    {chunk : Chunk} (compiled : (compiler.compile source).2 = .ok chunk) :
    ∃ script words, compiler.Spells source script ∧ chunk.WellFormed words ∧
      chunk.Assembles (script.program compiler.loopCount) ∧
      (∀ w ∈ words, w.op = .jump ∨ w.op = .jumpIfFalse → ∃ distance ∈ w.operand,
        ∃ choice : Choice, choice.lines = script.program compiler.loopCount ∧
          (w.offset, w.op, distance.toNat) ∈ choice.jumps) ∧
      ∀ site ∈ script.sites [] compiler.loopCount, ∀ goto ∈ site.gotos,
        ∃ before load pop after, words = before ++ load :: pop :: after ∧ load.offset = goto.1 ∧
          chunk.LoadsLabel load goto.2 ∧ pop.op = .pop := by
  obtain ⟨script, spells, holds, finished, _⟩ := compile_holds compiled
  have assembled : chunk.Assembles (script.program compiler.loopCount) := holds.toAssembles
  obtain ⟨words, decoded, reads⟩ := assembled.encodes.reads 0
  have formed := holds.wellFormed finished (fun _ => spells.declares_exits _) decoded reads
  refine ⟨script, words, spells, formed, assembled, fun w member op => ?_, ?_⟩
  · obtain ⟨distance, operand, _, choice⟩ := assembled.jump reads member op
    exact ⟨distance, operand, choice⟩
  · intro site member goto among
    obtain ⟨⟨back, stands⟩, _⟩ := Script.site_stands member rfl
    obtain ⟨front, after, split, offset⟩ := Site.goto_stands among
    obtain ⟨ts, spelled⟩ := spells.site_header member
    have program : script.program compiler.loopCount =
        front ++ gotoLines goto.2 ++ (after ++ back ++ plainLines [.halt]) := by
      rw [List.nil_append] at stands
      rw [Script.program, stands, split]
      simp
    have declared : Line.mark goto.2 ∈ script.program compiler.loopCount := by
      rw [List.nil_append] at stands
      rw [Script.program, stands]
      simp [Site.goto_declared spelled among]
    rw [← offset]
    exact assembled.goto reads program declared

/-- A loop whose body chooses twice. -/
def ladder : String := "\n".intercalate [
  "\x7b0 (1) \x7b'i < 3\x7d . => 'i => 'j\x7d rung, top",
  "\x7b'i == 1\x7d \x7b'j == 1\x7d print \"same\" | ! | print 'i", "top..."]

theorem Compiler.compiled_chunks_are_well_formed_on_ladder :
    ∃ chunk script words, (({} : Compiler).compile ladder).2 = .ok chunk ∧
      ({} : Compiler).Spells ladder script ∧ chunk.WellFormed words ∧
      ∀ site ∈ script.sites [] 0, ∀ goto ∈ site.gotos,
        ∃ before load pop after, words = before ++ load :: pop :: after ∧ load.offset = goto.1 ∧
          chunk.LoadsLabel load goto.2 ∧ pop.op = .pop := by
  have compiles : (({} : Compiler).compile ladder).2.toBool = true := by decide +kernel
  cases compiled : (({} : Compiler).compile ladder).2 with
  | error diagnostics =>
    rw [compiled] at compiles
    cases compiles
  | ok chunk =>
    obtain ⟨script, words, spells, formed, _, _, gotos⟩ := compiled_chunks_are_well_formed compiled
    exact ⟨chunk, script, words, rfl, spells, formed, gotos⟩

end Cellscript
