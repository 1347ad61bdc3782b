import Cellscript.Proofs.Compile.Scripts
import Cellscript.Proofs.Language.Lines

/-!
The passages of a script. Code is written passage by passage: for each statement, for the header of
each loop, and for the way back at the end of its body. All bytes of a passage belong to one line,
that of the tokens from which the passage was read.
-/

set_option autoImplicit false

namespace Cellscript

/-! ## Passages -/

theorem getLastD_append {α : Type} (front back : List α) (a : α) :
    (front ++ back).getLastD a = back.getLastD (front.getLastD a) := by
  simp only [List.getLastD_eq_getLast?, List.getLast?_append, Option.getD_or]

theorem getLastD_suffix {α : Type} (a : α) (front back : List α) :
    front.getLastD a :: back <:+ a :: (front ++ back) := by
  induction front generalizing a with
  | nil => exact List.suffix_rfl
  | cons b front ih =>
    rw [List.getLastD_cons]
    exact (ih b).trans (List.suffix_cons _ _)

namespace Passage

/-- What a passage of code is for. -/
inductive Role
  | separator
  | statement (names : List String) (s : Option Simple)
  | loop (names : List String) (header : Header) (number : Nat)
  | back (number : Nat) (exit : String)

namespace Role

def code : Role → List Line
  | separator => []
  | statement names s => names.map .mark ++ (s.map Simple.code).getD []
  | loop names header number => names.map .mark ++ header.code number
  | back number _ => gotoLines (LoopBlock.incr.label number 0 0)

/-- The tokens spell what the passage is for, in front of the rest. A way back stands in front of
the label with which its loop ends. -/
def Spelled : Role → List Token → List Token → Prop
  | separator, ts, _ => ∃ t, ts = [t] ∧ (t.kind = .newline ∨ t.kind = .divider)
  | statement names s, ts, rest =>
    ∃ labels us, ts = labels ++ us ∧ LabelsSpelled labels names ∧ StatementSpelled us s rest
  | loop names header _, ts, rest =>
    ∃ labels us vs, ts = labels ++ us ++ vs ∧ LabelsSpelled labels names ∧ header.Spelled us ∧
      Terminator vs rest
  | back _ exit, ts, rest => ts = [] ∧ Script.Closes (some exit) rest

end Role

end Passage

structure Passage where
  role : Passage.Role
  tokens : List Token
  line : Nat

namespace Passage

def code (b : Passage) : List Line := b.role.code

/-- What the passage adds to the line table. -/
def lines (b : Passage) : List Nat := List.replicate (codeSize b.code) b.line

/-- The byte at an offset of the code of the passages was written for `b`. -/
def Covers (passages : List Passage) (b : Passage) (offset : Nat) : Prop :=
  ∃ front back, passages = front ++ b :: back ∧ codeSize (front.flatMap code) ≤ offset ∧
    offset < codeSize (front.flatMap code) + codeSize b.code

/-- Every byte was written for some passage, and belongs to its line. -/
theorem exists_covers {passages : List Passage} {offset : Nat}
    (inside : offset < codeSize (passages.flatMap code)) :
    ∃ b, Covers passages b offset ∧ (passages.flatMap lines)[offset]? = some b.line := by
  induction passages generalizing offset with
  | nil => exact absurd inside (Nat.not_lt_zero _)
  | cons b passages ih =>
    rw [List.flatMap_cons, codeSize_append] at inside
    have length : b.lines.length = codeSize b.code := List.length_replicate
    rw [List.flatMap_cons]
    by_cases here : offset < codeSize b.code
    · refine ⟨b, ⟨[], passages, rfl, Nat.zero_le _, by simpa [codeSize] using here⟩, ?_⟩
      rw [List.getElem?_append_left (length ▸ here)]
      exact List.getElem?_replicate_of_lt here
    · obtain ⟨other, ⟨front, back, rfl, starts, ends⟩, line⟩ :=
        ih (show offset - codeSize b.code < _ by omega)
      refine ⟨other, ⟨b :: front, back, rfl, ?_, ?_⟩, ?_⟩
      · rw [List.flatMap_cons, codeSize_append]
        omega
      · rw [List.flatMap_cons, codeSize_append]
        omega
      · rw [List.getElem?_append_right (length ▸ Nat.le_of_not_lt here), length]
        exact line

/-- How a passage stands between the token before it and the tokens after it. -/
structure Placed (before : Token) (b : Passage) (rest : List Token) : Prop where
  spelled : b.role.Spelled b.tokens rest
  together : ∀ t ∈ b.tokens, t.line = b.line
  bare : b.tokens = [] → b.line = before.line

/-- Every passage of a script is in its place. -/
def Laid (before : Token) (passages : List Passage) (rest : List Token) : Prop :=
  ∀ front b back, passages = front ++ b :: back →
    b.Placed ((front.flatMap tokens).getLastD before) (back.flatMap tokens ++ rest)

namespace Laid

variable {before : Token} {b : Passage} {passages more : List Passage} {rest : List Token}

theorem nil : Laid before [] rest := by
  intro front b back split
  cases front <;> cases split

theorem singleton (placed : b.Placed before rest) : Laid before [b] rest := by
  intro front other back split
  obtain ⟨rfl, rfl, rfl⟩ : front = [] ∧ b = other ∧ [] = back := by
    cases front with
    | nil => simpa using split
    | cons c front => simp at split
  exact placed

theorem head (laid : Laid before (b :: passages) rest) :
    b.Placed before (passages.flatMap tokens ++ rest) := laid [] b passages rfl

theorem tail (laid : Laid before (b :: passages) rest) :
    Laid (b.tokens.getLastD before) passages rest := by
  intro front other back split
  have placed := laid (b :: front) other back (by rw [split]; rfl)
  rwa [List.flatMap_cons, getLastD_append] at placed

theorem append (first : Laid before passages (more.flatMap tokens ++ rest))
    (second : Laid ((passages.flatMap tokens).getLastD before) more rest) :
    Laid before (passages ++ more) rest := by
  intro front b back split
  rcases List.append_eq_append_iff.mp split with ⟨middle, rfl, inside⟩ | ⟨middle, rfl, last⟩
  · have placed := second middle b back inside
    rwa [← getLastD_append, ← List.flatMap_append] at placed
  · cases middle with
    | nil =>
      rw [List.append_nil] at second
      simpa using second [] b back last.symm
    | cons c middle =>
      obtain ⟨rfl, rfl⟩ := List.cons.inj last
      have placed := first front b middle rfl
      simpa using placed

end Laid

/-- A passage ends on its line. -/
theorem Placed.line_eq {before : Token} {b : Passage} {rest : List Token}
    (placed : b.Placed before rest) : b.line = (b.tokens.getLastD before).line := by
  by_cases bare : b.tokens = []
  · rw [placed.bare bare, bare]
    rfl
  · rw [List.getLastD_eq_getLast?, List.getLast?_eq_some_getLast bare]
    exact (placed.together _ (List.getLast_mem bare)).symm

namespace Laid

variable {before : Token} {passages : List Passage} {rest : List Token}

/-- Every byte belongs to the line of some token. -/
theorem line_of_token (laid : Laid before passages rest) :
    ∀ n ∈ passages.flatMap lines, ∃ t ∈ before :: passages.flatMap tokens, t.line = n := by
  intro n member
  obtain ⟨b, among, written⟩ := List.mem_flatMap.mp member
  obtain ⟨front, back, rfl⟩ := List.append_of_mem among
  have line := (laid front b back rfl).line_eq
  rw [← getLastD_append] at line
  refine ⟨_, ?_, line.symm.trans (List.eq_of_mem_replicate written).symm⟩
  have last : (front.flatMap tokens ++ b.tokens).getLastD before ∈
      before :: (front.flatMap tokens ++ b.tokens) := List.getLastD_mem_cons
  rw [List.flatMap_append, List.flatMap_cons, ← List.append_assoc, ← List.cons_append]
  exact List.mem_append_left _ last

/-- Where the lines of the tokens never fall, those of the bytes do not either. -/
theorem sorted (laid : Laid before passages rest)
    (order : ((before :: passages.flatMap tokens).map (·.line)).Pairwise (· ≤ ·)) :
    (before.line :: passages.flatMap lines).Pairwise (· ≤ ·) := by
  induction passages generalizing before with
  | nil => exact List.pairwise_singleton _ _
  | cons b passages ih =>
    have line := laid.head.line_eq
    rw [List.flatMap_cons] at order ⊢
    have later := ih laid.tail (order.sublist ((getLastD_suffix _ _ _).map _).sublist)
    rw [← line] at later
    obtain ⟨after, tail⟩ := List.pairwise_cons.mp later
    have first : before.line ≤ b.line := by
      rw [line]
      rcases List.mem_cons.mp (List.getLastD_mem_cons (l := b.tokens) (a := before))
        with same | inside
      · rw [same]
      · exact (List.pairwise_cons.mp order).1 _
          (List.mem_map_of_mem (List.mem_append_left _ inside))
    have least : ∀ n ∈ b.lines ++ passages.flatMap lines, b.line ≤ n := by
      intro n member
      rcases List.mem_append.mp member with here | there
      · exact (List.eq_of_mem_replicate here).ge
      · exact after n there
    refine List.pairwise_cons.mpr ⟨fun n member => first.trans (least n member), ?_⟩
    refine List.pairwise_append.mpr ⟨?_, tail, fun m here n there => ?_⟩
    · exact List.pairwise_replicate.mpr (Or.inr (Nat.le_refl _))
    · rw [List.eq_of_mem_replicate here]
      exact after n there

end Laid

end Passage

/-! ## Writing passages -/

namespace Pass

/-- Between two moments of a pass the passages were read and written. -/
structure WrotePassages (p : Pass) (passages : List Passage) (q : Pass) : Prop where
  laid : Passage.Laid p.previous passages q.ahead
  ahead : p.ahead = passages.flatMap Passage.tokens ++ q.ahead
  previous : q.previous = (passages.flatMap Passage.tokens).getLastD p.previous
  writes : ∀ {written : List Line}, p.chunk.Holds written →
    q.chunk.Holds (written ++ passages.flatMap Passage.code) ∧
      q.chunk.lineTable = p.chunk.lineTable ++ passages.flatMap Passage.lines

namespace WrotePassages

variable {p q r : Pass} {passages more : List Passage}

theorem refl (p : Pass) : WrotePassages p [] p where
  laid := .nil
  ahead := rfl
  previous := rfl
  writes holds := by simpa using holds

theorem trans (first : WrotePassages p passages q) (second : WrotePassages q more r) :
    WrotePassages p (passages ++ more) r where
  laid := by
    have before := first.laid
    rw [second.ahead] at before
    exact before.append (first.previous ▸ second.laid)
  ahead := by rw [first.ahead, second.ahead, List.flatMap_append, List.append_assoc]
  previous := by
    rw [second.previous, first.previous, List.flatMap_append, getLastD_append]
  writes holds := by
    obtain ⟨held, table⟩ := first.writes holds
    obtain ⟨heldLater, tableLater⟩ := second.writes held
    rw [List.flatMap_append, List.flatMap_append, ← List.append_assoc, ← List.append_assoc, ← table]
    exact ⟨heldLater, tableLater⟩

/-- One passage, which is written for one line. -/
theorem of_wrote {b : Passage} {loops : Nat} (placed : b.Placed p.previous q.ahead)
    (wrote : p.Wrote b.tokens loops b.code q) (previous : q.previous = b.tokens.getLastD p.previous)
    (inks : p.chunk.Inks b.line q.chunk) : WrotePassages p [b] q where
  laid := .singleton placed
  ahead := by simpa using wrote.ahead
  previous := by simpa using previous
  writes {written} holds := by
    have held := wrote.writes holds
    obtain ⟨count, table⟩ := inks
    have size := congrArg List.length table
    rw [List.length_append, List.length_replicate, Chunk.length_lineTable, Chunk.length_lineTable,
      held.size_eq, holds.size_eq, codeSize_append] at size
    have same : count = codeSize b.code := by omega
    rw [same] at table
    simpa [Passage.lines] using ⟨held, table⟩

/-- A passage that is read from tokens of one line. -/
theorem of_inked {role : Passage.Role} {ts : List Token} {n loops : Nat} (nonempty : ts ≠ [])
    (together : ∀ t ∈ ts, t.line = n) (spelled : role.Spelled ts q.ahead)
    (wrote : p.Wrote ts loops role.code q) (inked : p.Inked ts q) :
    WrotePassages p [⟨role, ts, n⟩] q := by
  obtain ⟨previous, inks⟩ := inked n together
  exact .of_wrote ⟨spelled, together, fun none => absurd none nonempty⟩ wrote previous inks

end WrotePassages

/-- The way back is written for the line of the last token. -/
theorem emitGoto_inks (p : Pass) (label : String) :
    p.chunk.Inks p.line (p.emitGoto label).chunk ∧ (p.emitGoto label).previous = p.previous := by
  have loaded : p.chunk.Inks p.line (p.emitConstant (.text label)).chunk ∧
      (p.emitConstant (.text label)).previous = p.previous := by
    unfold emitConstant
    split
    · rename_i index chunk added
      exact ⟨(Chunk.Inks.addConstant added).trans (.emitPair _ _ _), rfl⟩
    · exact ⟨.of_same (by rw [complainBefore, complain_chunk]), complain_previous _ _ _⟩
  obtain ⟨inks, previous⟩ := loaded
  refine ⟨inks.trans ?_, previous⟩
  unfold emitGoto emit line
  rw [previous]
  exact .emit _ _

/-- The passages that a pass without complaints reads. -/
theorem Course.passages {exit : Option String} {p q : Pass} {ts : List Token} {script : Script}
    (course : Course exit p ts script q) (follows : ts.IsChain Token.Follows) :
    ∃ passages, WrotePassages p passages q ∧ passages.flatMap Passage.tokens = ts ∧
      passages.flatMap Passage.code = script.code p.loopCount := by
  induction course with
  | done _ => exact ⟨[], .refl _, rfl, rfl⟩
  | @separator _ p q r t ts script kind wrote inked _ ih =>
    obtain ⟨passages, later, rfl, code⟩ := ih follows.tail
    have first : WrotePassages p [⟨.separator, [t], t.line⟩] q :=
      .of_inked (List.cons_ne_nil _ _) (by simp) ⟨t, rfl, kind⟩ wrote inked
    refine ⟨_, first.trans later, rfl, ?_⟩
    rw [wrote.loopCount] at code
    exact code
  | @statement _ p q r labels ts us names s script _ labelled spelled something wrote inked _ ih =>
    obtain ⟨passages, later, rfl, code⟩ := ih follows.right_of_append
    obtain ⟨n, together⟩ := spelled.one_line labelled follows.left_of_append
    have nonempty := List.length_pos_iff.mp (spelled.labelled_length_pos labelled something)
    have first : WrotePassages p [⟨.statement names s, labels ++ ts, n⟩] q :=
      .of_inked nonempty together ⟨labels, ts, rfl, labelled, spelled⟩ wrote inked
    refine ⟨_, first.trans later, by simp, ?_⟩
    rw [wrote.loopCount] at code
    rw [List.flatMap_append, code, Script.code_marked, Script.code_startWith]
    simp [Passage.code, Passage.Role.code]
  | @loop _ p q r t labels ts us vs ws names header body script _ labelled spelled ended wrote inked
      repeated backWrote _ body_ih ih =>
    obtain ⟨inner, innerWrote, rfl, codeInner⟩ := body_ih follows.left_of_append.right_of_append
    obtain ⟨later, laterWrote, rfl, codeLater⟩ := ih follows.right_of_append
    obtain ⟨n, together⟩ := spelled.one_line labelled ended follows.left_of_append.left_of_append
    have nonempty : labels ++ ts ++ us ≠ [] := by
      have positive := spelled.length_pos
      rw [ne_eq, ← List.length_eq_zero_iff, List.length_append, List.length_append]
      omega
    have first : WrotePassages p [⟨.loop names header p.loopCount, labels ++ ts ++ us, n⟩] q :=
      .of_inked nonempty together ⟨labels, ts, us, rfl, labelled, spelled, ended⟩ wrote inked
    obtain ⟨inks, previous⟩ := emitGoto_inks r (LoopBlock.incr.label p.loopCount 0 0)
    have closes := repeated.closes
    rw [backWrote.ahead] at closes
    have back : WrotePassages r [⟨.back p.loopCount header.exit, [], r.line⟩]
        (r.closeLoop ⟨p.loopCount, header.exit⟩) :=
      .of_wrote ⟨⟨rfl, closes⟩, List.forall_mem_nil _, fun _ => rfl⟩ backWrote previous inks
    refine ⟨_, ((first.trans innerWrote).trans back).trans laterWrote, by simp, ?_⟩
    have number : q.loopCount = p.loopCount + 1 := wrote.loopCount
    have total :
        (r.closeLoop ⟨p.loopCount, header.exit⟩).loopCount = p.loopCount + (1 + body.loops) :=
      ((wrote.trans repeated.wrote).trans backWrote).loopCount
    rw [number] at codeInner
    rw [total, ← Nat.add_assoc] at codeLater
    simp only [List.flatMap_append, codeInner, codeLater, Script.code_marked]
    simp [Passage.code, Passage.Role.code, Script.code]

end Pass

/-! ## Whole scripts -/

namespace Compiler

variable {compiler : Compiler} {source : String} {chunk : Chunk}

/-- The tokens of a script come line after line, from the first line to the last. -/
theorem tokens_lines (kept : ∀ rule ∈ compiler.substitutions, rule.pattern ≠ ⟨.newline, "\n"⟩) :
    (compiler.tokens source).IsChain Token.Follows ∧
      (∀ t ∈ compiler.tokens source, 1 ≤ t.line ∧ t.line ≤ compiler.lastLine source) ∧
      1 ≤ compiler.lastLine source ∧ compiler.lastLine source ≤ 1 + source.toList.count '\n' := by
  obtain ⟨follows, bounds⟩ := Token.scanThrough_lines kept source
  unfold tokens lastLine
  generalize (Token.scanThrough compiler.substitutions source).map (·.token) = all
    at follows bounds ⊢
  have start : (all.takeWhile (·.kind != .finish) ++ all.dropWhile (·.kind != .finish)).IsChain
      Token.Follows := by
    rwa [List.takeWhile_append_dropWhile]
  refine ⟨start.left_of_append, ?_⟩
  rcases List.eq_nil_or_concat all with rfl | ⟨front, last, rfl⟩
  · simp
  · have order := Token.sorted_lines follows
    rw [List.concat_eq_append] at bounds order ⊢
    rw [List.map_append, List.pairwise_append] at order
    rw [List.getLast?_concat]
    have final := bounds last (by simp)
    refine ⟨fun t member => ?_, final⟩
    have among := (List.takeWhile_sublist _).subset member
    refine ⟨(bounds t among).1, ?_⟩
    rcases List.mem_append.mp among with inside | ends
    · exact order.2.2 _ (List.mem_map_of_mem inside) _ (by simp)
    · rw [List.mem_singleton.mp ends]
      exact Nat.le_refl _

/-- A script that compiles is compiled passage by passage, and returns on its last line. -/
theorem compile_passages (kept : ∀ rule ∈ compiler.substitutions, rule.pattern ≠ ⟨.newline, "\n"⟩)
    (compiled : (compiler.compile source).2 = .ok chunk) :
    ∃ script passages, compiler.Spells source script ∧
      chunk.Assembles (script.code compiler.loopCount ++ plainLines [.halt]) ∧
      passages.flatMap Passage.tokens = compiler.tokens source ∧
      passages.flatMap Passage.code = script.code compiler.loopCount ∧
      Passage.Laid (.finish 1) passages [] ∧
      chunk.lineTable = passages.flatMap Passage.lines ++ [compiler.lastLine source] := by
  obtain ⟨script, q, course, rfl, _⟩ := compile_course compiled
  obtain ⟨passages, wrote, tokens, code⟩ := course.passages (tokens_lines kept).1
  have empty : q.ahead = [] := course.closes
  obtain ⟨holds, table⟩ := wrote.writes Chunk.empty_holds
  have spelled := course.spelled
  have laid := wrote.laid
  rw [empty] at spelled laid
  rw [List.nil_append, code] at holds
  refine ⟨script, passages, spelled, ((holds.emit rfl _).finalize).toAssembles, tokens, code,
    laid, ?_⟩
  calc (q.chunk.emit Opcode.halt.byte (compiler.lastLine source)).lineTable
      _ = q.chunk.lineTable ++ [compiler.lastLine source] := Chunk.lineTable_push _ _
      _ = passages.flatMap Passage.lines ++ [compiler.lastLine source] := by rw [table]; rfl

/-- The lines of the code of a script never fall, and all of them are lines of the script. -/
theorem compile_lines (kept : ∀ rule ∈ compiler.substitutions, rule.pattern ≠ ⟨.newline, "\n"⟩)
    (compiled : (compiler.compile source).2 = .ok chunk) :
    chunk.lineTable.Pairwise (· ≤ ·) ∧
      ∀ n ∈ chunk.lineTable, 1 ≤ n ∧ n ≤ 1 + source.toList.count '\n' := by
  obtain ⟨_, passages, _, _, tokens, _, laid, table⟩ := compile_passages kept compiled
  obtain ⟨follows, bounds, first, last⟩ := @tokens_lines compiler source kept
  have among : ∀ n ∈ passages.flatMap Passage.lines, 1 ≤ n ∧ n ≤ compiler.lastLine source := by
    intro n member
    obtain ⟨t, spelled, rfl⟩ := laid.line_of_token n member
    rw [tokens] at spelled
    rcases List.mem_cons.mp spelled with rfl | inside
    · exact ⟨Nat.le_refl _, first⟩
    · exact bounds t inside
  have sorted : (1 :: passages.flatMap Passage.lines).Pairwise (· ≤ ·) := by
    refine laid.sorted (List.pairwise_cons.mpr ⟨?_, tokens ▸ Token.sorted_lines follows⟩)
    intro n member
    rw [tokens] at member
    obtain ⟨t, spelled, rfl⟩ := List.mem_map.mp member
    exact (bounds t spelled).1
  rw [table]
  constructor
  · refine List.pairwise_append.mpr ⟨sorted.tail, List.pairwise_singleton _ _,
      fun n here m there => ?_⟩
    rw [List.mem_singleton.mp there]
    exact (among n here).2
  · intro n member
    rcases List.mem_append.mp member with here | there
    · exact ⟨(among n here).1, (among n here).2.trans last⟩
    · rw [List.mem_singleton.mp there]
      exact ⟨first, last⟩

end Compiler

end Cellscript
