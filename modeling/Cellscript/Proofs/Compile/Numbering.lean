import Cellscript.Proofs.Compile.Twins

/-!
Loops are numbered one after the other. The labels of their blocks are therefore new whenever they
are written, and twin passes stay twins to the end of the script.
-/

set_option autoImplicit false

namespace Cellscript

open List (Forall₂)

namespace Pass.Twins

variable {r : Renumbering} {loops : Nat} {marks : List String} {p q : Pass}

/-! ## Labels -/

/-- Both passes define a label, or both complain about it, if it is one that the script declares. -/
theorem defineLabel {more : List String} {name counterpart : String}
    (twins : Twins r loops (r.MapsLabels marks) p q) (maps : r.Maps name counterpart)
    (kept : marks ⊆ more) (new : ∀ mark ∈ more, mark ∈ marks ∨ mark = name)
    (known : Token.Declares r.tokens name ∨ name ∈ more)
    (fresh : Token.Declares r.tokens name ∨ name ∉ marks) :
    Twins r loops (r.MapsLabels more) (p.defineLabel name) (q.defineLabel counterpart) := by
  unfold Pass.defineLabel Chunk.defineLabel
  rw [twins.chunk.size_eq]
  rcases twins.chunk.insertLabel maps kept new known p.chunk.size with
    ⟨taken, refused, also, chunk⟩ | ⟨_, _, inserted, also, chunk⟩
  · rw [refused, also]
    obtain ⟨label, member, rfl⟩ := List.mem_map.mp taken
    -- the name was taken by a label of the script, and such a name is its own counterpart
    have declared : Token.Declares r.tokens label.1 := by
      rcases twins.chunk.labels.known label member with declared | marked
      · exact declared
      · exact fresh.resolve_right fun absent => absent marked
    obtain rfl : counterpart = label.1 := (maps.eq_iff (.declared declared)).mp rfl
    unfold adopt Pass.complainBefore
    rw [twins.previous]
    refine (twins.write chunk).complain_excused _ fun name about => ?_
    cases about
    exact declared
  · rw [inserted, also]
    exact twins.write chunk

theorem declareLabel {name : String} (twins : Twins r loops (r.MapsLabels marks) p q)
    (declared : Token.Declares r.tokens name) :
    Twins r loops (r.MapsLabels marks) (p.defineLabel name) (q.defineLabel name) :=
  twins.defineLabel (.declared declared) (List.Subset.refl _) (fun _ member => Or.inl member)
    (Or.inl declared) (Or.inl declared)

/-- The label of a block is new. -/
theorem markBlock {block : LoopBlock} {loop part link : Nat}
    (twins : Twins r loops (r.MapsLabels marks) p q)
    (fresh : block.label (r.first + loop) part link ∉ marks) :
    Twins r loops (r.MapsLabels (marks ++ [block.label (r.first + loop) part link]))
      (p.defineLabel (block.label (r.first + loop) part link))
      (q.defineLabel (block.label (r.second + loop) part link)) := by
  refine twins.defineLabel (.label block loop part link) (List.subset_append_left _ _)
    (fun mark member => ?_) (Or.inr (by simp)) (Or.inr fresh)
  exact (List.mem_append.mp member).imp_right List.mem_singleton.mp

/-! ## Statements -/

theorem readWithin (bound : Nat) (twins : Twins r loops (r.MapsLabels marks) p q) :
    Read r loops (r.MapsLabels marks) (Pass.readWithin bound p) (Pass.readWithin bound q) := by
  induction bound generalizing p q with
  | zero => exact .statement twins.simpleStatement.endStatement
  | succ bound ih =>
    unfold Pass.readWithin
    rw [twins.seesLabel_eq, twins.sees_eq]
    refine rel_ite (fun labelled => ?_) fun _ =>
      rel_ite (fun _ => twins.advance.readBrace) fun _ =>
        .statement twins.simpleStatement.endStatement
    obtain ⟨name, dots, rest, ahead, kind, dotted⟩ := ahead_of_seesLabel labelled
    have declared : Token.Declares r.tokens p.advance.previous.lexeme := by
      have here : p.current = name := by
        rw [current, ahead]
        rfl
      have together : [name, dots] <:+: p.ahead := ⟨[], rest, ahead.symm⟩
      rw [advance_previous, here]
      exact .label (together.trans twins.within.isInfix) kind dotted
    dsimp only
    rw [twins.advance.previous]
    have marked := twins.advance.advance.declareLabel declared
    rw [marked.current_eq]
    exact rel_ite (fun _ => .statement marked.endStatement) fun _ => ih marked

/-! ## The blocks of a loop -/

section Blocks

variable {loop : Nat} {l m : LoopLink} (links : l.Twins r m)

include links

theorem emitInit (twins : Twins r loops (r.MapsLabels marks) p q)
    (fresh : LoopBlock.init.label (r.first + loop) l.part l.link ∉ marks) :
    Twins r loops (r.MapsLabels (marks ++ [LoopBlock.init.label (r.first + loop) l.part l.link]))
      (Pass.emitInit (r.first + loop) p l) (Pass.emitInit (r.second + loop) q m) := by
  unfold Pass.emitInit
  rw [links.part, links.link]
  exact (((twins.markBlock fresh).splice links.source.init).splice links.parameter).emitAll _

theorem emitIncr (twins : Twins r loops (r.MapsLabels marks) p q)
    (fresh : LoopBlock.incr.label (r.first + loop) l.part l.link ∉ marks) :
    Twins r loops (r.MapsLabels (marks ++ [LoopBlock.incr.label (r.first + loop) l.part l.link]))
      (Pass.emitIncr (r.first + loop) p l) (Pass.emitIncr (r.second + loop) q m) := by
  unfold Pass.emitIncr
  rw [links.part, links.link]
  have read := (((twins.markBlock fresh).splice links.parameter).splice links.parameter).emit
    .getPointer
  exact (read.splice links.source.step).emitAll _

theorem emitTest {L : List (String × Nat) → List (String × Nat) → Prop}
    (twins : Twins r loops L p q) : Twins r loops L (p.emitTest l) (q.emitTest m) := by
  have finish := links.source.finish
  unfold Pass.emitTest
  generalize l.source.finish = one at finish ⊢
  generalize m.source.finish = two at finish ⊢
  cases finish with
  | value target => exact (((twins.splice links.parameter).emit _).splice target).emitAll _
  | condition predicate => exact twins.splice predicate

theorem emitCond {exit : String} (exits : r.Maps exit exit)
    (twins : Twins r loops (r.MapsLabels marks) p q)
    (fresh : LoopBlock.cond.label (r.first + loop) l.part l.link ∉ marks) :
    Twins r loops (r.MapsLabels (marks ++ [LoopBlock.cond.label (r.first + loop) l.part l.link]))
      (Pass.emitCond (r.first + loop) exit p l) (Pass.emitCond (r.second + loop) exit q m) := by
  unfold Pass.emitCond
  rw [links.part, links.link]
  exact (((twins.markBlock fresh).emitTest links).emitConstant (.text exits)).emit _

end Blocks

/-- One block after the other, each with a label of its own. -/
theorem foldl_links {write other : Pass → LoopLink → Pass} {label : LoopLink → String}
    (step : ∀ {l m marks p q}, LoopLink.Twins r l m → Twins r loops (r.MapsLabels marks) p q →
      label l ∉ marks → Twins r loops (r.MapsLabels (marks ++ [label l])) (write p l) (other q m))
    {links counterparts : List LoopLink} (twinLinks : Forall₂ (LoopLink.Twins r) links counterparts)
    (twins : Twins r loops (r.MapsLabels marks) p q) (fresh : (marks ++ links.map label).Nodup) :
    Twins r loops (r.MapsLabels (marks ++ links.map label)) (links.foldl write p)
      (counterparts.foldl other q) := by
  induction twinLinks generalizing marks p q with
  | nil => simpa using twins
  | @cons l m links counterparts here _ ih =>
    have absent : label l ∉ marks := by
      intro taken
      exact (List.nodup_append.mp fresh).2.2 _ taken _ List.mem_cons_self rfl
    have marked := step here twins absent
    rw [List.map_cons, List.append_cons] at fresh ⊢
    exact ih marked fresh

theorem emitLoop {loop : Nat} {parts counterparts : List LoopPart} {start exit : String}
    (twinParts : Forall₂ (LoopPart.Twins r) parts counterparts)
    (starts : Token.Declares r.tokens start)
    (exits : r.Maps exit exit) (twins : Twins r loops (r.MapsLabels marks) p q)
    (fresh : (marks ++ LoopBlock.labels (r.first + loop) parts).Nodup) :
    Twins r loops (r.MapsLabels (marks ++ LoopBlock.labels (r.first + loop) parts))
      (p.emitLoop (r.first + loop) parts start exit)
      (q.emitLoop (r.second + loop) counterparts start exit) := by
  have links := LoopLink.all_twins twinParts
  have labels : LoopBlock.labels (r.first + loop) parts =
      ((LoopLink.all parts).map fun l => LoopBlock.init.label (r.first + loop) l.part l.link) ++
        (((LoopLink.all parts).map fun l => LoopBlock.incr.label (r.first + loop) l.part l.link) ++
          (LoopLink.all parts).map fun l =>
            LoopBlock.cond.label (r.first + loop) l.part l.link) := by
    simp [LoopBlock.labels, LoopBlock.all]
  rw [labels, ← List.append_assoc, ← List.append_assoc] at fresh ⊢
  have early := (List.nodup_append.mp fresh).1
  unfold Pass.emitLoop
  have init := (foldl_links emitInit links twins (List.nodup_append.mp early).1).emitGoto
    (.declared starts)
  have incr := foldl_links emitIncr links init early
  have cond := foldl_links (fun links => emitCond links exits) links incr fresh
  exact (cond.emitGoto (.declared starts)).declareLabel starts

end Pass.Twins

/-! ## Loops in a row -/

/-- Loops with different numbers share no label. -/
theorem Heading.labels_nodup {hs : List Heading} (distinct : (hs.map Heading.number).Nodup) :
    (hs.flatMap Heading.labels).Nodup := by
  refine List.pairwise_flatMap.mpr ⟨fun h _ => LoopBlock.labels_nodup _ _, ?_⟩
  refine (List.pairwise_map.mp distinct).imp fun different x here y there same => ?_
  obtain ⟨_, _, _, rfl⟩ := LoopBlock.exists_of_mem_labels here
  obtain ⟨_, _, _, rfl⟩ := LoopBlock.exists_of_mem_labels there
  exact different (LoopBlock.label_inj same).2.1

/-- A loop whose body is being read, under its two numbers. -/
structure OpenLoop.Twins (r : Renumbering) (a b : OpenLoop) : Prop where
  numbers : ∃ loop, a.number = r.first + loop ∧ b.number = r.second + loop
  exit : b.exit = a.exit

/-- Twins that have written the blocks of these loops, whose numbers follow each other. -/
structure Pass.Progress (r : Renumbering) (written : List Heading) (p q : Pass) : Prop where
  numbers : written.map Heading.number = List.range' r.first written.length
  twins : Twins r written.length (r.MapsLabels (written.flatMap Heading.labels)) p q

namespace Pass.Progress

variable {r : Renumbering} {written : List Heading} {p q : Pass}

/-- A loop that has the next number adds new labels. -/
theorem append {h : Heading}
    (numbers : written.map Heading.number = List.range' r.first written.length)
    (next : h.number = r.first + written.length) :
    (written ++ [h]).map Heading.number = List.range' r.first (written ++ [h]).length := by
  rw [List.map_append, numbers, List.length_append, List.length_singleton, List.range'_1_concat,
    ← next, List.map_singleton]

theorem start {tokens : List Token} (same : r.tokens = tokens.takeWhile (·.kind != .finish)) :
    Progress r [] (Pass.start tokens r.first) (Pass.start tokens r.second) := by
  refine ⟨rfl, Twins.resume ?_ (same ▸ List.suffix_refl _)⟩
  constructor
  case chunk => exact ⟨rfl, .nil, .nil, List.forall_mem_nil _, List.forall_mem_nil _⟩
  case within => exact List.nil_suffix
  case known => exact fun real => absurd rfl real
  case excused => exact List.forall_mem_nil _
  all_goals rfl

theorem recover (progress : Progress r written p q) : Progress r written p.recover q.recover :=
  ⟨progress.numbers, progress.twins.recover⟩

/-- A statement is the header of one loop at most. -/
theorem statement (bound : Nat) (progress : Progress r written p q) :
    Progress r (written ++ (readWithin bound p).2.toList) (statementWithin bound p).1
        (statementWithin bound q).1 ∧
      Forall₂ (OpenLoop.Twins r) (statementWithin bound p).2.toList
        (statementWithin bound q).2.toList := by
  have read := progress.twins.readWithin bound
  rw [statementWithin_eq, statementWithin_eq]
  generalize readWithin bound p = one at read ⊢
  generalize readWithin bound q = two at read ⊢
  cases read with
  | statement twins =>
    refine ⟨?_, .nil⟩
    rw [Option.toList_none, List.append_nil]
    exact ⟨progress.numbers, twins⟩
  | @loop p q h counterpart twins headings =>
    -- the next number is new, so no label of this loop has been written before
    have numbers := append progress.numbers headings.first
    have fresh : ((written ++ [h]).flatMap Heading.labels).Nodup := by
      refine Heading.labels_nodup ?_
      rw [numbers]
      exact List.nodup_range' _
    rw [List.flatMap_append, List.flatMap_singleton, Heading.labels, headings.first] at fresh
    have wrote := twins.emitLoop headings.parts headings.starts headings.exits fresh
    rw [← headings.first, ← headings.second] at wrote
    refine ⟨⟨numbers, ?_⟩, .cons ⟨⟨_, headings.first, headings.second⟩, headings.exit⟩ .nil⟩
    rw [Option.toList_some, List.length_append, List.flatMap_append, List.flatMap_singleton]
    dsimp only [writeBlocks]
    rw [headings.start, headings.exit]
    exact wrote

theorem declaration (progress : Progress r written p q) :
    Progress r (written ++ p.heading?.toList) p.declaration.1 q.declaration.1 ∧
      Forall₂ (OpenLoop.Twins r) p.declaration.2.toList q.declaration.2.toList := by
  unfold Pass.declaration heading?
  rw [progress.twins.sees_eq, progress.twins.sees_eq]
  by_cases blank : (p.sees .newline || p.sees .divider) = true
  · rw [if_pos blank, if_pos blank, if_pos blank, Option.toList_none, List.append_nil]
    exact ⟨⟨progress.numbers, progress.twins.advance⟩, .nil⟩
  · obtain ⟨stated, opened⟩ := progress.statement p.left
    rw [if_neg blank, if_neg blank, if_neg blank, Pass.statement, Pass.statement,
      progress.twins.left_eq]
    generalize statementWithin p.left p = one at stated opened ⊢
    generalize statementWithin p.left q = two at stated opened ⊢
    obtain ⟨u, a⟩ := one
    obtain ⟨v, b⟩ := two
    cases a with
    | none =>
      cases b with
      | none => exact ⟨stated.recover, .nil⟩
      | some => cases opened
    | some =>
      cases b with
      | none => cases opened
      | some => exact ⟨stated, opened⟩

theorem closeLoop {a b : OpenLoop} (loops : a.Twins r b) (progress : Progress r written p q) :
    Progress r written (p.closeLoop a) (q.closeLoop b) := by
  obtain ⟨loop, first, second⟩ := loops.numbers
  unfold Pass.closeLoop
  rw [first, second]
  exact ⟨progress.numbers, progress.twins.emitGoto (.label _ _ _ _)⟩

/-- The loops get the numbers that follow, in the order of their headers. -/
theorem declarations (bound : Nat) {loops others : List OpenLoop}
    (opened : Forall₂ (OpenLoop.Twins r) loops others) (progress : Progress r written p q) :
    Progress r (written ++ headings bound loops p) (Pass.declarations bound loops p)
      (Pass.declarations bound others q) := by
  -- the loops that are open have their numbers already, so only a header makes the list grow
  induction bound generalizing loops others written p q with
  | zero =>
    rw [headings, List.append_nil]
    exact progress
  | succ bound ih =>
    obtain ⟨declared, more⟩ := progress.declaration
    cases opened with
    | nil =>
      unfold Pass.declarations headings
      dsimp only
      rw [progress.twins.atEnd_eq]
      by_cases finished : p.atEnd = true
      · rw [if_pos finished, if_pos finished, if_pos finished, List.append_nil]
        exact ⟨progress.numbers, progress.twins.advance⟩
      · rw [if_neg finished, if_neg finished, if_neg finished, ← List.append_assoc]
        exact ih more declared
    | @cons a b outer enclosing here around =>
      have exit : q.seesExit b = p.seesExit a := by
        unfold seesExit
        rw [progress.twins.seesLabel_eq, progress.twins.current_eq, here.exit]
      unfold Pass.declarations headings
      dsimp only
      rw [exit, progress.twins.atEnd_eq, here.exit]
      by_cases leaving : p.seesExit a = true
      · rw [if_pos leaving, if_pos leaving, if_pos leaving]
        exact ih around (progress.closeLoop here).recover
      · rw [if_neg leaving, if_neg leaving, if_neg leaving]
        by_cases finished : p.atEnd = true
        · rw [if_pos finished, if_pos finished, if_pos finished]
          exact ih around ⟨progress.numbers, (progress.twins.complainHere _ rfl).recover⟩
        · rw [if_neg finished, if_neg finished, if_neg finished, ← List.append_assoc]
          exact ih (List.rel_append more (.cons here around)) declared

theorem program (progress : Progress r [] p q) :
    Progress r (headings (2 * p.left + 1) [] p) p.program q.program := by
  have read := progress.declarations (2 * p.left + 1) .nil
  unfold Pass.program
  rw [progress.twins.left_eq]
  exact ⟨read.numbers, read.twins.emit _⟩

end Pass.Progress

/-! ## Scripts -/

namespace Compiler

/-- A pass over a whole script. -/
def pass (compiler : Compiler) (source : String) : Pass :=
  (Pass.start ((Token.scanThrough compiler.substitutions source).map (·.token))
    compiler.loopCount).program

/-- The loops of scripts that are compiled one after the other, each with its own substitutions. -/
def history : Compiler → List (List Substitution × String) → List Heading
  | _, [] => []
  | compiler, (substitutions, source) :: rest =>
    { compiler with substitutions }.headings source ++
      history ({ compiler with substitutions }.compile source).1 rest

theorem pass_progress (compiler : Compiler) (source : String) (r : Renumbering)
    (tokens : r.tokens = compiler.tokens source) (first : r.first = compiler.loopCount) :
    Pass.Progress r (compiler.headings source) (compiler.pass source)
      ({ compiler with loopCount := r.second }.pass source) := by
  unfold headings pass
  rw [← first]
  exact (Pass.Progress.start tokens).program

/-- What is shown of twins holds of one pass. -/
theorem pass_alone (compiler : Compiler) (source : String) :
    Pass.Progress ⟨compiler.tokens source, compiler.loopCount, compiler.loopCount, Or.inl rfl⟩
      (compiler.headings source) (compiler.pass source) (compiler.pass source) :=
  compiler.pass_progress source _ rfl rfl

theorem loopCount_compile (compiler : Compiler) (source : String) :
    (compiler.compile source).1.loopCount =
      compiler.loopCount + (compiler.headings source).length :=
  (compiler.pass_alone source).twins.first

/-- No number is used twice, however many scripts are compiled. -/
theorem history_numbers (compiler : Compiler) (units : List (List Substitution × String)) :
    (compiler.history units).map Heading.number =
      List.range' compiler.loopCount (compiler.history units).length := by
  induction units generalizing compiler with
  | nil => rfl
  | cons unit rest ih =>
    obtain ⟨substitutions, source⟩ := unit
    have numbers := (pass_alone { compiler with substitutions } source).numbers
    rw [history, List.map_append, List.length_append, ih, loopCount_compile, numbers,
      List.range'_append_1]

theorem compile_result (compiler : Compiler) (source : String) :
    (compiler.compile source).2 =
      if (compiler.pass source).diagnostics.isEmpty then .ok (compiler.pass source).chunk.finalize
      else .error (compiler.pass source).diagnostics := rfl

theorem diagnostics_of_error {compiler : Compiler} {source : String} {diagnostics : List Diagnostic}
    (failed : (compiler.compile source).2 = .error diagnostics) :
    (compiler.pass source).diagnostics = diagnostics := by
  rw [compile_result] at failed
  split at failed
  · cases failed
  · exact Except.error.inj failed

/-- Generated labels never collide. A label tells which block of which loop it belongs to, and no
two loops have the same number, in however many scripts, with mistakes or without. So whatever
script is compiled, its chunk has the generated labels and those that the script declares itself,
and only the latter can be defined twice. -/
theorem block_labels_never_collide :
    (∀ (block other : LoopBlock) (n m i j k l : Nat), block.label n i k = other.label m j l →
      block = other ∧ n = m ∧ i = j ∧ k = l) ∧
    ∀ compiler : Compiler,
      (∀ units : List (List Substitution × String),
        ((compiler.history units).map Heading.number).Nodup ∧
          ((compiler.history units).flatMap Heading.labels).Nodup) ∧
      ∀ source : String,
        (compiler.compile source).1.loopCount =
          compiler.loopCount + (compiler.headings source).length ∧
        (∀ name ∈ (compiler.pass source).chunk.labels.map Prod.fst,
          Token.Declares (compiler.tokens source) name ∨
            name ∈ (compiler.headings source).flatMap Heading.labels) ∧
        (∀ name ∈ (compiler.headings source).flatMap Heading.labels,
          name ∈ (compiler.pass source).chunk.labels.map Prod.fst) ∧
        ∀ diagnostics, (compiler.compile source).2 = .error diagnostics → ∀ d ∈ diagnostics,
          ∀ name, d.complaint = .chunk (.duplicateLabel name) →
            Token.Declares (compiler.tokens source) name := by
  refine ⟨fun _ _ _ _ _ _ _ _ => LoopBlock.label_inj, fun compiler => ⟨fun units => ?_, ?_⟩⟩
  · have numbers : ((compiler.history units).map Heading.number).Nodup := by
      rw [compiler.history_numbers units]
      exact List.nodup_range' _
    exact ⟨numbers, Heading.labels_nodup numbers⟩
  · intro source
    have twins := (compiler.pass_alone source).twins
    refine ⟨compiler.loopCount_compile source, ?_, twins.chunk.labels.marked, ?_⟩
    · intro name present
      obtain ⟨label, member, rfl⟩ := List.mem_map.mp present
      exact twins.chunk.labels.known label member
    · intro diagnostics failed d member name about
      obtain rfl : (compiler.pass source).diagnostics = diagnostics := diagnostics_of_error failed
      exact twins.excused d member name (about ▸ rfl)

/-- A loop whose start label is declared once more in its body. -/
def restarted : String :=
  "\n".intercalate ["\x7b0 (1) 2 . => 'i\x7d in, out", "in...", "out..."]

theorem block_labels_never_collide_on_restarted :
    let compiler : Compiler := {}
    let diagnostic : Diagnostic := ⟨2, .token "...", .chunk (.duplicateLabel "in")⟩
    ((compiler.compile restarted).2 = .error [diagnostic] ∧
      Token.Declares (compiler.tokens restarted) "in") ∧
    (compiler.history [([], restarted), ([], restarted)]).length = 2 ∧
      ((compiler.history [([], restarted), ([], restarted)]).flatMap Heading.labels).Nodup := by
  intro compiler diagnostic
  obtain ⟨_, collide⟩ := block_labels_never_collide
  obtain ⟨apart, blame⟩ := collide compiler
  have complains : (compiler.pass restarted).diagnostics = [diagnostic] := by decide +kernel
  have failed : (compiler.compile restarted).2 = .error [diagnostic] := by
    rw [compile_result, complains]
    rfl
  have blamed := (blame restarted).2.2.2 _ failed diagnostic (List.mem_singleton_self _) "in" rfl
  have loops : (compiler.history [([], restarted), ([], restarted)]).length = 2 := by decide +kernel
  exact ⟨⟨failed, blamed⟩, loops, (apart _).2⟩

end Compiler

end Cellscript
