import Cellscript.Proofs.Acceptance.Expressions
import Cellscript.Proofs.Compile.Recovery

/-!
Every spelled header of a loop is read, and its blocks are written. Each expression of the header is
compiled apart first; that there is room for it follows from its being copied into a block.
-/

set_option autoImplicit false

namespace Cellscript

open List (Forall₂)

/-! ## The expressions of a header -/

def Ending.expression : Ending → Expression
  | value target => target
  | condition predicate => predicate

def Part.expressions (part : Part) : List Expression :=
  part.init :: part.step :: part.finish.expression :: part.parameters

theorem ParametersSpelled.ne_nil {ts : List Token} {es : List Expression}
    (spelled : ParametersSpelled ts es) : es ≠ [] := by
  cases spelled <;> simp

theorem PartsSpelled.driven {ts : List Token} {parts : List Part}
    (spelled : PartsSpelled ts parts) : ∀ part ∈ parts, part.parameters ≠ [] := by
  induction spelled with
  | last spelled =>
    intro part member
    rw [List.mem_singleton.mp member]
    cases spelled with
    | part _ _ _ _ _ _ _ driven => exact driven.ne_nil
  | more spelled _ _ ih =>
    intro part member
    rcases List.mem_cons.mp member with rfl | later
    · cases spelled with
      | part _ _ _ _ _ _ _ driven => exact driven.ne_nil
    · exact ih part later

namespace Header

variable {header : Header} {part : Part} {e : Expression}

theorem link_of_parameter (member : part ∈ header.parts) (parameter : e ∈ part.parameters) :
    ∃ l ∈ header.links, l.source = part ∧ l.parameter = e := by
  obtain ⟨i, found⟩ := List.mem_iff_getElem?.mp member
  obtain ⟨j, place⟩ := List.mem_iff_getElem?.mp parameter
  refine ⟨⟨i, j, part, e⟩, ?_, rfl, rfl⟩
  refine List.mem_flatMap.mpr ⟨(part, i), List.mk_mem_zipIdx_iff_getElem?.mpr found, ?_⟩
  exact List.mem_map.mpr ⟨(e, j), List.mk_mem_zipIdx_iff_getElem?.mpr place, rfl⟩

/-- Every expression of a header is copied into a block. -/
theorem code_of_expression (member : part ∈ header.parts) (driven : part.parameters ≠ [])
    (mentioned : e ∈ part.expressions) (number : Nat) : e.code ⊆ header.code number := by
  have block : ∀ parameter ∈ part.parameters, ∃ l ∈ header.links, l.source = part ∧
      l.parameter = parameter ∧ l.init number ⊆ header.code number ∧
      l.incr number ⊆ header.code number ∧ l.cond number header.exit ⊆ header.code number := by
    intro parameter inside
    obtain ⟨l, linked, source, same⟩ := link_of_parameter member inside
    refine ⟨l, linked, source, same, fun line stands => ?_, fun line stands => ?_,
      fun line stands => ?_⟩ <;> simp only [code, initLines, incrLines, condLines, List.mem_append,
        List.mem_flatMap]
    · exact Or.inl (Or.inl (Or.inl (Or.inl ⟨l, linked, stands⟩)))
    · exact Or.inl (Or.inl (Or.inr ⟨l, linked, stands⟩))
    · exact Or.inl (Or.inr (Or.inl ⟨l, linked, stands⟩))
  obtain ⟨parameter, inside⟩ := List.exists_mem_of_ne_nil _ driven
  obtain ⟨l, _, rfl, _, init, incr, cond⟩ := block parameter inside
  simp only [Part.expressions, List.mem_cons] at mentioned
  rcases mentioned with rfl | rfl | rfl | parameter
  · exact fun line stands => init (by simp [Link.init, stands])
  · exact fun line stands => incr (by simp [Link.incr, stands])
  · intro line stands
    apply cond
    cases finish : l.source.finish with
    | value target =>
      rw [finish] at stands
      have stands : line ∈ target.code := stands
      simp [Link.cond, Link.test, finish, stands]
    | condition predicate =>
      rw [finish] at stands
      have stands : line ∈ predicate.code := stands
      simp [Link.cond, Link.test, finish, stands]
  · obtain ⟨l, _, _, rfl, init, _⟩ := block e parameter
    exact fun line stands => init (by simp [Link.init, stands])

end Header

namespace Pass

/-! ## Reading the header -/

section Reading

variable {p : Pass} {ts rest : List Token} {more : List Line}

theorem loopParameter_proceeds {quote : Token} {e : Expression} (ready : p.Ready more)
    (writable : Writable e.code) (ahead : p.ahead = quote :: ts ++ rest)
    (kind : quote.kind = .quote) (spelled : e.Spelled .unary ts) :
    p.Proceeds (quote :: ts) 0 [] p.loopParameter.1 more ∧ p.loopParameter.2.Realizes e := by
  obtain ⟨passed, _⟩ := expect_proceeds ready ahead kind .parameterQuote
  have room : Ready { p.expect .quote .parameterQuote with chunk := {} } (e.code ++ []) := by
    rw [List.append_nil]
    exact passed.ready.empty writable
  obtain ⟨read, realizes⟩ := apart_proceeds passed.ready
    (address_proceeds room (passed.ahead ahead) spelled)
  exact ⟨passed.trans read, realizes⟩

/-- A chain of parameters. -/
theorem parameters_proceed {es : List Expression} (spelled : ParametersSpelled ts es) {bound : Nat}
    (ready : p.Ready more) (writable : ∀ e ∈ es, Writable e.code) (ahead : p.ahead = ts ++ rest)
    (ends : kindAhead rest ≠ .equalGreater) (small : p.loopParameter.1.left ≤ bound) :
    p.Proceeds ts 0 [] (moreParameters bound p.loopParameter.1).1 more ∧
      Forall₂ Chunk.Realizes (p.loopParameter.2 :: (moreParameters bound p.loopParameter.1).2)
        es := by
  induction spelled generalizing p bound with
  | @last quote ts e kind address =>
    obtain ⟨read, realizes⟩ := loopParameter_proceeds ready (writable e (List.mem_singleton_self e))
      ahead kind address
    have last : ¬ p.loopParameter.1.sees .equalGreater = true := by
      rw [sees_iff, read.ahead ahead]
      exact ends
    have none : moreParameters bound p.loopParameter.1 = (p.loopParameter.1, []) := by
      cases bound with
      | zero => rw [moreParameters]
      | succ bound => rw [moreParameters, if_neg last]
    rw [none]
    exact ⟨read, .cons realizes .nil⟩
  | @more quote arrow ts us e es kind address linked others ih =>
    have tokens : p.ahead = quote :: ts ++ (arrow :: (us ++ rest)) := by simpa using ahead
    obtain ⟨read, realizes⟩ := loopParameter_proceeds ready (writable e List.mem_cons_self) tokens
      kind address
    have next := read.ahead tokens
    have seen : p.loopParameter.1.sees .equalGreater = true := by
      rw [sees_iff, next]
      exact linked
    obtain ⟨passed, _⟩ := advance_proceeds read.ready next
    have shorter := passed.left_lt
    obtain ⟨bound, rfl⟩ := Nat.exists_eq_succ_of_ne_zero (by omega : bound ≠ 0)
    have less : p.loopParameter.1.advance.loopParameter.1.left ≤ bound := by
      have suffix := (shortening.loopParameter p.loopParameter.1.advance).length_le
      unfold left at shorter small ⊢
      omega
    obtain ⟨chain, realized⟩ := ih passed.ready
      (fun other member => writable other (List.mem_cons_of_mem e member)) (passed.ahead next) less
    rw [moreParameters, if_pos seen]
    refine ⟨?_, .cons realizes realized⟩
    simpa using read.trans (passed.trans chain)

theorem loopEnd_proceeds {finish : Ending} (spelled : finish.Spelled ts) (ready : p.Ready more)
    (writable : Writable finish.expression.code) (ahead : p.ahead = ts ++ rest)
    (delimits : Delimits rest) :
    p.Proceeds ts 0 [] p.loopEnd.1 more ∧ p.loopEnd.2.Realizes finish := by
  unfold loopEnd
  cases spelled with
  | value spelled =>
    have bare : ¬ p.sees .leftCurly = true := by
      rw [sees_iff, ahead]
      intro brace
      have starts := spelled.starts rest
      rw [brace] at starts
      cases starts
    rw [if_neg bare]
    exact apart_expression_proceeds ready writable ahead spelled delimits
  | @condition opening closing us predicate opened spelled closed =>
    have tokens : p.ahead = opening :: (us ++ (closing :: rest)) := by simpa using ahead
    have brace : p.sees .leftCurly = true := by
      rw [sees_iff, tokens]
      exact opened
    obtain ⟨passed, _⟩ := advance_proceeds ready tokens
    have inside := passed.ahead tokens
    obtain ⟨read, realizes⟩ := apart_expression_proceeds passed.ready writable inside spelled
      (.of_kind closed rfl nofun)
    obtain ⟨ended, _⟩ := expect_proceeds read.ready (read.ahead inside) closed .predicateClosing
    rw [if_pos brace]
    refine ⟨?_, realizes⟩
    simpa using passed.trans (read.trans ended)

theorem part_proceeds {part : Part} (spelled : part.Spelled ts) (ready : p.Ready more)
    (writable : ∀ e ∈ part.expressions, Writable e.code) (ahead : p.ahead = ts ++ rest)
    (ends : kindAhead rest ≠ .equalGreater) :
    (p.apart expression).1.sees .leftParen = true ∧
      p.Proceeds ts 0 [] ((p.apart expression).1.loopPart (p.apart expression).2).1 more ∧
      ((p.apart expression).1.loopPart (p.apart expression).2).2.Realizes part := by
  cases spelled with
  | @part opening closing dot arrow us vs ws xs init step finish parameters starts opened steps
      closed stops dotted linked driven =>
    simp only [Part.expressions, List.mem_cons, forall_eq_or_imp] at writable
    obtain ⟨initRoom, stepRoom, finishRoom, parametersRoom⟩ := writable
    have tokens : p.ahead =
        us ++ (opening :: (vs ++ (closing :: (ws ++ (dot :: arrow :: (xs ++ rest)))))) := by
      simpa using ahead
    unfold loopPart
    dsimp only
    obtain ⟨start, realizesInit⟩ := apart_expression_proceeds ready initRoom tokens starts
      (.of_kind opened rfl nofun)
    generalize p.apart expression = started at start realizesInit ⊢
    have atStep := start.ahead tokens
    obtain ⟨stepOpened, _⟩ := expect_proceeds start.ready atStep opened .stepOpening
    have inStep := stepOpened.ahead atStep
    obtain ⟨stepRead, realizesStep⟩ := apart_expression_proceeds stepOpened.ready stepRoom inStep
      steps (.of_kind closed rfl nofun)
    generalize (started.1.expect .leftParen .stepOpening).apart expression = stepped
      at stepRead realizesStep ⊢
    have afterStep := stepRead.ahead inStep
    obtain ⟨stepClosed, _⟩ := expect_proceeds stepRead.ready afterStep closed .stepClosing
    have atEnd := stepClosed.ahead afterStep
    obtain ⟨endRead, realizesEnd⟩ := loopEnd_proceeds stops stepClosed.ready finishRoom atEnd
      (.of_kind dotted rfl nofun)
    generalize (stepped.1.expect .rightParen .stepClosing).loopEnd = ended at endRead realizesEnd ⊢
    have afterEnd := endRead.ahead atEnd
    obtain ⟨dotRead, _⟩ := expect_proceeds endRead.ready afterEnd dotted .endDot
    have atArrow := dotRead.ahead afterEnd
    obtain ⟨arrowRead, _⟩ := expect_proceeds dotRead.ready atArrow linked .parameterArrow
    obtain ⟨chain, realized⟩ := parameters_proceed driven arrowRead.ready parametersRoom
      (arrowRead.ahead atArrow) ends (Nat.le_refl _)
    have head := start.trans (stepOpened.trans (stepRead.trans stepClosed))
    have tail := endRead.trans (dotRead.trans (arrowRead.trans chain))
    refine ⟨?_, ?_, ⟨realizesInit, realizesStep, realizesEnd, realized⟩⟩
    · rw [sees_iff, atStep]
      exact opened
    · simpa using head.trans tail

/-- All parts of a header, from the start value of the first on. -/
theorem parts_proceed {parts : List Part} (spelled : PartsSpelled ts parts) {bound : Nat}
    (ready : p.Ready more) (writable : ∀ part ∈ parts, ∀ e ∈ part.expressions, Writable e.code)
    (ahead : p.ahead = ts ++ rest) (ends : kindAhead rest = .rightCurly) {first : Pass × LoopPart}
    (reading : (p.apart expression).1.loopPart (p.apart expression).2 = first)
    (small : first.1.left ≤ bound) :
    (p.apart expression).1.sees .leftParen = true ∧
      p.Proceeds ts 0 [] (moreParts bound first.1).1 more ∧
      Forall₂ LoopPart.Realizes (first.2 :: (moreParts bound first.1).2) parts := by
  induction spelled generalizing p bound first with
  | @last ts part spelled =>
    obtain ⟨paren, read, realizes⟩ := part_proceeds spelled ready
      (writable part (List.mem_singleton_self part)) ahead (by rw [ends]; nofun)
    rw [reading] at read realizes
    have last : ¬ first.1.sees .divider = true := by
      rw [sees_iff, read.ahead ahead, ends]
      nofun
    have none : moreParts bound first.1 = (first.1, []) := by
      cases bound with
      | zero => rw [moreParts]
      | succ bound => rw [moreParts, if_neg last]
    rw [none]
    exact ⟨paren, read, .cons realizes .nil⟩
  | @more divider ts us part parts spelled kind others ih =>
    have tokens : p.ahead = ts ++ (divider :: (us ++ rest)) := by simpa using ahead
    obtain ⟨paren, read, realizes⟩ := part_proceeds spelled ready
      (writable part List.mem_cons_self) tokens (by rw [kindAhead_cons, kind]; nofun)
    rw [reading] at read realizes
    have next := read.ahead tokens
    have seen : first.1.sees .divider = true := by
      rw [sees_iff, next]
      exact kind
    obtain ⟨passed, _⟩ := advance_proceeds read.ready next
    have shorter := passed.left_lt
    obtain ⟨bound, rfl⟩ := Nat.exists_eq_succ_of_ne_zero (by omega : bound ≠ 0)
    generalize following : (first.1.advance.apart expression).1.loopPart
      (first.1.advance.apart expression).2 = second at ih
    have less : second.1.left ≤ bound := by
      have start := (shortening.apart shortening.expression first.1.advance).length_le
      have whole := (shortening.loopPart (first.1.advance.apart expression).1
        (first.1.advance.apart expression).2).length_le
      rw [following] at whole
      unfold left at shorter small ⊢
      omega
    obtain ⟨_, chain, realized⟩ := ih passed.ready
      (fun other member => writable other (List.mem_cons_of_mem part member)) (passed.ahead next)
      following less
    rw [moreParts, if_pos seen]
    simp only [following]
    refine ⟨paren, ?_, .cons realizes realized⟩
    simpa using read.trans (passed.trans chain)

end Reading

/-! ## Writing the blocks -/

section Links

variable {p : Pass} {number : Nat} {l : LoopLink} {tree : Link} {more : List Line}

theorem emitInit_proceeds (ready : p.Ready (tree.init number ++ more))
    (realizes : l.Realizes tree) :
    p.Proceeds [] 0 (tree.init number) (emitInit number p l) more := by
  simp only [Link.init, Link.mark, List.cons_append, List.append_assoc, ← realizes.part,
    ← realizes.link] at ready ⊢
  have mark := defineLabel_proceeds ready
  have value := splice_proceeds mark.ready realizes.source.init
  have parameter := splice_proceeds value.ready realizes.parameter
  have written := emitAll_proceeds parameter.ready (by decide)
  exact mark.trans (value.trans (parameter.trans written))

theorem emitIncr_proceeds (ready : p.Ready (tree.incr number ++ more))
    (realizes : l.Realizes tree) :
    p.Proceeds [] 0 (tree.incr number) (emitIncr number p l) more := by
  simp only [Link.incr, Link.mark, List.cons_append, List.append_assoc, ← realizes.part,
    ← realizes.link] at ready ⊢
  have mark := defineLabel_proceeds ready
  have target := splice_proceeds mark.ready realizes.parameter
  have again := splice_proceeds target.ready realizes.parameter
  have read := emit_proceeds again.ready rfl
  have step := splice_proceeds read.ready realizes.source.step
  have written := emitAll_proceeds step.ready (by decide)
  exact mark.trans (target.trans (again.trans (read.trans (step.trans written))))

theorem emitTest_proceeds (ready : p.Ready (tree.test ++ more)) (realizes : l.Realizes tree) :
    p.Proceeds [] 0 tree.test (p.emitTest l) more := by
  have ends := realizes.source.finish
  unfold emitTest
  unfold Link.test at ready ⊢
  revert ready ends
  cases l.source.finish <;> cases tree.source.finish <;> intro ready ends <;>
    dsimp only [LoopEnd.Realizes] at ends ready ⊢
  · simp only [List.append_assoc] at ready ⊢
    have read := splice_proceeds ready realizes.parameter
    have held := emit_proceeds read.ready rfl
    have compared := splice_proceeds held.ready ends
    have written := emitAll_proceeds compared.ready (by decide)
    exact read.trans (held.trans (compared.trans written))
  · exact splice_proceeds ready ends

theorem emitCond_proceeds {exit : String} (ready : p.Ready (tree.cond number exit ++ more))
    (realizes : l.Realizes tree) :
    p.Proceeds [] 0 (tree.cond number exit) (emitCond number exit p l) more := by
  simp only [Link.cond, Link.mark, List.cons_append, List.append_assoc, ← realizes.part,
    ← realizes.link] at ready ⊢
  have mark := defineLabel_proceeds ready
  have test := emitTest_proceeds mark.ready realizes
  have label := emitConstant_proceeds test.ready
  have leave := emit_proceeds label.ready rfl
  exact mark.trans (test.trans (label.trans leave))

end Links

theorem foldl_proceeds {write : Pass → LoopLink → Pass} {lines : Link → List Line}
    (step : ∀ {p : Pass} {l : LoopLink} {tree : Link} {more : List Line},
      p.Ready (lines tree ++ more) → l.Realizes tree →
      p.Proceeds [] 0 (lines tree) (write p l) more)
    {links : List LoopLink} {trees : List Link} (realized : Forall₂ LoopLink.Realizes links trees)
    {p : Pass} {more : List Line} (ready : p.Ready (trees.flatMap lines ++ more)) :
    p.Proceeds [] 0 (trees.flatMap lines) (links.foldl write p) more := by
  induction realized generalizing p with
  | nil => exact .refl ready
  | cons realizes _ ih =>
    rw [List.flatMap_cons, List.append_assoc] at ready
    have first := step ready realizes
    exact first.trans (ih first.ready)

theorem emitLoop_proceeds {p : Pass} {number : Nat} {sources : List LoopPart} {header : Header}
    {more : List Line} (realized : Forall₂ LoopPart.Realizes sources header.parts)
    (ready : p.Ready (header.code number ++ more)) :
    p.Proceeds [] 0 (header.code number) (p.emitLoop number sources header.start header.exit)
      more := by
  have links := LoopLink.all_realizes realized
  simp only [Header.code, Header.initLines, Header.incrLines, Header.condLines,
    List.append_assoc] at ready ⊢
  have init := foldl_proceeds emitInit_proceeds links ready
  have enter := emitGoto_proceeds init.ready
  have incr := foldl_proceeds emitIncr_proceeds links enter.ready
  have cond := foldl_proceeds emitCond_proceeds links incr.ready
  have again := emitGoto_proceeds cond.ready
  have mark := defineLabel_proceeds again.ready
  exact init.trans (enter.trans (incr.trans (cond.trans (again.trans mark))))

end Pass

end Cellscript
