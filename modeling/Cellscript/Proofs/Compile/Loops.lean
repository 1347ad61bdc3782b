import Cellscript.Proofs.Compile.Expressions
import Mathlib.Data.List.Forall2

/-!
The header of a loop that is read without complaint, and the blocks that are written for it.
-/

set_option autoImplicit false

namespace Cellscript

open List (Forall₂)

/-- The code that was written apart for an expression. -/
def Chunk.Realizes (c : Chunk) (e : Expression) : Prop := c.Assembles e.code

def LoopEnd.Realizes : LoopEnd → Ending → Prop
  | .value target, .value e => target.Realizes e
  | .condition predicate, .condition e => predicate.Realizes e
  | _, _ => False

structure LoopPart.Realizes (source : LoopPart) (part : Part) : Prop where
  init : source.init.Realizes part.init
  step : source.step.Realizes part.step
  finish : source.finish.Realizes part.finish
  parameters : Forall₂ Chunk.Realizes source.parameters part.parameters

structure LoopLink.Realizes (l : LoopLink) (tree : Link) : Prop where
  part : l.part = tree.part
  link : l.link = tree.link
  source : l.source.Realizes tree.source
  parameter : l.parameter.Realizes tree.parameter

namespace Pass

/-! ## Reading the header -/

theorem loopParameter_wrote {p : Pass} (honest : p.Honest)
    (quiet : p.loopParameter.1.diagnostics = []) :
    ∃ quote ts e, quote.kind = .quote ∧ Expression.Spelled .unary ts e ∧
      p.Wrote (quote :: ts) 0 [] p.loopParameter.1 ∧ p.loopParameter.2.Realizes e := by
  have quoteQuiet := (heeding.apart heeding.address _).quiet quiet
  have quoteHonest := (heeding.expect p .quote .parameterQuote).honest honest
  obtain ⟨quote, kind, read, _⟩ := expect_wrote honest .quote .parameterQuote quoteQuiet (by decide)
  obtain ⟨ts, e, spelled, wrote⟩ := address_wrote
    (p := { p.expect .quote .parameterQuote with chunk := {} }) quoteHonest quiet
  obtain ⟨passed, assembled⟩ := apart_wrote wrote
  exact ⟨quote, ts, e, kind, spelled, read.trans passed, assembled⟩

theorem moreParameters_wrote {p : Pass} (honest : p.Honest) {bound : Nat}
    (quiet : (moreParameters bound p).1.diagnostics = []) :
    ∃ ts es, p.Wrote ts 0 [] (moreParameters bound p).1 ∧
      Forall₂ Chunk.Realizes (moreParameters bound p).2 es ∧
      ∀ {quote : Token} {us : List Token} {e : Expression}, quote.kind = .quote →
        Expression.Spelled .unary us e → ParametersSpelled (quote :: (us ++ ts)) (e :: es) := by
  induction bound generalizing p with
  | zero =>
    refine ⟨[], [], .refl p, .nil, fun kind spelled => ?_⟩
    rw [List.append_nil]
    exact .last kind spelled
  | succ bound ih =>
    unfold moreParameters at quiet ⊢
    by_cases seen : p.sees .equalGreater = true
    · rw [if_pos seen] at quiet ⊢
      have arrowHonest := (heeding.advance p).honest honest
      have parameterQuiet := (heeding.moreParameters bound _).quiet quiet
      have arrowQuiet := (heeding.loopParameter _).quiet parameterQuiet
      obtain ⟨arrow, rest, ahead, linked⟩ := ahead_of_sees seen (by decide)
      have passed := (advance_wrote honest arrowQuiet ahead).1
      obtain ⟨quote, ts, e, kind, spelled, wrote, assembled⟩ :=
        loopParameter_wrote arrowHonest parameterQuiet
      obtain ⟨us, es, others, realized, chain⟩ :=
        ih ((heeding.loopParameter _).honest arrowHonest) quiet
      refine ⟨arrow :: quote :: (ts ++ us), e :: es, ?_, .cons assembled realized, ?_⟩
      · simpa using (passed.trans wrote).trans others
      · intro first vs other firstKind firstSpelled
        exact .more firstKind firstSpelled linked (chain kind spelled)
    · rw [if_neg seen] at quiet ⊢
      refine ⟨[], [], .refl p, .nil, fun kind spelled => ?_⟩
      rw [List.append_nil]
      exact .last kind spelled

theorem loopEnd_wrote {p : Pass} (honest : p.Honest) (quiet : p.loopEnd.1.diagnostics = []) :
    ∃ ts finish, Ending.Spelled ts finish ∧ p.Wrote ts 0 [] p.loopEnd.1 ∧
      p.loopEnd.2.Realizes finish := by
  unfold loopEnd at quiet ⊢
  by_cases seen : p.sees .leftCurly = true
  · rw [if_pos seen] at quiet ⊢
    have leftHonest := (heeding.advance p).honest honest
    have asked := (heeding.expect _ _ _).quiet quiet
    have leftQuiet := (heeding.apart heeding.expression _).quiet asked
    obtain ⟨left, rest, ahead, opened⟩ := ahead_of_sees seen (by decide)
    have passed := (advance_wrote honest leftQuiet ahead).1
    obtain ⟨ts, e, spelled, wrote, assembled⟩ := apart_expression leftHonest asked
    obtain ⟨right, closed, ended, _⟩ := expect_wrote
      ((heeding.apart heeding.expression _).honest leftHonest) .rightCurly .predicateClosing quiet
      (by decide)
    refine ⟨_, .condition e, .condition opened spelled closed, ?_, assembled⟩
    exact (passed.trans wrote).trans ended
  · rw [if_neg seen] at quiet ⊢
    obtain ⟨ts, e, spelled, wrote, assembled⟩ := apart_expression honest quiet
    exact ⟨ts, .value e, .value spelled, wrote, assembled⟩

theorem loopPart_wrote {p : Pass} (honest : p.Honest) {init : Chunk}
    (quiet : (p.loopPart init).1.diagnostics = []) {ts : List Token} {start : Expression}
    (spelled : Expression.Spelled .reference ts start) (realizes : init.Realizes start) :
    ∃ us part, Part.Spelled (ts ++ us) part ∧ p.Wrote us 0 [] (p.loopPart init).1 ∧
      (p.loopPart init).2.Realizes part := by
  unfold loopPart at quiet ⊢
  dsimp only at quiet ⊢
  generalize stepping : (p.expect .leftParen .stepOpening).apart expression = stepped at quiet ⊢
  generalize ending : (stepped.1.expect .rightParen .stepClosing).loopEnd = ended at quiet ⊢
  generalize dotting : ended.1.expect .dot .endDot = dotted at quiet ⊢
  generalize linking : dotted.expect .equalGreater .parameterArrow = linked at quiet ⊢
  generalize naming : linked.loopParameter = first at quiet ⊢
  have leftHonest := (heeding.expect p .leftParen .stepOpening).honest honest
  have stepHonest : stepped.1.Honest :=
    stepping ▸ (heeding.apart heeding.expression _).honest leftHonest
  have rightHonest := (heeding.expect _ .rightParen .stepClosing).honest stepHonest
  have endHonest : ended.1.Honest := ending ▸ (heeding.loopEnd _).honest rightHonest
  have dotHonest : dotted.Honest := dotting ▸ (heeding.expect _ _ _).honest endHonest
  have linkHonest : linked.Honest := linking ▸ (heeding.expect _ _ _).honest dotHonest
  have firstHonest : first.1.Honest := naming ▸ (heeding.loopParameter _).honest linkHonest
  have firstQuiet := (heeding.moreParameters first.1.left first.1).quiet quiet
  have linkQuiet : linked.diagnostics = [] :=
    (heeding.loopParameter linked).quiet (naming ▸ firstQuiet)
  have dotQuiet : dotted.diagnostics = [] := (heeding.expect _ _ _).quiet (linking ▸ linkQuiet)
  have endQuiet : ended.1.diagnostics = [] := (heeding.expect _ _ _).quiet (dotting ▸ dotQuiet)
  have rightQuiet := (heeding.loopEnd (stepped.1.expect .rightParen .stepClosing)).quiet
    (ending ▸ endQuiet)
  have stepQuiet := (heeding.expect stepped.1 .rightParen .stepClosing).quiet rightQuiet
  have leftQuiet := (heeding.apart heeding.expression (p.expect .leftParen .stepOpening)).quiet
    (stepping ▸ stepQuiet)
  obtain ⟨left, opened, readLeft, _⟩ :=
    expect_wrote honest .leftParen .stepOpening leftQuiet (by decide)
  obtain ⟨us, step, steps, readStep, realizesStep⟩ :=
    apart_expression leftHonest (stepping ▸ stepQuiet)
  obtain ⟨right, closed, readRight, _⟩ :=
    expect_wrote stepHonest .rightParen .stepClosing rightQuiet (by decide)
  obtain ⟨vs, finish, ends, readEnd, realizesEnd⟩ := loopEnd_wrote rightHonest (ending ▸ endQuiet)
  obtain ⟨dot, dotKind, readDot, _⟩ :=
    expect_wrote endHonest .dot .endDot (dotting ▸ dotQuiet) (by decide)
  obtain ⟨arrow, arrowKind, readArrow, _⟩ := expect_wrote dotHonest .equalGreater .parameterArrow
    (linking ▸ linkQuiet) (by decide)
  obtain ⟨quote, ws, e, kind, address, readFirst, realizesFirst⟩ :=
    loopParameter_wrote linkHonest (naming ▸ firstQuiet)
  obtain ⟨xs, es, readRest, realizesRest, chain⟩ := moreParameters_wrote firstHonest quiet
  rw [stepping] at readStep realizesStep
  rw [ending] at readEnd realizesEnd
  rw [dotting] at readDot
  rw [linking] at readArrow
  rw [naming] at readFirst realizesFirst
  refine ⟨_, { init := start, step, finish, parameters := e :: es },
    .part spelled opened steps closed ends dotKind arrowKind (chain kind address), ?_,
    ⟨realizes, realizesStep, realizesEnd, .cons realizesFirst realizesRest⟩⟩
  have head := (readLeft.trans readStep).trans (readRight.trans readEnd)
  have tail := (readDot.trans readArrow).trans (readFirst.trans readRest)
  simpa using head.trans tail

theorem moreParts_wrote {p : Pass} (honest : p.Honest) {bound : Nat}
    (quiet : (moreParts bound p).1.diagnostics = []) :
    ∃ ts parts, p.Wrote ts 0 [] (moreParts bound p).1 ∧
      Forall₂ LoopPart.Realizes (moreParts bound p).2 parts ∧
      ∀ {us : List Token} {part : Part}, Part.Spelled us part →
        PartsSpelled (us ++ ts) (part :: parts) := by
  induction bound generalizing p with
  | zero =>
    refine ⟨[], [], .refl p, .nil, fun spelled => ?_⟩
    rw [List.append_nil]
    exact .last spelled
  | succ bound ih =>
    unfold moreParts at quiet ⊢
    by_cases seen : p.sees .divider = true
    · rw [if_pos seen] at quiet ⊢
      dsimp only at quiet ⊢
      generalize starting : p.advance.apart expression = started at quiet ⊢
      generalize parting : started.1.loopPart started.2 = part at quiet ⊢
      have dividerHonest := (heeding.advance p).honest honest
      have startHonest : started.1.Honest :=
        starting ▸ (heeding.apart heeding.expression _).honest dividerHonest
      have partHonest : part.1.Honest := parting ▸ (heeding.loopPart _ _).honest startHonest
      have partQuiet : part.1.diagnostics = [] := (heeding.moreParts bound _).quiet quiet
      have startQuiet : started.1.diagnostics = [] :=
        (heeding.loopPart started.1 started.2).quiet (parting ▸ partQuiet)
      have dividerQuiet :=
        (heeding.apart heeding.expression p.advance).quiet (starting ▸ startQuiet)
      obtain ⟨divider, rest, ahead, kind⟩ := ahead_of_sees seen (by decide)
      have passed := (advance_wrote honest dividerQuiet ahead).1
      obtain ⟨ts, e, spelled, readStart, realizes⟩ :=
        apart_expression dividerHonest (starting ▸ startQuiet)
      rw [starting] at readStart realizes
      obtain ⟨us, tree, partSpelled, readPart, realizesPart⟩ :=
        loopPart_wrote startHonest (parting ▸ partQuiet) spelled realizes
      rw [parting] at readPart realizesPart
      obtain ⟨vs, trees, readRest, realizesRest, chain⟩ := ih partHonest quiet
      refine ⟨divider :: (ts ++ us ++ vs), tree :: trees, ?_, .cons realizesPart realizesRest, ?_⟩
      · simpa using (passed.trans readStart).trans (readPart.trans readRest)
      · intro ws other otherSpelled
        exact .more otherSpelled kind (chain partSpelled)
    · rw [if_neg seen] at quiet ⊢
      refine ⟨[], [], .refl p, .nil, fun spelled => ?_⟩
      rw [List.append_nil]
      exact .last spelled

end Pass

/-! ## Writing the blocks -/

theorem forall₂_zipIdx {α β : Type} {R : α → β → Prop} {xs : List α} {ys : List β}
    (related : Forall₂ R xs ys) (start : Nat) :
    Forall₂ (fun x y => R x.1 y.1 ∧ x.2 = y.2) (xs.zipIdx start) (ys.zipIdx start) := by
  induction related generalizing start with
  | nil => exact .nil
  | cons head _ ih => exact .cons ⟨head, rfl⟩ (ih (start + 1))

/-- The links of a header come from its parts in the same order. -/
theorem LoopLink.all_realizes {sources : List LoopPart} {header : Header}
    (realized : Forall₂ LoopPart.Realizes sources header.parts) :
    Forall₂ LoopLink.Realizes (LoopLink.all sources) header.links := by
  refine List.rel_flatMap (forall₂_zipIdx realized 0) ?_
  rintro ⟨source, part⟩ ⟨tree, _⟩ ⟨realizes, rfl⟩
  refine List.rel_map ?_ (forall₂_zipIdx realizes.parameters 0)
  rintro ⟨parameter, link⟩ ⟨e, _⟩ ⟨realizesParameter, rfl⟩
  exact ⟨rfl, rfl, realizes, realizesParameter⟩

namespace Pass

theorem splice_realized {p : Pass} (honest : p.Honest) {other : Chunk} {e : Expression}
    (realizes : other.Realizes e) (quiet : (p.splice other).diagnostics = []) :
    p.Wrote [] 0 e.code (p.splice other) :=
  splice_wrote honest realizes e.code_unmarked quiet

section Links

variable {p : Pass} {number : Nat} {l : LoopLink} {tree : Link}

theorem emitInit_wrote (honest : p.Honest) (realizes : l.Realizes tree)
    (quiet : (emitInit number p l).diagnostics = []) :
    p.Wrote [] 0 (tree.init number) (emitInit number p l) := by
  unfold emitInit at quiet ⊢
  dsimp only at quiet ⊢
  generalize marking : p.defineLabel (LoopBlock.init.label number l.part l.link) = marked at quiet ⊢
  have markHonest : marked.Honest := marking ▸ (heeding.defineLabel p _).honest honest
  have valueHonest := (heeding.splice marked l.source.init).honest markHonest
  have parameterQuiet := (heeding.emitAll _ _).quiet quiet
  have valueQuiet := (heeding.splice _ _).quiet parameterQuiet
  have markQuiet := (heeding.splice _ _).quiet valueQuiet
  have mark := defineLabel_wrote honest (marking ▸ markQuiet)
  rw [marking, realizes.part, realizes.link] at mark
  have value := splice_realized markHonest realizes.source.init valueQuiet
  have parameter := splice_realized valueHonest realizes.parameter parameterQuiet
  have written := emitAll_wrote ((marked.splice l.source.init).splice l.parameter)
    [.setPointerInverse, .pop] (by decide)
  simpa [Link.init, Link.mark] using ((mark.trans value).trans parameter).trans written

theorem emitIncr_wrote (honest : p.Honest) (realizes : l.Realizes tree)
    (quiet : (emitIncr number p l).diagnostics = []) :
    p.Wrote [] 0 (tree.incr number) (emitIncr number p l) := by
  unfold emitIncr at quiet ⊢
  dsimp only at quiet ⊢
  generalize marking : p.defineLabel (LoopBlock.incr.label number l.part l.link) = marked at quiet ⊢
  have markHonest : marked.Honest := marking ▸ (heeding.defineLabel p _).honest honest
  have targetHonest := (heeding.splice marked l.parameter).honest markHonest
  have readHonest := ((heeding.splice _ l.parameter).trans (heeding.emit _ .getPointer)).honest
    targetHonest
  have stepQuiet := (heeding.emitAll _ _).quiet quiet
  have readQuiet := (heeding.emit _ _).quiet ((heeding.splice _ _).quiet stepQuiet)
  have targetQuiet := (heeding.splice _ _).quiet readQuiet
  have markQuiet := (heeding.splice _ _).quiet targetQuiet
  have mark := defineLabel_wrote honest (marking ▸ markQuiet)
  rw [marking, realizes.part, realizes.link] at mark
  have target := splice_realized markHonest realizes.parameter targetQuiet
  have read := (splice_realized targetHonest realizes.parameter readQuiet).trans
    (emit_wrote _ .getPointer rfl)
  have step := splice_realized readHonest realizes.source.step stepQuiet
  have written := emitAll_wrote
    ((((marked.splice l.parameter).splice l.parameter).emit .getPointer).splice l.source.step)
    [.add, .setPointerNoPush] (by decide)
  simpa [Link.incr, Link.mark] using (mark.trans target).trans ((read.trans step).trans written)

theorem emitTest_wrote (honest : p.Honest) (realizes : l.Realizes tree)
    (quiet : (p.emitTest l).diagnostics = []) : p.Wrote [] 0 tree.test (p.emitTest l) := by
  have ends := realizes.source.finish
  unfold emitTest at quiet ⊢
  unfold Link.test
  cases finish : l.source.finish with
  | value target =>
    rw [finish] at quiet ends
    dsimp only at quiet ⊢
    cases ending : tree.source.finish with
    | condition e =>
      rw [ending] at ends
      exact ends.elim
    | value e =>
      rw [ending] at ends
      dsimp only
      have readHonest := ((heeding.splice p l.parameter).trans (heeding.emit _ .getPointer)).honest
        honest
      have targetQuiet := (heeding.emitAll _ _).quiet quiet
      have readQuiet := (heeding.emit _ _).quiet ((heeding.splice _ _).quiet targetQuiet)
      have read := (splice_realized honest realizes.parameter readQuiet).trans
        (emit_wrote _ .getPointer rfl)
      have compared := splice_realized readHonest ends targetQuiet
      have written := emitAll_wrote (((p.splice l.parameter).emit .getPointer).splice target)
        [.equal, .not] (by decide)
      simpa using (read.trans compared).trans written
  | condition predicate =>
    rw [finish] at quiet ends
    dsimp only at quiet ⊢
    cases ending : tree.source.finish with
    | value e =>
      rw [ending] at ends
      exact ends.elim
    | condition e =>
      rw [ending] at ends
      exact splice_realized honest ends quiet

theorem emitCond_wrote {exit : String} (honest : p.Honest) (realizes : l.Realizes tree)
    (quiet : (emitCond number exit p l).diagnostics = []) :
    p.Wrote [] 0 (tree.cond number exit) (emitCond number exit p l) := by
  unfold emitCond at quiet ⊢
  dsimp only at quiet ⊢
  generalize marking : p.defineLabel (LoopBlock.cond.label number l.part l.link) = marked at quiet ⊢
  have markHonest : marked.Honest := marking ▸ (heeding.defineLabel p _).honest honest
  have testHonest := (heeding.emitTest marked l).honest markHonest
  have exitQuiet := (heeding.emit _ _).quiet quiet
  have testQuiet := (heeding.emitConstant _ _).quiet exitQuiet
  have markQuiet := (heeding.emitTest _ _).quiet testQuiet
  have mark := defineLabel_wrote honest (marking ▸ markQuiet)
  rw [marking, realizes.part, realizes.link] at mark
  have test := emitTest_wrote markHonest realizes testQuiet
  have leave := (emitConstant_wrote testHonest exitQuiet).trans
    (emit_wrote _ .jumpIfFalseToLabel rfl)
  simpa [Link.cond, Link.mark] using (mark.trans test).trans leave

end Links

/-- Blocks are written link by link. -/
theorem foldl_wrote {write : Pass → LoopLink → Pass} {lines : Link → List Line}
    (heeds : ∀ (p : Pass) (l : LoopLink), p.Heeds (write p l))
    (wrote : ∀ {p : Pass} {l : LoopLink} {tree : Link}, p.Honest → l.Realizes tree →
      (write p l).diagnostics = [] → p.Wrote [] 0 (lines tree) (write p l))
    {links : List LoopLink} {trees : List Link} (realized : Forall₂ LoopLink.Realizes links trees)
    {p : Pass} (honest : p.Honest) (quiet : (links.foldl write p).diagnostics = []) :
    p.Wrote [] 0 (trees.flatMap lines) (links.foldl write p) := by
  induction realized generalizing p with
  | nil => exact .refl p
  | cons realizes _ ih =>
    have first := wrote honest realizes ((heeding.foldl heeds _ _).quiet quiet)
    have others := ih ((heeds p _).honest honest) quiet
    simpa using first.trans others

theorem emitLoop_wrote {p : Pass} (honest : p.Honest) {number : Nat} {sources : List LoopPart}
    {header : Header} (realized : Forall₂ LoopPart.Realizes sources header.parts)
    (quiet : (p.emitLoop number sources header.start header.exit).diagnostics = []) :
    p.Wrote [] 0 (header.code number) (p.emitLoop number sources header.start header.exit) := by
  have links := LoopLink.all_realizes realized
  unfold emitLoop at quiet ⊢
  dsimp only at quiet ⊢
  generalize starting : (LoopLink.all sources).foldl (emitInit number) p = started at quiet ⊢
  generalize entering : started.emitGoto header.start = entered at quiet ⊢
  generalize stepping : (LoopLink.all sources).foldl (emitIncr number) entered = stepped at quiet ⊢
  generalize testing :
    (LoopLink.all sources).foldl (emitCond number header.exit) stepped = tested at quiet ⊢
  generalize returning : tested.emitGoto header.start = returned at quiet ⊢
  have startHonest : started.Honest :=
    starting ▸ (heeding.foldl (heeding.emitInit number) p _).honest honest
  have enterHonest : entered.Honest := entering ▸ (heeding.emitGoto _ _).honest startHonest
  have stepHonest : stepped.Honest :=
    stepping ▸ (heeding.foldl (heeding.emitIncr number) _ _).honest enterHonest
  have testHonest : tested.Honest :=
    testing ▸ (heeding.foldl (heeding.emitCond number header.exit) _ _).honest stepHonest
  have returnHonest : returned.Honest := returning ▸ (heeding.emitGoto _ _).honest testHonest
  have returnQuiet : returned.diagnostics = [] := (heeding.defineLabel _ _).quiet quiet
  have testQuiet : tested.diagnostics = [] := (heeding.emitGoto _ _).quiet (returning ▸ returnQuiet)
  have stepQuiet : stepped.diagnostics = [] :=
    (heeding.foldl (heeding.emitCond number header.exit) _ _).quiet (testing ▸ testQuiet)
  have enterQuiet : entered.diagnostics = [] :=
    (heeding.foldl (heeding.emitIncr number) _ _).quiet (stepping ▸ stepQuiet)
  have startQuiet : started.diagnostics = [] := (heeding.emitGoto _ _).quiet (entering ▸ enterQuiet)
  have init := foldl_wrote (heeding.emitInit number) emitInit_wrote links honest
    (starting ▸ startQuiet)
  have enter := emitGoto_wrote startHonest (entering ▸ enterQuiet)
  have incr := foldl_wrote (heeding.emitIncr number) emitIncr_wrote links enterHonest
    (stepping ▸ stepQuiet)
  have cond := foldl_wrote (heeding.emitCond number header.exit) emitCond_wrote links stepHonest
    (testing ▸ testQuiet)
  have again := emitGoto_wrote testHonest (returning ▸ returnQuiet)
  have mark := defineLabel_wrote returnHonest quiet
  rw [starting] at init
  rw [entering] at enter
  rw [stepping] at incr
  rw [testing] at cond
  rw [returning] at again
  have front := (init.trans enter).trans (incr.trans (cond.trans again))
  simpa [Header.code, Header.initLines, Header.incrLines, Header.condLines] using front.trans mark

end Pass

end Cellscript
