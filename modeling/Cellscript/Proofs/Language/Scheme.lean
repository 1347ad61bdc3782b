import Cellscript.Proofs.Code.Heights
import Cellscript.Proofs.Language.Evaluation
import Cellscript.Proofs.Language.Grammar

/-!
What the header of a loop means, and where the loops of a script stand in its code.
-/

set_option autoImplicit false

namespace Cellscript

/-! ## Headers -/

def Ending.room : Ending → Nat
  | value target => target.room
  | condition predicate => predicate.room

namespace Link

/-- Gives the parameter its start value. -/
def begin (l : Link) : Store.Action Unit := do
  let value ← l.source.init.eval
  let operand ← l.parameter.eval
  let _ ← Store.assign operand value

/-- Adds the step to the parameter. -/
def advance (l : Link) : Store.Action Unit := do
  let operand ← l.parameter.eval
  let current ← Store.look (← l.parameter.eval)
  let step ← l.source.step.eval
  let next ← BinaryOperator.add.apply current step
  let _ ← Store.assign operand next

/-- Whether the loop goes on, as far as one parameter has a say. -/
def goesOn (l : Link) : Store.Action Bool :=
  match l.source.finish with
  | .value target => do
    let current ← Store.look (← l.parameter.eval)
    let last ← target.eval
    return !decide (current.Equal last)
  | .condition predicate => do return !(← predicate.eval).isFalsey

/-- How many entries of the stack the blocks of a parameter take. -/
def room (l : Link) : Nat :=
  max (max l.source.init.room (l.parameter.room + 1))
    (max (l.source.step.room + 2) (l.source.finish.room + 1))

end Link

namespace Header

/-- Every parameter gets its start value, in order. -/
def begin (header : Header) : Store.Action Unit := header.links.forM Link.begin

/-- Every parameter moves on by one step, in order. -/
def advance (header : Header) : Store.Action Unit := header.links.forM Link.advance

/-- The tests are made in order until one of them ends the loop. -/
def goesOn (header : Header) : Store.Action Bool := header.links.allM Link.goesOn

/-- The first parameter is there. -/
theorem Spelled.links {ts : List Token} {header : Header} (spelled : header.Spelled ts) :
    ∃ l rest, header.links = l :: rest ∧ l.part = 0 ∧ l.link = 0 := by
  obtain ⟨_, driven, _, _, _, _, _⟩ := spelled
  have some {us : List Token} {part : Part} (first : part.Spelled us) (parts : List Part) :
      ∃ l rest, Header.links ⟨part :: parts, "", ""⟩ = l :: rest ∧ l.part = 0 ∧ l.link = 0 := by
    obtain ⟨_, _, _, _, _, _, _, parameters⟩ := first
    cases parameters with
    | last kind address => exact ⟨_, _, rfl, rfl, rfl⟩
    | more kind address linked rest => exact ⟨_, _, rfl, rfl, rfl⟩
  cases driven with
  | last spelled => exact some spelled []
  | more spelled kind rest => exact some spelled _

end Header

/-! ## Where loops stand -/

/-- A loop of a script: its number, and the lines in front of it. -/
structure Site where
  number : Nat
  header : Header
  body : Script
  front : List Line

namespace Site

def lines (site : Site) : List Line :=
  site.header.code site.number ++ site.body.code (site.number + 1) ++
    gotoLines (LoopBlock.incr.label site.number 0 0)

/-- The offset of the block that gives the first parameter its start value. -/
def start (site : Site) : Nat := codeSize site.front

/-- The offset of the body. -/
def entry (site : Site) : Nat := codeSize (site.front ++ site.header.code site.number)

/-- The offset where the body ends. -/
def finish (site : Site) : Nat :=
  codeSize (site.front ++ site.header.code site.number ++ site.body.code (site.number + 1))

end Site

namespace Script

/-- All loops of a script behind the lines `front`, those in bodies included. -/
def sites : List Line → Nat → Script → List Site
  | _, _, done => []
  | front, number, mark name rest => rest.sites (front ++ [.mark name]) number
  | front, number, simple statement rest => rest.sites (front ++ statement.code) number
  | front, number, loop header body rest =>
    let site : Site := { number, header, body, front }
    site :: (body.sites (front ++ header.code number) (number + 1) ++
      rest.sites (front ++ site.lines) (number + 1 + body.loops))

theorem sites_length (front : List Line) (number : Nat) (script : Script) :
    (script.sites front number).length = script.loops := by
  induction script generalizing front number with
  | done => rfl
  | mark name rest ih => exact ih _ _
  | simple statement rest ih => exact ih _ _
  | loop header body rest inner after =>
    rw [sites, List.length_cons, List.length_append, inner, after, loops]
    omega

/-- A loop stands in the code with nothing on the stack in front of it. -/
theorem site_stands {script : Script} {front : List Line} {number : Nat} {site : Site}
    (member : site ∈ script.sites front number) (height : heightAfter 0 front = some 0) :
    (∃ back, front ++ script.code number = site.front ++ site.lines ++ back) ∧
      heightAfter 0 site.front = some 0 := by
  induction script generalizing front number with
  | done => cases member
  | mark name rest ih =>
    obtain ⟨⟨back, split⟩, level⟩ := ih member (by rw [heightAfter_of_append height]; rfl)
    refine ⟨⟨back, ?_⟩, level⟩
    rw [← split, List.append_assoc]
    rfl
  | simple statement rest ih =>
    have neutral : Neutral (fun _ => True) statement.code := statement.code_neutral
    obtain ⟨⟨back, split⟩, level⟩ :=
      ih member (by rw [heightAfter_of_append height]; exact neutral.height)
    refine ⟨⟨back, ?_⟩, level⟩
    rw [← split, List.append_assoc]
    rfl
  | loop header body rest inner after =>
    have top : Neutral (fun _ => True) (header.code number) := header.code_neutral number trivial
    have middle : Neutral (fun _ => True) (body.code (number + 1)) :=
      body.code_neutral (number + 1) fun _ _ => trivial
    have whole := (top.append middle).append (.goto (LoopBlock.incr.label number 0 0))
    rw [Script.code]
    rcases List.mem_cons.mp member with rfl | deeper
    · refine ⟨⟨rest.code (number + 1 + body.loops), ?_⟩, height⟩
      rw [List.append_assoc _ (Site.lines _)]
      rfl
    rcases List.mem_append.mp deeper with inside | behind
    · obtain ⟨⟨back, split⟩, level⟩ :=
        inner inside (by rw [heightAfter_of_append height]; exact top.height)
      refine ⟨⟨back ++ (gotoLines (LoopBlock.incr.label number 0 0) ++
        rest.code (number + 1 + body.loops)), ?_⟩, level⟩
      rw [← List.append_assoc _ back, ← split]
      simp only [List.append_assoc]
    · obtain ⟨⟨back, split⟩, level⟩ :=
        after behind (by rw [heightAfter_of_append height]; exact whole.height)
      refine ⟨⟨back, ?_⟩, level⟩
      rw [← split, Site.lines]
      simp only [List.append_assoc]

theorem site_exit {script : Script} {front : List Line} {number : Nat} {site : Site}
    (member : site ∈ script.sites front number) : site.header.exit ∈ script.exits := by
  induction script generalizing front number with
  | done => cases member
  | mark name rest ih => exact ih member
  | simple statement rest ih => exact ih member
  | loop header body rest inner after =>
    rw [exits]
    rcases List.mem_cons.mp member with rfl | deeper
    · exact List.mem_cons_self
    refine List.mem_cons_of_mem _ (List.mem_append.mpr ?_)
    rcases List.mem_append.mp deeper with inside | behind
    · exact Or.inl (inner inside)
    · exact Or.inr (after behind)

theorem sites_marked (names : List String) (script : Script) (front : List Line) (number : Nat) :
    (script.marked names).sites front number = script.sites (front ++ names.map .mark) number := by
  induction names generalizing front with
  | nil => rw [List.map_nil, List.append_nil, marked, List.foldr_nil]
  | cons name names ih =>
    change (script.marked names).sites (front ++ [.mark name]) number = _
    rw [ih, List.append_assoc]
    rfl

/-- The header of every loop is spelled somewhere in the script. -/
theorem Spelled.site_header {exit : Option String} {ts rest : List Token} {script : Script}
    (spelled : script.Spelled exit ts rest) {front : List Line} {number : Nat} {site : Site}
    (member : site ∈ script.sites front number) : ∃ us, site.header.Spelled us := by
  induction spelled generalizing front number with
  | done closes => cases member
  | separator kind after ih => exact ih member
  | @statement _ _ _ _ _ _ s _ labelled spelled something inside after ih =>
    rw [sites_marked] at member
    cases s with
    | none => exact ih member
    | some s => exact ih member
  | loop labelled spelled ended inside repeated after inner outer =>
    rw [sites_marked] at member
    rcases List.mem_cons.mp member with rfl | deeper
    · exact ⟨_, spelled⟩
    rcases List.mem_append.mp deeper with inside | behind
    · exact inner inside
    · exact outer behind

end Script

end Cellscript
