import Cellscript.Proofs.Code.Listings
import Cellscript.Proofs.Machine.Control
import Cellscript.Proofs.Machine.Habits
import Cellscript.Proofs.Machine.Safety

/-!
What a log of a run says. It has an entry for every instruction that the run comes to, and for
compiled code the text of each is a line of the listing.
-/

set_option autoImplicit false

namespace Cellscript

namespace Chunk

/-- The lines of a listing that are about instructions. -/
def instructionLines (c : Chunk) : List String := (c.sweepFrom 0).map c.instructionText

theorem map_sublist_interleave (c : Chunk) (labels : List (String × Nat)) (offsets : List Nat) :
    (offsets.map c.instructionText).Sublist (c.interleave labels offsets) := by
  induction offsets generalizing labels with
  | nil => exact List.nil_sublist _
  | cons offset offsets ih =>
    rw [interleave, List.map_cons]
    apply List.sublist_append_of_sublist_right
    exact (ih _).cons_cons _

/-- Between them, a listing has only the lines of labels. -/
theorem instructionLines_sublist (c : Chunk) : c.instructionLines.Sublist c.listingLines :=
  c.map_sublist_interleave c.sortedLabels (c.sweepFrom 0)

end Chunk

namespace Machine

/-- The instructions that a run comes to, each with the machine as it is then. -/
def visits (chunk : Chunk) : Nat → Nat × Machine → List (Nat × Machine)
  | 0, _ => []
  | steps + 1, (ip, m) =>
    (ip, m) ::
      match step chunk ip (m.note chunk ip) with
      | .ok (some next) n => visits chunk steps (next, n)
      | _ => []

theorem visits_succ {chunk : Chunk} {ip next : Nat} {m n : Machine}
    (stepped : step chunk ip (m.note chunk ip) = .ok (some next) n) (steps : Nat) :
    visits chunk (steps + 1) (ip, m) = (ip, m) :: visits chunk steps (next, n) := by
  rw [visits, stepped]

theorem mem_visits {chunk : Chunk} {steps : Nat} {here place : Nat × Machine} :
    place ∈ visits chunk steps here ↔ ∃ n < steps, after chunk n here = some place := by
  induction steps generalizing here with
  | zero => simp [visits]
  | succ steps ih =>
    obtain ⟨ip, m⟩ := here
    by_cases goesOn : ∃ next n, step chunk ip (m.note chunk ip) = .ok (some next) n
    · obtain ⟨next, n, stepped⟩ := goesOn
      rw [visits_succ stepped, List.mem_cons, ih]
      constructor
      · rintro (rfl | ⟨count, below, reached⟩)
        · exact ⟨0, Nat.succ_pos _, rfl⟩
        · exact ⟨count + 1, Nat.succ_lt_succ below, (after_succ stepped count).trans reached⟩
      · rintro ⟨count, below, reached⟩
        cases count with
        | zero => exact Or.inl (Option.some.inj reached).symm
        | succ count =>
          rw [after_succ stepped] at reached
          exact Or.inr ⟨count, Nat.lt_of_succ_lt_succ below, reached⟩
    · -- The run ends here, so nothing comes later.
      have last : visits chunk (steps + 1) (ip, m) = [(ip, m)] := by
        rw [visits]
        split
        · rename_i next n stepped
          exact absurd ⟨next, n, stepped⟩ goesOn
        · rfl
      rw [last, List.mem_singleton]
      constructor
      · rintro rfl
        exact ⟨0, Nat.succ_pos _, rfl⟩
      · rintro ⟨count, below, reached⟩
        cases count with
        | zero => exact (Option.some.inj reached).symm
        | succ count =>
          rw [after] at reached
          split at reached
          · rename_i next n stepped
            exact absurd ⟨next, n, stepped⟩ goesOn
          · cases reached

/-- What is logged at an instruction. -/
def entryAt (chunk : Chunk) (place : Nat × Machine) : TraceEntry :=
  ⟨place.2.stack.length, chunk.instructionText place.1⟩

/-- The entries that a run adds to the log. -/
def logged (chunk : Chunk) (trace : Bool) (places : List (Nat × Machine)) : List TraceEntry :=
  (places.filter fun place => trace && place.1 < chunk.size).map (entryAt chunk)

/-- Instructions themselves leave the log alone. -/
theorem unlogging : Habit fun m n => n.log = m.log ∧ n.limits = m.limits where
  refl _ := ⟨rfl, rfl⟩
  trans first second := ⟨second.1.trans first.1, second.2.trans first.2⟩
  stack _ _ _ := ⟨rfl, rfl⟩
  sink _ _ := ⟨rfl, rfl⟩
  assign _ _ _ := ⟨rfl, rfl⟩
  exchange _ _ _ := ⟨rfl, rfl⟩

/-- An instruction and the entry made for it. -/
theorem step_note_log (m : Machine) (chunk : Chunk) (ip : Nat) :
    (stateAfter (step chunk ip (m.note chunk ip))).log =
        m.log ++ (logged chunk m.limits.trace [(ip, m)]).toArray ∧
      (stateAfter (step chunk ip (m.note chunk ip))).limits = m.limits := by
  obtain ⟨log, limits⟩ := unlogging.step chunk ip (m.note chunk ip)
  rw [log, limits]
  unfold MachineOf.note logged
  by_cases traced : (m.limits.trace && ip < chunk.size) = true
  · simp [traced, entryAt]
  · simp [traced]

theorem logged_cons (chunk : Chunk) (trace : Bool) (place : Nat × Machine)
    (places : List (Nat × Machine)) :
    logged chunk trace (place :: places) =
      logged chunk trace [place] ++ logged chunk trace places := by
  unfold logged
  rw [← List.map_append, ← List.filter_append, List.singleton_append]

/-- A run adds one entry for each instruction that it comes to. -/
theorem runFrom_log (chunk : Chunk) (steps ip : Nat) (m : Machine) :
    (runFrom chunk steps ip m).1.log =
      m.log ++ (logged chunk m.limits.trace (visits chunk steps (ip, m))).toArray := by
  induction steps generalizing ip m with
  | zero => simp [runFrom, Dialect.runFrom, visits, logged]
  | succ steps ih =>
    obtain ⟨noted, limits⟩ := step_note_log m chunk ip
    rw [visits, logged_cons]
    cases stepped : step chunk ip (m.note chunk ip) with
    | error fault n =>
      rw [stepped] at noted
      rw [runFrom_failed stepped, show logged chunk m.limits.trace [] = [] from rfl,
        List.append_nil]
      exact noted
    | ok place n =>
      rw [stepped] at noted limits
      cases place with
      | none =>
        rw [runFrom_returned stepped, show logged chunk m.limits.trace [] = [] from rfl,
          List.append_nil]
        exact noted
      | some next =>
        rw [runFrom_next stepped, ← List.append_toArray, ← Array.append_assoc, ← noted, ← limits]
        exact ih next n

/-- A run of compiled code that takes no number as an offset comes only to instructions of the
listing. -/
theorem compiled_visits {compiler : Compiler} {source : String} {chunk : Chunk}
    (compiled : (compiler.compile source).2 = .ok chunk) {m : Machine} {steps : Nat}
    (labels : KeepsToLabels chunk steps (0, m)) {place : Nat × Machine}
    (visited : place ∈ visits chunk steps (0, m)) : place.1 ∈ chunk.sweepFrom 0 := by
  obtain ⟨script, spells, assembled, finished, _⟩ := Compiler.compile_assembles compiled
  have neutral := script.code_neutral compiler.loopCount fun _ leaves =>
    spells.declares_exits compiler.loopCount leaves
  have start : Stands (script.code compiler.loopCount) 0 [] := ⟨[], _, rfl, rfl, rfl, by simp⟩
  obtain ⟨n, early, reached⟩ := mem_visits.mp visited
  have sofar : KeepsToLabels chunk n (0, m) := fun k below => labels k (Nat.lt_trans below early)
  obtain ⟨top, stands, stack⟩ := start.after assembled finished neutral rfl sofar reached
  exact (stands.turns assembled finished neutral stack).1

/-- Where every instruction is in the code, none is left out of a log. -/
theorem logged_of_inside {chunk : Chunk} {places : List (Nat × Machine)}
    (inside : ∀ place ∈ places, place.1 < chunk.size) (trace : Bool) :
    logged chunk trace places = if trace then places.map (entryAt chunk) else [] := by
  unfold logged
  cases trace with
  | false => simp
  | true =>
    rw [List.filter_eq_self.mpr fun place visited => by simp [inside place visited]]
    rfl

theorem step_of_after {chunk : Chunk} {ip next : Nat} {m n : Machine}
    (reached : after chunk 1 (ip, m) = some (next, n)) :
    step chunk ip (m.note chunk ip) = .ok (some next) n := by
  rw [after] at reached
  split at reached
  · rename_i stepped
    cases reached
    exact stepped
  · cases reached

/-- Machine, listing and log agree on what the instructions are. A step goes on by the width that
the listing gives an instruction, or to the target that it shows there, or where a label or a number
sends it. So a run of compiled code that takes no number as an offset logs lines of the listing, one
for each instruction that it comes to. -/
theorem instructions_agree_with_listing :
    (∀ (chunk : Chunk) (ip next : Nat) (m n : Machine),
      step chunk ip m = .ok (some next) n → Goes chunk ip m next) ∧
    ∀ (compiler : Compiler) (source : String) (chunk : Chunk) (m : Machine) (steps : Nat),
      (compiler.compile source).2 = .ok chunk → KeepsToLabels chunk steps (0, m) →
      chunk.instructionLines.Sublist chunk.listingLines ∧
      (∀ place ∈ visits chunk steps (0, m),
        chunk.instructionText place.1 ∈ chunk.instructionLines) ∧
      (run chunk steps m).1.log = m.log ++
        (if m.limits.trace then (visits chunk steps (0, m)).map (entryAt chunk)
          else []).toArray := by
  refine ⟨fun chunk ip next m n => step_goes, ?_⟩
  intro compiler source chunk m steps compiled labels
  refine ⟨chunk.instructionLines_sublist, ?_, ?_⟩
  · intro place visited
    exact List.mem_map_of_mem (compiled_visits compiled labels visited)
  · have inside : ∀ place ∈ visits chunk steps (0, m), place.1 < chunk.size := by
      intro place visited
      exact Chunk.lt_size_of_mem_sweepFrom (compiled_visits compiled labels visited)
    rw [← logged_of_inside inside]
    exact runFrom_log chunk steps 0 m

/-- A conditional whose first body is passed over, and a jump past a line to a label. -/
def bypass : String := "\n".intercalate [
  "\x7bfalse\x7d print \"no\" | print \"yes\"", "past", "print \"never\"", "past...",
  "print \"end\""]

theorem instructions_agree_with_listing_on_bypass :
    let m := Machine.new { trace := true } {}
    ∃ chunk, (({} : Compiler).compile bypass).2 = .ok chunk ∧ KeepsToLabels chunk 30 (0, m) ∧
      (∃ t n, step chunk 1 t = .ok (some 8) n ∧ Goes chunk 1 t 8) ∧
      (run chunk 30 m).1.log = ((visits chunk 30 (0, m)).map (entryAt chunk)).toArray ∧
      (visits chunk 30 (0, m)).map (·.1) = [0, 1, 8, 10, 11, 13, 17, 19, 20] := by
  intro m
  have checked : (({} : Compiler).compile bypass).2.toOption.any (fun chunk =>
      KeepsToLabels chunk 30 (0, m) ∧
      (after chunk 1 (1, m.withStack [.truth false])).any (·.1 = 8) ∧
      (visits chunk 30 (0, m)).map (·.1) = [0, 1, 8, 10, 11, 13, 17, 19, 20]) = true := by
    decide +kernel
  cases compiled : (({} : Compiler).compile bypass).2 with
  | error diagnostics =>
    rw [compiled] at checked
    cases checked
  | ok chunk =>
    rw [compiled] at checked
    obtain ⟨labels, lands, offsets⟩ := of_decide_eq_true checked
    obtain ⟨⟨next, n⟩, reached, place⟩ := (Option.any_eq_true _ _).mp lands
    obtain rfl : next = 8 := of_decide_eq_true place
    have stepped := step_of_after reached
    refine ⟨chunk, rfl, labels, ⟨_, n, stepped, ?_⟩, ?_, offsets⟩
    · exact instructions_agree_with_listing.1 chunk 1 8 _ n stepped
    · have log := (instructions_agree_with_listing.2 {} bypass chunk m 30 compiled labels).2.2
      rw [if_pos (show m.limits.trace = true from rfl), show m.log = #[] from rfl,
        Array.empty_append] at log
      exact log

end Machine

end Cellscript
