import Cellscript.Proofs.Machine.Loops

/-!
The rounds of a loop: the body runs, every parameter moves on and every test is made, until a test
ends the loop. The parameters of a part that counts go through the same values in step.
-/

set_option autoImplicit false

namespace Cellscript

open Machine

namespace Header

variable {header : Header} {pass : Machine → Machine → Prop}

/-- So many rounds lead from one start of the body to another. A round is a pass through the body, a
step of every parameter and a test that lets the loop go on. -/
inductive Rounds (header : Header) (pass : Machine → Machine → Prop) :
    Nat → Machine → Machine → Prop
  | none (m : Machine) : Rounds header pass 0 m m
  | next {n : Nat} {m u t : Machine} {s s' : Store} (before : Rounds header pass n m u)
      (passed : pass u t) (advanced : header.advance t.store = .ok () s)
      (goes : header.goesOn s = .ok true s') :
      Rounds header pass (n + 1) m { t with store := s' }

/-- The last round: a test ends the loop. -/
def Leaves (header : Header) (pass : Machine → Machine → Prop) (u v : Machine) : Prop :=
  ∃ t s s', pass u t ∧ header.advance t.store = .ok () s ∧ header.goesOn s = .ok false s' ∧
    v = { t with store := s' }

theorem Rounds.unique (determined : ∀ {u t v}, pass u t → pass u v → t = v) {n : Nat}
    {m u v : Machine} (first : header.Rounds pass n m u) (second : header.Rounds pass n m v) :
    u = v := by
  induction first generalizing v with
  | none m =>
    cases second
    rfl
  | next before passed advanced goes ih =>
    cases second with
    | next early through moved tested =>
      cases ih early
      cases determined passed through
      cases advanced.symm.trans moved
      cases goes.symm.trans tested
      rfl

theorem Rounds.keeps (keeps : ∀ {u t}, pass u t → t.stack = u.stack ∧ t.limits = u.limits) {n : Nat}
    {m u : Machine} (rounds : header.Rounds pass n m u) :
    u.stack = m.stack ∧ u.limits = m.limits := by
  induction rounds with
  | none m => exact ⟨rfl, rfl⟩
  | next before passed advanced goes ih =>
    exact ⟨(keeps passed).1.trans ih.1, (keeps passed).2.trans ih.2⟩

/-- A loop that never fails is left in some round, or has no last round. -/
theorem Rounds.ends_or_goes_on {m : Machine}
    (fine : ∀ n u, header.Rounds pass n m u → ∃ t s s' goes, pass u t ∧
      header.advance t.store = .ok () s ∧ header.goesOn s = .ok goes s') :
    (∃ n u v, header.Rounds pass n m u ∧ header.Leaves pass u v) ∨
      ∀ n, ∃ u, header.Rounds pass n m u := by
  by_cases ends : ∃ n u v, header.Rounds pass n m u ∧ header.Leaves pass u v
  · exact Or.inl ends
  refine Or.inr fun n => ?_
  induction n with
  | zero => exact ⟨m, .none m⟩
  | succ n ih =>
    obtain ⟨u, rounds⟩ := ih
    obtain ⟨t, s, s', goes, passed, advanced, tested⟩ := fine n u rounds
    cases goes with
    | true => exact ⟨_, .next rounds passed advanced tested⟩
    | false => exact absurd ⟨n, u, _, rounds, t, s, s', passed, advanced, tested, rfl⟩ ends

end Header

/-! ## Counters -/

/-- A part that counts: its parameters go from the value of `init` by that of `step` up to that of
`target`. Every parameter comes with the name that it stands for. -/
structure Counter where
  parameters : List (Expression × String)
  init : Expression
  step : Expression
  target : Expression
  first : Float
  stride : Float
  last : Value

namespace Counter

def part (c : Counter) : Part where
  init := c.init
  step := c.step
  finish := .value c.target
  parameters := c.parameters.map (·.1)

/-- A parameter as a link of the chain. -/
def link (c : Counter) (p : Expression × String) : Link := ⟨0, 0, c.part, p.1⟩

/-- The values that a counter takes. -/
def value (c : Counter) : Nat → Float
  | 0 => c.first
  | n + 1 => c.value n + c.stride

/-- Every parameter of the counter has this value. -/
def Shows (c : Counter) (s : Store) (x : Float) : Prop :=
  ∀ p ∈ c.parameters, s.read (.text p.2) = .ok (.number x)

variable {header : Header} {pass : Machine → Machine → Prop} {c : Counter}

/-- The parameters of a loop are those of the counter. Each stands for its name whenever it is used,
and what is assigned through it changes no other one. The step and the end are the same in every
round, and the body leaves the counter alone. -/
structure Drives (c : Counter) (header : Header) (pass : Machine → Machine → Prop) (before : Store)
    (m : Machine) : Prop where
  single : header.parts = [c.part]
  some : c.parameters ≠ []
  starts : ∀ {front p back s}, c.parameters = front ++ p :: back →
    (front.map c.link).forM Link.begin before = .ok () s →
    ∃ t, c.init.eval s = .ok (.number c.first) t ∧ p.1.eval t = .ok (.text p.2) t ∧
      ∀ {cell u}, Store.assign (.text p.2) (.number c.first) t = .ok cell u →
        ∀ q ∈ front, u.read (.text q.2) = s.read (.text q.2)
  steps : ∀ {n u t front p back s}, header.Rounds pass n m u → pass u t →
    c.parameters = front ++ p :: back → (front.map c.link).forM Link.advance t.store = .ok () s →
    p.1.eval s = .ok (.text p.2) s ∧ c.step.eval s = .ok (.number c.stride) s ∧
      ∀ {x cell v}, Store.assign (.text p.2) (.number x) s = .ok cell v →
        ∀ q ∈ front ++ back, v.read (.text q.2) = s.read (.text q.2)
  ends : ∀ {n u t s}, header.Rounds pass n m u → pass u t → header.advance t.store = .ok () s →
    c.target.eval s = .ok c.last s ∧ ∀ p ∈ c.parameters, p.1.eval s = .ok (.text p.2) s
  kept : ∀ {n u t}, header.Rounds pass n m u → pass u t →
    ∀ p ∈ c.parameters, t.store.read (.text p.2) = u.store.read (.text p.2)

/-- The links of a chain, without their numbers. -/
theorem links (single : header.parts = [c.part]) :
    header.links.map (fun l => ⟨0, 0, l.source, l.parameter⟩) = c.parameters.map c.link := by
  unfold Header.links
  rw [single]
  change (c.part.parameters.zipIdx.map _ ++ []).map _ = _
  rw [List.append_nil, List.map_map]
  change (c.parameters.map (·.1)).zipIdx.map ((fun e => (⟨0, 0, c.part, e⟩ : Link)) ∘ Prod.fst) = _
  rw [← List.map_map, List.zipIdx_map_fst, List.map_map]
  rfl

theorem begin_eq (single : header.parts = [c.part]) :
    header.begin = (c.parameters.map c.link).forM Link.begin := by
  rw [← links single, List.forM_eq_forM, List.forM_map]
  rfl

theorem advance_eq (single : header.parts = [c.part]) :
    header.advance = (c.parameters.map c.link).forM Link.advance := by
  rw [← links single, List.forM_eq_forM, List.forM_map]
  rfl

/-- Where every test gives the same, so do all together. -/
theorem allM_goesOn {links : List Link} {s : Store} {goes : Bool} (some : links ≠ [])
    (each : ∀ l ∈ links, l.goesOn s = .ok goes s) : links.allM Link.goesOn s = .ok goes s := by
  induction links with
  | nil => exact absurd rfl some
  | cons l links ih =>
    rw [List.allM, bind_apply_ok (each l List.mem_cons_self)]
    cases goes with
    | false => rfl
    | true =>
      cases links with
      | nil => rfl
      | cons next rest =>
        refine ih (List.cons_ne_nil _ _) fun other member => ?_
        exact each other (List.mem_cons_of_mem l member)

/-- The assignments of one link after the other. -/
theorem forM_concat {front : List (Expression × String)} {p : Expression × String}
    {act : Link → Store.Action Unit} {before s t : Store}
    (early : (front.map c.link).forM act before = .ok () s) (now : act (c.link p) s = .ok () t) :
    ((front ++ [p]).map c.link).forM act before = .ok () t := by
  rw [List.map_append, List.forM_eq_forM, List.forM_append]
  refine (bind_apply_ok early _).trans ?_
  exact (bind_apply_ok now _).trans rfl

variable {before : Store} {m u t v : Machine} {n : Nat}

/-- The parameters get their start values one after the other. -/
theorem Drives.begun (drives : c.Drives header pass before m)
    {front back : List (Expression × String)} {s s' : Store} (split : c.parameters = front ++ back)
    (early : (front.map c.link).forM Link.begin before = .ok () s)
    (held : ∀ p ∈ front, s.read (.text p.2) = .ok (.number c.first))
    (rest : (back.map c.link).forM Link.begin s = .ok () s') : c.Shows s' c.first := by
  induction back generalizing front s with
  | nil =>
    cases rest
    rw [List.append_nil] at split
    intro p member
    exact held p (split ▸ member)
  | cons p back ih =>
    obtain ⟨_, w, now, rest⟩ := bind_eq_ok rest
    obtain ⟨x, starts, named, alone⟩ := drives.starts split early
    refine ih (by rw [split, List.append_assoc]; rfl) (forM_concat early now) ?_ rest
    obtain ⟨value, _, evaluated, now⟩ := bind_eq_ok now
    cases starts.symm.trans evaluated
    obtain ⟨operand, _, evaluated, now⟩ := bind_eq_ok now
    cases named.symm.trans evaluated
    obtain ⟨cell, _, assigned, last⟩ := bind_eq_ok now
    cases last
    intro q member
    rcases List.mem_append.mp member with front | new
    · exact (alone assigned q front).trans (held q front)
    · rw [List.mem_singleton.mp new]
      exact Store.read_assign_number assigned

/-- The parameters move on one after the other. -/
theorem Drives.moved (drives : c.Drives header pass before m) (rounds : header.Rounds pass n m u)
    (passed : pass u t) {front back : List (Expression × String)} {s s' : Store} {x : Float}
    (split : c.parameters = front ++ back)
    (early : (front.map c.link).forM Link.advance t.store = .ok () s)
    (new : ∀ p ∈ front, s.read (.text p.2) = .ok (.number (x + c.stride)))
    (old : ∀ p ∈ back, s.read (.text p.2) = .ok (.number x))
    (rest : (back.map c.link).forM Link.advance s = .ok () s') : c.Shows s' (x + c.stride) := by
  induction back generalizing front s with
  | nil =>
    cases rest
    rw [List.append_nil] at split
    intro p member
    exact new p (split ▸ member)
  | cons p back ih =>
    obtain ⟨_, w, now, rest⟩ := bind_eq_ok rest
    obtain ⟨named, steps, alone⟩ := drives.steps rounds passed split early
    have holds := old p List.mem_cons_self
    have later := forM_concat early now
    obtain ⟨operand, _, evaluated, now⟩ := bind_eq_ok now
    cases named.symm.trans evaluated
    obtain ⟨again, _, evaluated, now⟩ := bind_eq_ok now
    cases named.symm.trans evaluated
    obtain ⟨current, _, looked, now⟩ := bind_eq_ok now
    unfold Store.look at looked
    rw [holds] at looked
    cases looked
    obtain ⟨step, _, evaluated, now⟩ := bind_eq_ok now
    cases steps.symm.trans evaluated
    obtain ⟨next, _, added, now⟩ := bind_eq_ok now
    cases added
    obtain ⟨cell, _, assigned, last⟩ := bind_eq_ok now
    cases last
    refine ih (by rw [split, List.append_assoc]; rfl) later ?_ ?_ rest
    · intro q member
      rcases List.mem_append.mp member with before | itself
      · rw [alone assigned q (List.mem_append_left _ before)]
        exact new q before
      · rw [List.mem_singleton.mp itself]
        exact Store.read_assign_number assigned
    · intro q behind
      rw [alone assigned q (List.mem_append_right _ behind)]
      exact old q (List.mem_cons_of_mem p behind)

theorem Drives.advanced (drives : c.Drives header pass before m) (rounds : header.Rounds pass n m u)
    (holds : c.Shows u.store (c.value n)) (passed : pass u t) {s : Store}
    (moved : header.advance t.store = .ok () s) : c.Shows s (c.value (n + 1)) := by
  rw [advance_eq drives.single] at moved
  refine drives.moved rounds passed (List.nil_append _).symm rfl ?_ ?_ moved
  · intro p none
    cases none
  intro p member
  exact (drives.kept rounds passed p member).trans (holds p member)

/-- All tests give the same, since all parameters have the same value. -/
theorem Drives.tested (drives : c.Drives header pass before m) (rounds : header.Rounds pass n m u)
    (passed : pass u t) {s s' : Store} {x : Float} {goes : Bool}
    (moved : header.advance t.store = .ok () s) (holds : c.Shows s x)
    (tested : header.goesOn s = .ok goes s') :
    goes = !decide ((Value.number x).Equal c.last) ∧ s' = s := by
  obtain ⟨ends, named⟩ := drives.ends rounds passed moved
  have each : ∀ l ∈ header.links,
      l.goesOn s = .ok (!decide ((Value.number x).Equal c.last)) s := by
    intro l member
    have counted : (⟨0, 0, l.source, l.parameter⟩ : Link) ∈ c.parameters.map c.link := by
      rw [← links drives.single]
      exact List.mem_map_of_mem member
    obtain ⟨p, inside, same⟩ := List.mem_map.mp counted
    have whole : l.goesOn = (c.link p).goesOn := by
      rw [same]
      rfl
    rw [whole]
    have looked : Store.look (.text p.2) s = .ok (.number x) s := by
      rw [Store.look, holds p inside]
    exact (bind_apply_ok (named p inside) _).trans ((bind_apply_ok looked _).trans
      ((bind_apply_ok ends _).trans rfl))
  have some : header.links ≠ [] := by
    intro none
    have empty := links drives.single
    rw [none, List.map_nil] at empty
    exact drives.some (List.map_eq_nil_iff.mp empty.symm)
  cases (allM_goesOn some each).symm.trans tested
  exact ⟨rfl, rfl⟩

/-- In round after round the body sees the values of the counter, none of them but the first equal
to the last one. -/
theorem Drives.holds (drives : c.Drives header pass before m)
    (begun : header.begin before = .ok () m.store) (rounds : header.Rounds pass n m u) :
    c.Shows u.store (c.value n) ∧
      ∀ k, 0 < k → k ≤ n → ¬ (Value.number (c.value k)).Equal c.last := by
  induction rounds with
  | none m =>
    rw [begin_eq drives.single] at begun
    refine ⟨drives.begun (List.nil_append _).symm rfl ?_ begun, ?_⟩
    · intro p none
      cases none
    · intro k some none
      omega
  | @next n m u t s s' early passed moved tested ih =>
    obtain ⟨held, differ⟩ := ih drives begun
    have now := drives.advanced early held passed moved
    obtain ⟨goes, same⟩ := drives.tested early passed moved now tested
    refine ⟨same ▸ now, fun k some last => ?_⟩
    rcases Nat.lt_or_ge n k with new | old
    · have exactly : k = n + 1 := by omega
      rw [exactly]
      exact of_decide_eq_false ((Bool.not_eq_true' _).mp goes.symm)
    · exact differ k some old

/-- The loop is left once the counter equals the last value. -/
theorem Drives.reaches_last (drives : c.Drives header pass before m)
    (begun : header.begin before = .ok () m.store) (rounds : header.Rounds pass n m u)
    (leaves : header.Leaves pass u v) :
    (Value.number (c.value (n + 1))).Equal c.last ∧ c.Shows v.store (c.value (n + 1)) := by
  obtain ⟨t, s, s', passed, moved, tested, rfl⟩ := leaves
  have now := drives.advanced rounds (drives.holds begun rounds).1 passed moved
  obtain ⟨goes, same⟩ := drives.tested rounds passed moved now tested
  exact ⟨of_decide_eq_true ((Bool.not_eq_false' _).mp goes.symm), same ▸ now⟩

end Counter

end Cellscript
