import Cellscript.Proofs.Store.Roots

/-!
Alias classes: the names that lead to one root. An assignment through a name either writes at the
root of the name, where every name of its class reads, or leads all aliases that come by the cell of
the name to another root. What is outside stays as it was.
-/

set_option autoImplicit false

namespace Cellscript.Store

open Relation (ReflTransGen)

/-- The cell that a name leads to. -/
def rootOf? (s : Store) (name : String) : Option Cell := (s.bound? name).map s.root

/-- Both names lead to the same cell. -/
def SameRoot (s : Store) (m n : String) : Prop :=
  ∃ c d, s.bound? m = some c ∧ s.bound? n = some d ∧ s.root c = s.root d

/-- The aliases that start at the name `m` pass through the cell of `n`. -/
def PassesThrough (s : Store) (m n : String) : Prop :=
  ∃ c d, s.bound? m = some c ∧ s.bound? n = some d ∧ ReflTransGen s.Link c d

theorem SameRoot.bound {s : Store} {m n : String} (shared : s.SameRoot m n) :
    ∃ c, s.bound? m = some c := by
  obtain ⟨c, _, bound, _⟩ := shared
  exact ⟨c, bound⟩

theorem PassesThrough.bound {s : Store} {m n : String} (passes : s.PassesThrough m n) :
    ∃ c, s.bound? m = some c := by
  obtain ⟨c, _, bound, _⟩ := passes
  exact ⟨c, bound⟩

/-! ## Changes of links -/

section Links

variable {s t : Store}

theorem root_of_same_links (acyclic : s.Acyclic) (links : ∀ c d, t.Link c d ↔ s.Link c d)
    (c : Cell) : t.root c = s.root c := by
  have path : ReflTransGen t.Link c (s.root c) :=
    ReflTransGen.mono (fun d e => (links d e).mpr) c _ (reflTransGen_root acyclic c)
  apply root_eq_of_path (acyclic.of_fewer_links fun d e => (links d e).mp) path
  intro d link
  exact root_no_link acyclic c d ((links _ d).mp link)

/-- What is written at a root is no link and replaces none. -/
theorem put_root_links (acyclic : s.Acyclic) {c : Cell} {value : Value}
    (done : put (s.root c) (stored value) s = .ok () t) (d e : Cell) : t.Link d e ↔ s.Link d e := by
  obtain ⟨_, _, _, _, contents⟩ := put_eq_ok done
  unfold Link
  rw [contents]
  split
  · rename_i same
    subst same
    constructor
    · intro link
      exact absurd (Option.some.inj link) (stored_ne_pointer value e)
    · intro link
      exact absurd link (root_no_link acyclic c e)
  · exact Iff.rfl

section Relinking

variable {c source : Cell} (done : put c (.pointer source) s = .ok () t)

include done

theorem put_pointer_links (d e : Cell) :
    t.Link d e ↔ d = c ∧ e = source ∨ d ≠ c ∧ s.Link d e := by
  obtain ⟨_, _, _, _, contents⟩ := put_eq_ok done
  unfold Link
  rw [contents]
  by_cases same : d = c
  · simp [same, eq_comm]
  · simp [same]

/-- A path that does not come by the cell stays. -/
theorem path_beside {d e : Cell} (path : ReflTransGen s.Link d e)
    (beside : ¬ ReflTransGen s.Link d c) : ReflTransGen t.Link d e := by
  induction path using ReflTransGen.head_induction_on with
  | refl => exact ReflTransGen.refl
  | @head d f link rest ih =>
    have apart : d ≠ c := by
      rintro rfl
      exact beside ReflTransGen.refl
    apply ReflTransGen.head ((put_pointer_links done d f).mpr (Or.inr ⟨apart, link⟩))
    apply ih
    intro path
    exact beside (ReflTransGen.head link path)

/-- A path that leads to the cell stays up to there. -/
theorem path_upto {d : Cell} (path : ReflTransGen s.Link d c) : ReflTransGen t.Link d c := by
  induction path using ReflTransGen.head_induction_on with
  | refl => exact ReflTransGen.refl
  | @head d f link rest ih =>
    by_cases same : d = c
    · rw [same]
    · exact ReflTransGen.head ((put_pointer_links done d f).mpr (Or.inr ⟨same, link⟩)) ih

variable (rooted : s.Rooted) (live : s.Live source) (unreached : ¬ ReflTransGen s.Link source c)

include rooted live unreached

theorem put_pointer_rooted : t.Rooted := by
  have kept : (stateAfter (put c (.pointer source) s)).Rooted := by
    apply put_rooted rooted
    intro d points
    cases points
    exact ⟨live, unreached⟩
  rw [done] at kept
  exact kept

theorem root_beside {d : Cell} (beside : ¬ ReflTransGen s.Link d c) : t.root d = s.root d := by
  have path := reflTransGen_root rooted.acyclic d
  apply root_eq_of_path (put_pointer_rooted done rooted live unreached).acyclic
    (path_beside done path beside)
  intro e link
  rcases (put_pointer_links done _ e).mp link with ⟨same, _⟩ | ⟨_, old⟩
  · rw [same] at path
    exact beside path
  · exact root_no_link rooted.acyclic d e old

/-- Whatever came by the cell leads on to where the new link leads. -/
theorem root_through {d : Cell} (through : ReflTransGen s.Link d c) :
    t.root d = s.root source := by
  have acyclic := (put_pointer_rooted done rooted live unreached).acyclic
  have link : t.Link c source := (put_pointer_links done c source).mpr (Or.inl ⟨rfl, rfl⟩)
  rw [← root_beside done rooted live unreached unreached]
  apply root_eq_of_path acyclic
  · exact ((path_upto done through).tail link).trans (reflTransGen_root acyclic source)
  · exact root_no_link acyclic source

end Relinking

end Links

/-! ## What an assignment through a name can do -/

/-- The store `t` is `s` with a cell `c` for the name `n`, a new one if the name had none. -/
structure Opens (s t : Store) (n : String) (c : Cell) : Prop where
  rooted : t.Rooted
  bound : t.bound? n = some c
  others : ∀ m, m ≠ n → t.bound? m = s.bound? m
  links : ∀ d e, t.Link d e ↔ s.Link d e
  contents : ∀ d, d ≠ c → t.cells.get? d = s.cells.get? d
  known : s.bound? n = some c ∧ t = s ∨
    s.bound? n = none ∧ s.cells.size < s.cells.capacity ∧ ¬ s.Live c

/-- How the assignment of a value through the name `n` ends. -/
inductive Assigns (s : Store) (n : String) (value : Value) : EStateM.Result Fault Store Cell → Prop
  | exhausted (unbound : s.bound? n = none) (full : s.cells.capacity ≤ s.cells.size) :
      Assigns s n value (.error (.arenaExhausted s.cells.capacity) s)
  | cycle {t : Store} {c source : Cell} {name : String} (opens : s.Opens t n c)
      (text : value = .text name) (bound : t.bound? name = some source)
      (reached : ReflTransGen t.Link source c) : Assigns s n value (.error (.aliasCycle name) t)
  | linked {t u : Store} {c source : Cell} {name : String} (opens : s.Opens t n c)
      (text : value = .text name) (bound : t.bound? name = some source)
      (unreached : ¬ ReflTransGen t.Link source c) (done : put c (.pointer source) t = .ok () u) :
      Assigns s n value (.ok c u)
  | written {t u : Store} {c : Cell} (opens : s.Opens t n c) (plain : t.aliased? value = none)
      (done : put (t.root c) (stored value) t = .ok () u) : Assigns s n value (.ok c u)

section Assigning

variable {s : Store} (rooted : s.Rooted) {operand : Value} {n : String}
  (named : operand.name? = some n)
  (numbered : s.bound? n = none → s.cells.size < s.cells.capacity → s.cells.size < UInt32.size)

include rooted numbered

theorem bind_opens (unbound : s.bound? n = none) {c : Cell} {t : Store}
    (done : bind n s = .ok c t) : s.Opens t n c := by
  have kept := bind_rooted rooted n
  rw [done] at kept
  unfold bind at done
  cases allocated : s.cells.allocate (.number 0) with
  | error full =>
    rw [allocated] at done
    cases done
  | ok result =>
    rw [allocated] at done
    cases done
    obtain ⟨index, free, size, _, contents⟩ := Arena.get?_of_allocate (numbered unbound) allocated
    have unused : ¬ s.Live result.1 := by
      unfold Live
      omega
    constructor
    · exact kept
    · rw [bound?_cons, if_pos rfl]
    · intro m other
      rw [bound?_cons, if_neg other]
    · intro d e
      unfold Link
      rw [contents]
      split
      · rename_i same
        constructor
        · intro link
          cases Option.some.inj link
        · intro link
          rw [same] at link
          exact absurd (Link.live link) unused
      · exact Iff.rfl
    · intro d other
      rw [contents, if_neg other]
    · exact Or.inr ⟨unbound, free, unused⟩

include named

omit rooted numbered in
/-- A name that is bound leads to its cell. -/
theorem target_of_bound {c : Cell} (bound : s.bound? n = some c) : target operand s = .ok c s := by
  cases operand with
  | text name =>
    cases named
    simp only [target, Value.name?, bound]
  | number x =>
    cases named
    simp only [target, Value.name?, bound]
  | _ => cases named

omit rooted numbered in
/-- A name that is not bound is bound to a cell of its own. -/
theorem target_of_unbound (unbound : s.bound? n = none) : target operand s = bind n s := by
  cases operand with
  | text name =>
    cases named
    simp only [target, Value.name?, unbound]
  | number x =>
    cases named
    simp only [target, Value.name?, unbound]
  | _ => cases named

theorem target_opens :
    (s.bound? n = none ∧ s.cells.capacity ≤ s.cells.size ∧
      target operand s = .error (.arenaExhausted s.cells.capacity) s) ∨
    ∃ c t, target operand s = .ok c t ∧ s.Opens t n c := by
  cases bound : s.bound? n with
  | some c =>
    refine Or.inr ⟨c, s, target_of_bound named bound, rooted, bound, ?_, ?_, ?_,
      Or.inl ⟨bound, rfl⟩⟩
    · intro m _
      rfl
    · intro d e
      exact Iff.rfl
    · intro d _
      rfl
  | none =>
    rw [target_of_unbound named bound]
    by_cases full : s.cells.capacity ≤ s.cells.size
    · refine Or.inl ⟨rfl, full, ?_⟩
      simp only [bind, Arena.allocate_of_full full]
    · cases done : bind n s with
      | ok c t => exact Or.inr ⟨c, t, rfl, bind_opens rooted numbered bound done⟩
      | error fault t =>
        simp only [bind, Arena.allocate, full, ↓reduceIte] at done
        cases done

/-- An assignment through a name ends in one of four ways. -/
theorem assign_assigns (value : Value) : s.Assigns n value (assign operand value s) := by
  have unboxed : ∀ d, operand ≠ .boxed d := by
    rintro d rfl
    cases named
  rw [assign_apply]
  rcases target_opens rooted named numbered with ⟨unbound, full, failed⟩ | ⟨c, t, reached, opens⟩
  · rw [failed]
    exact .exhausted unbound full
  · rw [reached]
    have live : t.Live c := opens.rooted.bound_live opens.bound
    dsimp only
    rw [map_apply, place]
    cases found : t.aliased? value with
    | some pair =>
      obtain ⟨name, source⟩ := pair
      obtain ⟨text, bound⟩ := aliased?_eq_some found
      by_cases cycle : t.reaches source c = true
      · simp only [makeAlias, cycle, ↓reduceIte]
        exact .cycle opens text bound ((reaches_eq_true_iff opens.rooted.acyclic).mp cycle)
      · obtain ⟨u, done⟩ := put_live live (.pointer source)
        simp only [makeAlias, cycle, Bool.false_eq_true, ↓reduceIte, done]
        refine .linked opens text bound (fun path => cycle ?_) done
        exact (reaches_eq_true_iff opens.rooted.acyclic).mpr path
    | none =>
      obtain ⟨u, done⟩ := put_live (opens.rooted.root_live live) (stored value)
      have direct : overwrite operand c value t = put (t.root c) (stored value) t := by
        cases operand with
        | boxed d => exact absurd rfl (unboxed d)
        | _ => rfl
      simp only [direct, done]
      exact .written opens found done

end Assigning

/-! ## The class of a name -/

namespace Opens

variable {s t : Store} {n : String} {c : Cell} (opens : s.Opens t n c)

include opens

theorem bound_of_bound {m : String} {d : Cell} (bound : s.bound? m = some d) :
    t.bound? m = some d := by
  by_cases same : m = n
  · subst same
    rcases opens.known with ⟨_, rfl⟩ | ⟨unbound, _⟩
    · exact bound
    · rw [unbound] at bound
      cases bound
  · rw [opens.others m same]
    exact bound

theorem cell_eq {d : Cell} (bound : s.bound? n = some d) : d = c :=
  Option.some.inj ((opens.bound_of_bound bound).symm.trans opens.bound)

variable (rooted : s.Rooted)

include rooted

theorem root_eq (d : Cell) : t.root d = s.root d :=
  root_of_same_links rooted.acyclic opens.links d

/-- The aliases of a name come by the cell exactly if they came by the cell of `n`. -/
theorem path_iff {m : String} {d : Cell} (bound : s.bound? m = some d) :
    ReflTransGen t.Link d c ↔ s.PassesThrough m n := by
  constructor
  · intro path
    have old : ReflTransGen s.Link d c :=
      ReflTransGen.mono (fun e f => (opens.links e f).mp) d c path
    rcases opens.known with ⟨known, _⟩ | ⟨_, _, unused⟩
    · exact ⟨d, c, bound, known, old⟩
    · exact absurd (rooted.path_live (rooted.bound_live bound) old) unused
  · rintro ⟨e, f, boundE, boundF, path⟩
    cases Option.some.inj (bound.symm.trans boundE)
    rw [opens.cell_eq boundF] at path
    exact ReflTransGen.mono (fun e f => (opens.links e f).mpr) d c path

/-- A name shares the root of the cell exactly if it shared that of `n`. -/
theorem root_eq_iff {m : String} {d : Cell} (bound : s.bound? m = some d) :
    t.root d = t.root c ↔ s.SameRoot m n := by
  constructor
  · intro same
    rcases opens.known with ⟨known, rfl⟩ | ⟨_, _, unused⟩
    · exact ⟨d, c, bound, known, same⟩
    · have alone : t.root c = c := by
        apply root_eq_of_path opens.rooted.acyclic ReflTransGen.refl
        intro e link
        exact unused ((opens.links c e).mp link).live
      rw [opens.root_eq rooted, alone] at same
      have live := rooted.root_live (rooted.bound_live bound)
      rw [same] at live
      exact absurd live unused
  · rintro ⟨e, f, boundE, boundF, same⟩
    cases Option.some.inj (bound.symm.trans boundE)
    rw [opens.cell_eq boundF] at same
    rw [opens.root_eq rooted, opens.root_eq rooted, same]

theorem content_of_root {m : String} {d : Cell} (bound : s.bound? m = some d) :
    t.cells.get? (s.root d) = s.cells.get? (s.root d) := by
  rcases opens.known with ⟨_, rfl⟩ | ⟨_, _, unused⟩
  · rfl
  · apply opens.contents
    intro same
    exact unused (same ▸ rooted.root_live (rooted.bound_live bound))

/-! ## After a value has been written -/

section Written

variable {u : Store} {value : Value} (done : put (t.root c) (stored value) t = .ok () u)

include done

omit rooted in
theorem written_valueOf? {m : String} {d : Cell} (bound : t.bound? m = some d) :
    u.valueOf? m =
      if t.root d = t.root c then some (stored value) else t.cells.get? (t.root d) := by
  obtain ⟨names, _, _, _, contents⟩ := put_eq_ok done
  have same : u.bound? m = some d := by
    rw [bound?, names]
    exact bound
  have root : u.root d = t.root d :=
    root_of_same_links opens.rooted.acyclic (put_root_links opens.rooted.acyclic done) d
  rw [valueOf?, same, Option.bind_some, root, contents]

/-- Every name of the class reads the value. -/
theorem written_inside {m : String} (inside : m = n ∨ s.SameRoot m n) :
    u.valueOf? m = some (stored value) := by
  rcases inside with rfl | shared
  · rw [opens.written_valueOf? done opens.bound, if_pos rfl]
  · obtain ⟨d, bound⟩ := shared.bound
    rw [opens.written_valueOf? done (opens.bound_of_bound bound),
      if_pos ((opens.root_eq_iff rooted bound).mpr shared)]

theorem written_outside {m : String} (other : m ≠ n) (outside : ¬ s.SameRoot m n) :
    u.valueOf? m = s.valueOf? m := by
  cases bound : s.bound? m with
  | none =>
    have unbound : u.bound? m = none := by
      rw [bound?, (put_eq_ok done).1]
      exact (opens.others m other).trans bound
    rw [valueOf?, valueOf?, bound, unbound]
    rfl
  | some d =>
    rw [opens.written_valueOf? done (opens.bound_of_bound bound),
      if_neg fun same => outside ((opens.root_eq_iff rooted bound).mp same),
      opens.root_eq rooted, opens.content_of_root rooted bound]
    rw [valueOf?, bound, Option.bind_some]

omit rooted in
theorem written_links (d e : Cell) : u.Link d e ↔ s.Link d e :=
  (put_root_links opens.rooted.acyclic done d e).trans (opens.links d e)

end Written

/-! ## After an alias has been made -/

section Linked

variable {u : Store} {source : Cell} {name : String} (aim : t.bound? name = some source)
  (unreached : ¬ ReflTransGen t.Link source c) (done : put c (.pointer source) t = .ok () u)

include aim unreached done

/-- Every name whose aliases came by the cell leads where the aim leads. -/
theorem linked_inside {m : String} (inside : m = n ∨ s.PassesThrough m n) :
    u.rootOf? m = some (s.root source) := by
  have live := opens.rooted.bound_live aim
  have through {d : Cell} (bound : t.bound? m = some d) (path : ReflTransGen t.Link d c) :
      u.rootOf? m = some (s.root source) := by
    have same : u.bound? m = some d := by
      rw [bound?, (put_eq_ok done).1]
      exact bound
    rw [rootOf?, same, Option.map_some, root_through done opens.rooted live unreached path,
      opens.root_eq rooted]
  rcases inside with rfl | passes
  · exact through opens.bound ReflTransGen.refl
  · obtain ⟨d, bound⟩ := passes.bound
    exact through (opens.bound_of_bound bound) ((opens.path_iff rooted bound).mpr passes)

theorem linked_outside {m : String} (other : m ≠ n) (outside : ¬ s.PassesThrough m n) :
    u.rootOf? m = s.rootOf? m := by
  have live := opens.rooted.bound_live aim
  have names : u.bound? m = s.bound? m := by
    rw [bound?, (put_eq_ok done).1]
    exact opens.others m other
  rw [rootOf?, rootOf?, names]
  cases bound : s.bound? m with
  | none => rfl
  | some d =>
    have beside : ¬ ReflTransGen t.Link d c :=
      fun path => outside ((opens.path_iff rooted bound).mp path)
    rw [Option.map_some, Option.map_some, root_beside done opens.rooted live unreached beside,
      opens.root_eq rooted]

omit rooted aim unreached in
theorem linked_contents {d : Cell} (other : d ≠ c) : u.cells.get? d = s.cells.get? d := by
  obtain ⟨_, _, _, _, contents⟩ := put_eq_ok done
  rw [contents, if_neg other, opens.contents d other]

end Linked

end Opens

namespace Assigns

/-! ## When an assignment succeeds -/

section Done

variable {s u : Store} {n : String} {value : Value} {c : Cell}
  (assigns : s.Assigns n value (.ok c u))

include assigns

theorem bound : u.bound? n = some c := by
  cases assigns with
  | linked opens text bound unreached done =>
    rw [bound?, (put_eq_ok done).1]
    exact opens.bound
  | written opens plain done =>
    rw [bound?, (put_eq_ok done).1]
    exact opens.bound

/-- A value that names no cell has been written. -/
theorem writes (plain : ∀ name, value = .text name → s.bound? name = none) :
    ∃ t, s.Opens t n c ∧ put (t.root c) (stored value) t = .ok () u := by
  cases assigns with
  | written opens _ done => exact ⟨_, opens, done⟩
  | @linked t _ _ source name opens text bound unreached done =>
    by_cases same : name = n
    · -- the name just got its cell, and an alias of itself would have been refused
      rw [same, opens.bound] at bound
      cases bound
      exact absurd ReflTransGen.refl unreached
    · rw [opens.others name same, plain name text] at bound
      cases bound

/-- A text that names a cell has become an alias. -/
theorem links {name : String} {source : Cell} (text : value = .text name)
    (bound : s.bound? name = some source) :
    ∃ t, s.Opens t n c ∧ t.bound? name = some source ∧ ¬ ReflTransGen t.Link source c ∧
      put c (.pointer source) t = .ok () u := by
  subst text
  cases assigns with
  | linked opens text found unreached done =>
    cases text
    have aim := opens.bound_of_bound bound
    cases Option.some.inj (aim.symm.trans found)
    exact ⟨_, opens, found, unreached, done⟩
  | written opens plain done =>
    rw [aliased?, opens.bound_of_bound bound] at plain
    cases plain

end Done

/-! ## When an assignment fails -/

variable {s t : Store} {n : String} {value : Value} {fault : Fault}

theorem fault_cases (assigns : s.Assigns n value (.error fault t)) :
    fault = .arenaExhausted s.cells.capacity ∨ ∃ name, fault = .aliasCycle name := by
  cases assigns with
  | exhausted unbound full => exact Or.inl rfl
  | cycle opens text bound reached => exact Or.inr ⟨_, rfl⟩

variable {result : EStateM.Result Fault Store Cell} (assigns : s.Assigns n value result)

include assigns

theorem exhausted_iff (rooted : s.Rooted) :
    (∃ t, result = .error (.arenaExhausted s.cells.capacity) t) ↔
      s.bound? n = none ∧ s.cells.size = s.cells.capacity := by
  have opened {t : Store} {c : Cell} (opens : s.Opens t n c) :
      ¬ (s.bound? n = none ∧ s.cells.size = s.cells.capacity) := by
    rintro ⟨unbound, full⟩
    rcases opens.known with ⟨known, _⟩ | ⟨_, free, _⟩
    · rw [unbound] at known
      cases known
    · omega
  cases assigns with
  | exhausted unbound full =>
    have fits := rooted.fits
    simp only [unbound, true_and]
    exact ⟨fun _ => by omega, fun _ => ⟨s, rfl⟩⟩
  | cycle opens text bound reached => simpa using opened opens
  | linked opens text bound unreached done => simpa using opened opens
  | written opens plain done => simpa using opened opens

/-- A circle is refused exactly where the aliases of the named cell come by the cell of `n`. A name
that just got its cell names that cell. -/
theorem cycle_iff (rooted : s.Rooted) (name : String) :
    (∃ t, result = .error (.aliasCycle name) t) ↔
      value = .text name ∧ (s.PassesThrough name n ∨
        name = n ∧ s.bound? n = none ∧ s.cells.size < s.cells.capacity) := by
  -- once the name has a cell, both kinds of circle are one path to that cell
  have opened {t : Store} {c : Cell} (opens : s.Opens t n c) :
      (s.PassesThrough name n ∨ name = n ∧ s.bound? n = none ∧ s.cells.size < s.cells.capacity) ↔
        ∃ source, t.bound? name = some source ∧ ReflTransGen t.Link source c := by
    constructor
    · rintro (passes | ⟨rfl, _⟩)
      · obtain ⟨d, bound⟩ := passes.bound
        exact ⟨d, opens.bound_of_bound bound, (opens.path_iff rooted bound).mpr passes⟩
      · exact ⟨c, opens.bound, ReflTransGen.refl⟩
    · rintro ⟨source, bound, path⟩
      by_cases same : name = n
      · subst same
        rcases opens.known with ⟨known, _⟩ | ⟨unbound, free, _⟩
        · exact Or.inl ⟨c, c, known, known, ReflTransGen.refl⟩
        · exact Or.inr ⟨rfl, unbound, free⟩
      · rw [opens.others name same] at bound
        exact Or.inl ((opens.path_iff rooted bound).mp path)
  cases assigns with
  | exhausted unbound full =>
    simp only [EStateM.Result.error.injEq, reduceCtorEq, false_and, exists_false, false_iff]
    rintro ⟨_, ⟨_, _, _, known, _⟩ | ⟨_, _, free⟩⟩
    · rw [unbound] at known
      cases known
    · omega
  | @cycle t c source other opens text bound reached =>
    subst text
    rw [opened opens]
    constructor
    · rintro ⟨u, same⟩
      cases same
      exact ⟨rfl, source, bound, reached⟩
    · rintro ⟨same, _⟩
      cases same
      exact ⟨t, rfl⟩
  | linked opens text bound unreached done =>
    subst text
    rw [opened opens]
    simp only [reduceCtorEq, exists_false, Value.text.injEq, false_iff]
    rintro ⟨rfl, d, found, path⟩
    cases Option.some.inj (bound.symm.trans found)
    exact unreached path
  | written opens plain done =>
    rw [opened opens]
    simp only [reduceCtorEq, exists_false, false_iff]
    rintro ⟨rfl, source, bound, _⟩
    rw [aliased?, bound] at plain
    cases plain

end Assigns

end Cellscript.Store
