import Cellscript.Proofs.Compile.Scripts

/-!
The exit label of every loop is declared. A loop's body ends right before that declaration, which
may stand further out when loops share their exit.
-/

set_option autoImplicit false

namespace Cellscript

/-! ## What starts with a label -/

/-- After a name an expression goes on with an operator, if at all. -/
theorem Expression.Spelled.second {level : Level} {ts : List Token} {e : Expression}
    (spelled : Spelled level ts e) {name second : Token} {rest : List Token}
    (tokens : ts = name :: second :: rest) (kind : name.kind = .name) :
    ∃ op, second.kind.binary? = some op := by
  induction spelled generalizing rest with
  | number => cases tokens
  | string => cases tokens
  | name => cases tokens
  | truth => cases tokens
  | group opened =>
    obtain ⟨rfl, _⟩ := List.cons.inj tokens
    rw [kind] at opened
    cases opened
  | unary operator =>
    obtain ⟨rfl, _⟩ := List.cons.inj tokens
    rw [kind] at operator
    cases operator
  | assign opened =>
    obtain ⟨rfl, _⟩ := List.cons.inj tokens
    rw [kind] at opened
    cases opened
  | weaken strong ih => exact ih tokens
  | @binary t op us vs left right operator chains first second ih _ =>
    cases us with
    | nil => exact absurd first.length_pos (Nat.lt_irrefl 0)
    | cons head tail =>
      cases tail with
      | nil =>
        cases tokens
        exact ⟨op, operator⟩
      | cons next tail =>
        cases tokens
        exact ih rfl
  | @reference t op us vs left right operator weakest first second ih _ =>
    cases us with
    | nil => exact absurd first.length_pos (Nat.lt_irrefl 0)
    | cons head tail =>
      cases tail with
      | nil =>
        cases tokens
        exact ⟨op, operator⟩
      | cons next tail =>
        cases tokens
        exact ih rfl

/-- A statement without labels does not start with one. -/
theorem Simple.Spelled.not_closes {ts us rest : List Token} {s : Simple}
    (spelled : s.Spelled ts (us ++ rest)) (ended : Terminator us rest) (exit : String) :
    ¬ Script.Closes (some exit) (ts ++ us ++ rest) := by
  rintro ⟨name, dots, tail, tokens, kind, declared, _⟩
  cases spelled with
  | print word shown =>
    obtain ⟨rfl, _⟩ := List.cons.inj tokens
    rw [kind] at word
    simp at word
  | stop bang alone =>
    obtain ⟨rfl, _⟩ := List.cons.inj tokens
    rw [kind] at bang
    cases bang
  | when opened =>
    obtain ⟨rfl, _⟩ := List.cons.inj tokens
    rw [kind] at opened
    cases opened
  | choose opened =>
    obtain ⟨rfl, _⟩ := List.cons.inj tokens
    rw [kind] at opened
    cases opened
  | perform performed =>
    cases ts with
    | nil => exact absurd performed.length_pos (Nat.lt_irrefl 0)
    | cons head more =>
      cases more with
      | nil =>
        cases ended with
        | token separator =>
          cases tokens
          rw [declared] at separator
          simp at separator
        | finish => cases tokens
      | cons next more =>
        cases tokens
        obtain ⟨op, operator⟩ := performed.second rfl kind
        rw [declared] at operator
        cases operator

theorem StatementSpelled.not_closes {ts rest : List Token} {s : Option Simple}
    (spelled : StatementSpelled ts s rest) (present : s.isSome) (exit : String) :
    ¬ Script.Closes (some exit) (ts ++ rest) := by
  cases spelled with
  | bare ended => cases present
  | simple simple ended => exact simple.not_closes ended exit

namespace Script

/-! ## Exits -/

theorem exits_marked (names : List String) (script : Script) :
    (marked names script).exits = script.exits := by
  induction names with
  | nil => rfl
  | cons name rest ih => exact ih

theorem exits_startWith (s : Option Simple) (script : Script) :
    (startWith s script).exits = script.exits := by
  cases s <;> rfl

namespace Spelled

variable {exit : Option String} {ts rest : List Token} {script : Script}

theorem closes (spelled : Spelled exit ts script rest) : Closes exit rest := by
  induction spelled with
  | done closes => exact closes
  | separator _ _ ih => exact ih
  | statement _ _ _ _ _ ih => exact ih
  | loop _ _ _ _ _ _ _ ih => exact ih

/-- A label that comes next is declared by the script, unless the script ends there. -/
theorem declares (spelled : Spelled exit ts script rest) {label : String}
    (next : Closes (some label) (ts ++ rest)) (number : Nat) :
    exit = some label ∨ Line.mark label ∈ script.code number := by
  cases spelled with
  | done closes =>
    obtain ⟨name, dots, tail, tokens, _, _, same⟩ := next
    rw [List.nil_append] at tokens
    cases exit with
    | none =>
      rw [show rest = [] from closes] at tokens
      cases tokens
    | some other =>
      obtain ⟨head, _, _, others, _, _, equal⟩ := closes
      rw [tokens] at others
      cases others
      exact Or.inl (congrArg some (equal.symm.trans same))
  | separator separator _ =>
    obtain ⟨name, dots, tail, tokens, kind, _, _⟩ := next
    obtain ⟨rfl, _⟩ := List.cons.inj tokens
    rw [kind] at separator
    simp at separator
  | @statement _ labels us vs _ names s after labelled spelled something inside later =>
    rw [code_marked]
    cases labelled with
    | none =>
      simp only [List.nil_append, List.append_assoc] at next
      exact absurd next (spelled.not_closes (something rfl) label)
    | more kind declared others =>
      obtain ⟨name, dots, tail, tokens, _, _, same⟩ := next
      cases tokens
      exact Or.inr (by simp [same])
  | loop labelled spelled ended inside repeated later =>
    rw [code_marked]
    obtain ⟨name, dots, tail, tokens, kind, _, same⟩ := next
    cases labelled with
    | none =>
      cases spelled with
      | header opened =>
        obtain ⟨rfl, _⟩ := List.cons.inj tokens
        rw [kind] at opened
        cases opened
    | more _ _ others =>
      cases tokens
      exact Or.inr (by simp [same])

/-- Every loop leaves to a label of the script or to the end of the body around it. -/
theorem declares_exits (spelled : Spelled exit ts script rest) (number : Nat) {label : String}
    (leaves : label ∈ script.exits) : exit = some label ∨ Line.mark label ∈ script.code number := by
  induction spelled generalizing number with
  | done => cases leaves
  | separator _ _ ih => exact ih number leaves
  | statement _ _ _ _ _ ih =>
    rw [exits_marked, exits_startWith] at leaves
    rw [code_marked, code_startWith]
    rcases ih number leaves with outside | declared
    · exact Or.inl outside
    · exact Or.inr (by simp [declared])
  | @loop exit _ _ _ _ ws _ names header body script _ _ _ _ repeated later bodyIh laterIh =>
    rw [exits_marked] at leaves
    rw [code_marked, code]
    have outer : ∀ {other : String}, (some other = exit ∨ Line.mark other ∈
        script.code (number + 1 + body.loops)) → exit = some other ∨ Line.mark other ∈
        names.map Line.mark ++ (header.code number ++ body.code (number + 1) ++
          gotoLines (LoopBlock.incr.label number 0 0) ++
          script.code (number + 1 + body.loops)) := by
      rintro other (outside | declared)
      · exact Or.inl outside.symm
      · exact Or.inr (by simp [declared])
    have left : exit = some header.exit ∨
        Line.mark header.exit ∈ script.code (number + 1 + body.loops) :=
      later.declares repeated.closes _
    simp only [exits, List.mem_cons, List.mem_append] at leaves
    rcases leaves with rfl | inBody | inRest
    · exact outer (left.imp_left Eq.symm)
    · rcases bodyIh (number + 1) inBody with same | declared
      · cases same
        exact outer (left.imp_left Eq.symm)
      · exact Or.inr (by simp [declared])
    · exact outer ((laterIh _ inRest).imp_left Eq.symm)

end Spelled

end Script

/-- In a whole script the exit label of every loop is declared. -/
theorem Compiler.Spells.declares_exits {compiler : Compiler} {source : String} {script : Script}
    (spells : compiler.Spells source script) (number : Nat) {label : String}
    (leaves : label ∈ script.exits) : Line.mark label ∈ script.code number := by
  rcases Script.Spelled.declares_exits spells number leaves with outside | declared
  · cases outside
  · exact declared

end Cellscript
