import Cellscript.Proofs.Language.Exits

/-!
The tokens of spelled texts: the first one tells what is spelled, none of them is invalid, and those
of one statement or header stand on one line.
-/

set_option autoImplicit false

namespace Cellscript

/-! ## First tokens -/

theorem kindAhead_cons (t : Token) (rest : List Token) : kindAhead (t :: rest) = t.kind := rfl

/-- Every expression starts with an operand. -/
theorem Expression.Spelled.starts {level : Level} {ts : List Token} {e : Expression}
    (spelled : Spelled level ts e) (rest : List Token) :
    (kindAhead (ts ++ rest)).startsOperand = true := by
  induction spelled generalizing rest with
  | number kind _ => simp [kindAhead_cons, kind, Token.Kind.startsOperand]
  | string kind => simp [kindAhead_cons, kind, Token.Kind.startsOperand]
  | name kind => simp [kindAhead_cons, kind, Token.Kind.startsOperand]
  | @truth t b kind => cases b <;> simp [kindAhead_cons, kind, Token.Kind.startsOperand]
  | group opened _ _ _ => simp [kindAhead_cons, opened, Token.Kind.startsOperand]
  | @unary t op ts e kind _ _ =>
    rw [List.cons_append, kindAhead_cons]
    cases shape : t.kind <;> rw [shape] at kind <;> first | rfl | cases kind
  | binary _ _ _ _ first _ =>
    rw [List.append_assoc]
    exact first _
  | reference _ _ _ _ first _ =>
    rw [List.append_assoc]
    exact first _
  | assign opened _ _ _ _ _ => simp [kindAhead_cons, opened, Token.Kind.startsOperand]
  | weaken _ ih => exact ih rest

/-- A bang that is part of an expression negates an operand. -/
theorem Expression.Spelled.after_bang {level : Level} {ts us : List Token} {e : Expression}
    {bang : Token} (spelled : Spelled level ts e) (tokens : ts = bang :: us)
    (kind : bang.kind = .bang) (rest : List Token) :
    (kindAhead (us ++ rest)).startsOperand = true := by
  induction spelled generalizing us rest with
  | number other _ => simp [(List.cons.inj tokens).1, kind] at other
  | string other => simp [(List.cons.inj tokens).1, kind] at other
  | name other => simp [(List.cons.inj tokens).1, kind] at other
  | @truth t b other =>
    rw [(List.cons.inj tokens).1, kind] at other
    cases b <;> cases other
  | group other => simp [(List.cons.inj tokens).1, kind] at other
  | assign other => simp [(List.cons.inj tokens).1, kind] at other
  | unary _ operand _ =>
    rw [← (List.cons.inj tokens).2]
    exact operand.starts rest
  | weaken _ ih => exact ih tokens rest
  | @binary t op vs ws left right _ _ first _ ih _ =>
    cases vs with
    | nil => exact absurd first.length_pos (Nat.lt_irrefl 0)
    | cons head tail =>
      obtain ⟨rfl, rfl⟩ := List.cons.inj tokens
      simpa using ih rfl (t :: ws ++ rest)
  | @reference t op vs ws left right _ _ first _ ih _ =>
    cases vs with
    | nil => exact absurd first.length_pos (Nat.lt_irrefl 0)
    | cons head tail =>
      obtain ⟨rfl, rfl⟩ := List.cons.inj tokens
      simpa using ih rfl (t :: ws ++ rest)

theorem Terminator.isTerminator {ts rest : List Token} (ended : Terminator ts rest) :
    (kindAhead (ts ++ rest)).isTerminator = true := by
  cases ended with
  | token kind =>
    rw [List.singleton_append, kindAhead_cons]
    rcases kind with kind | kind <;> rw [kind] <;> rfl
  | finish => rfl

theorem LabelsSpelled.starts {ts rest : List Token} {names : List String}
    (labelled : LabelsSpelled ts names) (starts : (kindAhead rest).isTerminator = false) :
    (kindAhead (ts ++ rest)).isTerminator = false := by
  cases labelled with
  | none => exact starts
  | more kind =>
    rw [List.cons_append, kindAhead_cons, kind]
    rfl

theorem Simple.Spelled.starts {ts rest : List Token} {s : Simple} (spelled : s.Spelled ts rest)
    (more : List Token) : (kindAhead (ts ++ more)).isTerminator = false := by
  cases spelled with
  | print kind _ =>
    rw [List.cons_append, kindAhead_cons]
    rcases kind with kind | kind <;> rw [kind] <;> rfl
  | stop kind _ =>
    rw [List.cons_append, kindAhead_cons, kind]
    rfl
  | perform performed =>
    have starts := performed.starts more
    revert starts
    cases kindAhead (ts ++ more) <;> simp [Token.Kind.isTerminator, Token.Kind.startsOperand]
  | when opened =>
    rw [List.cons_append, kindAhead_cons, opened]
    rfl
  | choose opened =>
    rw [List.cons_append, kindAhead_cons, opened]
    rfl

theorem StatementSpelled.starts {labels ts rest : List Token} {names : List String}
    {s : Option Simple} (spelled : StatementSpelled ts s rest)
    (labelled : LabelsSpelled labels names) (something : names = [] → s.isSome)
    (more : List Token) : (kindAhead (labels ++ (ts ++ more))).isTerminator = false := by
  cases spelled with
  | bare ended =>
    cases labelled with
    | none => cases something rfl
    | more kind =>
      rw [List.cons_append, kindAhead_cons, kind]
      rfl
  | simple spelled ended =>
    rw [List.append_assoc]
    exact labelled.starts (spelled.starts _)

theorem Header.Spelled.starts {ts : List Token} {header : Header} (spelled : header.Spelled ts)
    (rest : List Token) : kindAhead (ts ++ rest) = .leftCurly := by
  cases spelled with
  | header opened => exact opened

/-! ## Kinds of tokens -/

/-- A token that the scanner has found no fault with. -/
def Token.Valid (t : Token) : Prop := ∀ flaw, t.kind ≠ .invalid flaw

theorem Token.Valid.of_kind {t : Token} {kind : Token.Kind} (same : t.kind = kind)
    (real : ∀ flaw, kind ≠ .invalid flaw) : t.Valid := by
  intro flaw invalid
  exact real flaw (same.symm.trans invalid)

theorem Token.Valid.of_either {t : Token} {a b : Token.Kind} (same : t.kind = a ∨ t.kind = b)
    (first : ∀ flaw, a ≠ .invalid flaw) (second : ∀ flaw, b ≠ .invalid flaw) : t.Valid :=
  same.elim (.of_kind · first) (.of_kind · second)

theorem Token.Valid.of_binary {t : Token} {op : BinaryOperator} (kind : t.kind.binary? = some op) :
    t.Valid := by
  intro flaw invalid
  rw [invalid] at kind
  cases kind

/-- The kinds of the tokens that spell expressions. -/
def Token.Kind.inExpression (kind : Token.Kind) : Bool :=
  kind.startsOperand || kind.binary?.isSome || kind == .rightParen || kind == .equal

/-- The kinds of the tokens that stand inside a line. -/
def Token.Kind.inLine : Token.Kind → Bool
  | .newline | .finish | .invalid _ => false
  | _ => true

theorem Token.Kind.inLine_of_inExpression {kind : Token.Kind} (inside : kind.inExpression = true) :
    kind.inLine = true := by
  cases kind <;> simp [inExpression, startsOperand, binary?, inLine] at inside ⊢

def Token.InLine (t : Token) : Prop := t.kind.inLine = true

namespace Token.InLine

variable {t : Token}

theorem of_kind {kind : Token.Kind} (same : t.kind = kind) (inside : kind.inLine = true) :
    t.InLine := by
  rw [InLine, same]
  exact inside

theorem valid (inside : t.InLine) : t.Valid := by
  intro flaw invalid
  rw [InLine, invalid] at inside
  cases inside

end Token.InLine

theorem Expression.Spelled.inExpression {level : Level} {ts : List Token} {e : Expression}
    (spelled : Spelled level ts e) : ∀ t ∈ ts, t.kind.inExpression = true := by
  have binary {t : Token} {op : BinaryOperator} (kind : t.kind.binary? = some op) :
      t.kind.inExpression = true := by
    simp [Token.Kind.inExpression, kind]
  induction spelled with
  | number kind _ => simp [kind, Token.Kind.inExpression, Token.Kind.startsOperand]
  | string kind => simp [kind, Token.Kind.inExpression, Token.Kind.startsOperand]
  | name kind => simp [kind, Token.Kind.inExpression, Token.Kind.startsOperand]
  | @truth t b kind =>
    cases b <;> simp [kind, Token.Kind.inExpression, Token.Kind.startsOperand]
  | group opened _ closed ih =>
    simp only [List.forall_mem_cons, List.forall_mem_append]
    refine ⟨?_, ih, ?_, by simp⟩
    · rw [opened]
      rfl
    · rw [closed]
      rfl
  | @unary t op ts e kind operand ih =>
    refine List.forall_mem_cons.mpr ⟨?_, ih⟩
    have starts := (Spelled.unary kind operand).starts []
    rw [List.append_nil, kindAhead_cons] at starts
    simp [Token.Kind.inExpression, starts]
  | binary kind _ _ _ first second =>
    simp only [List.forall_mem_cons, List.forall_mem_append]
    exact ⟨first, binary kind, second⟩
  | reference kind _ _ _ first second =>
    simp only [List.forall_mem_cons, List.forall_mem_append]
    exact ⟨first, binary kind, second⟩
  | assign opened _ kind _ first second =>
    simp only [List.forall_mem_cons, List.forall_mem_append]
    refine ⟨?_, first, ?_, second⟩
    · rw [opened]
      rfl
    · rw [kind]
      rfl
  | weaken _ ih => exact ih

/-! ## Lines -/

theorem Expression.Spelled.inLine {level : Level} {ts : List Token} {e : Expression}
    (spelled : Spelled level ts e) : ∀ t ∈ ts, t.InLine :=
  fun t member => Token.Kind.inLine_of_inExpression (spelled.inExpression t member)

theorem Expression.Spelled.valid {level : Level} {ts : List Token} {e : Expression}
    (spelled : Spelled level ts e) : ∀ t ∈ ts, t.Valid :=
  fun t member => (spelled.inLine t member).valid

theorem Terminator.valid {ts rest : List Token} (ended : Terminator ts rest) :
    ∀ t ∈ ts, t.Valid := by
  cases ended with
  | token kind => simpa using Token.Valid.of_either kind nofun nofun
  | finish => nofun

theorem Simple.Spelled.inLine {ts rest : List Token} {s : Simple} (spelled : s.Spelled ts rest) :
    ∀ t ∈ ts, t.InLine := by
  induction spelled with
  | print kind shown =>
    refine List.forall_mem_cons.mpr ⟨?_, shown.inLine⟩
    exact kind.elim (.of_kind · rfl) (.of_kind · rfl)
  | stop kind _ => simpa using Token.InLine.of_kind kind rfl
  | perform performed => exact performed.inLine
  | when opened asked closed _ _ ih =>
    simp only [List.forall_mem_cons, List.forall_mem_append]
    exact ⟨.of_kind opened rfl, asked.inLine, .of_kind closed rfl, ih⟩
  | choose opened asked closed _ kind _ first second =>
    simp only [List.forall_mem_cons, List.forall_mem_append]
    exact ⟨.of_kind opened rfl, asked.inLine, .of_kind closed rfl, first, .of_kind kind rfl, second⟩

theorem Simple.Spelled.valid {ts rest : List Token} {s : Simple} (spelled : s.Spelled ts rest) :
    ∀ t ∈ ts, t.Valid :=
  fun t member => (spelled.inLine t member).valid

theorem StatementSpelled.valid {ts rest : List Token} {s : Option Simple}
    (spelled : StatementSpelled ts s rest) : ∀ t ∈ ts, t.Valid := by
  cases spelled with
  | bare ended => exact ended.valid
  | simple spelled ended => exact List.forall_mem_append.mpr ⟨spelled.valid, ended.valid⟩

theorem ParametersSpelled.inLine {ts : List Token} {es : List Expression}
    (spelled : ParametersSpelled ts es) : ∀ t ∈ ts, t.InLine := by
  induction spelled with
  | last kind address => exact List.forall_mem_cons.mpr ⟨.of_kind kind rfl, address.inLine⟩
  | more kind address linked _ ih =>
    simp only [List.forall_mem_cons, List.forall_mem_append]
    exact ⟨.of_kind kind rfl, address.inLine, .of_kind linked rfl, ih⟩

theorem Ending.Spelled.inLine {ts : List Token} {finish : Ending} (spelled : finish.Spelled ts) :
    ∀ t ∈ ts, t.InLine := by
  cases spelled with
  | value spelled => exact spelled.inLine
  | condition opened spelled closed =>
    simp only [List.forall_mem_cons, List.forall_mem_append]
    exact ⟨.of_kind opened rfl, spelled.inLine, .of_kind closed rfl, by simp⟩

theorem Part.Spelled.inLine {ts : List Token} {part : Part} (spelled : part.Spelled ts) :
    ∀ t ∈ ts, t.InLine := by
  cases spelled with
  | part starts opened steps closed ends dotted linked driven =>
    simp only [List.forall_mem_cons, List.forall_mem_append]
    exact ⟨starts.inLine, .of_kind opened rfl, steps.inLine, .of_kind closed rfl, ends.inLine,
      .of_kind dotted rfl, .of_kind linked rfl, driven.inLine⟩

theorem PartsSpelled.inLine {ts : List Token} {parts : List Part}
    (spelled : PartsSpelled ts parts) : ∀ t ∈ ts, t.InLine := by
  induction spelled with
  | last spelled => exact spelled.inLine
  | more spelled kind _ ih =>
    simp only [List.forall_mem_cons, List.forall_mem_append]
    exact ⟨spelled.inLine, .of_kind kind rfl, ih⟩

theorem Header.Spelled.inLine {ts : List Token} {header : Header} (spelled : header.Spelled ts) :
    ∀ t ∈ ts, t.InLine := by
  cases spelled with
  | header opened driven closed first kind second _ =>
    simp only [List.forall_mem_cons, List.forall_mem_append]
    exact ⟨.of_kind opened rfl, driven.inLine, .of_kind closed rfl, .of_kind first rfl,
      .of_kind kind rfl, .of_kind second rfl, by simp⟩

theorem LabelsSpelled.inLine {ts : List Token} {names : List String}
    (labelled : LabelsSpelled ts names) : ∀ t ∈ ts, t.InLine := by
  induction labelled with
  | none => simp
  | more kind declared _ ih =>
    simp only [List.forall_mem_cons]
    exact ⟨.of_kind kind rfl, .of_kind declared rfl, ih⟩

theorem Script.Spelled.valid {exit : Option String} {ts rest : List Token} {script : Script}
    (spelled : Script.Spelled exit ts script rest) : ∀ t ∈ ts, t.Valid := by
  induction spelled with
  | done _ => nofun
  | separator kind _ ih => exact List.forall_mem_cons.mpr ⟨.of_either kind nofun nofun, ih⟩
  | statement labelled spelled _ _ _ ih =>
    simp only [List.forall_mem_append]
    exact ⟨⟨fun t member => (labelled.inLine t member).valid, spelled.valid⟩, ih⟩
  | loop labelled spelled ended _ _ _ body after =>
    simp only [List.forall_mem_append]
    exact ⟨⟨⟨⟨fun t member => (labelled.inLine t member).valid,
      fun t member => (spelled.inLine t member).valid⟩, ended.valid⟩, body⟩, after⟩

end Cellscript
