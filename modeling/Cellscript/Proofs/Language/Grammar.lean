import Cellscript.Compile.Program
import Cellscript.Proofs.Language.Tree

/-!
The grammar: which tokens spell which tree. Where a statement ends depends on what follows it, so
statements are spelled in front of the tokens that come after them.
-/

set_option autoImplicit false

namespace Cellscript

/-! ## Expressions -/

/-- The operator between two operands that a token of this kind is. -/
def Token.Kind.binary? : Token.Kind → Option BinaryOperator
  | .equalGreater => some .refer
  | .lessEqualGreater => some .exchange
  | .equalEqual => some .equal
  | .bangEqual => some .notEqual
  | .greater => some .greater
  | .greaterEqual => some .greaterEqual
  | .less => some .less
  | .lessEqual => some .lessEqual
  | .plus => some .add
  | .minus => some .subtract
  | .star => some .multiply
  | .slash => some .divide
  | _ => none

def BinaryOperator.level : BinaryOperator → Level
  | assign | refer | exchange => .reference
  | equal | notEqual => .equality
  | greater | greaterEqual | less | lessEqual => .comparison
  | add | subtract => .term
  | multiply | divide => .factor

/-- The operator in front of an operand that a token of this kind is. -/
def Token.Kind.unary? : Token.Kind → Option UnaryOperator
  | .minus => some .negate
  | .bang => some .not
  | .quote => some .read
  | _ => none

/-- A string lexeme quotes a text: a quote, the text and a quote. What is not in quotes stands for
itself. -/
inductive Quotes : String → String → Prop
  | quoted (text : List Char) :
      Quotes (String.ofList ('\x22' :: (text ++ ['\x22']))) (String.ofList text)
  | bare {lexeme : String} (unquoted : ∀ text, lexeme.toList ≠ '\x22' :: (text ++ ['\x22'])) :
      Quotes lexeme lexeme

theorem stringText_quoted (text : List Char) :
    stringText (String.ofList ('\x22' :: (text ++ ['\x22']))) = String.ofList text := by
  rw [stringText, String.toList_ofList]
  dsimp only
  rw [if_pos ⟨rfl, List.getLast?_concat⟩, List.dropLast_concat]

theorem stringText_bare {lexeme : String}
    (bare : ∀ text, lexeme.toList ≠ '\x22' :: (text ++ ['\x22'])) : stringText lexeme = lexeme := by
  unfold stringText
  split
  · rfl
  · rename_i first rest starts
    refine if_neg fun quotes => bare rest.dropLast ?_
    obtain ⟨rfl, ends⟩ := quotes
    obtain ⟨text, rfl⟩ := List.getLast?_eq_some_iff.mp ends
    rw [starts, List.dropLast_concat]

theorem Quotes.eq_stringText {lexeme text : String} (quotes : Quotes lexeme text) :
    text = stringText lexeme := by
  cases quotes with
  | quoted text => rw [stringText_quoted]
  | bare unquoted => rw [stringText_bare unquoted]

theorem stringText_quotes (lexeme : String) : Quotes lexeme (stringText lexeme) := by
  by_cases quoted : ∃ text, lexeme.toList = '\x22' :: (text ++ ['\x22'])
  · obtain ⟨text, same⟩ := quoted
    obtain rfl : lexeme = String.ofList ('\x22' :: (text ++ ['\x22'])) := by
      rw [← same, String.ofList_toList]
    rw [stringText_quoted]
    exact .quoted text
  · have bare := not_exists.mp quoted
    rw [stringText_bare bare]
    exact .bare bare

/-- The tokens spell an expression whose operators bind at least as strongly as the level.
Operators associate to the left, except that references and assignments do not chain. -/
inductive Expression.Spelled : Level → List Token → Expression → Prop
  | number {t : Token} {x : Float} (kind : t.kind = .number)
      (read : readNumber? t.lexeme = some x) : Spelled .unary [t] (.number x)
  | string {t : Token} {text : String} (kind : t.kind = .string) (quotes : Quotes t.lexeme text) :
      Spelled .unary [t] (.text text)
  | name {t : Token} (kind : t.kind = .name) : Spelled .unary [t] (.text t.lexeme)
  | truth {t : Token} {b : Bool} (kind : t.kind = if b then .yes else .no) :
      Spelled .unary [t] (.truth b)
  | group {left right : Token} {ts : List Token} {e : Expression} (opened : left.kind = .leftParen)
      (inner : Spelled .reference ts e) (closed : right.kind = .rightParen) :
      Spelled .unary (left :: (ts ++ [right])) e
  | unary {t : Token} {op : UnaryOperator} {ts : List Token} {e : Expression}
      (kind : t.kind.unary? = some op) (operand : Spelled .unary ts e) :
      Spelled .unary (t :: ts) (.unary op e)
  | binary {t : Token} {op : BinaryOperator} {ts us : List Token} {left right : Expression}
      (kind : t.kind.binary? = some op) (chains : op.level ≠ .reference)
      (first : Spelled op.level ts left) (second : Spelled op.level.stronger us right) :
      Spelled op.level (ts ++ t :: us) (.binary op left right)
  | reference {t : Token} {op : BinaryOperator} {ts us : List Token} {left right : Expression}
      (kind : t.kind.binary? = some op) (weakest : op.level = .reference)
      (first : Spelled .equality ts left) (second : Spelled .equality us right) :
      Spelled .reference (ts ++ t :: us) (.binary op left right)
  | assign {quote equal : Token} {ts us : List Token} {target value : Expression}
      (opened : quote.kind = .quote) (first : Spelled .unary ts target)
      (kind : equal.kind = .equal) (second : Spelled .reference us value) :
      Spelled .reference (quote :: (ts ++ equal :: us)) (.binary .assign target value)
  | weaken {level : Level} {ts : List Token} {e : Expression}
      (strong : Spelled level.stronger ts e) : Spelled level ts e

/-! ## Statements -/

/-- The kind of the token that comes first. -/
def kindAhead (tokens : List Token) : Token.Kind := (tokens.head?.map (·.kind)).getD .finish

/-- The tokens spell a statement in front of `rest`. A branch takes the first bar after it. -/
inductive Simple.Spelled : List Token → Simple → List Token → Prop
  | print {t : Token} {ts rest : List Token} {e : Expression}
      (kind : t.kind = .print ∨ t.kind = .pr)
      (shown : e.Spelled .reference ts) : Spelled (t :: ts) (.print e) rest
  | stop {t : Token} {rest : List Token} (kind : t.kind = .bang)
      (alone : (kindAhead rest).isTerminator = true ∨ kindAhead rest = .pipe) :
      Spelled [t] .stop rest
  | perform {ts rest : List Token} {e : Expression} (performed : e.Spelled .reference ts) :
      Spelled ts (.perform e) rest
  | when {left right : Token} {ts us rest : List Token} {predicate : Expression} {body : Simple}
      (opened : left.kind = .leftCurly) (asked : predicate.Spelled .reference ts)
      (closed : right.kind = .rightCurly) (chosen : Spelled us body rest)
      (lone : kindAhead rest ≠ .pipe) :
      Spelled (left :: (ts ++ right :: us)) (.when predicate body) rest
  | choose {left right bar : Token} {ts us vs rest : List Token} {predicate : Expression}
      {body other : Simple} (opened : left.kind = .leftCurly)
      (asked : predicate.Spelled .reference ts) (closed : right.kind = .rightCurly)
      (chosen : Spelled us body (bar :: (vs ++ rest))) (kind : bar.kind = .pipe)
      (otherwise : Spelled vs other rest) :
      Spelled (left :: (ts ++ right :: (us ++ bar :: vs))) (.choose predicate body other) rest

/-- A statement ends with a terminator or with the script. -/
inductive Terminator : List Token → List Token → Prop
  | token {t : Token} {rest : List Token} (kind : t.kind = .newline ∨ t.kind = .divider) :
      Terminator [t] rest
  | finish : Terminator [] []

/-! ## Headers of loops -/

inductive ParametersSpelled : List Token → List Expression → Prop
  | last {quote : Token} {ts : List Token} {e : Expression} (kind : quote.kind = .quote)
      (address : e.Spelled .unary ts) : ParametersSpelled (quote :: ts) [e]
  | more {quote arrow : Token} {ts us : List Token} {e : Expression} {es : List Expression}
      (kind : quote.kind = .quote) (address : e.Spelled .unary ts)
      (linked : arrow.kind = .equalGreater) (rest : ParametersSpelled us es) :
      ParametersSpelled (quote :: (ts ++ arrow :: us)) (e :: es)

inductive Ending.Spelled : List Token → Ending → Prop
  | value {ts : List Token} {target : Expression} (spelled : target.Spelled .reference ts) :
      Spelled ts (.value target)
  | condition {left right : Token} {ts : List Token} {predicate : Expression}
      (opened : left.kind = .leftCurly) (spelled : predicate.Spelled .reference ts)
      (closed : right.kind = .rightCurly) : Spelled (left :: (ts ++ [right])) (.condition predicate)

/-- A part: `init (step) end. => 'parameter => …`. -/
inductive Part.Spelled : List Token → Part → Prop
  | part {left right dot arrow : Token} {ts us vs ws : List Token} {init step : Expression}
      {finish : Ending} {parameters : List Expression} (starts : init.Spelled .reference ts)
      (opened : left.kind = .leftParen) (steps : step.Spelled .reference us)
      (closed : right.kind = .rightParen) (ends : finish.Spelled vs) (dotted : dot.kind = .dot)
      (linked : arrow.kind = .equalGreater) (driven : ParametersSpelled ws parameters) :
      Spelled (ts ++ left :: (us ++ right :: (vs ++ dot :: arrow :: ws)))
        { init, step, finish, parameters }

inductive PartsSpelled : List Token → List Part → Prop
  | last {ts : List Token} {part : Part} (spelled : part.Spelled ts) : PartsSpelled ts [part]
  | more {divider : Token} {ts us : List Token} {part : Part} {parts : List Part}
      (spelled : part.Spelled ts) (kind : divider.kind = .divider) (rest : PartsSpelled us parts) :
      PartsSpelled (ts ++ divider :: us) (part :: parts)

/-- A header: `{ parts } start, exit`. -/
inductive Header.Spelled : List Token → Header → Prop
  | header {left right start divider exit : Token} {ts : List Token} {parts : List Part}
      (opened : left.kind = .leftCurly) (driven : PartsSpelled ts parts)
      (closed : right.kind = .rightCurly) (first : start.kind = .name)
      (kind : divider.kind = .divider) (second : exit.kind = .name)
      (differ : start.lexeme ≠ exit.lexeme) :
      Spelled (left :: (ts ++ [right, start, divider, exit]))
        { parts, start := start.lexeme, exit := exit.lexeme }

/-! ## Scripts -/

inductive LabelsSpelled : List Token → List String → Prop
  | none : LabelsSpelled [] []
  | more {name dots : Token} {ts : List Token} {names : List String} (kind : name.kind = .name)
      (declared : dots.kind = .dots) (rest : LabelsSpelled ts names) :
      LabelsSpelled (name :: dots :: ts) (name.lexeme :: names)

/-- What is left of a statement after its labels: nothing, or a statement of its own. -/
inductive StatementSpelled : List Token → Option Simple → List Token → Prop
  | bare {ts rest : List Token} (ended : Terminator ts rest) : StatementSpelled ts none rest
  | simple {ts us rest : List Token} {s : Simple} (spelled : s.Spelled ts (us ++ rest))
      (ended : Terminator us rest) : StatementSpelled (ts ++ us) (some s) rest

/-- A script ends with its tokens; the body of a loop ends where the exit label is declared. -/
def Script.Closes : Option String → List Token → Prop
  | none, rest => rest = []
  | some exit, rest =>
    ∃ name dots tail, rest = name :: dots :: tail ∧ name.kind = .name ∧ dots.kind = .dots ∧
      name.lexeme = exit

namespace Script

def marked (names : List String) (script : Script) : Script := names.foldr mark script

/-- A script that starts with a statement, if there is one. -/
def startWith : Option Simple → Script → Script
  | none, script => script
  | some s, script => simple s script

/-- The tokens spell a script in front of `rest`. -/
inductive Spelled : Option String → List Token → Script → List Token → Prop
  | done {exit : Option String} {rest : List Token} (closes : Closes exit rest) :
      Spelled exit [] .done rest
  | separator {exit : Option String} {t : Token} {ts rest : List Token} {script : Script}
      (kind : t.kind = .newline ∨ t.kind = .divider) (after : Spelled exit ts script rest) :
      Spelled exit (t :: ts) script rest
  | statement {exit : Option String} {labels ts us rest : List Token} {names : List String}
      {s : Option Simple} {script : Script} (labelled : LabelsSpelled labels names)
      (spelled : StatementSpelled ts s (us ++ rest)) (something : names = [] → s.isSome)
      (inside : ¬ Closes exit (labels ++ ts ++ us ++ rest)) (after : Spelled exit us script rest) :
      Spelled exit (labels ++ ts ++ us) (marked names (startWith s script)) rest
  | loop {exit : Option String} {labels ts us vs ws rest : List Token} {names : List String}
      {header : Header} {body script : Script} (labelled : LabelsSpelled labels names)
      (spelled : header.Spelled ts) (ended : Terminator us (vs ++ ws ++ rest))
      (inside : ¬ Closes exit (labels ++ ts ++ us ++ vs ++ ws ++ rest))
      (repeated : Spelled (some header.exit) vs body (ws ++ rest))
      (after : Spelled exit ws script rest) :
      Spelled exit (labels ++ ts ++ us ++ vs ++ ws) (marked names (.loop header body script)) rest

end Script

/-- The tokens of a script without the one that finishes it. -/
def Compiler.tokens (compiler : Compiler) (source : String) : List Token :=
  ((Token.scanThrough compiler.substitutions source).map (·.token)).takeWhile (·.kind != .finish)

/-- The text spells the script for this compiler. -/
def Compiler.Spells (compiler : Compiler) (source : String) (script : Script) : Prop :=
  script.Spelled none (compiler.tokens source) []

end Cellscript
