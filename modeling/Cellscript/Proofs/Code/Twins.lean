import Cellscript.Proofs.Code.Building
import Cellscript.Proofs.Language.BlockLabels
import Mathlib.Data.List.Forall2

/-!
Twin chunks. When a script is compiled twice, with its loops numbered from different numbers on, the
two chunks differ in the names of blocks and in nothing else. Since different names stay different,
constants are shared and labels refused in one chunk exactly where they are in the other.
-/

set_option autoImplicit false

namespace Cellscript

open List (Forall₂)

/-! ## Texts and their counterparts -/

/-- The text that a name or a string stands for. -/
def Token.text? (t : Token) : Option String :=
  match t.kind with
  | .name => some t.lexeme
  | .string => some (stringText t.lexeme)
  | _ => none

theorem Token.text?_name {t : Token} (kind : t.kind = .name) : t.text? = some t.lexeme := by
  rw [text?, kind]

theorem Token.text?_string {t : Token} (kind : t.kind = .string) :
    t.text? = some (stringText t.lexeme) := by
  rw [text?, kind]

/-- A script declares a label where it writes the label before dots, or as the start label of a
loop, at the end of the header. -/
inductive Token.Declares (tokens : List Token) : String → Prop
  | label {name dots : Token} (here : [name, dots] <:+: tokens) (named : name.kind = .name)
      (dotted : dots.kind = .dots) : Declares tokens name.lexeme
  | start {closing name divider exit : Token} (here : [closing, name, divider, exit] <:+: tokens)
      (closed : closing.kind = .rightCurly) (named : name.kind = .name)
      (divided : divider.kind = .divider) (exits : exit.kind = .name) : Declares tokens name.lexeme

theorem Token.Declares.written {tokens : List Token} {name : String}
    (declares : Declares tokens name) : ∃ t ∈ tokens, t.text? = some name := by
  cases declares with
  | @label t _ here named => exact ⟨t, here.subset (by simp), text?_name named⟩
  | @start _ t _ _ here _ named => exact ⟨t, here.subset (by simp), text?_name named⟩

/-- A script whose loops are numbered from one number on and, a second time, from another. If the
numbers differ, no text of the script may be taken for the label of a block. -/
structure Renumbering where
  tokens : List Token
  first : Nat
  second : Nat
  told : first = second ∨ ∀ t ∈ tokens, ∀ text ∈ t.text?, ¬ LoopBlock.Reserved text

namespace Renumbering

variable {r : Renumbering}

/-- A text of one chunk and its counterpart in the other. -/
inductive Maps (r : Renumbering) : String → String → Prop
  | written {t : Token} {text : String} (among : t ∈ r.tokens) (writes : t.text? = some text) :
      Maps r text text
  | label (block : LoopBlock) (loop part link : Nat) :
      Maps r (block.label (r.first + loop) part link) (block.label (r.second + loop) part link)

theorem Maps.declared {name : String} (declared : Token.Declares r.tokens name) :
    r.Maps name name := by
  obtain ⟨t, among, writes⟩ := declared.written
  exact .written among writes

/-- Texts are the same exactly where their counterparts are. -/
theorem Maps.eq_iff {s t u v : String} (one : r.Maps s t) (other : r.Maps u v) :
    s = u ↔ t = v := by
  -- with the same numbers nothing is renamed; else the labels of blocks can be told by their start
  rcases r.told with same | told
  · have fixed {s t : String} (maps : r.Maps s t) : s = t := by
      cases maps with
      | written => rfl
      | label => rw [same]
    rw [fixed one, fixed other]
  · cases one with
    | written among writes =>
      cases other with
      | written => rfl
      | label block loop part link =>
        refine ⟨?_, ?_⟩ <;>
        · rintro rfl
          exact absurd (block.label_reserved _ _ _) (told _ among _ writes)
    | label block loop part link =>
      cases other with
      | written among writes =>
        refine ⟨?_, ?_⟩ <;>
        · rintro rfl
          exact absurd (block.label_reserved _ _ _) (told _ among _ writes)
      | label kind loop' part' link' =>
        constructor <;>
        · intro same
          obtain ⟨rfl, number, rfl, rfl⟩ := LoopBlock.label_inj same
          rw [Nat.add_left_cancel number]

/-- Constants and their counterparts. -/
inductive MapsValue (r : Renumbering) : Value → Value → Prop
  | number (x : Float) : MapsValue r (.number x) (.number x)
  | text {s t : String} (maps : r.Maps s t) : MapsValue r (.text s) (.text t)

theorem MapsValue.shares_eq {v w x y : Value} (one : r.MapsValue v w) (other : r.MapsValue x y) :
    Chunk.shares v x = Chunk.shares w y := by
  cases one with
  | number =>
    cases other with
    | number => rfl
    | text => rfl
  | text maps =>
    cases other with
    | number => rfl
    | text also =>
      rw [Chunk.shares, Chunk.shares, Bool.eq_iff_iff, beq_iff_eq, beq_iff_eq]
      exact maps.eq_iff also

/-- Label tables whose names are counterparts. In the first one every name is declared by the script
or is one of the `marks`, and all of these are there. -/
structure MapsLabels (r : Renumbering) (marks : List String)
    (labels others : List (String × Nat)) : Prop where
  alike : Forall₂ (fun a b => r.Maps a.1 b.1 ∧ a.2 = b.2) labels others
  known : ∀ label ∈ labels, Token.Declares r.tokens label.1 ∨ label.1 ∈ marks
  marked : ∀ name ∈ marks, name ∈ labels.map Prod.fst

end Renumbering

theorem findIdx?_of_forall₂ {α β : Type} {R : α → β → Prop} {xs : List α} {ys : List β}
    {p : α → Bool} {q : β → Bool} (alike : Forall₂ R xs ys) (agree : ∀ {a b}, R a b → p a = q b) :
    xs.findIdx? p = ys.findIdx? q := by
  induction alike with
  | nil => rfl
  | cons here _ ih => rw [List.findIdx?_cons, List.findIdx?_cons, agree here, ih]

theorem getElem?_of_forall₂ {α β : Type} {R : α → β → Prop} {xs : List α} {ys : List β}
    (alike : Forall₂ R xs ys) (i : Nat) :
    xs[i]? = none ∧ ys[i]? = none ∨ ∃ a b, xs[i]? = some a ∧ ys[i]? = some b ∧ R a b := by
  induction alike generalizing i with
  | nil => exact Or.inl ⟨rfl, rfl⟩
  | cons here _ ih =>
    cases i with
    | zero => exact Or.inr ⟨_, _, rfl, rfl, here⟩
    | succ i => exact ih i

namespace Chunk

/-- The name that a problem with a label is about. -/
def Error.duplicate? : Error → Option String
  | .duplicateLabel name => some name
  | _ => none

/-- The chunks hold the same code and counterparts of the same constants. How their labels are
related is left open. -/
structure Twins (r : Renumbering) (L : List (String × Nat) → List (String × Nat) → Prop)
    (c d : Chunk) : Prop where
  code : d.code = c.code
  constants : Forall₂ r.MapsValue c.constants.toList d.constants.toList
  labels : L c.labels d.labels

/-- Neither table has a label. -/
def NoLabels (labels others : List (String × Nat)) : Prop := labels = [] ∧ others = []

namespace Twins

variable {r : Renumbering} {L : List (String × Nat) → List (String × Nat) → Prop} {c d : Chunk}

theorem empty : Twins r NoLabels {} {} := ⟨rfl, .nil, rfl, rfl⟩

theorem size_eq (twins : Twins r L c d) : d.size = c.size := by
  unfold size
  rw [twins.code]

theorem push (twins : Twins r L c d) (b : CodeByte) : Twins r L (c.push b) (d.push b) := by
  refine ⟨?_, twins.constants, twins.labels⟩
  unfold Chunk.push
  rw [twins.code]

theorem emit (twins : Twins r L c d) (byte : UInt8) (line : Nat) :
    Twins r L (c.emit byte line) (d.emit byte line) := twins.push _

theorem emitPair (twins : Twins r L c d) (op : Opcode) (operand : UInt8) (line : Nat) :
    Twins r L (c.emitPair op operand line) (d.emitPair op operand line) :=
  (twins.emit _ _).emit _ _

theorem patchJump (twins : Twins r L c d) (offset : Nat) :
    (∃ distance, c.patchJump offset = .error (.jumpTooLarge distance) ∧
      d.patchJump offset = .error (.jumpTooLarge distance)) ∨
    ∃ c' d', c.patchJump offset = .ok c' ∧ d.patchJump offset = .ok d' ∧ Twins r L c' d' := by
  unfold Chunk.patchJump
  rw [twins.size_eq]
  dsimp only
  by_cases near : c.size - offset - 1 < 256
  · rw [if_pos near, if_pos near]
    refine Or.inr ⟨_, _, rfl, rfl, ?_, twins.constants, twins.labels⟩
    unfold Chunk.patch
    rw [twins.code]
  · rw [if_neg near, if_neg near]
    exact Or.inl ⟨_, rfl, rfl⟩

/-! ## Constants -/

theorem findIdx?_eq {pool other : Array Value} {v w : Value}
    (pools : Forall₂ r.MapsValue pool.toList other.toList) (maps : r.MapsValue v w) :
    other.findIdx? (shares · w) = pool.findIdx? (shares · v) := by
  have toList (values : Array Value) (sought : Value → Bool) :
      values.findIdx? sought = values.toList.findIdx? sought := by
    rw [← List.findIdx?_toArray, Array.toArray_toList]
  rw [toList, toList]
  exact (findIdx?_of_forall₂ pools fun here => here.shares_eq maps).symm

theorem size_of_forall₂ {pool other : Array Value}
    (pools : Forall₂ r.MapsValue pool.toList other.toList) : other.size = pool.size := by
  have lengths := pools.length_eq
  rwa [Array.length_toList, Array.length_toList, eq_comm] at lengths

theorem addConstant {v w : Value} (maps : r.MapsValue v w) (twins : Twins r L c d) :
    c.addConstant v = .error .tooManyConstants ∧ d.addConstant w = .error .tooManyConstants ∨
    ∃ index c' d', c.addConstant v = .ok (index, c') ∧ d.addConstant w = .ok (index, d') ∧
      Twins r L c' d' := by
  unfold Chunk.addConstant
  rw [findIdx?_eq twins.constants maps, size_of_forall₂ twins.constants]
  cases c.constants.findIdx? (shares · v) with
  | some index => exact Or.inr ⟨_, _, _, rfl, rfl, twins⟩
  | none =>
    by_cases full : maxConstants ≤ c.constants.size
    · exact Or.inl ⟨if_pos full, if_pos full⟩
    · refine Or.inr ⟨_, _, _, if_neg full, if_neg full, twins.code, ?_, twins.labels⟩
      rw [Array.toList_push, Array.toList_push]
      exact List.rel_append twins.constants (.cons maps .nil)

/-! ## Splicing -/

theorem constant_of_forall₂ {pool other : Array Value} {i : Nat} {v : Value}
    (pools : Forall₂ r.MapsValue pool.toList other.toList) (here : pool[i]? = some v) :
    ∃ w, other[i]? = some w ∧ r.MapsValue v w := by
  rw [← Array.getElem?_toList] at here ⊢
  rcases getElem?_of_forall₂ pools i with ⟨none, _⟩ | ⟨_, w, found, there, maps⟩
  · cases here.symm.trans none
  · cases here.symm.trans found
    exact ⟨w, there, maps⟩

theorem no_constant_of_forall₂ {pool other : Array Value} {i : Nat}
    (pools : Forall₂ r.MapsValue pool.toList other.toList) (absent : pool[i]? = none) :
    other[i]? = none := by
  rw [Array.getElem?_eq_none_iff] at absent ⊢
  rwa [size_of_forall₂ pools]

/-- Code is copied equally far, and the same problem ends it. -/
theorem copyCode {pool other : Array Value}
    (pools : Forall₂ r.MapsValue pool.toList other.toList) (offset : Nat) (code : List CodeByte)
    (twins : Twins r L c d) :
    (copyCode other offset code d).2 = (copyCode pool offset code c).2 ∧
      (copyCode pool offset code c).2.bind Error.duplicate? = none ∧
      Twins r L (copyCode pool offset code c).1 (copyCode other offset code d).1 := by
  fun_induction Chunk.copyCode pool offset code c generalizing d with
  | case1 => exact ⟨rfl, rfl, twins⟩
  | case2 offset first rest c unknown =>
    rw [Chunk.copyCode, unknown]
    exact ⟨rfl, rfl, twins⟩
  | case3 offset first rest c op known single ih =>
    rw [Chunk.copyCode, known]
    dsimp only
    rw [if_pos single]
    exact ih (twins.push _)
  | case4 offset first c op known pair =>
    rw [Chunk.copyCode, known]
    dsimp only
    rw [if_neg pair]
    exact ⟨rfl, rfl, twins⟩
  | case5 offset first c operand rest missing known pair =>
    rw [Chunk.copyCode, known]
    dsimp only
    rw [if_neg pair, if_pos rfl, no_constant_of_forall₂ pools missing]
    exact ⟨rfl, rfl, twins⟩
  | case6 offset first c operand rest value found problem refused known pair =>
    obtain ⟨counterpart, there, maps⟩ := constant_of_forall₂ pools found
    rw [Chunk.copyCode, known]
    dsimp only
    rw [if_neg pair, if_pos rfl, there]
    rcases twins.addConstant maps with ⟨full, also⟩ | ⟨_, _, _, added, _⟩
    · cases refused.symm.trans full
      dsimp only
      rw [also]
      exact ⟨rfl, rfl, twins⟩
    · cases refused.symm.trans added
  | case7 offset first c operand rest value found index e added known pair ih =>
    obtain ⟨counterpart, there, maps⟩ := constant_of_forall₂ pools found
    rw [Chunk.copyCode, known]
    dsimp only
    rw [if_neg pair, if_pos rfl, there]
    rcases twins.addConstant maps with ⟨full, _⟩ | ⟨_, _, _, here, also, grown⟩
    · cases added.symm.trans full
    · cases added.symm.trans here
      dsimp only
      rw [also]
      exact ih (grown.emitPair _ _ _)
  | case8 offset first c op known pair operand rest jump ih =>
    rw [Chunk.copyCode, known]
    dsimp only
    rw [if_neg pair, if_neg jump]
    exact ih ((twins.push _).push _)

/-- Splicing code without labels. -/
theorem splice {other counterpart : Chunk} (twins : Twins r L c d)
    (apart : Twins r NoLabels other counterpart) :
    (d.splice counterpart).2 = (c.splice other).2 ∧
      (c.splice other).2.bind Error.duplicate? = none ∧
      Twins r L (c.splice other).1 (d.splice counterpart).1 := by
  obtain ⟨same, plain, copied⟩ := twins.copyCode apart.constants 0 other.code.toList
  unfold Chunk.splice
  rw [apart.code, apart.labels.1, apart.labels.2]
  generalize Chunk.copyCode other.constants 0 other.code.toList c = one at same plain copied ⊢
  generalize Chunk.copyCode counterpart.constants 0 other.code.toList d = two at same copied ⊢
  obtain ⟨c', problem⟩ := one
  obtain ⟨d', problem'⟩ := two
  cases same
  cases problem <;> exact ⟨rfl, plain, copied⟩

/-! ## Labels -/

section Labels

variable {marks : List String} {name counterpart : String}

theorem names_iff {labels others : List (String × Nat)} (maps : r.Maps name counterpart)
    (alike : Forall₂ (fun a b => r.Maps a.1 b.1 ∧ a.2 = b.2) labels others) :
    counterpart ∈ others.map Prod.fst ↔ name ∈ labels.map Prod.fst := by
  induction alike with
  | nil => simp
  | cons here _ ih =>
    rw [List.map_cons, List.map_cons, List.mem_cons, List.mem_cons, ih, maps.eq_iff here.1]

/-- Both chunks refuse a label or none does. The marks may grow by the name of the label. -/
theorem insertLabel {more : List String} (maps : r.Maps name counterpart)
    (kept : marks ⊆ more) (new : ∀ mark ∈ more, mark ∈ marks ∨ mark = name)
    (known : Token.Declares r.tokens name ∨ name ∈ more) (offset : Nat)
    (twins : Twins r (r.MapsLabels marks) c d) :
    (name ∈ c.labels.map Prod.fst ∧ c.insertLabel name offset = .error (.duplicateLabel name) ∧
      d.insertLabel counterpart offset = .error (.duplicateLabel counterpart) ∧
      Twins r (r.MapsLabels more) c d) ∨
    ∃ c' d', c.insertLabel name offset = .ok c' ∧ d.insertLabel counterpart offset = .ok d' ∧
      Twins r (r.MapsLabels more) c' d' := by
  have still : ∀ label ∈ c.labels, Token.Declares r.tokens label.1 ∨ label.1 ∈ more :=
    fun label member => (twins.labels.known label member).imp_right fun mark => kept mark
  have names := names_iff maps twins.labels.alike
  by_cases taken : name ∈ c.labels.map Prod.fst
  · refine Or.inl ⟨taken, insertLabel_of_taken taken _, insertLabel_of_taken (names.mpr taken) _,
      twins.code, twins.constants, twins.labels.alike, still, fun mark member => ?_⟩
    rcases new mark member with old | rfl
    · exact twins.labels.marked mark old
    · exact taken
  · refine Or.inr ⟨_, _, insertLabel_of_free taken _, insertLabel_of_free (taken ∘ names.mp) _,
      twins.code, twins.constants, ?_, ?_, fun mark member => ?_⟩
    · exact List.rel_append twins.labels.alike (.cons ⟨maps, rfl⟩ .nil)
    · exact List.forall_mem_append.mpr ⟨still, List.forall_mem_singleton.mpr known⟩
    · rw [List.map_append, List.mem_append]
      rcases new mark member with old | rfl
      · exact Or.inl (twins.labels.marked mark old)
      · exact Or.inr (List.mem_singleton_self _)

end Labels

end Twins

end Chunk

end Cellscript
