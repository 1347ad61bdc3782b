import Mathlib.Data.List.Nodup

/-!
A pool of texts that grows at its end only. A text has one entry at most, so handles to entries can
be compared without a look at the texts.
-/

set_option autoImplicit false

namespace Cellscript

/-- A handle to an entry of a pool: the place of the entry, and its text. -/
structure Symbol where
  place : Nat
  text : String

/-- Handles are the same if they lead to the same place. -/
instance : BEq Symbol := ⟨fun s t => s.place == t.place⟩

structure Pool where
  texts : List String
  distinct : texts.Nodup

namespace Pool

/-- The handle to a text, if it has an entry. -/
def lookup? (pool : Pool) (text : String) : Option Symbol :=
  if text ∈ pool.texts then some ⟨pool.texts.idxOf text, text⟩ else none

/-- The handle to a text, which gets an entry if it has none. -/
def intern (pool : Pool) (text : String) : Symbol × Pool :=
  if known : text ∈ pool.texts then (⟨pool.texts.idxOf text, text⟩, pool)
  else (⟨pool.texts.length, text⟩, ⟨pool.texts ++ [text], by
    rw [← List.concat_eq_append]
    exact pool.distinct.concat known⟩)

inductive Call
  | intern (text : String)
  | lookup (text : String)

def Call.text : Call → String
  | intern text => text
  | lookup text => text

/-- What a call gives, and the pool after it. -/
def answer (pool : Pool) : Call → Option Symbol × Pool
  | .intern text => ((pool.intern text).1, (pool.intern text).2)
  | .lookup text => (pool.lookup? text, pool)

/-- Calls made one after the other, with what they give. -/
def answers : Pool → List Call → List (Call × Option Symbol)
  | _, [] => []
  | pool, call :: rest => (call, (pool.answer call).1) :: answers (pool.answer call).2 rest

/-- The handle leads to the entry with its text. -/
def Holds (pool : Pool) (s : Symbol) : Prop := pool.texts[s.place]? = some s.text

def Grows (pool later : Pool) : Prop := pool.texts <+: later.texts

theorem Grows.refl (pool : Pool) : pool.Grows pool := List.prefix_refl _

theorem Grows.trans {pool later last : Pool} (first : pool.Grows later)
    (second : later.Grows last) : pool.Grows last := List.IsPrefix.trans first second

variable {pool later : Pool} {s t : Symbol} {text : String}

namespace Holds

theorem mem (held : pool.Holds s) : s.text ∈ pool.texts := List.mem_of_getElem? held

theorem mono (held : pool.Holds s) (grown : pool.Grows later) : later.Holds s := by
  obtain ⟨more, grown⟩ := grown
  have within := (List.getElem?_eq_some_iff.mp held).1
  rw [Holds, ← grown, List.getElem?_append_left within]
  exact held

/-- Handles are the same exactly if their texts are. -/
theorem place_eq_iff (one : pool.Holds s) (other : pool.Holds t) :
    s.place = t.place ↔ s.text = t.text := by
  constructor
  · intro same
    rw [Holds, same, other] at one
    exact (Option.some.inj one).symm
  · intro same
    rw [Holds, same, ← other] at one
    exact (List.getElem?_inj (List.getElem?_eq_some_iff.mp (one.trans other)).1
      pool.distinct).mp one

theorem beq_eq (one : pool.Holds s) (other : pool.Holds t) : (s == t) = (s.text == t.text) := by
  have places : (s == t) = (s.place == t.place) := rfl
  rw [places, Bool.eq_iff_iff, beq_iff_eq, beq_iff_eq]
  exact one.place_eq_iff other

end Holds

/-! ## What a single call gives -/

theorem holds_idxOf (known : text ∈ pool.texts) : pool.Holds ⟨pool.texts.idxOf text, text⟩ :=
  List.getElem?_idxOf known

theorem lookup?_isSome_iff : (pool.lookup? text).isSome ↔ text ∈ pool.texts := by
  unfold lookup?
  split <;> simp_all

theorem lookup?_holds (found : pool.lookup? text = some s) : pool.Holds s ∧ s.text = text := by
  unfold lookup? at found
  split at found
  case isTrue known =>
    cases found
    exact ⟨holds_idxOf known, rfl⟩
  case isFalse => cases found

theorem intern_holds (pool : Pool) (text : String) :
    (pool.intern text).2.Holds (pool.intern text).1 ∧ (pool.intern text).1.text = text := by
  unfold intern
  split
  case isTrue known => exact ⟨holds_idxOf known, rfl⟩
  case isFalse => exact ⟨List.getElem?_concat_length, rfl⟩

theorem intern_grows (pool : Pool) (text : String) : pool.Grows (pool.intern text).2 := by
  unfold intern
  split
  case isTrue => exact .refl pool
  case isFalse => exact List.prefix_append _ _

theorem mem_intern {other : String} :
    other ∈ (pool.intern text).2.texts ↔ other ∈ pool.texts ∨ other = text := by
  unfold intern
  split
  case isTrue known =>
    refine ⟨Or.inl, ?_⟩
    rintro (known | rfl) <;> assumption
  case isFalse => simp

/-! ## What calls in a row give -/

theorem answer_grows (pool : Pool) (call : Call) : pool.Grows (pool.answer call).2 := by
  cases call with
  | intern text => exact pool.intern_grows text
  | lookup text => exact .refl pool

theorem answer_holds {call : Call} (given : (pool.answer call).1 = some s) :
    (pool.answer call).2.Holds s ∧ s.text = call.text := by
  cases call with
  | intern text =>
    cases given
    exact pool.intern_holds text
  | lookup text => exact lookup?_holds given

/-- All handles that are given lead to entries of one pool. -/
theorem answers_hold (pool : Pool) (calls : List Call) :
    ∃ last : Pool, pool.Grows last ∧ ∀ given ∈ pool.answers calls, ∀ s ∈ given.2,
      last.Holds s ∧ s.text = given.1.text := by
  induction calls generalizing pool with
  | nil => exact ⟨pool, .refl pool, List.forall_mem_nil _⟩
  | cons call rest ih =>
    obtain ⟨last, grown, holds⟩ := ih (pool.answer call).2
    refine ⟨last, (pool.answer_grows call).trans grown, List.forall_mem_cons.mpr ⟨?_, holds⟩⟩
    intro s given
    obtain ⟨held, text⟩ := answer_holds given
    exact ⟨held.mono grown, text⟩

/-- A call finds the texts that were in the pool and those that were interned before it. -/
theorem answers_getElem? (pool : Pool) (calls : List Call) (i : Nat) {call : Call}
    (here : calls[i]? = some call) :
    ∃ before : Pool, (pool.answers calls)[i]? = some (call, (before.answer call).1) ∧
      ∀ text, text ∈ before.texts ↔ text ∈ pool.texts ∨ .intern text ∈ calls.take i := by
  induction calls generalizing pool i with
  | nil => cases here
  | cons first rest ih =>
    cases i with
    | zero =>
      cases here
      exact ⟨pool, rfl, fun text => by simp⟩
    | succ i =>
      obtain ⟨before, given, known⟩ := ih (pool.answer first).2 i here
      refine ⟨before, given, fun text => ?_⟩
      rw [known, List.take_succ_cons, List.mem_cons, ← or_assoc]
      refine or_congr_left ?_
      cases first with
      | intern other =>
        rw [Call.intern.injEq]
        exact mem_intern
      | lookup other => simp [answer]

end Pool

end Cellscript
