/-!
Actions that may fail and keep what they did before failing: what holds of the state they leave.
-/

set_option autoImplicit false

namespace Cellscript

variable {ε σ α β : Type}

/-! ## What the steps of an action do -/

theorem get_apply (s : σ) : (EStateM.get : EStateM ε σ σ) s = .ok s s := rfl

theorem map_apply (f : α → β) (action : EStateM ε σ α) (s : σ) :
    (f <$> action) s =
      match action s with
      | .ok a t => .ok (f a) t
      | .error e t => .error e t := rfl

theorem bind_apply (first : EStateM ε σ α) (next : α → EStateM ε σ β) (s : σ) :
    (first >>= next) s =
      match first s with
      | .ok a t => next a t
      | .error e t => .error e t := rfl

theorem bind_apply_ok {first : EStateM ε σ α} {s t : σ} {a : α} (done : first s = .ok a t)
    (next : α → EStateM ε σ β) : (first >>= next) s = next a t := by
  rw [bind_apply, done]

theorem bind_apply_error {first : EStateM ε σ α} {s t : σ} {e : ε} (failed : first s = .error e t)
    (next : α → EStateM ε σ β) : (first >>= next) s = .error e t := by
  rw [bind_apply, failed]

theorem bind_eq_ok {first : EStateM ε σ α} {next : α → EStateM ε σ β} {s u : σ} {b : β}
    (done : (first >>= next) s = .ok b u) : ∃ a t, first s = .ok a t ∧ next a t = .ok b u := by
  rw [bind_apply] at done
  cases before : first s with
  | ok a t =>
    rw [before] at done
    exact ⟨a, t, rfl, done⟩
  | error e t =>
    rw [before] at done
    cases done

theorem bind_eq_error {first : EStateM ε σ α} {next : α → EStateM ε σ β} {s u : σ} {e : ε}
    (failed : (first >>= next) s = .error e u) :
    first s = .error e u ∨ ∃ a t, first s = .ok a t ∧ next a t = .error e u := by
  rw [bind_apply] at failed
  cases before : first s with
  | ok a t =>
    rw [before] at failed
    exact Or.inr ⟨a, t, rfl, failed⟩
  | error other t =>
    rw [before] at failed
    cases failed
    exact Or.inl rfl

theorem map_eq_error {f : α → β} {action : EStateM ε σ α} {s t : σ} {e : ε}
    (failed : (f <$> action) s = .error e t) : action s = .error e t := by
  rw [map_apply] at failed
  cases done : action s with
  | ok a u =>
    rw [done] at failed
    cases failed
  | error other u =>
    rw [done] at failed
    cases failed
    rfl

/-- An action that fails has no result. -/
theorem run'_of_error {action : EStateM ε σ α} {s t : σ} {e : ε} (failed : action s = .error e t) :
    action.run' s = none := by
  delta EStateM.run' EStateM.run
  rw [failed]

/-- The state that an action leaves, whether or not it fails. -/
def stateAfter : EStateM.Result ε σ α → σ
  | .ok _ s => s
  | .error _ s => s

theorem stateAfter_map (f : α → β) (action : EStateM ε σ α) (s : σ) :
    stateAfter ((f <$> action) s) = stateAfter (action s) := by
  rw [map_apply]
  cases action s <;> rfl

/-- From every state the action leads, also by failing, to a state that `R` allows. -/
def Within (R : σ → σ → Prop) (action : EStateM ε σ α) : Prop :=
  ∀ s, R s (stateAfter (action s))

namespace Within

variable {R : σ → σ → Prop}

theorem pure (reflexive : ∀ s, R s s) (a : α) : Within R (Pure.pure a : EStateM ε σ α) :=
  fun s => reflexive s

theorem throw (reflexive : ∀ s, R s s) (e : ε) : Within R (MonadExcept.throw e : EStateM ε σ α) :=
  fun s => reflexive s

theorem get (reflexive : ∀ s, R s s) : Within R (EStateM.get : EStateM ε σ σ) :=
  fun s => reflexive s

theorem bind (transitive : ∀ {s t u}, R s t → R t u → R s u) {first : EStateM ε σ α}
    {next : α → EStateM ε σ β} (before : Within R first) (after : ∀ a, Within R (next a)) :
    Within R (first >>= next) := by
  intro s
  have start := before s
  rw [bind_apply]
  cases done : first s with
  | ok a t =>
    rw [done] at start
    exact transitive start (after a t)
  | error e t =>
    rw [done] at start
    exact start

end Within

end Cellscript
