import Mathlib.Logic.Basic

namespace PasswordApp

/-!
# Library — optimistic transactions

The update function of an optimistic transaction is run again and again, each time on the value
the database then has, until a result of it stands.  It is a closure: what one run writes to a
captured variable, the next one finds there.

* `Retry.captured` — the captured variables after some runs;
* `Retry.outcome` — the last run decides, on the variables the earlier ones left;
* `Retry.outcome_eq` — if no run reads what another one left, the outcome is that of the last run
  alone.
-/

universe u v w x

namespace Retry

variable {κ : Type u} {α : Type v} {ρ : Type w}

/-- The captured variables after a run on each of the values; `f` is the update function. -/
def captured (f : κ → α → ρ × κ) : κ → List α → κ
  | k, [] => k
  | k, a :: values => captured f (f k a).2 values

/-- The result of the last run, and the captured variables after it. -/
def outcome (f : κ → α → ρ × κ) (k : κ) (earlier : List α) (last : α) : ρ × κ :=
  f (captured f k earlier) last

/-- What every run keeps of the captured variables, all runs keep. -/
theorem captured_keeps {f : κ → α → ρ × κ} {I : κ → Prop} (hkeep : ∀ k a, I k → I (f k a).2)
    {k : κ} (hk : I k) (values : List α) : I (captured f k values) := by
  induction values generalizing k with
  | nil => exact hk
  | cons a values ih => exact ih (hkeep k a hk)

/-- **Retry rule.**  If `see` shows the same of a run whatever the captured variables are, as far
    as the runs keep them, then it shows of the outcome what it shows of the last run alone. -/
theorem outcome_eq {σ : Type x} {f : κ → α → ρ × κ} {I : κ → Prop} {see : ρ × κ → σ} {g : α → σ}
    (hkeep : ∀ k a, I k → I (f k a).2) (hsee : ∀ k a, I k → see (f k a) = g a)
    {k : κ} (hk : I k) (earlier : List α) (last : α) :
    see (outcome f k earlier last) = g last :=
  hsee _ last (captured_keeps hkeep hk earlier)

end Retry

end PasswordApp
