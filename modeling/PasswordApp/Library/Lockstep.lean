import PasswordApp.Library.Machine

namespace PasswordApp

/-!
# Library — two runs side by side

What an observer sees of a run does not depend on the parts of the state that no step lets
through.  The two states are kept in a relation, step by step.

* `Alike` — two fallible computations fail with the same error or end in related values;
* `Alike.bind` — sequencing keeps that;
* `Machine.outputs`, `Machine.outputs_forall` — what the steps of a run show;
* `Machine.lockstep` — related states show the same along every run;
* `Machine.run_related` — and are related at its end.
-/

universe u v w

/-! ### Fallible computations -/

/-- Both fail with one error, or both succeed with related values. -/
inductive Alike {ε : Type u} {α : Type v} (R : α → α → Prop) : Except ε α → Except ε α → Prop
  | error (e : ε) : Alike R (.error e) (.error e)
  | ok {a b : α} (h : R a b) : Alike R (.ok a) (.ok b)

namespace Alike

variable {ε : Type u} {α β : Type v} {R : α → α → Prop} {S : β → β → Prop}

theorem mono {R' : α → α → Prop} {x y : Except ε α} (h : Alike R x y)
    (himp : ∀ a b, R a b → R' a b) : Alike R' x y := by
  cases h with
  | error e => exact .error e
  | ok hab => exact .ok (himp _ _ hab)

theorem bind {x y : Except ε α} {f g : α → Except ε β} (h : Alike R x y)
    (hfg : ∀ a b, R a b → Alike S (f a) (g b)) : Alike S (x >>= f) (y >>= g) := by
  cases h with
  | error e => exact .error e
  | ok hab => exact hfg _ _ hab

/-- The same first step. -/
theorem bind_same (x : Except ε α) {f g : α → Except ε β}
    (hfg : ∀ a, x = .ok a → Alike S (f a) (g a)) : Alike S (x >>= f) (x >>= g) := by
  cases x with
  | error e => exact .error e
  | ok a => exact hfg a rfl

end Alike

/-! ### Machines -/

namespace Machine

variable {σ : Type u} {ι : Type v} {ω : Type w} {m : Machine σ ι} {G : σ → ι → Prop}

/-- What `o` shows of the steps of a run. -/
def outputs (m : Machine σ ι) (o : σ → ι → ω) : σ → List ι → List ω
  | _, [] => []
  | s, i :: is => o s i :: outputs m o (m.step s i) is

/-- **Output rule.** What every step from an invariant state shows, every run shows. -/
theorem outputs_forall {I : σ → Prop} {P : ω → Prop} {o : σ → ι → ω}
    (hstep : ∀ s i, I s → P (o s i) ∧ I (m.step s i)) {s : σ} (hs : I s) (is : List ι) :
    ∀ shown ∈ m.outputs o s is, P shown := by
  induction is generalizing s with
  | nil => intro shown hmem; cases hmem
  | cons i is ih =>
    obtain ⟨hshown, hnext⟩ := hstep s i hs
    intro shown hmem
    rcases List.mem_cons.mp hmem with rfl | hmem
    · exact hshown
    · exact ih hnext shown hmem

/-- **Lockstep rule.** If admissible steps from related states show the same and lead to
    related states, then whole runs show the same. -/
theorem lockstep {R : σ → σ → Prop} {o : σ → ι → ω}
    (hstep : ∀ s t i, R s t → G s i → o s i = o t i ∧ R (m.step s i) (m.step t i))
    {s t : σ} (h : R s t) {is : List ι} (hadm : m.Admissible G s is) :
    m.outputs o s is = m.outputs o t is := by
  induction is generalizing s t with
  | nil => rfl
  | cons i is ih =>
    obtain ⟨hshown, hnext⟩ := hstep s t i h hadm.1
    show o s i :: m.outputs o (m.step s i) is = o t i :: m.outputs o (m.step t i) is
    rw [hshown, ih hnext hadm.2]

/-- **Pair rule.** If admissible steps lead from related states to related states, then whole
    runs do. -/
theorem run_related {R : σ → σ → Prop}
    (hstep : ∀ s t i, R s t → G s i → R (m.step s i) (m.step t i))
    {s t : σ} (h : R s t) {is : List ι} (hadm : m.Admissible G s is) :
    R (m.run s is) (m.run t is) := by
  induction is generalizing s t with
  | nil => exact h
  | cons i is ih => exact ih (hstep s t i h hadm.1) hadm.2

end Machine

end PasswordApp
