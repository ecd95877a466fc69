import Mathlib.Algebra.Group.Defs
import Mathlib.Logic.Basic

namespace PasswordApp

/-!
# Library — machines, guarded runs and invariants

A `Machine` is a total step function; an input that is not enabled leaves the state
as it is.  A **guard** `G s i` says which inputs a run may feed in which states, so one
machine serves under several assumptions about its environment.

* `Machine.run` / `Machine.Admissible` — replay an input list, and the guard along it;
* `Machine.Reaches` — some admissible run leads from one state to the other;
* `Machine.Reaches.invariant` — the induction behind every safety result;
* `Machine.Reaches.relates` — the same for what two states of a run have to do with each other;
* `Machine.Reaches.strengthen` — an invariant may be used to discharge a stronger guard;
* `Machine.run_accounting` — a measure that every step moves by a known amount is, at
  the end of a run, its start plus the sum of the moves.
-/

universe u v w

/-- A deterministic machine with states `σ` and inputs `ι`. -/
structure Machine (σ : Type u) (ι : Type v) where
  step : σ → ι → σ

namespace Machine

variable {σ : Type u} {ι : Type v} (m : Machine σ ι)

/-- The state after feeding the inputs in order. -/
def run : σ → List ι → σ
  | s, [] => s
  | s, i :: is => run (m.step s i) is

/-- Every input of the list satisfies the guard in the state it is fed in. -/
def Admissible (G : σ → ι → Prop) : σ → List ι → Prop
  | _, [] => True
  | s, i :: is => G s i ∧ Admissible G (m.step s i) is

instance decidableAdmissible (G : σ → ι → Prop) [∀ s i, Decidable (G s i)] :
    ∀ s is, Decidable (m.Admissible G s is)
  | _, [] => inferInstanceAs (Decidable True)
  | s, i :: is =>
      have := decidableAdmissible G (m.step s i) is
      inferInstanceAs (Decidable (G s i ∧ m.Admissible G (m.step s i) is))

/-- `t` is the end of some admissible run from `s`. -/
def Reaches (G : σ → ι → Prop) (s t : σ) : Prop :=
  ∃ is, m.Admissible G s is ∧ m.run s is = t

variable {m} {G G' : σ → ι → Prop}

theorem run_append (s : σ) (is js : List ι) : m.run s (is ++ js) = m.run (m.run s is) js := by
  induction is generalizing s with
  | nil => rfl
  | cons i is ih => exact ih (m.step s i)

theorem admissible_append (s : σ) (is js : List ι) :
    m.Admissible G s (is ++ js) ↔ m.Admissible G s is ∧ m.Admissible G (m.run s is) js := by
  induction is generalizing s with
  | nil => simp [Admissible, run]
  | cons i is ih =>
    show G s i ∧ m.Admissible G (m.step s i) (is ++ js) ↔
      (G s i ∧ m.Admissible G (m.step s i) is) ∧ m.Admissible G (m.run (m.step s i) is) js
    rw [ih, and_assoc]

theorem Admissible.imp {s : σ} {is : List ι} (h : m.Admissible G s is)
    (hG : ∀ i ∈ is, ∀ s, G s i → G' s i) : m.Admissible G' s is := by
  induction is generalizing s with
  | nil => trivial
  | cons i is ih =>
    exact ⟨hG i List.mem_cons_self s h.1, ih h.2 (fun j hj => hG j (List.mem_cons_of_mem i hj))⟩

/-- Inputs that satisfy the guard in every state. -/
theorem admissible_of_forall (s : σ) {is : List ι} (h : ∀ i ∈ is, ∀ s, G s i) :
    m.Admissible G s is := by
  induction is generalizing s with
  | nil => trivial
  | cons i is ih =>
    exact ⟨h i List.mem_cons_self s, ih (m.step s i) (fun j hj => h j (List.mem_cons_of_mem i hj))⟩

/-- A guard on the inputs alone may be added. -/
theorem Admissible.and_forall {P : ι → Prop} {s : σ} {is : List ι} (h : m.Admissible G s is)
    (hP : ∀ i ∈ is, P i) : m.Admissible (fun s i => G s i ∧ P i) s is := by
  induction is generalizing s with
  | nil => trivial
  | cons i is ih =>
    exact ⟨⟨h.1, hP i List.mem_cons_self⟩,
      ih h.2 (fun j hj => hP j (List.mem_cons_of_mem i hj))⟩

/-- **Breaking rule.** Admissible steps keep an invariant.  If the first other step breaks a
    property for good that the invariant implies, the runs that end with the property are the
    admissible ones. -/
theorem admissible_iff {I B : σ → Prop} (hkeep : ∀ s i, I s → G s i → I (m.step s i))
    (hbreak : ∀ s i, I s → ¬ G s i → ¬ B (m.step s i))
    (hbroken : ∀ s i, ¬ B s → ¬ B (m.step s i)) (himp : ∀ s, I s → B s)
    {s : σ} (hs : I s) (is : List ι) : m.Admissible G s is ↔ B (m.run s is) := by
  induction is generalizing s with
  | nil => exact iff_of_true trivial (himp s hs)
  | cons i is ih =>
    by_cases hG : G s i
    · show G s i ∧ m.Admissible G (m.step s i) is ↔ B (m.run (m.step s i) is)
      rw [and_iff_right hG]
      exact ih (hkeep s i hs hG)
    · refine iff_of_false (fun hadm => hG hadm.1) ?_
      have hlost : ∀ (t : σ) (js : List ι), ¬ B t → ¬ B (m.run t js) := by
        intro t js ht
        induction js generalizing t with
        | nil => exact ht
        | cons j js ihj => exact ihj (m.step t j) (hbroken t j ht)
      exact hlost (m.step s i) is (hbreak s i hs hG)

namespace Reaches

theorem refl (s : σ) : m.Reaches G s s := ⟨[], trivial, rfl⟩

theorem trans {s t u : σ} (h₁ : m.Reaches G s t) (h₂ : m.Reaches G t u) : m.Reaches G s u := by
  obtain ⟨is, hadm, rfl⟩ := h₁
  obtain ⟨js, hadm', rfl⟩ := h₂
  exact ⟨is ++ js, (admissible_append s is js).mpr ⟨hadm, hadm'⟩, run_append s is js⟩

/-- Without a guard every input list is a run. -/
theorem of_run (m : Machine σ ι) (s : σ) (is : List ι) :
    m.Reaches (fun _ _ => True) s (m.run s is) :=
  ⟨is, admissible_of_forall s (fun _ _ _ => trivial), rfl⟩

theorem step {s : σ} {i : ι} (h : G s i) : m.Reaches G s (m.step s i) :=
  ⟨[i], ⟨h, trivial⟩, rfl⟩

/-- **Invariant rule.** A property of the start state that every admissible step keeps
    holds in every state reached. -/
theorem invariant {I : σ → Prop} (hstep : ∀ s i, I s → G s i → I (m.step s i))
    {s t : σ} (hs : I s) (h : m.Reaches G s t) : I t := by
  obtain ⟨is, hadm, rfl⟩ := h
  induction is generalizing s with
  | nil => exact hs
  | cons i is ih => exact ih (hstep s i hs hadm.1) hadm.2

/-- **Relation rule.** A reflexive and transitive relation that every admissible step from
    an invariant state respects relates the ends of a run. -/
theorem relates {I : σ → Prop} {R : σ → σ → Prop} (hrefl : ∀ s, R s s)
    (htrans : ∀ s t u, R s t → R t u → R s u)
    (hstep : ∀ s i, I s → G s i → I (m.step s i) ∧ R s (m.step s i))
    {s t : σ} (hs : I s) (h : m.Reaches G s t) : R s t := by
  obtain ⟨is, hadm, rfl⟩ := h
  induction is generalizing s with
  | nil => exact hrefl s
  | cons i is ih =>
    obtain ⟨hI, hR⟩ := hstep s i hs hadm.1
    exact htrans s _ _ hR (ih hI hadm.2)

/-- **Guard strengthening.** An invariant of the runs under `G` may be used to show that
    they already obey `G'`. -/
theorem strengthen {I : σ → Prop} (hstep : ∀ s i, I s → G s i → I (m.step s i))
    (hG : ∀ s i, I s → G s i → G' s i) {s t : σ} (hs : I s) (h : m.Reaches G s t) :
    m.Reaches G' s t := by
  obtain ⟨is, hadm, rfl⟩ := h
  refine ⟨is, ?_, rfl⟩
  induction is generalizing s with
  | nil => trivial
  | cons i is ih => exact ⟨hG s i hs hadm.1, ih (hstep s i hs hadm.1) hadm.2⟩

/-- A run under a guard is one under a weaker guard. -/
theorem mono (hG : ∀ s i, G s i → G' s i) {s t : σ} (h : m.Reaches G s t) : m.Reaches G' s t :=
  h.strengthen (I := fun _ => True) (fun _ _ _ _ => trivial) (fun s i _ => hG s i) trivial

end Reaches

/-! ### Accounting along a run -/

section Accounting

variable {M : Type w} [AddMonoid M]

/-- The sum of the weights of the steps of a run. -/
def tally (m : Machine σ ι) (w : σ → ι → M) : σ → List ι → M
  | _, [] => 0
  | s, i :: is => w s i + tally m w (m.step s i) is

/-- **Accounting rule.** Under an invariant, a measure that each step moves by the
    step's weight ends at its start plus the tally of the run. -/
theorem run_accounting {I : σ → Prop} {f : σ → M} {w : σ → ι → M}
    (hstep : ∀ s i, I s → G s i → I (m.step s i))
    (hmove : ∀ s i, I s → G s i → f (m.step s i) = f s + w s i)
    {s : σ} (hs : I s) {is : List ι} (hadm : m.Admissible G s is) :
    f (m.run s is) = f s + m.tally w s is := by
  induction is generalizing s with
  | nil => simp [run, tally]
  | cons i is ih =>
    calc f (m.run (m.step s i) is)
        = f (m.step s i) + m.tally w (m.step s i) is := ih (hstep s i hs hadm.1) hadm.2
      _ = f s + (w s i + m.tally w (m.step s i) is) := by rw [hmove s i hs hadm.1, add_assoc]

end Accounting

end Machine

end PasswordApp
