import PasswordApp.Library.Machine

namespace PasswordApp

/-!
# Library — what happened in a run

An invariant may speak about the inputs of the run so far: a record is there because some input,
fed in some earlier state, put it there.

* `Machine.Once` — an input with a property was fed at some point of the run;
* `Machine.Since` — it was, and another property has held ever since;
* `Machine.run_history` — the induction for such invariants.
-/

universe u v

/-- The last input is the one that is pointed at, or it comes after it. -/
theorem concat_eq_append_cons {ι : Type v} {past before after : List ι} {i j : ι}
    (h : past ++ [i] = before ++ j :: after) :
    (after = [] ∧ past = before ∧ i = j) ∨
      ∃ rest, after = rest ++ [i] ∧ past = before ++ j :: rest := by
  rcases List.eq_nil_or_concat after with rfl | ⟨rest, last, rfl⟩
  · obtain ⟨rfl, hlast⟩ := List.append_inj' h rfl
    exact Or.inl ⟨rfl, rfl, List.head_eq_of_cons_eq hlast⟩
  · rw [List.concat_eq_append, ← List.cons_append, ← List.append_assoc] at h
    obtain ⟨rfl, hlast⟩ := List.append_inj' h rfl
    obtain rfl : i = last := List.head_eq_of_cons_eq hlast
    exact Or.inr ⟨rest, List.concat_eq_append, rfl⟩

namespace Machine

variable {σ : Type u} {ι : Type v} {m : Machine σ ι} {s : σ}

/-- An input was fed that has the property in the state it was fed in. -/
def Once (m : Machine σ ι) (s : σ) (past : List ι) (P : σ → ι → Prop) : Prop :=
  ∃ before i after, past = before ++ i :: after ∧ P (m.run s before) i

namespace Once

variable {past : List ι} {P Q : σ → ι → Prop}

theorem mono (h : m.Once s past P) (himp : ∀ t i, P t i → Q t i) : m.Once s past Q := by
  obtain ⟨before, i, after, heq, hP⟩ := h
  exact ⟨before, i, after, heq, himp _ _ hP⟩

/-- What happened stays so. -/
theorem later (h : m.Once s past P) (i : ι) : m.Once s (past ++ [i]) P := by
  obtain ⟨before, j, after, rfl, hP⟩ := h
  exact ⟨before, j, after ++ [i], by rw [List.append_assoc]; rfl, hP⟩

theorem now {i : ι} (h : P (m.run s past) i) : m.Once s (past ++ [i]) P :=
  ⟨past, i, [], rfl, h⟩

end Once

/-- An input was fed that has the property `P` in the state it was fed in, and every state since
    has the property `Q`. -/
def Since (m : Machine σ ι) (s : σ) (past : List ι) (P : σ → ι → Prop) (Q : σ → Prop) : Prop :=
  ∃ before i after, past = before ++ i :: after ∧ P (m.run s before) i ∧
    ∀ part, part <+: after → Q (m.run s (before ++ i :: part))

namespace Since

variable {past : List ι} {P : σ → ι → Prop} {Q : σ → Prop}

theorem now (h : m.Since s past P Q) : Q (m.run s past) := by
  obtain ⟨before, i, after, rfl, _, hQ⟩ := h
  exact hQ after (List.prefix_refl _)

theorem not_nil : ¬ m.Since s [] P Q := by
  rintro ⟨before, i, after, heq, _⟩
  exact List.append_ne_nil_of_right_ne_nil before (List.cons_ne_nil i after) heq.symm

/-- The property is had now, and the input was fed just now or before. -/
theorem append_iff (i : ι) : m.Since s (past ++ [i]) P Q ↔
    Q (m.run s (past ++ [i])) ∧ (P (m.run s past) i ∨ m.Since s past P Q) := by
  constructor
  · intro h
    refine ⟨h.now, ?_⟩
    obtain ⟨before, j, after, heq, hP, hQ⟩ := h
    rcases concat_eq_append_cons heq with ⟨rfl, rfl, rfl⟩ | ⟨rest, rfl, rfl⟩
    · exact Or.inl hP
    · refine Or.inr ⟨before, j, rest, rfl, hP, fun part hpart => hQ part ?_⟩
      exact hpart.trans (List.prefix_append _ _)
  · rintro ⟨hnow, hP | ⟨before, j, after, rfl, hP, hQ⟩⟩
    · refine ⟨past, i, [], rfl, hP, fun part hpart => ?_⟩
      rw [List.prefix_nil.mp hpart]
      exact hnow
    · refine ⟨before, j, after ++ [i], by simp, hP, fun part hpart => ?_⟩
      rcases List.prefix_concat_iff.mp hpart with rfl | hearlier
      · simpa using hnow
      · exact hQ part hearlier

end Since

/-- **History rule.** An invariant of the run so far and the state it led to, kept by every
    step, holds at the end of every run. -/
theorem run_history {I : List ι → σ → Prop} (hstart : I [] s)
    (hstep : ∀ past i, I past (m.run s past) → I (past ++ [i]) (m.step (m.run s past) i))
    (inputs : List ι) : I inputs (m.run s inputs) := by
  have hall : ∀ (rest past : List ι), I past (m.run s past) →
      I (past ++ rest) (m.run s (past ++ rest)) := by
    intro rest
    induction rest with
    | nil =>
      intro past h
      rwa [List.append_nil]
    | cons i rest ih =>
      intro past h
      have hnext : m.run s (past ++ [i]) = m.step (m.run s past) i := run_append s past [i]
      have hlast := ih (past ++ [i]) (by rw [hnext]; exact hstep past i h)
      rwa [List.append_assoc] at hlast
  exact hall inputs [] hstart

end Machine

end PasswordApp
