import Mathlib.Data.List.Basic
import Mathlib.Order.Lattice

namespace PasswordApp

/-!
# Library — places in a ranking

A ranking lists the entrants by falling merit, ties in any order.

* `Ranking.ahead_le` — no more than `k` entrants are ahead of the one at place `k`;
* `Ranking.lt_as_good` — and more than `k` are as good.
-/

universe u v

namespace Ranking

variable {α : Type u} {β : Type v} [LinearOrder β] {merit : α → β} {l : List α} {k : ℕ} {a : α}

/-- The entrants before and after a place. -/
theorem split_at_place (hranked : l.Pairwise (fun a b => merit b ≤ merit a)) (ha : l[k]? = some a) :
    ∃ before after, l = before ++ a :: after ∧ before.length = k ∧
      (∀ b ∈ before, merit a ≤ merit b) ∧ ∀ b ∈ after, merit b ≤ merit a := by
  obtain ⟨hk, rfl⟩ := List.getElem?_eq_some_iff.mp ha
  have hsplit : l = l.take k ++ l[k] :: l.drop (k + 1) := by
    rw [← List.drop_eq_getElem_cons, List.take_append_drop]
  have hpairs := hranked
  rw [hsplit, List.pairwise_append] at hpairs
  refine ⟨l.take k, l.drop (k + 1), hsplit, by rw [List.length_take]; omega, ?_, ?_⟩
  · intro b hb
    exact hpairs.2.2 b hb _ List.mem_cons_self
  · exact (List.pairwise_cons.mp hpairs.2.1).1

/-- Whoever is strictly better stands before the place, and there are only `k` places before it. -/
theorem ahead_le (merit : α → β) (hranked : l.Pairwise (fun a b => merit b ≤ merit a))
    (ha : l[k]? = some a) :
    l.countP (fun b => merit a < merit b) ≤ k := by
  obtain ⟨before, after, rfl, rfl, _, hafter⟩ := split_at_place hranked ha
  have hnone : (a :: after).countP (fun b => merit a < merit b) = 0 := by
    rw [List.countP_eq_zero]
    intro b hb
    rcases List.mem_cons.mp hb with rfl | hlater
    · simp
    · simpa using hafter b hlater
  rw [List.countP_append, hnone, Nat.add_zero]
  exact List.countP_le_length

/-- The places up to the `k`-th are all as good, and there are `k + 1` of them. -/
theorem lt_as_good (merit : α → β) (hranked : l.Pairwise (fun a b => merit b ≤ merit a))
    (ha : l[k]? = some a) :
    k < l.countP (fun b => merit a ≤ merit b) := by
  obtain ⟨before, after, rfl, rfl, hbefore, _⟩ := split_at_place hranked ha
  have hall : before.countP (fun b => merit a ≤ merit b) = before.length :=
    List.countP_eq_length.mpr (fun b hb => by simpa using hbefore b hb)
  rw [List.countP_append, hall, List.countP_cons_of_pos (by simp)]
  omega

end Ranking

end PasswordApp
