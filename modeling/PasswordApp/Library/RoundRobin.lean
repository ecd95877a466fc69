import Mathlib.Data.List.Nodup
import Mathlib.Data.Nat.ModEq

namespace PasswordApp

/-!
# Library — round-robin schedules

A list follows a **round robin** over `order` if its `k`-th element is the element of
`order` at `k` modulo its length.  A schedule of full rounds is the repetition of `order`,
so it names each participant once a round.
-/

variable {α : Type*}

/-- `l` goes through `order` again and again from its start. -/
def RoundRobin (order l : List α) : Prop :=
  ∀ k a, l[k]? = some a → order[k % order.length]? = some a

namespace RoundRobin

variable {order l : List α}

theorem nil (order : List α) : RoundRobin order [] := by
  intro k a h
  cases h

/-- Appending the element that is due keeps the schedule. -/
theorem concat (h : RoundRobin order l) {a : α}
    (hdue : order[l.length % order.length]? = some a) : RoundRobin order (l ++ [a]) := by
  intro k b hb
  rcases Nat.lt_or_ge k l.length with hlt | hge
  · rw [List.getElem?_append_left hlt] at hb
    exact h k b hb
  · rw [List.getElem?_append_right hge] at hb
    -- past `l` there is one index only
    have hk : k = l.length := by
      obtain ⟨hlt, _⟩ := List.getElem?_eq_some_iff.mp hb
      simp at hlt; omega
    subst hk
    rw [Nat.sub_self] at hb
    rw [hdue]; exact hb

/-- A schedule of `rounds` full rounds is the repetition of `order`. -/
theorem eq_flatten_replicate {rounds : ℕ} (h : RoundRobin order l)
    (hlen : l.length = rounds * order.length) : l = (List.replicate rounds order).flatten := by
  induction rounds generalizing l with
  | zero => simpa using hlen
  | succ rounds ih =>
    -- peel off the first round, which is `order`; the rest is a schedule again
    have hround : order.length ≤ l.length := by rw [hlen, Nat.add_mul]; omega
    have hfirst : l.take order.length = order := by
      apply List.ext_getElem?
      intro k
      rcases Nat.lt_or_ge k order.length with hk | hk
      · have hkl : k < l.length := by omega
        have := h k l[k] (List.getElem?_eq_getElem hkl)
        rw [Nat.mod_eq_of_lt hk] at this
        rw [List.getElem?_take_of_lt hk, this, List.getElem?_eq_getElem hkl]
      · rw [List.getElem?_eq_none (by rw [List.length_take]; omega), List.getElem?_eq_none hk]
    have hrest : RoundRobin order (l.drop order.length) := by
      intro k a ha
      rw [List.getElem?_drop] at ha
      have := h _ a ha
      rwa [Nat.add_mod_left] at this
    rw [List.replicate_succ, List.flatten_cons, ← ih hrest (by
      rw [List.length_drop, hlen, Nat.add_mul]; omega)]
    exact (by rw [hfirst] : order ++ l.drop order.length
      = l.take order.length ++ l.drop order.length) ▸ (List.take_append_drop _ l).symm

/-- **Fairness.**  In `rounds` full rounds every participant has exactly `rounds` turns. -/
theorem count_eq [DecidableEq α] {rounds : ℕ} (h : RoundRobin order l)
    (hlen : l.length = rounds * order.length) (hnd : order.Nodup) {a : α} (ha : a ∈ order) :
    l.count a = rounds := by
  rw [h.eq_flatten_replicate hlen, List.count_flatten, List.map_replicate,
    List.count_eq_one_of_mem hnd ha, List.sum_replicate_nat, Nat.mul_one]

/-- In a part of `rounds` rounds nobody has more than `rounds` turns. -/
theorem count_le [DecidableEq α] {rounds : ℕ} (h : RoundRobin order l)
    (hlen : l.length ≤ rounds * order.length) (hnd : order.Nodup) (a : α) : l.count a ≤ rounds := by
  induction rounds generalizing l with
  | zero =>
    rw [Nat.zero_mul, Nat.le_zero, List.length_eq_zero_iff] at hlen
    exact Nat.le_of_eq (by rw [hlen, List.count_nil])
  | succ rounds ih =>
    -- the first round is a part of `order`, and the rest follows a round later
    have hfirst : l.take order.length <+: order := by
      have hsame : l.take order.length = order.take l.length := by
        apply List.ext_getElem?
        intro k
        rw [List.getElem?_take, List.getElem?_take]
        rcases Nat.lt_or_ge k l.length with hk | hk
        · by_cases hko : k < order.length
          · have hdue := h k l[k] (List.getElem?_eq_getElem hk)
            rw [Nat.mod_eq_of_lt hko] at hdue
            rw [if_pos hko, if_pos hk, hdue, List.getElem?_eq_getElem hk]
          · rw [if_neg hko, if_pos hk, List.getElem?_eq_none (by omega)]
        · rw [if_neg (by omega : ¬ k < l.length), List.getElem?_eq_none hk]
          split <;> rfl
      rw [hsame]
      exact List.take_prefix _ _
    have hrest : RoundRobin order (l.drop order.length) := by
      intro k b hb
      rw [List.getElem?_drop] at hb
      have hdue := h _ b hb
      rwa [Nat.add_mod_left] at hdue
    have hone : (l.take order.length).count a ≤ 1 :=
      Nat.le_trans (hfirst.sublist.count_le a) (List.nodup_iff_count_le_one.mp hnd a)
    have hmore := ih hrest (by rw [List.length_drop, Nat.add_mul] at *; omega)
    rw [← List.take_append_drop order.length l, List.count_append]
    omega

/-- Nobody has two of as many turns in a row as there are participants. -/
theorem nodup_drop (h : RoundRobin order l) (hnd : order.Nodup) :
    (l.drop (l.length - order.length)).Nodup := by
  rw [List.Nodup, List.pairwise_iff_getElem]
  intro i j hi hj hij heq
  rw [List.length_drop] at hi hj
  rw [List.getElem_drop, List.getElem_drop] at heq
  have hi' : l.length - order.length + i < l.length := by omega
  have hj' : l.length - order.length + j < l.length := by omega
  have hfirst := h _ _ (List.getElem?_eq_getElem hi')
  have hsecond := h _ _ (List.getElem?_eq_getElem hj')
  rw [heq, ← hsecond] at hfirst
  -- the same place of the order, less than a round apart
  have hpos : 0 < order.length := by omega
  have hmod := (List.getElem?_inj (Nat.mod_lt _ hpos) hnd).mp hfirst
  have hsame : i ≡ j [MOD order.length] := Nat.ModEq.add_left_cancel' _ hmod
  rw [Nat.ModEq, Nat.mod_eq_of_lt (by omega), Nat.mod_eq_of_lt (by omega)] at hsame
  omega

theorem subset (h : RoundRobin order l) : l ⊆ order := by
  intro a ha
  obtain ⟨k, hk⟩ := List.mem_iff_getElem?.mp ha
  exact List.mem_of_getElem? (h k a hk)

end RoundRobin

end PasswordApp
