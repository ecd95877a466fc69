import Mathlib.Algebra.Order.BigOperators.Group.List
import Mathlib.Algebra.Order.Ring.Int
import Mathlib.Data.Set.Defs
import Mathlib.Logic.Function.Basic
import Mathlib.Tactic.Ring

namespace PasswordApp

/-!
# Game — the rules

The game in its own terms, among players `P` with words `W`, who take turns in a fixed order.  The
player on turn plays a word.  A word from another hand is stolen goods and pays its owner; any other
word is voted on, and whoever challenges it bets on the hand of the player on turn.

* `Rulebook.payoff` — what the outcome of a turn pays;
* `Rulebook.Table` / `Rulebook.Advance` / `Rulebook.Move` — what lies on the table, the moves of a
  turn, and all moves;
* `Rulebook.Advance.rank_lt` — every move but an exchange of a hand uses up the game.
-/

namespace Rulebook

variable {P W : Type*}

/-! ### Payoffs -/

/-- How a turn ends. -/
inductive Outcome (P : Type*) where
  /-- The word was in the hand of another player. -/
  | stolen (owner : P)
  /-- The word was voted on; `own` if it was in the hand of the player on turn. -/
  | judged (own : Bool) (ballots : P → Option Bool)

/-- Those who challenged the word. -/
def challengers (order : List P) (ballots : P → Option Bool) : List P :=
  order.filter (fun p => ballots p = some true)

/-- What a turn of `mover` brings `p`. -/
def payoff [DecidableEq P] (order : List P) (mover : P) (outcome : Outcome P) (p : P) : ℤ :=
  match outcome with
  | .stolen owner => if p = owner then 2 else 0
  | .judged own ballots =>
    if challengers order ballots = [] then
      if own = true ∧ p = mover then 2 else 0
    else
      (if p ∈ challengers order ballots then (if own = true then 2 else -1) else 0) -
      (if p = mover then ((challengers order ballots).length : ℤ) else 0)

section Payoff

variable [DecidableEq P] {order : List P} {mover p : P}

/-- The challenges one by one. -/
theorem sum_challenges (stake : ℤ) {cs : List P} (hnodup : cs.Nodup) (mover p : P) :
    (cs.map (fun c => (if p = c then stake else 0) + (if p = mover then -1 else 0))).sum
      = (if p ∈ cs then stake else 0) - (if p = mover then (cs.length : ℤ) else 0) := by
  induction cs with
  | nil => simp
  | cons c cs ih =>
    rw [List.nodup_cons] at hnodup
    rw [List.map_cons, List.sum_cons, ih hnodup.2, List.length_cons]
    by_cases hc : p = c
    · subst hc
      rw [if_pos rfl, if_neg hnodup.1, if_pos List.mem_cons_self]
      split <;> push_cast <;> ring
    · have hmem : p ∈ c :: cs ↔ p ∈ cs := by simp [hc]
      rw [if_neg hc]
      simp only [hmem]
      split <;> split <;> push_cast <;> ring

end Payoff

/-- The outcomes of turns of `mover` that can come about. -/
def Outcome.Proper (order : List P) (mover : P) : Outcome P → Prop
  | .stolen owner => owner ∈ order ∧ owner ≠ mover
  | .judged _ ballots =>
    (∀ p ∈ order, p ≠ mover → ballots p ≠ none) ∧ ∀ p, ballots p ≠ none → p ∈ order ∧ p ≠ mover

/-! ### Moves -/

/-- What lies on the table: the outcomes of the turns so far, the word that is voted on with the
    ballots cast, the hands and the scores. -/
structure Table (P W : Type*) where
  log : List (Outcome P)
  play : Option (W × (P → Option Bool))
  hands : P → Set W
  scores : P → ℤ

/-- The table before the first turn. -/
def Table.start (hands : P → Set W) : Table P W := ⟨[], none, hands, fun _ => 0⟩

/-- No word is in two hands. -/
def Table.Separate (t : Table P W) : Prop := ∀ p q, p ≠ q → ∀ w ∈ t.hands p, w ∉ t.hands q

/-- A turn is due, and it is the turn of `mover`. -/
structure Due (order : List P) (rounds : ℕ) (t : Table P W) (mover : P) : Prop where
  due : t.log.length < rounds * order.length
  turn : order[t.log.length % order.length]? = some mover

/-- How firm a vote is: a challenge stands, a pass may become one. -/
def firmness : Option Bool → ℕ
  | none => 0
  | some false => 1
  | some true => 2

/-- Votes are added, or made firmer. -/
def Raises (b b' : P → Option Bool) : Prop := ∀ p, firmness (b p) ≤ firmness (b' p)

/-- The table after a turn. -/
def Table.settle [DecidableEq P] (t : Table P W) (order : List P) (mover : P)
    (outcome : Outcome P) : Table P W :=
  { t with
    log := t.log ++ [outcome]
    play := none
    scores := fun p => t.scores p + payoff order mover outcome p }

/-- The moves of a turn. -/
inductive Advance [DecidableEq P] (order : List P) (rounds : ℕ) (t : Table P W) : Table P W → Prop
  /-- A word nobody else holds is played. -/
  | play (mover : P) (w : W) (hdue : Due order rounds t mover) (hplay : t.play = none)
      (hothers : ∀ q, q ≠ mover → w ∉ t.hands q) :
      Advance order rounds t { t with play := some (w, fun _ => none) }
  /-- A word from another hand is played. -/
  | steal (mover owner : P) (w : W) (hdue : Due order rounds t mover) (hplay : t.play = none)
      (hproper : (Outcome.stolen owner).Proper order mover) (hw : w ∈ t.hands owner) :
      Advance order rounds t (t.settle order mover (.stolen owner))
  /-- Some vote, but not everyone has. -/
  | vote (mover : P) (w : W) (b b' : P → Option Bool) (hdue : Due order rounds t mover)
      (hplay : t.play = some (w, b)) (hraises : Raises b b') (hne : b' ≠ b)
      (hvoters : ∀ p, b' p ≠ none → p ∈ order ∧ p ≠ mover)
      (hopen : ∃ p ∈ order, p ≠ mover ∧ b' p = none) :
      Advance order rounds t { t with play := some (w, b') }
  /-- Everyone has voted, and the hand of the player on turn is looked at. -/
  | judge (mover : P) (w : W) (b b' : P → Option Bool) (own : Bool)
      (hdue : Due order rounds t mover) (hplay : t.play = some (w, b)) (hraises : Raises b b')
      (hproper : (Outcome.judged own b').Proper order mover)
      (hown : own = true ↔ w ∈ t.hands mover) :
      Advance order rounds t (t.settle order mover (.judged own b'))

/-- The moves: those of a turn, and at any time of a turn an exchange of a hand. -/
inductive Move [DecidableEq P] (order : List P) (rounds : ℕ) (t : Table P W) : Table P W → Prop
  | advance (t' : Table P W) (h : Advance order rounds t t') : Move order rounds t t'
  /-- A hand is exchanged for words that nobody holds; not by the player whose word is voted on. -/
  | exchange (mover p : P) (hand : Set W) (hdue : Due order rounds t mover) (hp : p ∈ order)
      (hallowed : t.play = none ∨ p ≠ mover) (hfresh : ∀ q, ∀ w ∈ hand, w ∉ t.hands q) :
      Move order rounds t
        { t with
          hands := Function.update t.hands p hand
          scores := fun q => t.scores q - if q = p then 1 else 0 }

/-! ### The end of a game -/

/-- How far the vote on the word is. -/
def Table.progress (order : List P) (t : Table P W) : ℕ :=
  match t.play with
  | none => 0
  | some (_, b) => 1 + (order.map (fun p => firmness (b p))).sum

/-- How much of the game is left. -/
def Table.rank (order : List P) (rounds : ℕ) (t : Table P W) : ℕ :=
  (rounds * order.length - t.log.length) * (2 * order.length) - t.progress order

theorem Table.rank_le (order : List P) (rounds : ℕ) (t : Table P W) :
    t.rank order rounds ≤ 2 * rounds * order.length ^ 2 := by
  have hmul : (rounds * order.length - t.log.length) * (2 * order.length)
      ≤ rounds * order.length * (2 * order.length) := Nat.mul_le_mul_right _ (Nat.sub_le _ _)
  calc t.rank order rounds
      ≤ (rounds * order.length - t.log.length) * (2 * order.length) := Nat.sub_le _ _
    _ ≤ rounds * order.length * (2 * order.length) := hmul
    _ = 2 * rounds * order.length ^ 2 := by ring

theorem firmness_le (v : Option Bool) : firmness v ≤ 2 := by
  rcases v with _ | _ | _ <;> decide

/-- The votes on a word of `mover` are at most two steps of everyone else. -/
theorem sum_firmness_lt {order : List P} {mover : P} {b : P → Option Bool}
    (hmover : mover ∈ order) (hnone : b mover = none) :
    1 + (order.map (fun p => firmness (b p))).sum < 2 * order.length := by
  obtain ⟨before, after, rfl⟩ := List.append_of_mem hmover
  have hbound : ∀ l : List P, (l.map (fun p => firmness (b p))).sum ≤ l.length * 2 :=
    fun l => by
      have hle := List.sum_le_card_nsmul (l.map (fun p => firmness (b p))) 2 (by
        intro n hn
        obtain ⟨p, _, rfl⟩ := List.mem_map.mp hn
        exact firmness_le (b p))
      rwa [List.length_map, nsmul_eq_mul, Nat.cast_id] at hle
  have h₁ := hbound before
  have h₂ := hbound after
  rw [List.map_append, List.map_cons, List.sum_append, List.sum_cons, hnone, List.length_append,
    List.length_cons]
  have hzero : firmness none = 0 := rfl
  omega

/-- Votes only grow firmer, so a change is a step ahead. -/
theorem sum_firmness_lt_sum {order : List P} {b b' : P → Option Bool} (hraises : Raises b b')
    (hne : b' ≠ b) (hvoters : ∀ p, b' p ≠ none → p ∈ order) :
    (order.map (fun p => firmness (b p))).sum < (order.map (fun p => firmness (b' p))).sum := by
  obtain ⟨p, hp⟩ := Function.ne_iff.mp hne
  have hlt : firmness (b p) < firmness (b' p) := by
    refine lt_of_le_of_ne (hraises p) (fun heq => hp ?_)
    -- the firmness tells the votes apart
    revert heq
    generalize b p = v, b' p = v'
    rcases v with _ | _ | _ <;> rcases v' with _ | _ | _ <;> simp [firmness]
  have hmem : p ∈ order := by
    refine hvoters p (fun hnone => ?_)
    rw [hnone] at hlt
    exact absurd hlt (Nat.not_lt_zero _)
  exact List.sum_lt_sum _ _ (fun q _ => hraises q) ⟨p, hmem, hlt⟩

section Rank

variable {order : List P} {rounds : ℕ} {t : Table P W} {mover : P}

theorem Due.mem (h : Due order rounds t mover) : mover ∈ order := List.mem_of_getElem? h.turn

/-- Whatever the ballots are, the vote on a word leaves the rest of the game. -/
theorem Due.rank_lt (h : Due order rounds t mover) {t' : Table P W} (hlog : t'.log = t.log)
    (hlt : t.progress order < t'.progress order)
    (hle : t'.progress order < 2 * order.length) :
    t'.rank order rounds < t.rank order rounds := by
  have hdue := h.due
  rw [Table.rank, Table.rank, hlog]
  have hmul : 1 * (2 * order.length)
      ≤ (rounds * order.length - t.log.length) * (2 * order.length) :=
    Nat.mul_le_mul_right _ (by omega)
  omega

variable [DecidableEq P]

/-- A turn that is over is worth more than any vote. -/
theorem Due.rank_settle (h : Due order rounds t mover) (outcome : Outcome P)
    (hlt : t.progress order < 2 * order.length) :
    (t.settle order mover outcome).rank order rounds < t.rank order rounds := by
  have hdue := h.due
  have hlog : (t.settle order mover outcome).log.length = t.log.length + 1 := by
    simp [Table.settle]
  have hprogress : (t.settle order mover outcome).progress order = 0 := rfl
  rw [Table.rank, Table.rank, hlog, hprogress]
  obtain ⟨left, hleft⟩ : ∃ left, rounds * order.length - t.log.length = left + 1 :=
    ⟨rounds * order.length - t.log.length - 1, by omega⟩
  have hrest : rounds * order.length - (t.log.length + 1) = left := by omega
  rw [hrest, hleft, Nat.add_mul, Nat.one_mul]
  omega

/-- **Every move of a turn uses up the game.** -/
theorem Advance.rank_lt {t' : Table P W} (h : Advance order rounds t t') :
    t'.rank order rounds < t.rank order rounds := by
  cases h with
  | play mover w hdue hplay hothers =>
    have hpos := List.length_pos_of_mem hdue.mem
    refine hdue.rank_lt rfl ?_ ?_
    · simp [Table.progress, hplay]
    · simp only [Table.progress, firmness, List.map_const', List.sum_replicate_nat]
      omega
  | steal mover owner w hdue hplay hproper hw =>
    have hpos := List.length_pos_of_mem hdue.mem
    refine hdue.rank_settle _ ?_
    simp only [Table.progress, hplay]
    omega
  | vote mover w b b' hdue hplay hraises hne hvoters hopen =>
    have hnone : b' mover = none := by
      by_contra hvoted
      exact (hvoters mover hvoted).2 rfl
    refine hdue.rank_lt rfl ?_ ?_
    · have hlt := sum_firmness_lt_sum hraises hne (fun p hp => (hvoters p hp).1)
      simp only [Table.progress, hplay]
      omega
    · exact sum_firmness_lt hdue.mem hnone
  | judge mover w b b' own hdue hplay hraises hproper hown =>
    -- who has not voted in the end had not voted before
    have hnone : b mover = none := by
      by_contra hvoted
      have hle := hraises mover
      have hnone' : b' mover = none := by
        by_contra hvoted'
        exact (hproper.2 mover hvoted').2 rfl
      rw [hnone'] at hle
      rcases hv : b mover with _ | _ | _
      · exact hvoted hv
      · rw [hv] at hle; exact absurd hle (by decide)
      · rw [hv] at hle; exact absurd hle (by decide)
    refine hdue.rank_settle _ ?_
    simp only [Table.progress, hplay]
    exact sum_firmness_lt hdue.mem hnone

/-- An exchange leaves the game where it is. -/
theorem Move.rank {t' : Table P W} (h : Move order rounds t t') :
    ((t'.log, t'.play) = (t.log, t.play) ∧ t'.rank order rounds = t.rank order rounds) ∨
      t'.rank order rounds < t.rank order rounds := by
  cases h with
  | advance t' h => exact Or.inr h.rank_lt
  | exchange mover p hand hdue hp hallowed hfresh => exact Or.inl ⟨rfl, rfl⟩

end Rank

end Rulebook

end PasswordApp
