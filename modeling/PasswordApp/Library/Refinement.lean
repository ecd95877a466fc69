import Mathlib.Logic.Relation
import PasswordApp.Library.Machine

namespace PasswordApp

/-!
# Library — machines that play by rules

The **rules** are a relation `Move` between the positions an abstraction `view` shows.  A machine
refines them if every admissible step from an invariant state makes a move or leaves the position.

* `Machine.Refines` / `Refines.reaches` — a run of the machine is a play of the rules;
* `Machine.changes` / `Refines.changes_le` — a rank that every move lowers bounds how often a run
  changes the position;
* `Machine.exists_run_to` — and if some step always lowers it, a goal can be reached;
* `Machine.register_of_changes` — what a register shows that is set with each change.
-/

universe u v w

namespace Machine

variable {σ : Type u} {ι : Type v} {α : Type w}

/-- Every admissible step from an invariant state makes a move or leaves the position. -/
structure Refines (m : Machine σ ι) (G : σ → ι → Prop) (I : σ → Prop) (view : σ → α)
    (Move : α → α → Prop) : Prop where
  keeps : ∀ s i, I s → G s i → I (m.step s i)
  moves : ∀ s i, I s → G s i → view (m.step s i) = view s ∨ Move (view s) (view (m.step s i))

open Classical in
/-- How many steps of a run change what `f` shows. -/
noncomputable def changes (m : Machine σ ι) (f : σ → α) : σ → List ι → ℕ
  | _, [] => 0
  | s, i :: is => (if f (m.step s i) = f s then 0 else 1) + changes m f (m.step s i) is

namespace Refines

variable {m : Machine σ ι} {G : σ → ι → Prop} {I : σ → Prop} {view : σ → α}
  {Move : α → α → Prop} {s t : σ}

/-- The invariant holds at the end of a run. -/
theorem run_invariant (h : m.Refines G I view Move) (hs : I s) {is : List ι}
    (hadm : m.Admissible G s is) : I (m.run s is) :=
  Reaches.invariant h.keeps hs ⟨is, hadm, rfl⟩

/-- **A run is a play.** -/
theorem reaches (h : m.Refines G I view Move) (hs : I s) (hreach : m.Reaches G s t) :
    Relation.ReflTransGen Move (view s) (view t) := by
  refine Reaches.relates (R := fun s t => Relation.ReflTransGen Move (view s) (view t))
    (fun _ => .refl) (fun _ _ _ => .trans) ?_ hs hreach
  intro s i hI hG
  refine ⟨h.keeps s i hI hG, ?_⟩
  rcases h.moves s i hI hG with hsame | hmove
  · rw [hsame]
  · exact .single hmove

/-- **Rank rule.**  If every move that changes `f` lowers the rank and no move raises it, a run
    changes `f` at most as often as the rank of its first position says. -/
theorem changes_le {β : Type*} (h : m.Refines G I view Move) {f : α → β} {rank : α → ℕ}
    (hrank : ∀ a b, Move a b → f b = f a ∧ rank b = rank a ∨ rank b < rank a)
    (hs : I s) {is : List ι} (hadm : m.Admissible G s is) :
    m.changes (fun s => f (view s)) s is + rank (view (m.run s is)) ≤ rank (view s) := by
  induction is generalizing s with
  | nil => simp [changes, run]
  | cons i is ih =>
    have hrest := ih (h.keeps s i hs hadm.1) hadm.2
    simp only [changes, run]
    -- the first step changes `f` by a move that lowers the rank, or not at all
    have hfirst : (f (view (m.step s i)) = f (view s) ∧ rank (view (m.step s i)) = rank (view s)) ∨
        rank (view (m.step s i)) < rank (view s) := by
      rcases h.moves s i hs hadm.1 with hsame | hmove
      · exact Or.inl (by rw [hsame]; exact ⟨rfl, rfl⟩)
      · exact hrank _ _ hmove
    rcases hfirst with ⟨hf, heq⟩ | hlt
    · rw [if_pos hf]
      omega
    · split <;> omega

end Refines

/-! ### Registers -/

/-- **Register rule.**  A register stays as long as `f` does, and with each change of `f` it is set
    to what `g` makes of the new value.  At the end of a run it is as at the start, if `f` never
    changed, and what `g` makes of the last value, if it did. -/
theorem register_of_changes {β : Type*} {m : Machine σ ι} {G : σ → ι → Prop} {I : σ → Prop}
    {f : σ → α} {register : σ → β} {g : α → β} (hkeeps : ∀ s i, I s → G s i → I (m.step s i))
    (hstay : ∀ s i, I s → G s i → f (m.step s i) = f s → register (m.step s i) = register s)
    (hset : ∀ s i, I s → G s i → f (m.step s i) ≠ f s →
      register (m.step s i) = g (f (m.step s i)))
    {s : σ} (hs : I s) {is : List ι} (hadm : m.Admissible G s is) :
    (m.changes f s is = 0 → f (m.run s is) = f s ∧ register (m.run s is) = register s) ∧
      (0 < m.changes f s is → register (m.run s is) = g (f (m.run s is))) := by
  induction is generalizing s with
  | nil => simp [changes, run]
  | cons i is ih =>
    obtain ⟨hnever, hsome⟩ := ih (hkeeps s i hs hadm.1) hadm.2
    simp only [changes, run]
    by_cases hf : f (m.step s i) = f s
    · rw [if_pos hf, Nat.zero_add]
      refine ⟨fun hzero => ?_, hsome⟩
      obtain ⟨hlast, hregister⟩ := hnever hzero
      exact ⟨hlast.trans hf, hregister.trans (hstay s i hs hadm.1 hf)⟩
    · rw [if_neg hf]
      refine ⟨fun hzero => by omega, fun _ => ?_⟩
      -- set now, and not changed or set again later
      by_cases hzero : m.changes f (m.step s i) is = 0
      · obtain ⟨hlast, hregister⟩ := hnever hzero
        rw [hregister, hset s i hs hadm.1 hf, hlast]
      · exact hsome (Nat.pos_of_ne_zero hzero)

/-! ### Goals -/

/-- **Goal rule.**  If an admissible step lowers the rank wherever the goal is still ahead, a run
    of at most that many steps leads there. -/
theorem exists_run_to {m : Machine σ ι} {G : σ → ι → Prop} {I J : σ → Prop} {r : σ → ℕ}
    (hprogress : ∀ s, I s → ¬ J s →
      ∃ i, G s i ∧ I (m.step s i) ∧ r (m.step s i) < r s) {s : σ} (hs : I s) :
    ∃ is, m.Admissible G s is ∧ J (m.run s is) ∧ is.length ≤ r s := by
  -- by induction on the rank
  generalize hn : r s = n
  induction n using Nat.strongRecOn generalizing s with
  | ind n ih =>
    by_cases hgoal : J s
    · exact ⟨[], trivial, hgoal, Nat.zero_le n⟩
    · obtain ⟨i, hG, hI, hlt⟩ := hprogress s hs hgoal
      obtain ⟨is, hadm, hend, hlen⟩ := ih _ (hn ▸ hlt) hI rfl
      refine ⟨i :: is, ⟨hG, hadm⟩, hend, ?_⟩
      rw [List.length_cons]
      omega

end Machine

end PasswordApp
