import Mathlib.Data.List.Basic
import PasswordApp.Library.Machine

namespace PasswordApp

/-!
# Library — following a machine from afar

A follower is told of the states a machine goes through, in their order, but later, and it may
miss some of them.  It keeps the state it was told of last, and a view: its handlers turn the view
into the next one, given the state told of before and the new one, and a user acts on the view in
between.

* `Follower` / `Follower.machine` — the handlers, and the machine with its follower;
* `InOrder` — what is told, and what was not told yet, is in the order of the run;
* `Follower.follows` — the induction behind what a view shows of the state told of last.
-/

universe u v w z

/-- The handlers of a view `ν` of a machine, and the actions `α` of its user. -/
structure Follower (σ : Type u) (ι : Type v) (ν : Type w) (α : Type z) where
  source : Machine σ ι
  /-- The view is told of a state; the one told of before comes first. -/
  hear : ν → σ → σ → ν
  /-- The user acts, when the state told of last is this one. -/
  act : ν → σ → α → ν

/-- A machine and its follower. -/
structure Following (σ : Type u) (ν : Type w) where
  source : σ
  /-- The states on the way to the follower, the oldest one first. -/
  pending : List σ
  /-- The state told of last. -/
  seen : σ
  view : ν

inductive FollowerInput (ι : Type v) (α : Type z) where
  | source (i : ι)
  /-- The next state is told of, after some were skipped. -/
  | hear (skipped : ℕ)
  | act (a : α)

variable {σ : Type u} {ι : Type v} {ν : Type w} {α : Type z}

/-- The follower knows the state the machine is in. -/
def Following.start (s : σ) (view : ν) : Following σ ν := ⟨s, [], s, view⟩

namespace Follower

variable (f : Follower σ ι ν α)

def step (s : Following σ ν) : FollowerInput ι α → Following σ ν
  | .source i =>
    let next := f.source.step s.source i
    { s with source := next, pending := s.pending ++ [next] }
  | .hear skipped =>
    match s.pending.drop skipped with
    | [] => s
    | next :: rest => { s with pending := rest, seen := next, view := f.hear s.view s.seen next }
  | .act a => { s with view := f.act s.view s.seen a }

def machine : Machine (Following σ ν) (FollowerInput ι α) := ⟨f.step⟩

variable {f} in
/-- Telling of the last state, or of one that is not on the way, is no step. -/
theorem step_hear_nil {s : Following σ ν} {skipped : ℕ} (h : s.pending.drop skipped = []) :
    f.step s (.hear skipped) = s := by
  rw [step, h]

variable {f} in
theorem step_hear_cons {s : Following σ ν} {skipped : ℕ} {next : σ} {rest : List σ}
    (h : s.pending.drop skipped = next :: rest) :
    f.step s (.hear skipped) =
      { s with pending := rest, seen := next, view := f.hear s.view s.seen next } := by
  rw [step, h]

/-- The machine runs under its guard; telling and acting is free. -/
def Guard (G : σ → ι → Prop) (s : Following σ ν) : FollowerInput ι α → Prop
  | .source i => G s.source i
  | .hear _ => True
  | .act _ => True

instance (G : σ → ι → Prop) [∀ s i, Decidable (G s i)] (s : Following σ ν)
    (i : FollowerInput ι α) : Decidable (Guard G s i) :=
  match i with
  | .source i => inferInstanceAs (Decidable (G s.source i))
  | .hear _ => inferInstanceAs (Decidable True)
  | .act _ => inferInstanceAs (Decidable True)

end Follower

/-- What was told and what is on the way is in the order of a run from `s₀`. -/
structure InOrder (m : Machine σ ι) (G : σ → ι → Prop) (s₀ : σ) (s : Following σ ν) : Prop where
  start : m.Reaches G s₀ s.seen
  ordered : (s.seen :: s.pending).Pairwise (m.Reaches G)
  last : (s.seen :: s.pending).getLast? = some s.source

namespace InOrder

variable {m : Machine σ ι} {G : σ → ι → Prop} {s₀ : σ} {s : Following σ ν}

/-- Everything told or on the way is behind the machine. -/
theorem reaches_source (h : InOrder m G s₀ s) {t : σ} (ht : t ∈ s.seen :: s.pending) :
    m.Reaches G t s.source := by
  obtain ⟨before, hbefore⟩ := List.getLast?_eq_some_iff.mp h.last
  have hordered := h.ordered
  rw [hbefore] at ht hordered
  rcases List.mem_append.mp ht with hold | hlast
  · exact (List.pairwise_append.mp hordered).2.2 t hold s.source (List.mem_singleton_self _)
  · rw [List.mem_singleton.mp hlast]
    exact .refl _

/-- The state told of last may serve as the start. -/
theorem restart (h : InOrder m G s₀ s) : InOrder m G s.seen s :=
  ⟨.refl _, h.ordered, h.last⟩

/-- With nothing on the way, the follower is up to date. -/
theorem up_to_date (h : InOrder m G s₀ s) (hpending : s.pending = []) : s.seen = s.source := by
  have hlast := h.last
  rw [hpending] at hlast
  exact Option.some.inj hlast

end InOrder

namespace Follower

variable {f : Follower σ ι ν α} {G : σ → ι → Prop} {s₀ : σ} {s : Following σ ν}

theorem inOrder_step (h : InOrder f.source G s₀ s) {i : FollowerInput ι α} (hG : Guard G s i) :
    InOrder f.source G s₀ (f.step s i) := by
  cases i with
  | source i =>
    refine ⟨h.start, ?_, ?_⟩
    · show (s.seen :: (s.pending ++ [_])).Pairwise _
      rw [← List.cons_append, List.pairwise_append]
      refine ⟨h.ordered, List.pairwise_singleton _ _, ?_⟩
      intro t ht next hnext
      rw [List.mem_singleton.mp hnext]
      exact (h.reaches_source ht).trans (.step hG)
    · show (s.seen :: (s.pending ++ [_])).getLast? = _
      rw [← List.cons_append, List.getLast?_append_of_ne_nil _ (List.cons_ne_nil _ _)]
      rfl
  | hear skipped =>
    cases hdrop : s.pending.drop skipped with
    | nil => rwa [step_hear_nil hdrop]
    | cons next rest =>
      rw [step_hear_cons hdrop]
      have hsuffix : next :: rest <:+ s.seen :: s.pending :=
        hdrop ▸ (List.drop_suffix skipped s.pending).trans (List.suffix_cons _ _)
      have hmem : next ∈ s.pending := List.mem_of_mem_drop (hdrop ▸ List.mem_cons_self)
      refine ⟨h.start.trans ?_, h.ordered.sublist hsuffix.sublist, ?_⟩
      · exact (List.pairwise_cons.mp h.ordered).1 next hmem
      · obtain ⟨before, hbefore⟩ := hsuffix
        have hlast := h.last
        rw [← hbefore, List.getLast?_append_of_ne_nil _ (List.cons_ne_nil _ _)] at hlast
        exact hlast
  | act a => exact ⟨h.start, h.ordered, h.last⟩

theorem inOrder_of_reaches {t : Following σ ν} (hs : InOrder f.source G s₀ s)
    (h : f.machine.Reaches (Guard G) s t) : InOrder f.source G s₀ t :=
  Machine.Reaches.invariant (I := InOrder f.source G s₀) (fun _ _ hI hG => inOrder_step hI hG) hs h

/-- **View rule.**  If the handlers carry what the view shows over to every later state, and the
    user's actions keep it, the view shows it of the state told of last. -/
theorem follows {V : ν → σ → Prop}
    (hhear : ∀ v old new, f.source.Reaches G s₀ old → f.source.Reaches G old new → V v old →
      V (f.hear v old new) new)
    (hact : ∀ v old a, f.source.Reaches G s₀ old → V v old → V (f.act v old a) old)
    {t : Following σ ν} (hs : InOrder f.source G s₀ s) (hview : V s.view s.seen)
    (h : f.machine.Reaches (Guard G) s t) : V t.view t.seen := by
  refine (Machine.Reaches.invariant
    (I := fun t => InOrder f.source G s₀ t ∧ V t.view t.seen) ?_ ⟨hs, hview⟩ h).2
  rintro t i ⟨horder, hV⟩ hG
  refine ⟨inOrder_step horder hG, ?_⟩
  show V (f.step t i).view (f.step t i).seen
  cases i with
  | source i => exact hV
  | hear skipped =>
    cases hdrop : t.pending.drop skipped with
    | nil => rwa [step_hear_nil hdrop]
    | cons next rest =>
      rw [step_hear_cons hdrop]
      have hmem : next ∈ t.pending := List.mem_of_mem_drop (hdrop ▸ List.mem_cons_self)
      exact hhear t.view t.seen next horder.start
        ((List.pairwise_cons.mp horder.ordered).1 next hmem) hV
  | act a => exact hact t.view t.seen a horder.start hV

theorem inOrder_start (s₀ : σ) (view : ν) :
    InOrder f.source G s₀ (Following.start s₀ view) :=
  ⟨.refl _, List.pairwise_singleton _ _, rfl⟩

end Follower

end PasswordApp
