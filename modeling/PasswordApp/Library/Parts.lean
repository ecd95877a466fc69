import PasswordApp.Library.Machine

namespace PasswordApp

/-!
# Library — parts of a machine

A state may have a part that is a machine of its own: of every input the part sees what is meant
for it, or nothing, and no input moves it in any other way.

* `Machine.inputsOf` — what a part sees of a run;
* `Machine.HasPart` / `HasPart.run` — along every run, the part is where its own run leads.
-/

universe u v u' v'

namespace Machine

variable {σ : Type u} {ι : Type v} {τ : Type u'} {κ : Type v'}

/-- The inputs a run has for a part. -/
def inputsOf (m : Machine σ ι) (input : σ → ι → Option κ) : σ → List ι → List κ
  | _, [] => []
  | s, i :: is => (input s i).toList ++ inputsOf m input (m.step s i) is

/-- In the states of `I`, what `view` shows is a machine `p` that sees what `input` gives. -/
structure HasPart (m : Machine σ ι) (p : Machine τ κ) (I : σ → Prop) (view : σ → Option τ)
    (input : σ → ι → Option κ) : Prop where
  keeps : ∀ s i, I s → I (m.step s i)
  moves : ∀ s i t, I s → view s = some t → view (m.step s i) = some (p.run t (input s i).toList)

/-- **Part rule.**  After every run the part is where its own inputs lead. -/
theorem HasPart.run {m : Machine σ ι} {p : Machine τ κ} {I : σ → Prop} {view : σ → Option τ}
    {input : σ → ι → Option κ} (h : m.HasPart p I view input) {s : σ} {t : τ} (hs : I s)
    (hview : view s = some t) (is : List ι) :
    view (m.run s is) = some (p.run t (m.inputsOf input s is)) := by
  induction is generalizing s t with
  | nil => exact hview
  | cons i is ih =>
    have hrest := ih (h.keeps s i hs) (h.moves s i t hs hview)
    rw [← run_append] at hrest
    exact hrest

end Machine

end PasswordApp
