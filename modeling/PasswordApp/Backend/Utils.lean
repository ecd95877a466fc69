import Mathlib.Data.List.Perm.Basic
import PasswordApp.Backend.Runtime

namespace PasswordApp

/-!
# Backend — `utils.js`

* `shuffleArray` — the swap loop, and that it permutes its input whatever is drawn;
* `chunkArray` — cutting an array into pieces of one size, and that an array of `n * size`
  elements gives `n` full pieces.
-/

variable {α : Type}

/-! ### `shuffleArray` -/

/-- Exchange the elements at `i` and `j`. -/
def swapAt (array : List α) (i j : ℕ) : List α :=
  match array[i]?, array[j]? with
  | some x, some y => (array.set i y).set j x
  | _, _ => array

/-- The loop of `shuffleArray` from index `i` down to `1`; `random i` is the draw made at
    index `i`. -/
def shuffleLoop (random : ℕ → Draw) : ℕ → List α → List α
  | 0, array => array
  | i + 1, array => shuffleLoop random i (swapAt array (i + 1) ((random (i + 1)).index (i + 1)))

/-- `shuffleArray(inputArray)`. -/
def shuffleArray (inputArray : List α) (random : ℕ → Draw) : List α :=
  shuffleLoop random (inputArray.length - 1) inputArray

theorem swapAt_perm (array : List α) (i j : ℕ) : (swapAt array i j).Perm array := by
  unfold swapAt
  split
  · rename_i x y hi hj
    obtain ⟨hilt, rfl⟩ := List.getElem?_eq_some_iff.mp hi
    obtain ⟨hjlt, rfl⟩ := List.getElem?_eq_some_iff.mp hj
    exact List.set_set_perm hilt hjlt
  · exact List.Perm.refl _

theorem shuffleLoop_perm (random : ℕ → Draw) (i : ℕ) (array : List α) :
    (shuffleLoop random i array).Perm array := by
  induction i generalizing array with
  | zero => exact List.Perm.refl _
  | succ i ih => exact (ih _).trans (swapAt_perm array _ _)

/-- **Shuffling permutes**, whatever is drawn. -/
theorem shuffleArray_perm (inputArray : List α) (random : ℕ → Draw) :
    (shuffleArray inputArray random).Perm inputArray :=
  shuffleLoop_perm random _ inputArray

/-! ### `chunkArray` -/

/-- One round of the loop of `chunkArray`: open a new chunk if there is none or the last
    one is full, else extend the last one. -/
def chunkStep (size : ℕ) (chunked : List (List α)) (x : α) : List (List α) :=
  match chunked.getLast? with
  | none => chunked ++ [[x]]
  | some last =>
    if last.length = size then chunked ++ [[x]] else chunked.dropLast ++ [last ++ [x]]

/-- `chunkArray(array, size)`. -/
def chunkArray (array : List α) (size : ℕ) : List (List α) :=
  array.foldl (chunkStep size) []

/-- The shape `chunkArray` keeps: full chunks, then a last one that is not empty and not
    too long. -/
def Chunked (size : ℕ) (chunks : List (List α)) : Prop :=
  chunks = [] ∨ ∃ full last, chunks = full ++ [last] ∧ (∀ c ∈ full, c.length = size) ∧
    1 ≤ last.length ∧ last.length ≤ size

theorem chunkStep_flatten (size : ℕ) (chunks : List (List α)) (x : α) :
    (chunkStep size chunks x).flatten = chunks.flatten ++ [x] := by
  rcases List.eq_nil_or_concat chunks with rfl | ⟨full, last, rfl⟩
  · rfl
  · simp only [chunkStep, List.concat_eq_append, List.getLast?_concat, List.dropLast_concat]
    split <;> simp

theorem chunkStep_chunked {size : ℕ} (hsize : 1 ≤ size) {chunks : List (List α)}
    (h : Chunked size chunks) (x : α) : Chunked size (chunkStep size chunks x) := by
  rcases h with rfl | ⟨full, last, rfl, hfull, hpos, hle⟩
  · exact Or.inr ⟨[], [x], rfl, by simp, le_refl 1, hsize⟩
  · simp only [chunkStep, List.getLast?_concat, List.dropLast_concat]
    split
    · rename_i hlast
      refine Or.inr ⟨full ++ [last], [x], rfl, ?_, le_refl 1, hsize⟩
      intro c hc
      rcases List.mem_append.mp hc with hc | hc
      · exact hfull c hc
      · rw [List.mem_singleton.mp hc]; exact hlast
    · rename_i hlast
      exact Or.inr ⟨full, last ++ [x], rfl, hfull, by simp, by
        rw [List.length_append, List.length_singleton]; omega⟩

theorem foldl_chunkStep {size : ℕ} (hsize : 1 ≤ size) (array : List α) (chunks : List (List α))
    (h : Chunked size chunks) :
    Chunked size (array.foldl (chunkStep size) chunks) ∧
      (array.foldl (chunkStep size) chunks).flatten = chunks.flatten ++ array := by
  induction array generalizing chunks with
  | nil => exact ⟨h, by simp⟩
  | cons x xs ih =>
    obtain ⟨hch, hflat⟩ := ih (chunkStep size chunks x) (chunkStep_chunked hsize h x)
    exact ⟨hch, by rw [List.foldl_cons, hflat, chunkStep_flatten]; simp⟩

theorem chunkArray_flatten {size : ℕ} (hsize : 1 ≤ size) (array : List α) :
    (chunkArray array size).flatten = array :=
  (foldl_chunkStep hsize array [] (Or.inl rfl)).2

theorem chunkArray_chunked {size : ℕ} (hsize : 1 ≤ size) (array : List α) :
    Chunked size (chunkArray array size) :=
  (foldl_chunkStep hsize array [] (Or.inl rfl)).1

/-- Chunks of the right total length are all full, and as many as asked for. -/
theorem Chunked.full {size n : ℕ} (hsize : 1 ≤ size) {chunks : List (List α)}
    (h : Chunked size chunks) (hlen : chunks.flatten.length = n * size) :
    chunks.length = n ∧ ∀ c ∈ chunks, c.length = size := by
  rcases h with rfl | ⟨full, last, rfl, hfull, hpos, hle⟩
  · have hn : n = 0 := by
      rcases Nat.mul_eq_zero.mp hlen.symm with h | h <;> omega
    exact ⟨hn.symm, by simp⟩
  · have hsum : full.flatten.length = full.length * size := by
      rw [List.length_flatten, List.map_congr_left hfull, List.map_const',
        List.sum_replicate_nat]
    have htotal : full.length * size + last.length = n * size := by
      rw [← hlen, List.flatten_append, List.length_append, hsum]; simp
    -- `0 < last ≤ size` pins the number of chunks, so the last one is full too
    have hn : n = full.length + 1 := by
      have hlt : full.length < n := by
        by_contra hge
        have := Nat.mul_le_mul_right size (Nat.le_of_not_lt hge)
        omega
      have hle' : n ≤ full.length + 1 := by
        by_contra hgt
        have := Nat.mul_le_mul_right size (show full.length + 2 ≤ n by omega)
        rw [Nat.add_mul] at this
        omega
      omega
    subst hn
    have hlast : last.length = size := by rw [Nat.add_mul] at htotal; omega
    refine ⟨by simp, fun c hc => ?_⟩
    rcases List.mem_append.mp hc with hc | hc
    · exact hfull c hc
    · rw [List.mem_singleton.mp hc]; exact hlast

/-- **Exact dealing.** An array of `n * size` elements is cut into `n` pieces of `size`. -/
theorem chunkArray_exact {size n : ℕ} (hsize : 1 ≤ size) {array : List α}
    (hlen : array.length = n * size) :
    (chunkArray array size).length = n ∧ ∀ c ∈ chunkArray array size, c.length = size :=
  (chunkArray_chunked hsize array).full hsize (by rw [chunkArray_flatten hsize, hlen])

end PasswordApp
