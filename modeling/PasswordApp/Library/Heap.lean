import Mathlib.Data.List.GetD
import Mathlib.Data.List.Nodup
import Mathlib.Order.Nat

namespace PasswordApp

/-!
# Library — arrays by address

A script hands its arrays around by address: whoever has the address sees every write.
`Heap α` holds the arrays in the order they were made, so an array's address is the number of
arrays before it.

* `Heap.alloc`, `Heap.write`, `Heap.read` — a new array, an overwritten one, a look at one;
* `Heap.Frames` — arrays below an address are as they were;
* `Heap.Holds` — different addresses, above a bound, hold the given arrays in order.
-/

variable {α : Type}

/-- The arrays made so far. -/
abbrev Heap (α : Type) := List (List α)

namespace Heap

/-- The elements of the array at `a`. -/
def read (heap : Heap α) (a : ℕ) : List α := heap.getD a []

/-- A new array. -/
def alloc (heap : Heap α) (elems : List α) : ℕ × Heap α := (heap.length, heap ++ [elems])

/-- Overwrite the array at `a`. -/
def write (heap : Heap α) (a : ℕ) (elems : List α) : Heap α := heap.set a elems

@[simp] theorem length_write (heap : Heap α) (a : ℕ) (elems : List α) :
    (heap.write a elems).length = heap.length := List.length_set

/-- A new array is read back. -/
theorem read_alloc_new (heap : Heap α) (elems : List α) :
    (heap ++ [elems]).read heap.length = elems := by
  simp [read]

/-- A new array leaves those there are. -/
theorem read_alloc_old {heap : Heap α} (elems : List α) {a : ℕ} (ha : a < heap.length) :
    (heap ++ [elems]).read a = heap.read a := by
  rw [read, read, List.getD_append _ _ _ _ ha]

/-- An overwritten array is read back. -/
theorem read_write_self {heap : Heap α} {a : ℕ} (ha : a < heap.length) (elems : List α) :
    (heap.write a elems).read a = elems := by
  simp [read, write, ha]

/-- A write changes one array only. -/
theorem read_write_ne (heap : Heap α) {a b : ℕ} (hne : b ≠ a) (elems : List α) :
    (heap.write a elems).read b = heap.read b := by
  rw [read, read, write, List.getD_eq_getElem?_getD, List.getElem?_set_ne (Ne.symm hne),
    ← List.getD_eq_getElem?_getD]

/-- Writing back what is there changes nothing. -/
theorem write_read_self {heap : Heap α} {a : ℕ} (ha : a < heap.length) :
    heap.write a (heap.read a) = heap := by
  rw [write, read, List.getD_eq_getElem _ _ ha, List.set_getElem_self]

/-- The last write counts. -/
theorem write_write (heap : Heap α) (a : ℕ) (elems elems' : List α) :
    (heap.write a elems).write a elems' = heap.write a elems' := by
  rw [write, write, write, List.set_set]

/-! ### Frames -/

/-- The arrays below `base` are the same in both heaps, and none is gone. -/
structure Frames (base : ℕ) (heap heap' : Heap α) : Prop where
  read : ∀ a < base, heap'.read a = heap.read a
  length : heap.length ≤ heap'.length

namespace Frames

variable {base : ℕ} {heap heap' heap'' : Heap α}

theorem refl (base : ℕ) (heap : Heap α) : Frames base heap heap :=
  ⟨fun _ _ => rfl, le_refl _⟩

/-- Frames compose. -/
theorem trans (h : Frames base heap heap') (h' : Frames base heap' heap'') :
    Frames base heap heap'' where
  read a ha := (h'.read a ha).trans (h.read a ha)
  length := h.length.trans h'.length

/-- What is framed from a bound on is framed from a lower one on. -/
theorem mono {base' : ℕ} (h : Frames base heap heap') (hle : base' ≤ base) :
    Frames base' heap heap' where
  read a ha := h.read a (ha.trans_le hle)
  length := h.length

/-- A new array keeps all that are there. -/
theorem alloc (heap : Heap α) (elems : List α) :
    Frames heap.length heap (heap.alloc elems).2 where
  read a ha := read_alloc_old elems ha
  length := by simp [Heap.alloc]

/-- A write above the bound keeps what is below it. -/
theorem write {a : ℕ} (hbase : base ≤ a) (elems : List α) :
    Frames base heap (heap.write a elems) where
  read b hb := heap.read_write_ne (by omega) elems
  length := (heap.length_write a elems).ge

end Frames

/-! ### Lists of arrays -/

/-- The addresses are different, from `base` on, and hold the arrays of `arrays` in order. -/
structure Holds (base : ℕ) (heap : Heap α) (addrs : List ℕ) (arrays : List (List α)) :
    Prop where
  read : addrs.map heap.read = arrays
  nodup : addrs.Nodup
  fresh : ∀ a ∈ addrs, base ≤ a ∧ a < heap.length

namespace Holds

variable {base : ℕ} {heap heap' : Heap α} {addrs : List ℕ} {arrays : List (List α)}

theorem nil (base : ℕ) (heap : Heap α) : Holds base heap [] [] :=
  ⟨rfl, List.nodup_nil, by simp⟩

/-- A further array at the end. -/
theorem alloc (h : Holds base heap addrs arrays) (hbase : base ≤ heap.length) (elems : List α) :
    Holds base (heap.alloc elems).2 (addrs ++ [(heap.alloc elems).1]) (arrays ++ [elems]) where
  read := by
    rw [List.map_append, List.map_singleton]
    congr 1
    · rw [← h.read]
      exact List.map_congr_left (fun a ha => read_alloc_old elems (h.fresh a ha).2)
    · rw [show (heap.alloc elems).2.read (heap.alloc elems).1 = elems from
        read_alloc_new heap elems]
  nodup := by
    refine List.nodup_append.mpr ⟨h.nodup, List.nodup_singleton _, ?_⟩
    intro a ha b hb
    rw [List.mem_singleton] at hb
    have := (h.fresh a ha).2
    exact fun heq => by rw [heq, hb] at this; exact lt_irrefl _ this
  fresh a ha := by
    have hlen : (heap.alloc elems).2.length = heap.length + 1 := by simp [Heap.alloc]
    rcases List.mem_append.mp ha with ha | ha
    · have := h.fresh a ha
      omega
    · rw [List.mem_singleton.mp ha, hlen]
      exact ⟨hbase, Nat.lt_succ_self _⟩

/-- The last array overwritten. -/
theorem write_last {last : ℕ} {array : List α}
    (h : Holds base heap (addrs ++ [last]) (arrays ++ [array])) (elems : List α) :
    Holds base (heap.write last elems) (addrs ++ [last]) (arrays ++ [elems]) where
  read := by
    have hread := h.read
    rw [List.map_append, List.map_singleton] at hread ⊢
    have hinit := (List.append_inj' hread rfl).1
    congr 1
    · rw [← hinit]
      refine List.map_congr_left (fun a ha => heap.read_write_ne ?_ elems)
      -- the last address is none of the others
      rintro rfl
      exact (List.nodup_append.mp h.nodup).2.2 a ha a (List.mem_singleton_self a) rfl
    · rw [read_write_self (h.fresh last (by simp)).2]
  nodup := h.nodup
  fresh a ha := by
    rw [length_write]
    exact h.fresh a ha

end Holds

end Heap

end PasswordApp
