import Mathlib.Data.List.Nodup
import Mathlib.Data.List.Perm.Basic

namespace PasswordApp

/-!
# Library — insertion-ordered dictionaries

`Dict κ α` is a finite map that remembers the order in which its keys were first
written, as a script object does: writing a present key keeps its place, writing a
fresh key puts it last.  The entry list carries the proof that no key occurs twice,
so a dictionary with two values for one key cannot be built.

* `get?` / `set` — lookup and in-place write, with the two `get?_set` laws;
* `keys_set_of_mem`, `entries_set_of_not_mem` — what a write does to the key list;
* `values_set_perm`, `values_pair` — what it does to the values, and that two keys have two;
* `entries_perm` — dictionaries that look up the same differ in the order at most;
* `filterMap` — rewriting or dropping values, key by key;
* `pop` — taking a key out;
* `numeral_injective`, `numberedKey_injective` — keys that count up never meet.

Equality of dictionaries sees the order.  A statement about what is stored is made through
`get?`, one about a whole write through `set` itself.
-/

universe u v w

variable {κ : Type u} {α : Type v} {β : Type w}

/-! ### Association lists -/

/-- The value stored for `k`, if any. -/
def assocGet [DecidableEq κ] (k : κ) : List (κ × α) → Option α
  | [] => none
  | (k', a) :: es => if k' = k then some a else assocGet k es

/-- Write `a` at `k`: in place if `k` is present, at the end otherwise. -/
def assocSet [DecidableEq κ] (k : κ) (a : α) : List (κ × α) → List (κ × α)
  | [] => [(k, a)]
  | (k', a') :: es => if k' = k then (k, a) :: es else (k', a') :: assocSet k a es

section Assoc

variable [DecidableEq κ]

/-- Reading after a write: the value written at its key, the old one elsewhere. -/
theorem assocGet_assocSet (k j : κ) (a : α) (es : List (κ × α)) :
    assocGet j (assocSet k a es) = if j = k then some a else assocGet j es := by
  induction es with
  | nil => simp [assocSet, assocGet, eq_comm]
  | cons e es ih =>
    obtain ⟨k', a'⟩ := e
    by_cases hk : k' = k
    · subst hk
      by_cases hj : j = k'
      · subst hj; simp [assocSet, assocGet]
      · simp [assocSet, assocGet, hj, Ne.symm hj]
    · by_cases hj : k' = j
      · subst hj; simp [assocSet, assocGet, hk]
      · simp [assocSet, assocGet, hk, hj, ih]

/-- A write adds its key at the end, unless it is there. -/
theorem map_fst_assocSet (k : κ) (a : α) (es : List (κ × α)) :
    (assocSet k a es).map Prod.fst
      = if k ∈ es.map Prod.fst then es.map Prod.fst else es.map Prod.fst ++ [k] := by
  induction es with
  | nil => simp [assocSet]
  | cons e es ih =>
    obtain ⟨k', a'⟩ := e
    by_cases hk : k' = k
    · subst hk; simp [assocSet]
    · simp only [assocSet, if_neg hk, List.map_cons, ih, List.mem_cons, Ne.symm hk, false_or]
      split <;> rfl

theorem assocSet_of_not_mem (k : κ) (a : α) (es : List (κ × α)) (h : k ∉ es.map Prod.fst) :
    assocSet k a es = es ++ [(k, a)] := by
  induction es with
  | nil => rfl
  | cons e es ih =>
    obtain ⟨k', a'⟩ := e
    rw [List.map_cons, List.mem_cons, not_or] at h
    rw [assocSet, if_neg (Ne.symm h.1), ih h.2, List.cons_append]

/-- Lookup fails on exactly the keys that are not listed. -/
theorem assocGet_eq_none_iff (k : κ) (es : List (κ × α)) :
    assocGet k es = none ↔ k ∉ es.map Prod.fst := by
  induction es with
  | nil => simp [assocGet]
  | cons e es ih =>
    obtain ⟨k', a'⟩ := e
    by_cases hk : k' = k
    · simp [assocGet, hk]
    · simp [assocGet, hk, ih, Ne.symm hk]

/-- With distinct keys, lookup finds exactly the listed entries. -/
theorem assocGet_eq_some_iff {es : List (κ × α)} (hnd : (es.map Prod.fst).Nodup) (k : κ) (a : α) :
    assocGet k es = some a ↔ (k, a) ∈ es := by
  induction es with
  | nil => simp [assocGet]
  | cons e es ih =>
    obtain ⟨k', a'⟩ := e
    rw [List.map_cons, List.nodup_cons] at hnd
    by_cases hk : k' = k
    · subst hk
      -- the key is at the head and nowhere else
      have hfresh : (k', a) ∉ es := fun h => hnd.1 (List.mem_map.mpr ⟨_, h, rfl⟩)
      simp [assocGet, hfresh, eq_comm]
    · simp [assocGet, hk, ih hnd.2, Ne.symm hk]

/-- A write replaces exactly one value. -/
theorem map_snd_assocSet_perm {k : κ} {a : α} {es : List (κ × α)} (h : assocGet k es = some a) :
    ∃ rest, (es.map Prod.snd).Perm (a :: rest) ∧
      ∀ b, ((assocSet k b es).map Prod.snd).Perm (b :: rest) := by
  induction es with
  | nil => simp [assocGet] at h
  | cons e es ih =>
    obtain ⟨k', a'⟩ := e
    by_cases hk : k' = k
    · rw [assocGet, if_pos hk] at h
      obtain rfl := Option.some.inj h
      refine ⟨es.map Prod.snd, List.Perm.refl _, fun b => ?_⟩
      rw [assocSet, if_pos hk]
      exact List.Perm.refl _
    · rw [assocGet, if_neg hk] at h
      obtain ⟨rest, hbefore, hafter⟩ := ih h
      refine ⟨a' :: rest, ?_, fun b => ?_⟩
      · exact (hbefore.cons a').trans (List.Perm.swap a a' rest)
      · rw [assocSet, if_neg hk]
        exact ((hafter b).cons a').trans (List.Perm.swap b a' rest)

end Assoc

/-! ### Dictionaries -/

/-- A finite map with distinct keys, in the order they were first written. -/
structure Dict (κ : Type u) (α : Type v) where
  entries : List (κ × α)
  nodup : (entries.map Prod.fst).Nodup
  deriving DecidableEq

namespace Dict

/-- The dictionary without entries. -/
def empty : Dict κ α := ⟨[], List.nodup_nil⟩

instance : EmptyCollection (Dict κ α) := ⟨empty⟩
instance : Inhabited (Dict κ α) := ⟨empty⟩

/-- The keys, oldest first. -/
def keys (d : Dict κ α) : List κ := d.entries.map Prod.fst

/-- The values, in the order of their keys. -/
def values (d : Dict κ α) : List α := d.entries.map Prod.snd

/-- The number of keys. -/
def size (d : Dict κ α) : ℕ := d.keys.length

/-- Rewrite every value by `f`, dropping the keys on which `f` gives `none`. -/
def filterMap (d : Dict κ α) (f : α → Option β) : Dict κ β where
  entries := d.entries.filterMap (fun e => (f e.2).map (fun b => (e.1, b)))
  nodup := by
    have hsub : List.Sublist
        ((d.entries.filterMap (fun e => (f e.2).map (fun b => (e.1, b)))).map Prod.fst)
        (d.entries.map Prod.fst) := by
      induction d.entries with
      | nil => simp
      | cons e es ih =>
        cases hf : f e.2 with
        | none => simpa [hf] using ih.cons e.1
        | some b => simpa [hf] using ih
    exact hsub.nodup d.nodup

/-- The dictionary without the key `k`. -/
def pop [DecidableEq κ] (d : Dict κ α) (k : κ) : Dict κ α where
  entries := d.entries.filter (fun e => e.1 ≠ k)
  nodup := (List.filter_sublist.map Prod.fst).nodup d.nodup

theorem length_values (d : Dict κ α) : d.values.length = d.size := by
  rw [values, size, keys, List.length_map, List.length_map]

@[simp] theorem keys_empty : (∅ : Dict κ α).keys = [] := rfl
@[simp] theorem size_empty : (∅ : Dict κ α).size = 0 := rfl

theorem keys_nodup (d : Dict κ α) : d.keys.Nodup := d.nodup

/-- Dictionaries are equal if they list the same entries in the same order. -/
theorem ext_entries {d d' : Dict κ α} (h : d.entries = d'.entries) : d = d' := by
  cases d; cases d'; simpa using h

theorem eq_empty_of_keys {d : Dict κ α} (h : d.keys = []) : d = ∅ :=
  ext_entries (List.map_eq_nil_iff.mp h)

section Lookup

variable [DecidableEq κ]

/-- The value stored for `k`, if any. -/
def get? (d : Dict κ α) (k : κ) : Option α := assocGet k d.entries

/-- Write `a` at `k`, in place if `k` is present. -/
def set (d : Dict κ α) (k : κ) (a : α) : Dict κ α where
  entries := assocSet k a d.entries
  nodup := by
    rw [map_fst_assocSet]
    split
    · exact d.nodup
    · rename_i h
      exact List.nodup_append.mpr ⟨d.nodup, List.nodup_singleton k, by
        intro x hx y hy; rw [List.mem_singleton] at hy; subst hy; rintro rfl; exact h hx⟩

/-- Reading after a write. -/
theorem get?_set (d : Dict κ α) (k j : κ) (a : α) :
    (d.set k a).get? j = if j = k then some a else d.get? j :=
  assocGet_assocSet k j a d.entries

@[simp] theorem get?_set_self (d : Dict κ α) (k : κ) (a : α) : (d.set k a).get? k = some a := by
  rw [get?_set, if_pos rfl]

theorem get?_set_ne (d : Dict κ α) {k j : κ} (a : α) (h : j ≠ k) :
    (d.set k a).get? j = d.get? j := by
  rw [get?_set, if_neg h]

@[simp] theorem get?_empty (k : κ) : (∅ : Dict κ α).get? k = none := rfl

theorem get?_eq_none_iff {d : Dict κ α} {k : κ} : d.get? k = none ↔ k ∉ d.keys :=
  assocGet_eq_none_iff k d.entries

/-- Lookup and the entry list say the same. -/
theorem get?_eq_some_iff {d : Dict κ α} {k : κ} {a : α} :
    d.get? k = some a ↔ (k, a) ∈ d.entries :=
  assocGet_eq_some_iff d.nodup k a

/-- The keys are those that lookup finds. -/
theorem mem_keys_iff {d : Dict κ α} {k : κ} : k ∈ d.keys ↔ ∃ a, d.get? k = some a := by
  rw [← Option.isSome_iff_exists, ← not_iff_not, Option.not_isSome_iff_eq_none, get?_eq_none_iff]

theorem mem_keys_of_get? {d : Dict κ α} {k : κ} {a : α} (h : d.get? k = some a) : k ∈ d.keys :=
  mem_keys_iff.mpr ⟨a, h⟩

theorem keys_set (d : Dict κ α) (k : κ) (a : α) :
    (d.set k a).keys = if k ∈ d.keys then d.keys else d.keys ++ [k] :=
  map_fst_assocSet k a d.entries

/-- Overwriting a present key changes no key and no order. -/
theorem keys_set_of_mem {d : Dict κ α} {k : κ} (a : α) (h : k ∈ d.keys) :
    (d.set k a).keys = d.keys := by
  rw [keys_set, if_pos h]

/-- A fresh key is written last. -/
theorem entries_set_of_not_mem {d : Dict κ α} {k : κ} (a : α) (h : k ∉ d.keys) :
    (d.set k a).entries = d.entries ++ [(k, a)] :=
  assocSet_of_not_mem k a d.entries h

@[simp] theorem mem_keys_set {d : Dict κ α} {k j : κ} {a : α} :
    j ∈ (d.set k a).keys ↔ j = k ∨ j ∈ d.keys := by
  rw [keys_set]
  split
  · constructor
    · exact Or.inr
    · rintro (rfl | h) <;> assumption
  · rw [List.mem_append, List.mem_singleton, or_comm]

@[simp] theorem mem_keys_pop {d : Dict κ α} {k j : κ} :
    j ∈ (d.pop k).keys ↔ j ∈ d.keys ∧ j ≠ k := by
  simp only [keys, pop, List.mem_map, List.mem_filter, decide_eq_true_eq]
  constructor
  · rintro ⟨e, ⟨hmem, hne⟩, rfl⟩; exact ⟨⟨e, hmem, rfl⟩, hne⟩
  · rintro ⟨⟨e, hmem, rfl⟩, hne⟩; exact ⟨e, ⟨hmem, hne⟩, rfl⟩

/-- Taking out many keys. -/
theorem mem_keys_foldl_pop {d : Dict κ α} {ks : List κ} {j : κ} :
    j ∈ (ks.foldl pop d).keys ↔ j ∈ d.keys ∧ j ∉ ks := by
  induction ks generalizing d with
  | nil => simp
  | cons k ks ih => rw [List.foldl_cons, ih, mem_keys_pop, List.mem_cons, not_or, and_assoc]

theorem size_set (d : Dict κ α) (k : κ) (a : α) :
    (d.set k a).size = if k ∈ d.keys then d.size else d.size + 1 := by
  rw [size, keys_set]
  split <;> simp [size]

/-- The values are those that lookup returns. -/
theorem mem_values_iff {d : Dict κ α} {a : α} : a ∈ d.values ↔ ∃ k, d.get? k = some a := by
  simp only [values, List.mem_map, get?_eq_some_iff]
  constructor
  · rintro ⟨⟨k, a'⟩, hmem, rfl⟩; exact ⟨k, hmem⟩
  · rintro ⟨k, hmem⟩; exact ⟨(k, a), hmem, rfl⟩

/-- Overwriting the value of a key exchanges it for the new one and keeps the others. -/
theorem values_set_perm {d : Dict κ α} {k : κ} {a : α} (h : d.get? k = some a) :
    ∃ rest, d.values.Perm (a :: rest) ∧ ∀ b, (d.set k b).values.Perm (b :: rest) :=
  map_snd_assocSet_perm h

/-- The values of two different keys stand at two different places. -/
theorem values_pair {d : Dict κ α} {j k : κ} {a b : α} (hne : j ≠ k) (hj : d.get? j = some a)
    (hk : d.get? k = some b) : ∃ rest, d.values.Perm (a :: b :: rest) := by
  have hjmem : (j, a) ∈ d.entries := get?_eq_some_iff.mp hj
  have hkmem : (k, b) ∈ d.entries := get?_eq_some_iff.mp hk
  obtain ⟨l₁, l₂, hsplit⟩ := List.append_of_mem hkmem
  -- take out the entry of `k`; the one of `j` is among the others
  have hother : (j, a) ∈ l₁ ++ l₂ := by
    rw [hsplit, List.mem_append, List.mem_cons] at hjmem
    rw [List.mem_append]
    rcases hjmem with h | h | h
    · exact Or.inl h
    · exact absurd (Prod.mk.inj h).1 hne
    · exact Or.inr h
  obtain ⟨m₁, m₂, hsplit'⟩ := List.append_of_mem hother
  have hfirst : d.entries.Perm ((k, b) :: (l₁ ++ l₂)) := hsplit ▸ List.perm_middle
  have hsecond : (l₁ ++ l₂).Perm ((j, a) :: (m₁ ++ m₂)) := hsplit' ▸ List.perm_middle
  have hperm : d.entries.Perm ((j, a) :: (k, b) :: (m₁ ++ m₂)) :=
    (hfirst.trans (hsecond.cons _)).trans (List.Perm.swap _ _ _)
  exact ⟨(m₁ ++ m₂).map Prod.snd, hperm.map Prod.snd⟩

/-- Dictionaries that look up the same have the same entries, up to order. -/
theorem entries_perm {d d' : Dict κ α} (h : ∀ k, d'.get? k = d.get? k) :
    d'.entries.Perm d.entries := by
  have hnd : ∀ e : Dict κ α, e.entries.Nodup := fun e => List.Nodup.of_map Prod.fst e.nodup
  rw [List.perm_ext_iff_of_nodup (hnd d') (hnd d)]
  rintro ⟨k, a⟩
  rw [← get?_eq_some_iff, ← get?_eq_some_iff, h k]

/-- Entries of another dictionary that reach all its keys are all its entries. -/
theorem entries_perm_of_subset {d d' : Dict κ α} (hsub : ∀ e ∈ d'.entries, e ∈ d.entries)
    (hkeys : ∀ k ∈ d.keys, k ∈ d'.keys) : d'.entries.Perm d.entries := by
  apply entries_perm
  intro k
  cases hget : d'.get? k with
  | none =>
    symm
    rw [get?_eq_none_iff] at hget ⊢
    exact fun hmem => hget (hkeys k hmem)
  | some a =>
    symm
    rw [get?_eq_some_iff] at hget ⊢
    exact hsub (k, a) hget

/-- Rewriting values acts on lookup key by key. -/
theorem get?_filterMap (d : Dict κ α) (f : α → Option β) (k : κ) :
    (d.filterMap f).get? k = (d.get? k).bind f := by
  obtain ⟨es, hnd⟩ := d
  show assocGet k (es.filterMap fun e => (f e.2).map fun b => (e.1, b)) = (assocGet k es).bind f
  induction es with
  | nil => rfl
  | cons e es ih =>
    obtain ⟨k', a'⟩ := e
    rw [List.map_cons, List.nodup_cons] at hnd
    by_cases hk : k' = k
    · subst hk
      -- a dropped key must not be found further on
      have hnone : assocGet k' es = none := (assocGet_eq_none_iff k' es).mpr hnd.1
      cases hf : f a' with
      | none => simpa [hf, assocGet, hnone] using ih hnd.2
      | some b => simp [hf, assocGet]
    · cases hf : f a' with
      | none => simpa [hf, assocGet, hk] using ih hnd.2
      | some b => simpa [hf, assocGet, hk] using ih hnd.2

end Lookup

theorem size_filterMap_le (d : Dict κ α) (f : α → Option β) : (d.filterMap f).size ≤ d.size := by
  simpa [size, keys, filterMap] using
    List.length_filterMap_le (fun e : κ × α => (f e.2).map (fun b => (e.1, b))) d.entries

/-- Dropping nothing and changing nothing is the identity. -/
theorem filterMap_eq_self {d : Dict κ α} {f : α → Option α}
    (h : ∀ e ∈ d.entries, f e.2 = some e.2) :
    d.filterMap f = d := by
  apply ext_entries
  show d.entries.filterMap (fun e => (f e.2).map (fun b => (e.1, b))) = d.entries
  calc d.entries.filterMap (fun e => (f e.2).map (fun b => (e.1, b)))
      = d.entries.filterMap some := List.filterMap_congr (fun e he => by simp [h e he])
    _ = d.entries := List.filterMap_some

end Dict

/-! ### Numbered keys -/

/-- The decimal digits of a number can be read back. -/
theorem numeral_injective : Function.Injective (fun n : ℕ => toString n) := by
  intro m n h
  have hdigits : Nat.toDigits 10 m = Nat.toDigits 10 n := by
    rw [← Nat.toList_repr, ← Nat.toList_repr]
    exact congrArg String.toList h
  have hread : ∀ k : ℕ, Nat.ofDigitChars 10 (Nat.toDigits 10 k) 0 = k :=
    fun _ => Nat.ofDigitChars_ten_toDigits
  rw [← hread m, hdigits, hread n]

/-- So keys with different numbers differ. -/
theorem numberedKey_injective (stem : String) :
    Function.Injective (fun n : ℕ => stem ++ toString n) := by
  intro m n h
  exact numeral_injective ((String.append_right_inj stem).mp h)

end PasswordApp
