import Mathlib.Data.Finset.Sort
import Mathlib.Data.List.Sort

namespace PasswordApp

/-!
# Library — a table kept as a sorted list

Rows that carry a key are kept in a list: a new row is appended, a changed one is found by its
key, removed and appended, and the list is sorted by the key again.  The table is a finite set of
indices with a row for each; the keys are strictly increasing in the index.

* `Keyed.entries` — the rows of a table in the order of their indices;
* `Keyed.sort_eq_entries` — sorting any order of the rows gives that list;
* `Keyed.sort_append` / `Keyed.sort_replace` — adding a row and changing a row are such a sort.
-/

universe u v w

namespace Keyed

variable {ι : Type u} {κ : Type v} {α : Type w} [LinearOrder ι]

/-- The rows `row i` for `i` in `S`, in the order of the indices. -/
def entries (S : Finset ι) (row : ι → α) : List α := S.sort.map row

/-- Every row of the table has the key of its index. -/
def Fits (key : α → κ) (stamp : ι → κ) (S : Finset ι) (row : ι → α) : Prop :=
  ∀ i ∈ S, key (row i) = stamp i

theorem mem_entries {S : Finset ι} {row : ι → α} {r : α} :
    r ∈ entries S row ↔ ∃ i ∈ S, row i = r := by
  simp [entries]

theorem entries_congr {S : Finset ι} {row row' : ι → α} (h : ∀ i ∈ S, row i = row' i) :
    entries S row = entries S row' := by
  apply List.map_congr_left
  intro i hi
  exact h i ((Finset.mem_sort _).mp hi)

variable {key : α → κ} {stamp : ι → κ} {S : Finset ι} {row : ι → α}

theorem Fits.map_key (h : Fits key stamp S row) :
    (entries S row).map key = S.sort.map stamp := by
  rw [entries, List.map_map]
  apply List.map_congr_left
  intro i hi
  exact h i ((Finset.mem_sort _).mp hi)

/-- A changed row stays at the place of its index. -/
theorem entries_update {i : ι} {n : ℕ} (hn : S.sort[n]? = some i) (r : α) :
    entries S (Function.update row i r) = (entries S row).set n r := by
  obtain ⟨hlen, rfl⟩ := List.getElem?_eq_some_iff.mp hn
  apply List.ext_getElem
  · simp [entries]
  · intro m hm hm'
    have hmlen : m < S.sort.length := by simpa [entries] using hm
    simp only [entries, List.getElem_map, List.getElem_set]
    split
    · rename_i hnm
      subst hnm
      exact Function.update_self _ _ _
    · rename_i hnm
      apply Function.update_of_ne
      intro heq
      exact hnm ((S.sort_nodup _).getElem_inj_iff.mp heq).symm

/-! ### Sorting -/

variable [LinearOrder κ]

/-- The rows by increasing key. -/
def sort (key : α → κ) (rows : List α) : List α :=
  rows.insertionSort (fun r r' => key r ≤ key r')

/-- The rows of a table come by strictly increasing key. -/
theorem Fits.pairwise (hmono : StrictMono stamp) (h : Fits key stamp S row) :
    (entries S row).Pairwise (fun r r' => key r < key r') := by
  rw [← List.pairwise_map (f := key), h.map_key]
  apply List.Pairwise.map stamp (R := (· < ·))
  · intro i j hij
    exact hmono hij
  · exact (Finset.sortedLT_sort S).pairwise

/-- **Sorting rule.**  However the rows are ordered, sorting gives the rows of the table. -/
theorem sort_eq_entries (hmono : StrictMono stamp) (h : Fits key stamp S row) {rows : List α}
    (hperm : rows.Perm (entries S row)) : sort key rows = entries S row := by
  have hsorted : (sort key rows).Pairwise (fun r r' => key r ≤ key r') := by
    have : Std.Total (fun r r' : α => key r ≤ key r') := ⟨fun r r' => le_total _ _⟩
    have : IsTrans α (fun r r' => key r ≤ key r') := ⟨fun _ _ _ => le_trans⟩
    exact List.pairwise_insertionSort _ rows
  have hstrict := h.pairwise hmono
  refine List.Perm.eq_of_pairwise ?_ hsorted (hstrict.imp le_of_lt)
    ((List.perm_insertionSort _ rows).trans hperm)
  -- two rows with the same key are the same row
  intro r r' hr hr' hle hge
  have hr : r ∈ entries S row := hperm.mem_iff.mp ((List.mem_insertionSort _).mp hr)
  obtain ⟨i, hi, rfl⟩ := mem_entries.mp hr
  obtain ⟨j, hj, rfl⟩ := mem_entries.mp hr'
  have hkey : stamp i = stamp j := by
    rw [← h i hi, ← h j hj]
    exact le_antisymm hle hge
  rw [hmono.injective hkey]

/-- A new row is appended. -/
theorem sort_append (hmono : StrictMono stamp) (h : Fits key stamp S row) {i : ι} {r : α}
    (hi : i ∉ S) (hr : key r = stamp i) :
    sort key (entries S row ++ [r]) = entries (insert i S) (Function.update row i r) := by
  have hold : entries S (Function.update row i r) = entries S row := by
    apply entries_congr
    intro j hj
    apply Function.update_of_ne
    rintro rfl
    exact hi hj
  refine sort_eq_entries hmono ?_ ?_
  · intro j hj
    by_cases hji : j = i
    · rw [hji, Function.update_self, hr]
    · rw [Function.update_of_ne hji]
      exact h j (Finset.mem_of_mem_insert_of_ne hj hji)
  · have hkeys : (insert i S).sort.Perm (i :: S.sort) := by
      refine (Finset.sort_perm_toList _ _).trans ((Finset.toList_insert hi).trans ?_)
      exact (Finset.sort_perm_toList S _).symm.cons i
    refine List.Perm.trans ?_ (hkeys.map (Function.update row i r)).symm
    rw [List.map_cons, Function.update_self]
    show (entries S row ++ [r]).Perm (r :: entries S (Function.update row i r))
    rw [hold]
    exact List.perm_append_singleton r _

/-- The row of `i` is found by its key. -/
theorem findIdx?_entries (hmono : StrictMono stamp) (h : Fits key stamp S row) {i : ι}
    (hi : i ∈ S) : ∃ n, (entries S row).findIdx? (fun r => key r == stamp i) = some n ∧
      (entries S row)[n]? = some (row i) := by
  cases hfind : (entries S row).findIdx? (fun r => key r == stamp i) with
  | none =>
    have hnone := List.findIdx?_eq_none_iff.mp hfind (row i) (mem_entries.mpr ⟨i, hi, rfl⟩)
    rw [h i hi, beq_self_eq_true] at hnone
    cases hnone
  | some n =>
    obtain ⟨hn, hkey, _⟩ := List.findIdx?_eq_some_iff_getElem.mp hfind
    refine ⟨n, rfl, ?_⟩
    obtain ⟨j, hj, hrow⟩ := mem_entries.mp (List.getElem_mem hn)
    rw [← hrow, h j hj, beq_iff_eq] at hkey
    rw [List.getElem?_eq_getElem hn, ← hrow, hmono.injective hkey]

/-- A changed row is removed and appended. -/
theorem sort_replace (hmono : StrictMono stamp) (h : Fits key stamp S row) {i : ι} {r : α}
    (hi : i ∈ S) (hr : key r = stamp i) {n : ℕ} (hn : (entries S row)[n]? = some (row i)) :
    sort key ((entries S row).eraseIdx n ++ [r]) = entries S (Function.update row i r) := by
  refine sort_eq_entries hmono ?_ ?_
  · intro j hj
    by_cases hji : j = i
    · rw [hji, Function.update_self, hr]
    · rw [Function.update_of_ne hji]
      exact h j hj
  · -- position `n` of the list is that of the index `i`
    obtain ⟨hlen, hget⟩ := List.getElem?_eq_some_iff.mp hn
    have hlen' : n < S.sort.length := by simpa [entries] using hlen
    have hindex : S.sort[n] = i := by
      have hrow : row S.sort[n] = row i := by simpa [entries] using hget
      have hmem : S.sort[n] ∈ S := (Finset.mem_sort _).mp (List.getElem_mem hlen')
      apply hmono.injective
      rw [← h _ hmem, hrow, h i hi]
    have hn' : S.sort[n]? = some i := by rw [List.getElem?_eq_getElem hlen', hindex]
    rw [entries_update hn', List.set_eq_take_append_cons_drop, if_pos hlen,
      List.eraseIdx_eq_take_drop_succ, List.append_assoc]
    exact (List.perm_append_comm).append_left _

end Keyed

end PasswordApp
