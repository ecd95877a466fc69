import PasswordApp.Backend.GameLogic

namespace PasswordApp

/-!
# Backend — the orders `shuffleArray` can produce

The index drawn at `i` is `Math.floor(Math.random() * i)`, so it is below `i` and the element at
`i` is always exchanged for another one: the loop walks one cycle through all places.

* `getElem?_swapAt` — what an exchange does to each place;
* `shuffleLoop_moves` — the loop moves every element it reaches;
* `shuffleArray_moves` — no element of a shuffled array is where it was;
* `getGameWords_startWord`, `initializeGame_first` — the first word of the list never starts a
  game, and the first player in key order never has its first turn;
* `shuffleArray_every_order_iff` — which arrays shuffle to each of their orders.
-/

variable {α : Type}

/-! ### One exchange -/

/-- An exchange of two places inside the array. -/
theorem getElem?_swapAt {array : List α} {i j : ℕ} (hi : i < array.length) (hj : j < array.length)
    (k : ℕ) :
    (swapAt array i j)[k]?
      = if k = j then array[i]? else if k = i then array[j]? else array[k]? := by
  have hswap : swapAt array i j = (array.set i array[j]).set j array[i] := by
    rw [swapAt, List.getElem?_eq_getElem hi, List.getElem?_eq_getElem hj]
  rw [hswap, List.getElem?_set, List.length_set]
  by_cases hkj : k = j
  · subst hkj
    rw [if_pos rfl, if_pos hj, if_pos rfl, List.getElem?_eq_getElem hi]
  · rw [if_neg (Ne.symm hkj), if_neg hkj, List.getElem?_set]
    by_cases hki : k = i
    · subst hki
      rw [if_pos rfl, if_pos hi, if_pos rfl, List.getElem?_eq_getElem hj]
    · rw [if_neg (Ne.symm hki), if_neg hki]

@[simp] theorem length_swapAt (array : List α) (i j : ℕ) :
    (swapAt array i j).length = array.length := (swapAt_perm array i j).length_eq

/-! ### The loop -/

/-- The loop from `i` leaves the places above `i` alone. -/
theorem getElem?_shuffleLoop_of_gt (random : ℕ → Draw) {i k : ℕ} (hik : i < k) {array : List α}
    (hi : i < array.length) : (shuffleLoop random i array)[k]? = array[k]? := by
  induction i generalizing array with
  | zero => rfl
  | succ i ih =>
    have hj := (random (i + 1)).index_lt (show 0 < i + 1 by omega)
    rw [shuffleLoop, ih (by omega) (by rw [length_swapAt]; omega),
      getElem?_swapAt hi (by omega), if_neg (by omega), if_neg (by omega)]

/-- In an array without duplicates two places hold different elements. -/
theorem getElem?_ne_of_nodup {array : List α} (hnd : array.Nodup) {i j : ℕ}
    (hi : i < array.length) (hij : i ≠ j) : array[i]? ≠ array[j]? := by
  intro h
  exact hij ((List.getElem?_inj hi hnd).mp h)

/-- The loop from `i ≥ 1` moves every element at a place up to `i`. -/
theorem shuffleLoop_moves (random : ℕ → Draw) {i : ℕ} {array : List α} (hnd : array.Nodup)
    (hi : i + 1 < array.length) {k : ℕ} (hk : k ≤ i + 1) :
    (shuffleLoop random (i + 1) array)[k]? ≠ array[k]? := by
  induction i generalizing array k with
  | zero =>
    -- the only index below `1` is `0`: the two first places are exchanged
    have hj : (random 1).index 1 = 0 := by
      have := (random 1).index_lt Nat.one_pos; omega
    show (swapAt array 1 ((random 1).index 1))[k]? ≠ array[k]?
    rw [hj, getElem?_swapAt hi (by omega)]
    rcases (show k = 0 ∨ k = 1 by omega) with rfl | rfl
    · exact getElem?_ne_of_nodup hnd hi (by omega)
    · exact getElem?_ne_of_nodup hnd (by omega) (by omega)
  | succ i ih =>
    set j := (random (i + 2)).index (i + 2) with hjdef
    have hj : j < i + 2 := (random (i + 2)).index_lt (by omega)
    set swapped := swapAt array (i + 2) j with hswapped
    have hget : ∀ m, swapped[m]?
        = if m = j then array[i + 2]? else if m = i + 2 then array[j]? else array[m]? :=
      fun m => getElem?_swapAt hi (by omega) m
    have hlen : swapped.length = array.length := length_swapAt _ _ _
    have hnd' : swapped.Nodup := (swapAt_perm array (i + 2) j).nodup_iff.mpr hnd
    have hrest : shuffleLoop random (i + 2) array = shuffleLoop random (i + 1) swapped := rfl
    rw [hrest]
    -- the place `i + 2` is final after its exchange
    have hlast : (shuffleLoop random (i + 1) swapped)[i + 2]? = array[j]? := by
      rw [getElem?_shuffleLoop_of_gt random (by omega) (by omega), hget, if_neg (by omega),
        if_pos rfl]
    by_cases hkl : k = i + 2
    · subst hkl
      rw [hlast]
      exact getElem?_ne_of_nodup hnd (by omega) (by omega)
    · by_cases hkj : k = j
      · -- what stood at `j` stands at `i + 2` for good, so not at `j`
        subst hkj
        rw [← hlast]
        have hperm := shuffleLoop_perm random (i + 1) swapped
        exact getElem?_ne_of_nodup (hperm.nodup_iff.mpr hnd')
          (by rw [hperm.length_eq, hlen]; omega) (by omega)
      · have hmoved := ih hnd' (by omega) (show k ≤ i + 1 by omega)
        rwa [hget, if_neg hkj, if_neg hkl] at hmoved

/-- **Every element moves.**  In an array of at least two different elements, shuffling leaves
    no element in its place, whatever is drawn. -/
theorem shuffleArray_moves {array : List α} (hnd : array.Nodup) (hlen : 2 ≤ array.length)
    (random : ℕ → Draw) {k : ℕ} (hk : k < array.length) :
    (shuffleArray array random)[k]? ≠ array[k]? := by
  have hsucc : array.length - 1 = (array.length - 2) + 1 := by omega
  rw [shuffleArray, hsucc]
  exact shuffleLoop_moves random hnd (by omega) (by omega)

/-- An array of at most one element has one order only. -/
theorem shuffleArray_short {array : List α} (hlen : array.length ≤ 1) (random : ℕ → Draw) :
    shuffleArray array random = array := by
  have hzero : array.length - 1 = 0 := by omega
  rw [shuffleArray, hzero, shuffleLoop]

/-- The first element of an array never stays first. -/
theorem head?_shuffleArray_ne {x : α} {xs : List α} (hnd : (x :: xs).Nodup) (hne : xs ≠ [])
    (random : ℕ → Draw) : (shuffleArray (x :: xs) random).head? ≠ some x := by
  have hlen : 2 ≤ (x :: xs).length := by
    have := List.length_pos_iff.mpr hne
    rw [List.length_cons]; omega
  have hmoved := shuffleArray_moves hnd hlen random (show 0 < (x :: xs).length by omega)
  rwa [← List.head?_eq_getElem?, List.getElem?_cons_zero] at hmoved

/-- The first word of the word list is never the start word. -/
theorem getGameWords_startWord {numPlayers wordBankSize : ℕ} {random : ℕ → Draw}
    {gw : GameWords} (h : getGameWords numPlayers wordBankSize random = .ok gw) :
    gw.startWord ≠ some "advance" := by
  unfold getGameWords getGameWordsFrom at h
  simp only [] at h
  split at h
  · cases h
  · obtain rfl := (Except.ok.inj h).symm
    have hlist : wordList = "advance" :: wordList.tail := rfl
    have hmoved : (shuffleArray wordList random).head? ≠ some "advance" := by
      rw [hlist]
      exact head?_shuffleArray_ne (hlist ▸ wordList_nodup) (by decide) random
    show ((shuffleArray wordList random).take (numPlayers * wordBankSize + 1))[0]?
      ≠ some "advance"
    rwa [List.getElem?_take_of_lt (Nat.succ_pos _), ← List.head?_eq_getElem?]

theorem startNextTurnOrEndGame_order {lobby : Lobby} {r : Lobby × Status}
    (h : startNextTurnOrEndGame lobby = .ok r) : r.1.playerOrder = lobby.playerOrder := by
  unfold startNextTurnOrEndGame at h
  obtain ⟨settings, _, h⟩ := bind_eq_ok.mp h
  split at h
  · rw [← Except.ok.inj h]
  · obtain ⟨nextPlayer, _, h⟩ := bind_eq_ok.mp h
    rw [← Except.ok.inj h]

/-- The first player in key order never comes first in a game of two or more. -/
theorem initializeGame_first {lobby : Lobby} {random : GameDraws} {r : Lobby × Status}
    {playerId : Uid} {others : List Uid} (hkeys : lobby.players.keys = playerId :: others)
    (hne : others ≠ []) (h : initializeGame lobby random = .ok r) :
    r.1.playerOrder.head? ≠ some playerId := by
  unfold initializeGame at h
  simp only [] at h
  split at h
  · cases h
  · obtain ⟨settings, _, h⟩ := bind_eq_ok.mp h
    obtain ⟨gameWords, _, h⟩ := bind_eq_ok.mp h
    obtain ⟨banks, _, h⟩ := bind_eq_ok.mp h
    rw [startNextTurnOrEndGame_order h]
    show (shuffleArray lobby.players.keys random.order).head? ≠ some playerId
    rw [hkeys]
    exact head?_shuffleArray_ne (hkeys ▸ lobby.players.keys_nodup) hne random.order

/-! ### Every order -/

/-- The results of `shuffleArray` over all draws are exactly the orders of the array. -/
def ShufflesToEveryOrder (array : List α) : Prop :=
  ∀ l : List α, l.Perm array ↔ ∃ random, shuffleArray array random = l

/-- Each element of the array comes first for some draws. -/
def AnyCanBeFirst (array : List α) : Prop :=
  ∀ x ∈ array, ∃ random, (shuffleArray array random).head? = some x

theorem shufflesToEveryOrder_of_short {array : List α} (hlen : array.length ≤ 1) :
    ShufflesToEveryOrder array := by
  intro l
  constructor
  · intro hperm
    refine ⟨fun _ => Draw.zero, ?_⟩
    rw [shuffleArray_short hlen]
    cases array with
    | nil => rw [List.perm_nil.mp hperm]
    | cons x xs =>
      have hnil : xs = [] := List.length_eq_zero_iff.mp (by rw [List.length_cons] at hlen; omega)
      subst hnil
      rw [List.perm_singleton.mp hperm]
  · rintro ⟨random, rfl⟩
    exact shuffleArray_perm array random

theorem anyCanBeFirst_of_short {array : List α} (hlen : array.length ≤ 1) :
    AnyCanBeFirst array := by
  intro x hx
  refine ⟨fun _ => Draw.zero, ?_⟩
  rw [shuffleArray_short hlen]
  cases array with
  | nil => cases hx
  | cons y ys =>
    have hnil : ys = [] := List.length_eq_zero_iff.mp (by rw [List.length_cons] at hlen; omega)
    subst hnil
    rw [List.mem_singleton.mp hx]
    rfl

/-- **Every order, or any first element, only of a single one.**  The index is drawn below `i`
    and not up to `i`, so an array of two or more never keeps its order, nor its first element
    its place. -/
theorem shuffleArray_every_order_iff {array : List α} (hnd : array.Nodup) :
    (ShufflesToEveryOrder array ∧ AnyCanBeFirst array) ↔ array.length ≤ 1 := by
  constructor
  · rintro ⟨hevery, _⟩
    by_contra hlong
    -- the array itself is an order of it that no draws produce
    obtain ⟨random, hsame⟩ := (hevery array).mp (List.Perm.refl _)
    refine shuffleArray_moves hnd (by omega) random (show 0 < array.length by omega) ?_
    rw [hsame]
  · intro hlen
    exact ⟨shufflesToEveryOrder_of_short hlen, anyCanBeFirst_of_short hlen⟩

theorem shuffleArray_every_order_iff_pair :
    (ShufflesToEveryOrder ["ann", "ben"] ∧ AnyCanBeFirst ["ann", "ben"]) ↔
      ["ann", "ben"].length ≤ 1 :=
  shuffleArray_every_order_iff (by decide)

/-- Two players never keep their order. -/
theorem not_shuffleArray_every_order :
    ¬ ∀ array : List String, array.Nodup → ShufflesToEveryOrder array ∧ AnyCanBeFirst array := by
  intro hall
  obtain ⟨hevery, _⟩ := hall ["ann", "ben"] (by decide)
  obtain ⟨random, hsame⟩ := (hevery ["ann", "ben"]).mp (List.Perm.refl _)
  have hmoved : (shuffleArray ["ann", "ben"] random)[0]? ≠ ["ann", "ben"][0]? :=
    shuffleArray_moves (by decide) (by decide) random (by decide)
  rw [hsame] at hmoved
  exact hmoved rfl

end PasswordApp
