import PasswordApp.Backend.WordUtils
import PasswordApp.Library.Heap

namespace PasswordApp

/-!
# Backend — dealing words out of a shared list

`wordList` is one array for all games, and `getGameWords` hands it to functions that write to
arrays.  Here the functions of `utils.js` and `word-utils.js` run on arrays by address, as the
script does: `slice` and `[x]` make a new array, assignments and `push` write to an old one.

* `shuffleArrayAt_spec`, `chunkArrayAt_spec` — they compute what the functions on lists compute,
  and write only to arrays of their own;
* `getGameWordsAt_spec` — the same for a whole deal;
* `getGameWordsAt_exact` — what a deal gives, and that the word list stays as it is.
-/

/-! ### The functions on arrays -/

section Arrays

variable {α : Type}

/-- The loop of `shuffleArray` on the array at `array`. -/
def shuffleLoopAt (random : ℕ → Draw) (array : ℕ) : ℕ → Heap α → Heap α
  | 0, heap => heap
  | i + 1, heap => shuffleLoopAt random array i
      (heap.write array (swapAt (heap.read array) (i + 1) ((random (i + 1)).index (i + 1))))

/-- `shuffleArray(inputArray)`: `inputArray.slice()` is shuffled and returned. -/
def shuffleArrayAt (heap : Heap α) (inputArray : ℕ) (random : ℕ → Draw) : ℕ × Heap α :=
  let (array, heap) := heap.alloc (heap.read inputArray)
  (array, shuffleLoopAt random array ((heap.read array).length - 1) heap)

/-- One round of the loop of `chunkArray`: `chunked_arr.push([x])` or `last.push(x)`. -/
def chunkStepAt (size : ℕ) (chunked : List ℕ) (heap : Heap α) (x : α) : List ℕ × Heap α :=
  match chunked.getLast? with
  | none =>
    let (chunk, heap) := heap.alloc [x]
    (chunked ++ [chunk], heap)
  | some last =>
    if (heap.read last).length = size then
      let (chunk, heap) := heap.alloc [x]
      (chunked ++ [chunk], heap)
    else (chunked, heap.write last (heap.read last ++ [x]))

/-- The first `n` rounds of the loop of `chunkArray`; round `i` reads `array[i]`. -/
def chunkLoopAt (size array : ℕ) (heap : Heap α) : ℕ → List ℕ × Heap α
  | 0 => ([], heap)
  | n + 1 =>
    let (chunked, heap) := chunkLoopAt size array heap n
    match (heap.read array)[n]? with
    | none => (chunked, heap)
    | some x => chunkStepAt size chunked heap x

/-- `chunkArray(array, size)`. -/
def chunkArrayAt (heap : Heap α) (array size : ℕ) : List ℕ × Heap α :=
  chunkLoopAt size array heap (heap.read array).length

end Arrays

/-- What `getGameWords` returns: a word, the arrays of the banks and the array of the rest. -/
structure GameWordsAt where
  startWord : Option String
  playerWordLists : List ℕ
  availableWords : ℕ

/-- `getGameWords(numPlayers, wordBankSize)`, with the word list at `wordList`. -/
def getGameWordsAt (heap : Heap String) (wordList numPlayers wordBankSize : ℕ)
    (random : ℕ → Draw) : Except JsException (GameWordsAt × Heap String) :=
  let numTotalWords := numPlayers * wordBankSize + 1
  if numTotalWords > (heap.read wordList).length then
    .error (.error "not enough words in word list to support game of this size.")
  else
    let (allWords, heap) := shuffleArrayAt heap wordList random
    let (gameWords, heap) := heap.alloc ((heap.read allWords).take numTotalWords)
    let (bankWords, heap) := heap.alloc ((heap.read gameWords).drop 1)
    let (playerWordLists, heap) := chunkArrayAt heap bankWords wordBankSize
    let (availableWords, heap) := heap.alloc ((heap.read allWords).drop numTotalWords)
    .ok ({
      startWord := (heap.read gameWords)[0]?
      playerWordLists := playerWordLists
      availableWords := availableWords }, heap)

/-! ### They compute what the functions on lists compute -/

section Specs

variable {α : Type}

/-- The loop amounts to one write. -/
theorem shuffleLoopAt_eq (random : ℕ → Draw) {array : ℕ} (i : ℕ) {heap : Heap α}
    (harray : array < heap.length) :
    shuffleLoopAt random array i heap
      = heap.write array (shuffleLoop random i (heap.read array)) := by
  induction i generalizing heap with
  | zero => rw [shuffleLoopAt, shuffleLoop, Heap.write_read_self harray]
  | succ i ih =>
    rw [shuffleLoopAt, ih (by rwa [Heap.length_write]), Heap.read_write_self harray,
      Heap.write_write, shuffleLoop]

theorem shuffleArrayAt_spec (heap : Heap α) (inputArray : ℕ) (random : ℕ → Draw) :
    (shuffleArrayAt heap inputArray random).1 = heap.length ∧
    (shuffleArrayAt heap inputArray random).2
      = heap ++ [shuffleArray (heap.read inputArray) random] := by
  refine ⟨rfl, ?_⟩
  show shuffleLoopAt random heap.length
    (((heap ++ [heap.read inputArray]).read heap.length).length - 1)
    (heap ++ [heap.read inputArray]) = _
  rw [shuffleLoopAt_eq random _ (by simp), Heap.read_alloc_new, Heap.write, shuffleArray]
  simp

/-- One round keeps the chunks, in arrays made since `base`. -/
theorem chunkStepAt_spec (size : ℕ) {base : ℕ} {chunked : List ℕ} {heap : Heap α}
    {chunks : List (List α)} (h : Heap.Holds base heap chunked chunks)
    (hbase : base ≤ heap.length) (x : α) :
    Heap.Holds base (chunkStepAt size chunked heap x).2 (chunkStepAt size chunked heap x).1
      (chunkStep size chunks x) ∧
    Heap.Frames base heap (chunkStepAt size chunked heap x).2 := by
  have hnew := h.alloc hbase [x]
  have hframes := (Heap.Frames.alloc heap [x]).mono hbase
  rcases List.eq_nil_or_concat chunked with rfl | ⟨init, last, rfl⟩
  · -- no chunk yet
    obtain rfl : chunks = [] := h.read.symm
    exact ⟨hnew, hframes⟩
  · rw [List.concat_eq_append] at h hnew ⊢
    have hread := h.read
    rw [List.map_append, List.map_singleton] at hread
    subst hread
    simp only [chunkStepAt, chunkStep, List.getLast?_concat, List.dropLast_concat]
    split
    · exact ⟨hnew, hframes⟩
    · exact ⟨h.write_last _, .write (h.fresh last (by simp)).1 _⟩

/-- After `n` rounds the chunks are those of the first `n` elements. -/
theorem chunkLoopAt_spec (size : ℕ) {array : ℕ} {heap : Heap α} (harray : array < heap.length)
    {n : ℕ} (hn : n ≤ (heap.read array).length) :
    Heap.Holds heap.length (chunkLoopAt size array heap n).2 (chunkLoopAt size array heap n).1
      (((heap.read array).take n).foldl (chunkStep size) []) ∧
    Heap.Frames heap.length heap (chunkLoopAt size array heap n).2 := by
  induction n with
  | zero => exact ⟨Heap.Holds.nil _ _, Heap.Frames.refl _ _⟩
  | succ n ih =>
    obtain ⟨hholds, hframes⟩ := ih (by omega)
    -- the chunks are in arrays of their own, so the array still reads as it did
    have hget : ((chunkLoopAt size array heap n).2.read array)[n]?
        = some (heap.read array)[n] := by
      rw [hframes.read array harray, List.getElem?_eq_getElem (by omega)]
    have hloop : chunkLoopAt size array heap (n + 1)
        = chunkStepAt size (chunkLoopAt size array heap n).1 (chunkLoopAt size array heap n).2
            (heap.read array)[n] := by
      simp only [chunkLoopAt, hget]
    rw [hloop, List.take_succ_eq_append_getElem (by omega), List.foldl_append]
    obtain ⟨hholds', hframes'⟩ := chunkStepAt_spec size hholds hframes.length
      (heap.read array)[n]
    exact ⟨hholds', hframes.trans hframes'⟩

theorem chunkArrayAt_spec (heap : Heap α) {array : ℕ} (harray : array < heap.length) (size : ℕ) :
    Heap.Holds heap.length (chunkArrayAt heap array size).2 (chunkArrayAt heap array size).1
      (chunkArray (heap.read array) size) ∧
    Heap.Frames heap.length heap (chunkArrayAt heap array size).2 := by
  have h := chunkLoopAt_spec size harray (le_refl (heap.read array).length)
  rwa [List.take_length] at h

end Specs

/-- The words of a deal, read from its arrays. -/
def GameWordsAt.read (gameWords : GameWordsAt) (heap : Heap String) : GameWords where
  startWord := gameWords.startWord
  playerWordLists := gameWords.playerWordLists.map heap.read
  availableWords := heap.read gameWords.availableWords

/-- **A deal on arrays is the deal on lists**, and every array there was is as it was. -/
theorem getGameWordsAt_spec (heap : Heap String) (wordList numPlayers wordBankSize : ℕ)
    (random : ℕ → Draw) :
    (∃ e, getGameWordsAt heap wordList numPlayers wordBankSize random = .error e ∧
      getGameWordsFrom (heap.read wordList) numPlayers wordBankSize random = .error e) ∨
    ∃ gameWords heap',
      getGameWordsAt heap wordList numPlayers wordBankSize random = .ok (gameWords, heap') ∧
      getGameWordsFrom (heap.read wordList) numPlayers wordBankSize random
        = .ok (gameWords.read heap') ∧
      ∀ a < heap.length, heap'.read a = heap.read a := by
  unfold getGameWordsAt getGameWordsFrom
  simp only []
  split
  · exact Or.inl ⟨_, rfl, rfl⟩
  · refine Or.inr ?_
    set total := numPlayers * wordBankSize + 1 with htotal
    set words := heap.read wordList with hwords
    set all := shuffleArray words random with hall
    obtain ⟨haddr, hheap⟩ := shuffleArrayAt_spec heap wordList random
    rw [← hwords, ← hall] at hheap
    -- the four arrays of the call before the chunks are cut
    set heap₁ := heap ++ [all] with hheap₁
    set heap₂ := heap₁ ++ [all.take total] with hheap₂
    set heap₃ := heap₂ ++ [(all.take total).drop 1] with hheap₃
    have hlen₁ : heap₁.length = heap.length + 1 := by simp [hheap₁]
    have hlen₂ : heap₂.length = heap.length + 2 := by simp [hheap₂, hlen₁]
    have hlen₃ : heap₃.length = heap.length + 3 := by simp [hheap₃, hlen₂]
    have hread₁ : heap₁.read heap.length = all := Heap.read_alloc_new heap all
    have hread₂ : heap₂.read heap₁.length = all.take total := Heap.read_alloc_new heap₁ _
    have hread₃ : heap₃.read heap₂.length = (all.take total).drop 1 := Heap.read_alloc_new heap₂ _
    have hbankWords : heap₂.length < heap₃.length := by omega
    obtain ⟨hholds, hframes⟩ := chunkArrayAt_spec heap₃ hbankWords wordBankSize
    rw [hread₃] at hholds
    set chunked := chunkArrayAt heap₃ heap₂.length wordBankSize with hchunked
    -- nothing made earlier was written to since
    have hkept₃ : ∀ a < heap.length, heap₃.read a = heap.read a := by
      intro a ha
      rw [Heap.read_alloc_old _ (by omega), Heap.read_alloc_old _ (by omega),
        Heap.read_alloc_old _ ha]
    have hall₃ : heap₃.read heap.length = all := by
      rw [Heap.read_alloc_old _ (by omega), Heap.read_alloc_old _ (by omega), hread₁]
    have hgame₃ : heap₃.read heap₁.length = all.take total := by
      rw [Heap.read_alloc_old _ (by omega), hread₂]
    have hlen := hframes.length
    set heap₄ := chunked.2 ++ [all.drop total] with hheap₄
    have hold₄ : ∀ a < heap₃.length, heap₄.read a = heap₃.read a := by
      intro a ha
      rw [hheap₄, Heap.read_alloc_old _ (by omega), hframes.read a ha]
    refine ⟨⟨(all.take total)[0]?, chunked.1, chunked.2.length⟩, heap₄, ?_, ?_, ?_⟩
    · simp only [haddr, hheap, Heap.alloc, hread₁, ← hheap₂, ← hheap₃, hread₂,
        ← hchunked]
      rw [hframes.read heap.length (by omega), hall₃, ← hheap₄, hold₄ heap₁.length (by omega),
        hgame₃]
    · have hbanks :
          chunked.1.map heap₄.read = chunkArray ((all.take total).drop 1) wordBankSize := by
        rw [← hholds.read]
        exact List.map_congr_left (fun a ha => Heap.read_alloc_old _ (hholds.fresh a ha).2)
      rw [GameWordsAt.read, hbanks, hheap₄, Heap.read_alloc_new]
    · intro a ha
      rw [hold₄ a (by omega), hkept₃ a ha]

/-! ### What a deal gives -/

/-- A deal throws exactly if there are too few words. -/
theorem getGameWordsFrom_error_iff {words : List String} {numPlayers wordBankSize : ℕ}
    (random : ℕ → Draw) :
    (∃ e, getGameWordsFrom words numPlayers wordBankSize random = .error e) ↔
      numPlayers * wordBankSize + 1 > words.length := by
  unfold getGameWordsFrom
  simp only []
  split
  · rename_i hfew
    exact iff_of_true ⟨_, rfl⟩ hfew
  · rename_i henough
    exact iff_of_false (by rintro ⟨e, ⟨⟩⟩) henough

/-- The parts of a deal share no word. -/
theorem disjoint_parts {startWord : String} {banks : List (List String)}
    {rest words : List String} (hnd : words.Nodup)
    (hperm : (startWord :: (banks.flatten ++ rest)).Perm words) :
    List.Pairwise List.Disjoint ([startWord] :: rest :: banks) := by
  refine (List.nodup_flatten.mp ?_).2
  have hflatten : ([startWord] :: rest :: banks).flatten.Perm words := by
    have hswap : (rest ++ banks.flatten).Perm (banks.flatten ++ rest) := List.perm_append_comm
    exact (hswap.cons startWord).trans hperm
  exact hflatten.nodup_iff.mpr hnd

/-- **Dealing is exact.**  A deal throws exactly if there are too few words.  Otherwise it gives a
    start word, `numPlayers` banks of `wordBankSize` words and the rest, disjoint and together
    the word list in another order; the word list, like every other array there was, is not
    written to. -/
theorem getGameWordsAt_exact (heap : Heap String) (wordList : ℕ)
    (hnd : (heap.read wordList).Nodup) (numPlayers wordBankSize : ℕ) (hsize : 1 ≤ wordBankSize)
    (random : ℕ → Draw) :
    ((∃ e, getGameWordsAt heap wordList numPlayers wordBankSize random = .error e) ↔
      numPlayers * wordBankSize + 1 > (heap.read wordList).length) ∧
    ∀ gameWords heap',
      getGameWordsAt heap wordList numPlayers wordBankSize random = .ok (gameWords, heap') →
      (∃ startWord, gameWords.startWord = some startWord ∧
        List.Pairwise List.Disjoint ([startWord] :: heap'.read gameWords.availableWords ::
          gameWords.playerWordLists.map heap'.read) ∧
        (startWord :: ((gameWords.playerWordLists.map heap'.read).flatten ++
          heap'.read gameWords.availableWords)).Perm (heap.read wordList)) ∧
      gameWords.playerWordLists.length = numPlayers ∧
      (∀ bank ∈ gameWords.playerWordLists, (heap'.read bank).length = wordBankSize) ∧
      (heap'.read gameWords.availableWords).length
        = (heap.read wordList).length - numPlayers * wordBankSize - 1 ∧
      ∀ a < heap.length, heap'.read a = heap.read a := by
  rcases getGameWordsAt_spec heap wordList numPlayers wordBankSize random with
    ⟨e, hat, hfrom⟩ | ⟨dealt, heap', hat, hfrom, hkept⟩
  · refine ⟨iff_of_true ⟨e, hat⟩ ((getGameWordsFrom_error_iff random).mp ⟨e, hfrom⟩), ?_⟩
    intro gameWords heap' hok
    rw [hat] at hok
    cases hok
  · refine ⟨iff_of_false ?_ ?_, ?_⟩
    · rintro ⟨e, herror⟩
      rw [hat] at herror
      cases herror
    · intro hfew
      obtain ⟨e, herror⟩ := (getGameWordsFrom_error_iff random).mpr hfew
      rw [hfrom] at herror
      cases herror
    · intro gameWords heap'' hok
      rw [hat] at hok
      obtain ⟨rfl, rfl⟩ := Prod.mk.inj (Except.ok.inj hok)
      obtain ⟨_, hcount, hfull, hrest, startWord, hstart, hperm⟩ := getGameWordsFrom_ok hsize hfrom
      refine ⟨⟨startWord, hstart, disjoint_parts hnd hperm, hperm⟩, ?_, ?_, ?_, hkept⟩
      · simpa [GameWordsAt.read] using hcount
      · intro bank hbank
        exact hfull _ (List.mem_map_of_mem hbank)
      · rw [show heap'.read dealt.availableWords = (dealt.read heap').availableWords from rfl,
          hrest]
        omega

/-- Four players with six words each leave 74 of the 99. -/
theorem getGameWordsAt_exact_four :
    ∃ gameWords heap',
      getGameWordsAt [wordList] 0 4 6 (fun _ => Draw.zero) = .ok (gameWords, heap') ∧
      gameWords.playerWordLists.length = 4 ∧
      (heap'.read gameWords.availableWords).length = 74 ∧ heap'.read 0 = wordList := by
  obtain ⟨hthrows, hdeals⟩ :=
    getGameWordsAt_exact [wordList] 0 wordList_nodup 4 6 (by decide) (fun _ => Draw.zero)
  have hlength : wordList.length = 99 := by decide
  cases hrun : getGameWordsAt [wordList] 0 4 6 (fun _ => Draw.zero) with
  | error e =>
    have hfew : 4 * 6 + 1 > wordList.length := hthrows.mp ⟨e, hrun⟩
    rw [hlength] at hfew
    omega
  | ok result =>
    obtain ⟨_, hcount, _, hrest, hkept⟩ := hdeals result.1 result.2 hrun
    refine ⟨result.1, result.2, rfl, hcount, ?_, hkept 0 (by decide)⟩
    rw [hrest]
    show wordList.length - 4 * 6 - 1 = 74
    rw [hlength]

end PasswordApp
