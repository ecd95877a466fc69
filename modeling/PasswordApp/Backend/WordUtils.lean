import PasswordApp.Backend.Utils

namespace PasswordApp

/-!
# Backend — `word-utils.js`

* `wordList` — the curated words, all different;
* `getGameWords` — dealing a start word, one bank a player and the remaining pool, stated
  for any word list (`getGameWordsFrom`) and used at `wordList`.
-/

/-- Alphabetized list of ~100 curated words. -/
def wordList : List String :=
  ["advance", "age", "appliance", "audio", "autumn", "badge", "baker", "bar", "bird", "black",
   "blanket", "block", "blood", "book", "brain", "building", "camera", "captain", "card",
   "cart", "chain", "city", "coast", "college", "color", "construction", "court", "culture",
   "customer", "dance", "department", "dome", "drive", "editor", "energy", "fame", "field",
   "film", "floor", "frame", "gallery", "game", "home", "hotel", "house", "industry", "island",
   "jacket", "kingdom", "laser", "lens", "library", "life", "light", "line", "link", "machine",
   "magic", "money", "motor", "motorcycle", "movie", "music", "nuclear", "object", "office",
   "opera", "paper", "park", "party", "permit", "picture", "plant", "power", "prize",
   "property", "radio", "radius", "rock", "rocket", "score", "shadow", "shipment", "shoes",
   "sing", "sip", "sound", "speed", "stage", "stone", "student", "theater", "time", "triangle",
   "video", "water", "weather", "work", "world"]

theorem wordList_nodup : wordList.Nodup := by decide +kernel

/-- The words of one game. -/
structure GameWords where
  startWord : Option String
  playerWordLists : List (List String)
  availableWords : List String

/-- The body of `getGameWords`, for an arbitrary word list. -/
def getGameWordsFrom (wordList : List String) (numPlayers wordBankSize : ℕ)
    (random : ℕ → Draw) : Except JsException GameWords :=
  let numTotalWords := numPlayers * wordBankSize + 1
  if numTotalWords > wordList.length then
    .error (.error "not enough words in word list to support game of this size.")
  else
    let allWords := shuffleArray wordList random
    let gameWords := allWords.take numTotalWords
    .ok {
      startWord := gameWords[0]?
      playerWordLists := chunkArray (gameWords.drop 1) wordBankSize
      availableWords := allWords.drop numTotalWords }

/-- `getGameWords(numPlayers, wordBankSize)`. -/
def getGameWords (numPlayers wordBankSize : ℕ) (random : ℕ → Draw) : Except JsException GameWords :=
  getGameWordsFrom wordList numPlayers wordBankSize random

/-- **Dealing.**  A successful deal gives a start word, `numPlayers` banks of
    `wordBankSize` words and the rest, together a permutation of the word list. -/
theorem getGameWordsFrom_ok {words : List String} {numPlayers wordBankSize : ℕ}
    {random : ℕ → Draw} {gw : GameWords} (hsize : 1 ≤ wordBankSize)
    (h : getGameWordsFrom words numPlayers wordBankSize random = .ok gw) :
    numPlayers * wordBankSize + 1 ≤ words.length ∧
    gw.playerWordLists.length = numPlayers ∧
    (∀ ws ∈ gw.playerWordLists, ws.length = wordBankSize) ∧
    gw.availableWords.length = words.length - (numPlayers * wordBankSize + 1) ∧
    ∃ startWord, gw.startWord = some startWord ∧
      (startWord :: (gw.playerWordLists.flatten ++ gw.availableWords)).Perm words := by
  unfold getGameWordsFrom at h
  simp only [] at h
  split at h
  · cases h
  · rename_i hcap
    have hcap : numPlayers * wordBankSize + 1 ≤ words.length := by omega
    obtain rfl := (Except.ok.inj h).symm
    set all := shuffleArray words random with hall
    have hperm : all.Perm words := shuffleArray_perm words random
    have hlen : all.length = words.length := hperm.length_eq
    -- the words after the start word fill the banks exactly
    have hdealt : ((all.take (numPlayers * wordBankSize + 1)).drop 1).length
        = numPlayers * wordBankSize := by
      rw [List.length_drop, List.length_take]; omega
    obtain ⟨hcount, hfull⟩ := chunkArray_exact hsize hdealt
    refine ⟨hcap, hcount, hfull, by rw [List.length_drop, hlen], ?_⟩
    obtain ⟨w, rest, hw⟩ := List.exists_cons_of_length_pos (show 0 < all.length by omega)
    refine ⟨w, by rw [hw]; rfl, ?_⟩
    show (w :: ((chunkArray ((all.take (numPlayers * wordBankSize + 1)).drop 1)
      wordBankSize).flatten ++ all.drop (numPlayers * wordBankSize + 1))).Perm words
    rw [chunkArray_flatten hsize]
    refine List.Perm.trans (List.Perm.of_eq ?_) hperm
    rw [hw, List.take_succ_cons, List.drop_succ_cons, List.drop_succ_cons, List.drop_zero,
      List.take_append_drop]

end PasswordApp
