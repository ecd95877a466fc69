import PasswordApp.Backend.Transactions
import Mathlib.Data.List.Sort

namespace PasswordApp

/-!
# Bot — `bot.py`

The bot server keeps a dictionary of word embeddings and answers two questions.  Reading a
word that is not in the dictionary raises, and so does taking the first of no words.

* `PyException` — what the bot raises;
* `Tools` — the vector arithmetic, the stemmer and the digits of the libraries it uses;
* `PasswordBot` — the loaded dictionary, which carries that it was cleaned;
* `PasswordBot.playTurn`, `PasswordBot.voteOnOtherTurn` — the two answers, and when they are
  given (`playTurn_isOk`, `voteOnOtherTurn_isOk`).
-/

/-- What the bot raises. -/
inductive PyException where
  /-- A key is not in a dictionary. -/
  | keyError
  /-- A list is too short. -/
  | indexError
  /-- A list or dictionary is used as a key. -/
  | typeError
  deriving DecidableEq

/-- `numpy`, `scipy`, `nltk` and the character classes, as far as the bot uses them. -/
structure Tools (V D : Type) where
  add : V → V → V
  sub : V → V → V
  /-- `path / 2.0`. -/
  half : V → V
  /-- `np.linalg.norm`. -/
  norm : V → D
  /-- `spatial.distance.cosine`. -/
  cosine : V → V → D
  /-- `<` on distances. -/
  lt : D → D → Bool
  /-- `>=` on distances. -/
  ge : D → D → Bool
  /-- `PorterStemmer().stem`. -/
  stem : String → String
  /-- `str.isdigit` of one character; beyond ASCII there are more digits. -/
  isDigit : Char → Bool
  isDigit_ascii : ∀ c : Char, c.toNat < 128 → isDigit c = c.isDigit

/-- `sorted(xs, key=key)`: stable, and by `<` alone. -/
def sortedBy {α D : Type} (lt : D → D → Bool) (key : α → D) (xs : List α) : List α :=
  xs.insertionSort (fun a b => lt (key b) (key a) = false)

theorem sortedBy_perm {α D : Type} (lt : D → D → Bool) (key : α → D) (xs : List α) :
    (sortedBy lt key xs).Perm xs := List.perm_insertionSort _ xs

/-! ### Cleaning the dictionary -/

/-- A character of `string.punctuation`. -/
def isPunctuation (c : Char) : Bool :=
  (33 ≤ c.toNat && c.toNat ≤ 47) || (58 ≤ c.toNat && c.toNat ≤ 64) ||
  (91 ≤ c.toNat && c.toNat ≤ 96) || (123 ≤ c.toNat && c.toNat ≤ 126)

def hasNumbers {V D : Type} (tools : Tools V D) (inputString : String) : Bool :=
  inputString.toList.any tools.isDigit

def hasPunctuation (inputString : String) : Bool := inputString.toList.any isPunctuation

/-- The bot: its dictionary has no word with a digit or a punctuation mark. -/
structure PasswordBot (V D : Type) where
  tools : Tools V D
  embeddings : Dict String V
  targetDistThreshold : D
  challengeThreshold : D
  clean : ∀ word ∈ embeddings.keys,
    hasNumbers tools word = false ∧ hasPunctuation word = false

namespace PasswordBot

variable {V D : Type}

/-- The words `__init__` takes out of the dictionary. -/
def toRemove (tools : Tools V D) (embeddings : Dict String V) : List String :=
  embeddings.keys.filter (fun word => hasNumbers tools word || hasPunctuation word)

/-- `__init__`, on the lines of the embeddings file. -/
def init (tools : Tools V D) (lines : List (String × V)) (targetDistThreshold : D)
    (challengeThreshold : D) : PasswordBot V D :=
  let embeddings := lines.foldl (fun d line => d.set line.1 line.2) ∅
  { tools := tools
    embeddings := (toRemove tools embeddings).foldl Dict.pop embeddings
    targetDistThreshold := targetDistThreshold
    challengeThreshold := challengeThreshold
    clean := by
      intro word hword
      obtain ⟨hmem, hkept⟩ := Dict.mem_keys_foldl_pop.mp hword
      simpa [toRemove, hmem] using hkept }

variable (bot : PasswordBot V D)

/-- `self.embeddings[word]`, with the word as a string. -/
def lookup : Option Json → Except PyException (String × V)
  | some (.str word) =>
    match bot.embeddings.get? word with
    | none => .error .keyError
    | some vec => .ok (word, vec)
  | some (.arr _) => .error .typeError
  | some (.obj _) => .error .typeError
  | _ => .error .keyError

/-! ### Playing a word -/

/-- An element of `options`. -/
structure Target (V D : Type) where
  word : String
  path : V
  distance : D

/-- The loop over the target words. -/
def options (lastWordVec : V) : List String → Except PyException (List (Target V D))
  | [] => .ok []
  | targetWord :: rest => do
    let target ← bot.lookup (some (.str targetWord))
    let path := bot.tools.sub target.2 lastWordVec
    let others ← options lastWordVec rest
    .ok (⟨targetWord, path, bot.tools.norm path⟩ :: others)

/-- All words sorted by their distance to `targetVec` in the embedding space. -/
def wordsByDistance (targetVec : V) : List String :=
  (sortedBy bot.tools.lt (fun e => bot.tools.cosine e.2 targetVec) bot.embeddings.entries).map
    Prod.fst

/-- The ten words nearest to the middle of the path that share no stem with its ends. -/
def filtered (previousWord : String) (lastWordVec : V) (target : Target V D) : List String :=
  ((bot.wordsByDistance (bot.tools.add lastWordVec (bot.tools.half target.path))).take 10).filter
    (fun word => bot.tools.stem word ≠ bot.tools.stem target.word &&
      bot.tools.stem word ≠ bot.tools.stem previousWord)

/-- `play_turn(target_words, previous_word)`. -/
def playTurn (targetWords : List String) (previousWord : Option Json) :
    Except PyException String := do
  let previous ← bot.lookup previousWord
  let options ← bot.options previous.2 targetWords
  match sortedBy bot.tools.lt Target.distance options with
  | [] => .error .indexError
  | target :: _ =>
    if bot.tools.lt target.distance bot.targetDistThreshold then .ok target.word
    else
      match bot.filtered previous.1 previous.2 target with
      | [] => .error .indexError
      | word :: _ => .ok word

/-- `vote_on_other_turn(previous_word, submitted_word)`. -/
def voteOnOtherTurn (previousWord submittedWord : Option Json) : Except PyException Bool := do
  let lastWord ← bot.lookup previousWord
  let playedWord ← bot.lookup submittedWord
  let distance := bot.tools.norm (bot.tools.sub playedWord.2 lastWord.2)
  .ok (bot.tools.ge distance bot.challengeThreshold)

/-! ### When the bot answers -/

variable {bot}

/-- The word is a string in the dictionary. -/
def Knows (bot : PasswordBot V D) (word : Option Json) : Prop :=
  ∃ s, word = some (.str s) ∧ s ∈ bot.embeddings.keys

theorem lookup_ok {word : Option Json} {r : String × V} :
    bot.lookup word = .ok r ↔ word = some (.str r.1) ∧ bot.embeddings.get? r.1 = some r.2 := by
  obtain ⟨s, vec⟩ := r
  unfold lookup
  split
  · rename_i w
    cases hget : bot.embeddings.get? w with
    | none =>
      simp only [reduceCtorEq, Option.some.injEq, Json.str.injEq, false_iff, not_and]
      rintro rfl
      simp [hget]
    | some v =>
      simp only [Except.ok.injEq, Prod.mk.injEq, Option.some.injEq, Json.str.injEq]
      constructor
      · rintro ⟨rfl, rfl⟩
        exact ⟨rfl, hget⟩
      · rintro ⟨rfl, hvec⟩
        rw [hget] at hvec
        exact ⟨rfl, Option.some.inj hvec⟩
  · simp
  · simp
  · rename_i hstr _ _
    simp only [reduceCtorEq, false_iff, not_and]
    rintro rfl
    exact absurd rfl (hstr s)

/-- Only the words of the dictionary can be read. -/
theorem lookup_isOk {word : Option Json} : (∃ r, bot.lookup word = .ok r) ↔ bot.Knows word := by
  constructor
  · rintro ⟨r, hr⟩
    obtain ⟨hword, hvec⟩ := lookup_ok.mp hr
    exact ⟨r.1, hword, Dict.mem_keys_of_get? hvec⟩
  · rintro ⟨s, hword, hmem⟩
    obtain ⟨vec, hvec⟩ := Dict.mem_keys_iff.mp hmem
    exact ⟨(s, vec), lookup_ok.mpr ⟨hword, hvec⟩⟩

/-- **A vote is returned** exactly if both words are in the dictionary. -/
theorem voteOnOtherTurn_isOk {previousWord submittedWord : Option Json} :
    (∃ challenge, bot.voteOnOtherTurn previousWord submittedWord = .ok challenge) ↔
      bot.Knows previousWord ∧ bot.Knows submittedWord := by
  rw [← lookup_isOk, ← lookup_isOk]
  constructor
  · rintro ⟨challenge, h⟩
    obtain ⟨lastWord, hlast, h⟩ := bind_eq_ok.mp h
    obtain ⟨playedWord, hplayed, _⟩ := bind_eq_ok.mp h
    exact ⟨⟨lastWord, hlast⟩, ⟨playedWord, hplayed⟩⟩
  · rintro ⟨⟨lastWord, hlast⟩, ⟨playedWord, hplayed⟩⟩
    exact ⟨_, by rw [voteOnOtherTurn, hlast, ok_bind, hplayed, ok_bind]⟩

/-- The targets in the dictionary, with their distances. -/
def targets (bot : PasswordBot V D) (lastWordVec : V) (targetWords : List String) :
    List (Target V D) :=
  targetWords.filterMap (fun targetWord => (bot.embeddings.get? targetWord).map (fun vec =>
    let path := bot.tools.sub vec lastWordVec
    ⟨targetWord, path, bot.tools.norm path⟩))

/-- The target closest to the last word. -/
def closestTarget (bot : PasswordBot V D) (lastWordVec : V) (targetWords : List String) :
    Option (Target V D) :=
  (sortedBy bot.tools.lt Target.distance (bot.targets lastWordVec targetWords)).head?

theorem options_eq {lastWordVec : V} {targetWords : List String}
    (h : ∀ word ∈ targetWords, word ∈ bot.embeddings.keys) :
    bot.options lastWordVec targetWords = .ok (bot.targets lastWordVec targetWords) := by
  induction targetWords with
  | nil => rfl
  | cons targetWord rest ih =>
    obtain ⟨vec, hvec⟩ := Dict.mem_keys_iff.mp (h targetWord (by simp))
    have hlookup : bot.lookup (some (.str targetWord)) = .ok (targetWord, vec) :=
      lookup_ok.mpr ⟨rfl, hvec⟩
    rw [options, hlookup, ok_bind, ih (fun word hword => h word (by simp [hword])), ok_bind,
      targets, targets, List.filterMap_cons, hvec]
    rfl

theorem options_words {lastWordVec : V} {targetWords : List String} {options : List (Target V D)}
    (h : bot.options lastWordVec targetWords = .ok options) :
    ∀ target ∈ options, target.word ∈ bot.embeddings.keys := by
  induction targetWords generalizing options with
  | nil =>
    obtain rfl := (Except.ok.inj h).symm
    intro target hmem
    cases hmem
  | cons targetWord rest ih =>
    obtain ⟨target, htarget, h⟩ := bind_eq_ok.mp h
    obtain ⟨others, hothers, h⟩ := bind_eq_ok.mp h
    obtain rfl := (Except.ok.inj h).symm
    intro other hmem
    rcases List.mem_cons.mp hmem with rfl | hmem
    · obtain ⟨hword, hvec⟩ := lookup_ok.mp htarget
      have hword : targetWord = target.1 := by simpa using hword
      show targetWord ∈ bot.embeddings.keys
      rw [hword]
      exact Dict.mem_keys_of_get? hvec
    · exact ih hothers other hmem

theorem wordsByDistance_perm (targetVec : V) :
    (bot.wordsByDistance targetVec).Perm bot.embeddings.keys :=
  (sortedBy_perm _ _ _).map Prod.fst

/-- **The bot plays words of its dictionary.** -/
theorem playTurn_mem {targetWords : List String} {previousWord : Option Json} {word : String}
    (h : bot.playTurn targetWords previousWord = .ok word) : word ∈ bot.embeddings.keys := by
  obtain ⟨previous, _, h⟩ := bind_eq_ok.mp h
  obtain ⟨options, hoptions, h⟩ := bind_eq_ok.mp h
  split at h
  · cases h
  · rename_i target others hsorted
    have htarget : target ∈ options :=
      (sortedBy_perm bot.tools.lt Target.distance options).mem_iff.mp (by rw [hsorted]; simp)
    split at h
    · obtain rfl := Except.ok.inj h
      exact options_words hoptions target htarget
    · split at h
      · cases h
      · rename_i first others' hfiltered
        obtain rfl := Except.ok.inj h
        have hmem : first ∈ bot.filtered previous.1 previous.2 target := by
          rw [hfiltered]; simp
        have hnear := List.mem_of_mem_take (List.mem_filter.mp hmem).1
        exact (wordsByDistance_perm _).mem_iff.mp hnear

/-- The previous word is in the dictionary, and the closest target is near it or a word in the
    middle has another stem. -/
def Playable (bot : PasswordBot V D) (targetWords : List String) (previousWord : Option Json) :
    Prop :=
  ∃ previous vec target, previousWord = some (.str previous) ∧
    bot.embeddings.get? previous = some vec ∧
    bot.closestTarget vec targetWords = some target ∧
    (bot.tools.lt target.distance bot.targetDistThreshold = true ∨
      bot.filtered previous vec target ≠ [])

/-- **A word is returned** exactly if there is one to play; the targets are in the dictionary. -/
theorem playTurn_isOk {targetWords : List String} {previousWord : Option Json}
    (htargets : ∀ word ∈ targetWords, word ∈ bot.embeddings.keys) :
    (∃ word, bot.playTurn targetWords previousWord = .ok word) ↔
      bot.Playable targetWords previousWord := by
  cases hlookup : bot.lookup previousWord with
  | error e =>
    refine iff_of_false ?_ ?_
    · rintro ⟨word, h⟩
      rw [playTurn, hlookup] at h
      cases h
    · rintro ⟨previous, vec, _, hword, hvec, _⟩
      have hok : bot.lookup previousWord = .ok (previous, vec) := lookup_ok.mpr ⟨hword, hvec⟩
      rw [hlookup] at hok
      cases hok
  | ok previous =>
    obtain ⟨hword, hvec⟩ := lookup_ok.mp hlookup
    have hplayable : bot.Playable targetWords previousWord ↔
        ∃ target, bot.closestTarget previous.2 targetWords = some target ∧
          (bot.tools.lt target.distance bot.targetDistThreshold = true ∨
            bot.filtered previous.1 previous.2 target ≠ []) := by
      constructor
      · rintro ⟨s, vec, target, hs, hsvec, hclosest, hchoice⟩
        obtain rfl : s = previous.1 := by simpa [hword] using hs.symm
        obtain rfl : previous.2 = vec := Option.some.inj (hvec.symm.trans hsvec)
        exact ⟨target, hclosest, hchoice⟩
      · rintro ⟨target, hclosest, hchoice⟩
        exact ⟨previous.1, previous.2, target, hword, hvec, hclosest, hchoice⟩
    rw [hplayable]
    unfold playTurn closestTarget
    rw [hlookup, ok_bind, options_eq htargets, ok_bind]
    cases sortedBy bot.tools.lt Target.distance (bot.targets previous.2 targetWords) with
    | nil => simp
    | cons target others =>
      simp only [List.head?_cons, Option.some.injEq, exists_eq_left']
      by_cases hnear : bot.tools.lt target.distance bot.targetDistThreshold = true
      · simp [hnear]
      · cases bot.filtered previous.1 previous.2 target with
        | nil => simp [hnear]
        | cons word rest => simp [hnear]

end PasswordBot

end PasswordApp
