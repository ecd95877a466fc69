import PasswordApp.Game.Schedule

namespace PasswordApp

/-!
# Game — the words of a game

The start word, the banks and the pool share out the word list (`WordsShared`), whatever is
drawn and however often banks are exchanged.  Only two moves touch words:

* `Dealt.shared` — `initializeGame` deals the shuffled list;
* `WordsShared.rerolled` — `assignNewWords` exchanges a bank for words of the pool.

The sizes of the banks are a different matter: an exchange may find fewer words in the pool
than a bank holds (`banks_full_iff`).
-/

/-! ### Sharing the word list -/

/-- Every word of a started game: the start word, the banks, the pool. -/
def Lobby.gameWords (lobby : Lobby) : List String :=
  lobby.startWord.toList ++ (lobby.targetWords.values.flatten ++ lobby.availableWords)

/-- The words of the game are the word list, each at one place. -/
structure WordsShared (lobby : Lobby) : Prop where
  startWord : lobby.startWord ≠ none
  perm : lobby.gameWords.Perm wordList
  /-- The database keeps every bank. -/
  banks_ne_nil : ∀ uid bank, lobby.targetWords.get? uid = some bank → bank ≠ []

/-- No word changed its place. -/
structure SameWords (lobby lobby' : Lobby) : Prop where
  startWord : lobby'.startWord = lobby.startWord
  banks : lobby'.targetWords = lobby.targetWords
  pool : lobby'.availableWords = lobby.availableWords

theorem Advances.words {lobby lobby' : Lobby} {status : Status} (h : Advances lobby lobby' status) :
    SameWords lobby lobby' := by
  cases h with
  | gameOver => exact ⟨rfl, rfl, rfl⟩
  | nextTurn => exact ⟨rfl, rfl, rfl⟩

theorem WordPlayed.words {word : Json} {lobby next : Lobby} (h : WordPlayed word lobby next) :
    SameWords lobby next := by
  cases h with
  | awaitsVotes => exact ⟨rfl, rfl, rfl⟩
  | othersWord done t hturns otherId hother players hscored lobby' status hadvances =>
    have h := hadvances.words
    exact ⟨h.startWord, h.banks, h.pool⟩

theorem VotesCast.words {votes : Votes} {tallied : ℕ} {lobby next : Lobby}
    (h : VotesCast votes tallied lobby next) : SameWords lobby next := by
  cases h with
  | stillOpen => exact ⟨rfl, rfl, rfl⟩
  | tally hquorum done t hturns bank hbank hpayable players hscored lobby' status hadvances =>
    have h := hadvances.words
    exact ⟨h.startWord, h.banks, h.pool⟩

namespace WordsShared

variable {lobby lobby' : Lobby}

theorem congr (h : WordsShared lobby) (hsame : SameWords lobby lobby') : WordsShared lobby' where
  startWord := by rw [hsame.startWord]; exact h.startWord
  perm := by
    rw [Lobby.gameWords, hsame.startWord, hsame.banks, hsame.pool]
    exact h.perm
  banks_ne_nil := by rw [hsame.banks]; exact h.banks_ne_nil

theorem nodup (h : WordsShared lobby) : lobby.gameWords.Nodup :=
  h.perm.nodup_iff.mpr wordList_nodup

/-- A bank has no word twice and shares none with the pool. -/
theorem bank_disjoint_pool (h : WordsShared lobby) {uid : Uid} {bank : List String}
    (hbank : lobby.targetWords.get? uid = some bank) :
    bank.Nodup ∧ List.Disjoint bank lobby.availableWords := by
  -- split the bank off the words of the game; no word is left twice
  obtain ⟨rest, hvalues, _⟩ := Dict.values_set_perm hbank
  have hnd : (lobby.targetWords.values.flatten ++ lobby.availableWords).Nodup :=
    (List.nodup_append.mp h.nodup).2.1
  have hflat : (lobby.targetWords.values.flatten ++ lobby.availableWords).Perm
      (bank ++ (rest.flatten ++ lobby.availableWords)) := by
    rw [← List.append_assoc]
    exact hvalues.flatten.append_right _
  have hnd' := hflat.nodup_iff.mp hnd
  rw [List.nodup_append'] at hnd'
  obtain ⟨hbanknd, _, hdisj⟩ := hnd'
  exact ⟨hbanknd, fun w hw hpool => hdisj hw (List.mem_append_right _ hpool)⟩

/-- No word is in two banks. -/
theorem banks_disjoint (h : WordsShared lobby) {uid uid' : Uid} {bank bank' : List String}
    (hne : uid ≠ uid') (hbank : lobby.targetWords.get? uid = some bank)
    (hbank' : lobby.targetWords.get? uid' = some bank') : List.Disjoint bank bank' := by
  obtain ⟨rest, hvalues⟩ := Dict.values_pair hne hbank hbank'
  have hnd : lobby.targetWords.values.flatten.Nodup :=
    (List.nodup_append.mp (List.nodup_append.mp h.nodup).2.1).1
  have hnd' : (bank ++ (bank' ++ rest.flatten)).Nodup := hvalues.flatten.nodup_iff.mp hnd
  rw [List.nodup_append'] at hnd'
  intro w hw hw'
  exact hnd'.2.2 hw (List.mem_append_left _ hw')

/-- The start word is in no bank. -/
theorem startWord_not_mem (h : WordsShared lobby) {uid : Uid} {bank : List String} {w : String}
    (hstart : lobby.startWord = some w) (hbank : lobby.targetWords.get? uid = some bank) :
    w ∉ bank := by
  intro hw
  have hnd := h.nodup
  rw [Lobby.gameWords, hstart, Option.toList_some, List.singleton_append, List.nodup_cons] at hnd
  apply hnd.1
  refine List.mem_append_left _ (List.mem_flatten.mpr ⟨bank, ?_, hw⟩)
  exact Dict.mem_values_iff.mpr ⟨uid, hbank⟩

/-- **An exchange conserves words**: the fresh bank leaves the pool as the old one enters. -/
theorem rerolled (h : WordsShared lobby) {playerId : Uid}
    (hrolled : Rerolled playerId lobby lobby') :
    WordsShared lobby' := by
  obtain ⟨settings, hsettings, ditched, hbank, hpool, players, hcharged, pool, hperm⟩ := hrolled
  -- the banks are the exchanged one and `rest`, before and after
  obtain ⟨rest, hbefore, hafter⟩ := Dict.values_set_perm hbank
  refine ⟨h.startWord, List.Perm.trans (List.Perm.append_left _ ?_) h.perm, ?_⟩
  · show ((lobby.targetWords.set playerId
      (lobby.availableWords.take settings.wordBankSize)).values.flatten ++ pool).Perm
        (lobby.targetWords.values.flatten ++ lobby.availableWords)
    have hnew := (hafter (lobby.availableWords.take settings.wordBankSize)).flatten.append hperm
    have hold := hbefore.flatten.append_right lobby.availableWords
    refine hnew.trans (List.Perm.trans ?_ hold.symm)
    conv_rhs => rw [← List.take_append_drop settings.wordBankSize lobby.availableWords]
    -- the taken words and the ditched ones change sides
    rw [List.flatten_cons, List.flatten_cons, List.perm_iff_count]
    intro w
    simp only [List.count_append]
    omega
  · intro uid bank hget
    show bank ≠ []
    by_cases hu : uid = playerId
    · subst hu
      rw [Dict.get?_set_self] at hget
      obtain rfl := Option.some.inj hget
      -- a bank of at least one word, taken from a pool that is not empty
      have hsize := settings.wordBankSize_pos
      intro hnil
      rcases List.take_eq_nil_iff.mp hnil with hzero | hempty
      · omega
      · exact hpool hempty
    · rw [Dict.get?_set_ne _ _ hu] at hget
      exact h.banks_ne_nil uid bank hget

end WordsShared

/-- **Dealing shares out the word list**, in banks of the size asked for. -/
theorem Dealt.shared {settings : Settings} {lobby next : Lobby}
    (hdealt : Dealt settings lobby next) :
    WordsShared next ∧
      ∀ uid bank, next.targetWords.get? uid = some bank → bank.length = settings.wordBankSize := by
  obtain ⟨gameWords, random, hplayers, hwords, banks, hbanks, order, horder, firstPlayer, hfirst⟩ :=
    hdealt
  obtain ⟨_, hcount, hfull, _, startWord, hstart, hperm⟩ :=
    getGameWordsFrom_ok settings.wordBankSize_pos hwords
  -- every player got one of the dealt lists
  have hvalues : banks.values = gameWords.playerWordLists := by
    rw [Dict.values, hbanks, List.map_snd_zip (le_of_eq hcount)]
  have hbanksize : ∀ uid bank, banks.get? uid = some bank → bank.length
      = settings.wordBankSize := by
    intro uid bank hget
    exact hfull bank (hvalues ▸ Dict.mem_values_iff.mpr ⟨uid, hget⟩)
  refine ⟨⟨?_, ?_, ?_⟩, hbanksize⟩
  · show gameWords.startWord ≠ none
    rw [hstart]
    exact Option.some_ne_none startWord
  · show (gameWords.startWord.toList ++ (banks.values.flatten ++ gameWords.availableWords)).Perm
      wordList
    rw [hvalues, hstart]
    exact hperm
  · intro uid bank hget hnil
    have hsize := hbanksize uid bank hget
    have hpos := settings.wordBankSize_pos
    rw [hnil, List.length_nil] at hsize
    omega

/-! ### Words along a run -/

/-- **Step lemma.** -/
theorem WordsShared.step {lobbyId : LobbyId} {room room' : Room} {i : RoomInput}
    (h : WordsShared room.lobby) (hstarted : room.lobby.status ≠ .lobby)
    (hstep : RoomStep lobbyId room i room') : WordsShared room'.lobby := by
  have hstamp : ∀ now, WordsShared (room.lobby.stamp now) := fun _ => h.congr ⟨rfl, rfl, rfl⟩
  refine hstep.move_induction hstarted ?_ ?_ ?_ (fun _ hnext => hnext.congr ⟨rfl, rfl, rfl⟩)
    (fun _ hnext => hnext.congr ⟨rfl, rfl, rfl⟩) (fun _ hnext => hnext.congr ⟨rfl, rfl, rfl⟩) h
  · exact fun now word next hplayed => (hstamp now).congr hplayed.words
  · exact fun now votes tallied next hcast => (hstamp now).congr hcast.words
  · exact fun now playerId next hrolled => (hstamp now).rerolled hrolled

/-- **The words of every started game are shared out.** -/
theorem wordsShared_of_reachable {lobbyId : LobbyId} {G : Room → RoomInput → Prop} {room : Room}
    (h : Room.Reachable lobbyId G room) (hstarted : room.lobby.status ≠ .lobby) :
    WordsShared room.lobby := by
  have hphase : Phase (fun _ room => WordsShared room.lobby) room := by
    refine h.phase ?_ ?_
    · intro room now settings next _ hdealt
      exact hdealt.shared.1.congr ⟨rfl, rfl, rfl⟩
    · intro settings room i room' hs hwords _ hstep
      exact hwords.step hs.started hstep
  obtain ⟨settings, _, hwords⟩ := hphase.game hstarted
  exact hwords

/-- **Word conservation.**  In every started lobby the start word, the banks of the players
    and the pool are a permutation of the word list; no word is in two banks and the start
    word in none; an exchange of words gives a bank disjoint from the old one. -/
theorem word_conservation {lobbyId : LobbyId} {room : Room}
    (h : Room.Reachable lobbyId anyInput room) (hstarted : room.lobby.status ≠ .lobby) :
    ∃ startWord, room.lobby.startWord = some startWord ∧
      room.lobby.targetWords.keys = room.lobby.players.keys ∧
      (startWord :: (room.lobby.targetWords.values.flatten ++ room.lobby.availableWords)).Perm
        wordList ∧
      (∀ uid bank, room.lobby.targetWords.get? uid = some bank →
        startWord ∉ bank ∧ ∀ uid' bank', uid ≠ uid' →
          room.lobby.targetWords.get? uid' = some bank' → List.Disjoint bank bank') ∧
      (∀ now playerId random lobby',
        updateLobby lobbyId (requestNewWords lobbyId playerId random) now (some room.lobby)
          = .ok lobby' →
        ∃ ditchedWords freshWords, room.lobby.targetWords.get? playerId = some ditchedWords ∧
          lobby'.targetWords.get? playerId = some freshWords ∧
          List.Disjoint ditchedWords freshWords) := by
  obtain ⟨settings, hs⟩ := scheduled_of_reachable h hstarted
  have hwords := wordsShared_of_reachable h hstarted
  obtain ⟨startWord, hstart⟩ := Option.ne_none_iff_exists'.mp hwords.startWord
  have hperm := hwords.perm
  rw [Lobby.gameWords, hstart] at hperm
  refine ⟨startWord, hstart, hs.banks_keys, hperm, ?_, ?_⟩
  · intro uid bank hbank
    exact ⟨hwords.startWord_not_mem hstart hbank,
      fun uid' bank' hne hbank' => hwords.banks_disjoint hne hbank hbank'⟩
  · intro now playerId random lobby' hok
    have hcall : updateLobby lobbyId ((Call.requestNewWords playerId random).transaction lobbyId)
        now (some room.lobby) = .ok lobby' := hok
    obtain ⟨_, next, hrolled, rfl⟩ := call_ok hcall
    obtain ⟨settings', hsettings, ditched, hbank, hpool, players, hcharged, pool, hpool'⟩ := hrolled
    have hbank : room.lobby.targetWords.get? playerId = some ditched := hbank
    refine ⟨ditched, _, hbank, Dict.get?_set_self _ _ _, ?_⟩
    intro w hditched hfresh
    exact (hwords.bank_disjoint_pool hbank).2 hditched (List.mem_of_mem_take hfresh)

theorem word_conservation_sample :
    ∃ startWord, (sampleRoom (sampleStart ["ben"] 1 defaultSettings ++
        [.call 0 (.requestNewWords "ben" zeroDraws)])).lobby.startWord = some startWord := by
  obtain ⟨startWord, hstart, _⟩ :=
    word_conservation (sampleRoom_reachable (admissible_anyInput _
      (sampleStart ["ben"] 1 defaultSettings ++ [.call 0 (.requestNewWords "ben" zeroDraws)])))
      (by decide +kernel)
  exact ⟨startWord, hstart⟩

/-- The word a game starts with stays. -/
theorem startWord_of_reaches {lobbyId : LobbyId} {settings : Settings} {room room' : Room}
    (hs : Scheduled settings room.lobby) (h : (roomMachine lobbyId).Reaches anyInput room room') :
    room'.lobby.startWord = room.lobby.startWord := by
  refine (Machine.Reaches.invariant (I := fun later => Scheduled settings later.lobby ∧
    later.lobby.startWord = room.lobby.startWord) ?_ ⟨hs, rfl⟩ h).2
  rintro later i ⟨hs', hsame⟩ _
  refine ⟨hs'.step i, ?_⟩
  refine (Room.step_cases lobbyId later i).move_induction
    (P := fun lobby => lobby.startWord = room.lobby.startWord) hs'.started ?_ ?_ ?_ ?_ ?_ ?_ hsame
  · intro now word next hplayed
    exact hplayed.words.startWord.trans hsame
  · intro now votes tallied next hcast
    exact hcast.words.startWord.trans hsame
  · rintro now playerId next ⟨⟩
    exact hsame
  · exact fun next h => h
  · exact fun next h => h
  · exact fun next h => h

end PasswordApp
