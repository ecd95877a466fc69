import PasswordApp.Backend.Room
import PasswordApp.Game.Scoring

namespace PasswordApp

/-!
# Game — what each transaction can do

The inversion lemmas of the lobby transactions.  A commit is one of few moves; every
invariant of the game is proved by cases on them and never by unfolding the functions.

* `Advances` — `startNextTurnOrEndGame`: the game is over, or the next turn is pushed;
* `WordPlayed` — a word, by a human or a bot, either awaits votes or is another's word;
* `VotesCast` — a new ballot box is either kept open or tallied;
* `Rerolled`, `Dealt` — `assignNewWords` and `initializeGame`;
* `CallEffect`, `TriggerEffect` — the moves of the callables and of the bot triggers.

The move relations speak about the value before it is stored.
-/

/-! ### The current turn -/

theorem currTurn_eq_ok {lobby : Lobby} {t : Turn} :
    lobby.currTurn = .ok t ↔ ∃ done, lobby.turns = done ++ [t] := by
  rw [Lobby.currTurn, orThrow_eq_ok]
  constructor
  · intro h
    exact ⟨lobby.turns.dropLast, (List.dropLast_append_getLast? t h).symm⟩
  · rintro ⟨done, h⟩
    rw [h, List.getLast?_concat]

theorem setCurrTurn_of_turns {lobby : Lobby} {done : List Turn} {t : Turn}
    (h : lobby.turns = done ++ [t]) (t' : Turn) :
    lobby.setCurrTurn t' = { lobby with turns := done ++ [t'] } := by
  rw [Lobby.setCurrTurn, h, List.dropLast_concat]

/-! ### Advancing -/

/-- The lobby after the next turn was pushed. -/
def Lobby.pushTurn (lobby : Lobby) (nextPlayer : Uid) : Lobby :=
  { lobby with
    awaitingBotTurn := lobby.awaitingBotTurn || isBot nextPlayer
    turns := lobby.turns ++ [{ player := nextPlayer, created := lobby.transactionTime }] }

/-- `startNextTurnOrEndGame`. -/
inductive Advances (lobby : Lobby) : Lobby → Status → Prop
  | gameOver (settings : Settings) (hsettings : lobby.settings = some settings)
      (hlen : lobby.turns.length = settings.numRounds * lobby.playerOrder.length) :
      Advances lobby lobby .done
  | nextTurn (settings : Settings) (nextPlayer : Uid) (hsettings : lobby.settings = some settings)
      (hlen : lobby.turns.length ≠ settings.numRounds * lobby.playerOrder.length)
      (hnext : lobby.playerOrder[lobby.turns.length % lobby.playerOrder.length]?
        = some nextPlayer) :
      Advances lobby (lobby.pushTurn nextPlayer) .submission

theorem startNextTurnOrEndGame_ok {lobby : Lobby} {r : Lobby × Status}
    (h : startNextTurnOrEndGame lobby = .ok r) : Advances lobby r.1 r.2 := by
  unfold startNextTurnOrEndGame at h
  obtain ⟨settings, hsettings, h⟩ := bind_eq_ok.mp h
  rw [orThrow_eq_ok] at hsettings
  split at h
  · rename_i hlen
    obtain rfl := (Except.ok.inj h).symm
    exact .gameOver settings hsettings hlen
  · rename_i hlen
    obtain ⟨nextPlayer, hnext, h⟩ := bind_eq_ok.mp h
    rw [orThrow_eq_ok] at hnext
    obtain rfl := (Except.ok.inj h).symm
    exact .nextTurn settings nextPlayer hsettings hlen hnext

theorem startNextTurnOrEndGame_isOk {lobby : Lobby} {settings : Settings}
    (hsettings : lobby.settings = some settings) (horder : lobby.playerOrder ≠ []) :
    ∃ r, startNextTurnOrEndGame lobby = .ok r := by
  unfold startNextTurnOrEndGame
  rw [hsettings, orThrow_some, ok_bind]
  split
  · exact ⟨_, rfl⟩
  · have hlt : lobby.turns.length % lobby.playerOrder.length < lobby.playerOrder.length :=
      Nat.mod_lt _ (List.length_pos_of_ne_nil horder)
    rw [List.getElem?_eq_getElem hlt]
    exact ⟨_, rfl⟩

/-! ### Words -/

/-- The current turn with a submitted word. -/
def Turn.submit (t : Turn) (word : Json) : Turn := { t with submittedWord := some word }

/-- The current turn with the submitted word found in the bank of `otherId`. -/
def Turn.stolen (t : Turn) (otherId : Uid) : Turn :=
  { t with wasOthersWord := true, otherId := some otherId }

/-- `word` becomes the submitted word of the current turn and is handled. -/
inductive WordPlayed (word : Json) (lobby : Lobby) : Lobby → Prop
  | awaitsVotes (done : List Turn) (t : Turn) (hturns : lobby.turns = done ++ [t])
      (hnone : findOther lobby t.player (some word) = none) :
      WordPlayed word lobby
        { lobby with
          turns := done ++ [t.submit word]
          votesTallied := some 0
          awaitingBotVotes := votingBots lobby t.player
          status := .voting }
  | othersWord (done : List Turn) (t : Turn) (hturns : lobby.turns = done ++ [t])
      (otherId : Uid) (hother : findOther lobby t.player (some word) = some otherId)
      (players : Dict Uid Player)
      (hscored : Scored ((t.submit word).stolen otherId) lobby.players players)
      (lobby' : Lobby) (status : Status)
      (hadvances : Advances
        { lobby with
          turns := done ++ [(t.submit word).stolen otherId]
          votesTallied := some 0
          players := players } lobby' status) :
      WordPlayed word lobby { lobby' with status := status }

theorem handleWordSubmission_ok {lobby : Lobby} {done : List Turn} {t : Turn}
    (hturns : lobby.turns = done ++ [t]) {r : Lobby × Status}
    (h : handleWordSubmission lobby = .ok r) :
    (findOther lobby t.player t.submittedWord = none ∧
      r = ({ lobby with awaitingBotVotes := votingBots lobby t.player }, .voting)) ∨
    ∃ otherId players, findOther lobby t.player t.submittedWord = some otherId ∧
      Scored (t.stolen otherId) lobby.players players ∧
      Advances { lobby with turns := done ++ [t.stolen otherId], players := players } r.1 r.2 := by
  unfold handleWordSubmission at h
  rw [currTurn_eq_ok.mpr ⟨done, hturns⟩, ok_bind] at h
  -- the word is in nobody else's bank, or its first owner is paid at once
  cases hfind : findOther lobby t.player t.submittedWord with
  | none =>
    rw [hfind] at h
    exact Or.inl ⟨rfl, (Except.ok.inj h).symm⟩
  | some otherId =>
    rw [hfind] at h
    simp only [setCurrTurn_of_turns hturns] at h
    obtain ⟨scored, hscore, h⟩ := bind_eq_ok.mp h
    obtain ⟨_, players, hscored, rfl⟩ := scoreTurn_ok (currTurn_eq_ok.mpr ⟨done, rfl⟩) hscore
    exact Or.inr ⟨otherId, players, rfl, hscored, startNextTurnOrEndGame_ok h⟩

theorem playWord_ok {lobby : Lobby} {word : Json} {r : Lobby × Status}
    (h : playWord lobby word = .ok r) : WordPlayed word lobby (setStatus r) := by
  unfold playWord at h
  obtain ⟨t, hcurr, h⟩ := bind_eq_ok.mp h
  obtain ⟨done, hturns⟩ := currTurn_eq_ok.mp hcurr
  rw [setCurrTurn_of_turns hturns] at h
  rcases handleWordSubmission_ok (t := t.submit word) rfl h with
    ⟨hnone, rfl⟩ | ⟨otherId, players, hother, hscored, hadvances⟩
  · exact .awaitsVotes done t hturns hnone
  · exact .othersWord done t hturns otherId hother players hscored r.1 r.2 hadvances

/-! ### Votes -/

/-- The current turn with its tally. -/
def Turn.tally (t : Turn) (votes : Votes) (bank : List String) : Turn :=
  { t with votes := votes, wasSubmittersWord := some (includes bank t.submittedWord) }

/-- The ballots become `votes` with the public counter at `tallied`, and are handled. -/
inductive VotesCast (votes : Votes) (tallied : ℕ) (lobby : Lobby) : Lobby → Prop
  | stillOpen (hopen : votes.size + 1 ≠ lobby.playerOrder.length) :
      VotesCast votes tallied lobby
        { lobby with votes := votes, votesTallied := some tallied, status := .voting }
  | tally (hquorum : votes.size + 1 = lobby.playerOrder.length)
      (done : List Turn) (t : Turn) (hturns : lobby.turns = done ++ [t])
      (bank : List String) (hbank : lobby.targetWords.get? t.player = some bank)
      (hpayable : (t.tally votes bank).Payable lobby.players)
      (players : Dict Uid Player)
      (hscored : Scored (t.tally votes bank) lobby.players players)
      (lobby' : Lobby) (status : Status)
      (hadvances : Advances
        { lobby with
          turns := done ++ [t.tally votes bank]
          votesTallied := some tallied
          players := players
          votes := ∅ } lobby' status) :
      VotesCast votes tallied lobby { lobby' with status := status }

/-- Votes are counted only where there is a counter. -/
theorem castVotes_eq_ok {lobby : Lobby} {votes : Votes} {n : ℕ} {r : Lobby × Status} :
    castVotes lobby votes n = .ok r ↔ ∃ k, lobby.votesTallied = some k ∧
      handleVote { lobby with votes := votes, votesTallied := some (k + n) } = .ok r := by
  cases hcount : lobby.votesTallied with
  | none => simp [castVotes, bind_eq_ok, hcount]
  | some k => simp [castVotes, bind_eq_ok, hcount]

theorem castVotes_ok {lobby : Lobby} {votes : Votes} {n : ℕ} {r : Lobby × Status}
    (h : castVotes lobby votes n = .ok r) :
    ∃ k, lobby.votesTallied = some k ∧ VotesCast votes (k + n) lobby (setStatus r) := by
  obtain ⟨k, hk, h⟩ := castVotes_eq_ok.mp h
  refine ⟨k, hk, ?_⟩
  unfold handleVote at h
  simp only [] at h
  split at h
  · rename_i hquorum
    obtain ⟨t, hcurr, h⟩ := bind_eq_ok.mp h
    obtain ⟨done, hturns⟩ := currTurn_eq_ok.mp hcurr
    obtain ⟨bank, hbank, h⟩ := bind_eq_ok.mp h
    rw [orThrow_eq_ok] at hbank
    rw [setCurrTurn_of_turns hturns] at h
    -- the turn is scored on the record of the ballots, which are cleared afterwards
    obtain ⟨scored, hscore, h⟩ := bind_eq_ok.mp h
    obtain ⟨hpayable, players, hscored, rfl⟩ :=
      scoreTurn_ok (currTurn_eq_ok.mpr ⟨done, rfl⟩) hscore
    exact .tally hquorum done t hturns bank hbank hpayable players hscored r.1 r.2
      (startNextTurnOrEndGame_ok h)
  · rename_i hopen
    obtain rfl := (Except.ok.inj h).symm
    exact .stillOpen hopen

/-! ### Word banks -/

/-- `assignNewWords`. -/
inductive Rerolled (playerId : Uid) (lobby : Lobby) : Lobby → Prop
  | intro (settings : Settings) (hsettings : lobby.settings = some settings)
      (ditchedWords : List String) (hbank : lobby.targetWords.get? playerId = some ditchedWords)
      (hpool : lobby.availableWords ≠ [])
      (players : Dict Uid Player) (hcharged : addScore lobby.players playerId (-1) = .ok players)
      (pool : List String)
      (hperm : pool.Perm (lobby.availableWords.drop settings.wordBankSize ++ ditchedWords)) :
      Rerolled playerId lobby
        { lobby with
          targetWords := lobby.targetWords.set playerId
            (lobby.availableWords.take settings.wordBankSize)
          availableWords := pool
          players := players }

theorem assignNewWords_ok {lobby lobby' : Lobby} {playerId : Uid} {random : ℕ → Draw}
    (h : assignNewWords lobby playerId random = .ok lobby') : Rerolled playerId lobby lobby' := by
  unfold assignNewWords at h
  obtain ⟨settings, hsettings, h⟩ := bind_eq_ok.mp h
  obtain ⟨ditchedWords, hbank, h⟩ := bind_eq_ok.mp h
  rw [orThrow_eq_ok] at hsettings hbank
  split at h
  · cases h
  · rename_i hpool
    obtain ⟨players, hcharged, h⟩ := bind_eq_ok.mp h
    obtain rfl := (Except.ok.inj h).symm
    exact .intro settings hsettings ditchedWords hbank hpool players hcharged _
      (shuffleArray_perm _ random)

theorem dealWords_ok {ids : List Uid} {lists : List (List String)}
    {banks banks' : Dict Uid (List String)} (hnd : ids.Nodup)
    (hfresh : ∀ uid ∈ ids, uid ∉ banks.keys)
    (hlen : lists.length = ids.length) (h : dealWords ids lists banks = .ok banks') :
    banks'.entries = banks.entries ++ ids.zip lists := by
  induction ids generalizing lists banks with
  | nil =>
    obtain rfl := (Except.ok.inj h).symm
    simp
  | cons uid ids ih =>
    cases lists with
    | nil => cases h
    | cons words lists =>
      rw [List.nodup_cons] at hnd
      have hentries : (banks.set uid words).entries = banks.entries ++ [(uid, words)] :=
        Dict.entries_set_of_not_mem words (hfresh uid (by simp))
      -- the ids differ, so none of the others has a bank yet
      have hrest : ∀ u ∈ ids, u ∉ (banks.set uid words).keys := by
        intro u hu hmem
        rcases Dict.mem_keys_set.mp hmem with rfl | hmem
        · exact hnd.1 hu
        · exact hfresh u (by simp [hu]) hmem
      rw [ih hnd.2 hrest (by simpa using hlen) h, hentries, List.append_assoc]
      rfl

/-- `initializeGame`, with the settings written just before. -/
inductive Dealt (settings : Settings) (lobby : Lobby) : Lobby → Prop
  | intro (gameWords : GameWords) (random : ℕ → Draw)
      (hplayers : lobby.players.keys ≠ [])
      (hwords : getGameWords lobby.players.keys.length settings.wordBankSize random = .ok gameWords)
      (banks : Dict Uid (List String))
      (hbanks : banks.entries = lobby.players.keys.zip gameWords.playerWordLists)
      (order : List Uid) (horder : order.Perm lobby.players.keys)
      (firstPlayer : Uid) (hfirst : order[0]? = some firstPlayer) :
      Dealt settings lobby
        { Lobby.pushTurn { lobby with
            settings := some settings
            playerOrder := order
            turns := []
            startWord := gameWords.startWord
            targetWords := banks
            availableWords := gameWords.availableWords } firstPlayer with
          status := .submission }

theorem initializeGame_ok {lobby : Lobby} {settings : Settings} {random : GameDraws}
    {r : Lobby × Status}
    (h : initializeGame { lobby with settings := some settings } random = .ok r) :
    Dealt settings lobby { r.1 with status := r.2 } := by
  unfold initializeGame at h
  simp only [] at h
  split at h
  · cases h
  · rename_i hplayers
    rw [orThrow_some, ok_bind] at h
    obtain ⟨gameWords, hwords, h⟩ := bind_eq_ok.mp h
    obtain ⟨banks, hdeal, h⟩ := bind_eq_ok.mp h
    have hcount := (getGameWordsFrom_ok settings.wordBankSize_pos hwords).2.1
    have hbanks := dealWords_ok lobby.players.keys_nodup (by simp) hcount hdeal
    have horder := shuffleArray_perm lobby.players.keys random.order
    -- `Object.keys` did not throw, so there is somebody to take the first turn
    have hpos : 0 < (shuffleArray lobby.players.keys random.order).length := by
      rw [horder.length_eq]
      exact List.length_pos_of_ne_nil hplayers
    have hadvances := startNextTurnOrEndGame_ok h
    obtain ⟨lobby', status⟩ := r
    cases hadvances with
    | gameOver settings' hsettings hfull =>
      -- there is at least one round and one player, so the first turn is always due
      obtain rfl : settings = settings' := Option.some.inj hsettings
      have hturns := Nat.mul_pos settings.numRounds_pos hpos
      have hempty : 0 = settings.numRounds
        * (shuffleArray lobby.players.keys random.order).length := hfull
      omega
    | nextTurn settings' firstPlayer hsettings hopen hnext =>
      have hfirst : (shuffleArray lobby.players.keys random.order)[0]? = some firstPlayer := by
        simpa using hnext
      exact .intro gameWords random.words hplayers hwords banks hbanks _ horder firstPlayer hfirst

/-! ### The moves of the callables and the triggers -/

/-- The value the update function starts from. -/
def Lobby.stamp (lobby : Lobby) (now : ℕ) : Lobby := { lobby with transactionTime := some now }

/-- The player whose turn it is. -/
def Lobby.OnTurn (lobby : Lobby) (uid : Uid) : Prop :=
  ∃ done t, lobby.turns = done ++ [t] ∧ t.player = uid

/-- The player a join writes. -/
def PlayerInfo.seat (player : PlayerInfo) : Player where
  displayName := player.displayName
  colorNumber := player.colorNumber
  emojiNumber := player.emojiNumber
  score := 0

/-- What a committed callable did to the stored lobby. -/
def CallEffect (now : ℕ) (lobby : Lobby) : Call → Lobby → Prop
  | .addPlayerToLobby player playerId, lobby' =>
    lobby.status = .lobby ∧
    lobby' = Lobby.stored { lobby.stamp now with players := lobby.players.set playerId player.seat }
  | .addBot requesterId, lobby' =>
    lobby.hostId = requesterId ∧ lobby.status = .lobby ∧ lobby.players.keys ≠ [] ∧
    lobby' = Lobby.stored { lobby.stamp now with
      players := lobby.players.set ("bot" ++ toString (numExistingBots lobby + 1))
        (botPlayer (numExistingBots lobby)) }
  | .startGame playerId gameSettings _, lobby' =>
    lobby.hostId = playerId ∧ lobby.status = .lobby ∧
    ∃ next, Dealt gameSettings (lobby.stamp now) next ∧ lobby' = next.stored
  | .submitWord playerId word, lobby' =>
    lobby.status = .submission ∧ lobby.OnTurn playerId ∧
    ∃ next, WordPlayed word (lobby.stamp now) next ∧ lobby' = next.stored
  | .requestNewWords playerId _, lobby' =>
    (lobby.status = .submission ∨ lobby.status = .voting ∧ ¬ lobby.OnTurn playerId) ∧
    ∃ next, Rerolled playerId (lobby.stamp now) next ∧ lobby' = next.stored
  | .voteOnWord playerId vote, lobby' =>
    lobby.status = .voting ∧ ¬ lobby.OnTurn playerId ∧
    truthy? (lobby.votes.get? playerId) = false ∧
    ∃ k next, lobby.votesTallied = some k ∧
      VotesCast (lobby.votes.set playerId vote) (k + 1) (lobby.stamp now) next ∧
      lobby' = next.stored

/-- What a committed bot trigger did to the stored lobby. -/
def TriggerEffect (now : ℕ) (answer : BotAnswer) (lobby : Lobby) : BotTrigger → Lobby → Prop
  | .watchForBotVotes _ votingBotIds, lobby' =>
    ∃ k next, lobby.votesTallied = some k ∧
      VotesCast (castBotVotes lobby.votes votingBotIds answer.challenge answer.random)
        (k + votingBotIds.length) (lobby.stamp now) next ∧
      lobby' = Lobby.stored { next with awaitingBotVotes := [] }
  | .watchForBotTurns _, lobby' =>
    ∃ next, WordPlayed (.str answer.word) (lobby.stamp now) next ∧
      lobby' = Lobby.stored { next with awaitingBotTurn := false }

/-- A committed `updateLobby` passed validation and stored the update's result. -/
theorem updateLobby_ok {lobbyId : LobbyId} {t : LobbyTransaction} {now : ℕ} {lobby lobby' : Lobby}
    (h : updateLobby lobbyId t now (some lobby) = .ok lobby') :
    t.validateLobbyFn lobby = .ok none ∧
    ∃ next, t.updateLobbyFn (lobby.stamp now) = .ok next ∧ lobby' = next.stored := by
  unfold updateLobby at h
  simp only [] at h
  split at h
  · cases h
  · cases h
  · rename_i hvalid
    split at h
    · cases h
    · rename_i next hupdate
      exact ⟨hvalid, next, hupdate, (Except.ok.inj h).symm⟩

theorem updateLobby_commits (lobbyId : LobbyId) {t : LobbyTransaction} {now : ℕ}
    {lobby next : Lobby}
    (hvalid : t.validateLobbyFn lobby = .ok none)
    (hupdate : t.updateLobbyFn (lobby.stamp now) = .ok next) :
    updateLobby lobbyId t now (some lobby) = .ok next.stored := by
  unfold updateLobby Lobby.stamp at *
  simp only [hvalid, hupdate]

theorem updateLobby_refuses (lobbyId : LobbyId) {t : LobbyTransaction} {now : ℕ} {lobby : Lobby}
    {error : HttpsError} (hvalid : t.validateLobbyFn lobby = .ok (some error)) :
    updateLobby lobbyId t now (some lobby) = .error (.https error) := by
  unfold updateLobby
  simp only [hvalid]

theorem updateLobby_throws (lobbyId : LobbyId) {t : LobbyTransaction} {now : ℕ} {lobby : Lobby}
    {e : JsException} (hvalid : t.validateLobbyFn lobby = .ok none)
    (hupdate : t.updateLobbyFn (lobby.stamp now) = .error e) :
    updateLobby lobbyId t now (some lobby) = .error (.exception e) := by
  unfold updateLobby Lobby.stamp at *
  simp only [hvalid, hupdate]

theorem not_onTurn_of_turns {lobby : Lobby} {done : List Turn} {t : Turn} {uid : Uid}
    (hturns : lobby.turns = done ++ [t]) (hne : t.player ≠ uid) : ¬ lobby.OnTurn uid := by
  rintro ⟨done', t', hturns', rfl⟩
  rw [hturns] at hturns'
  exact hne (by rw [(List.append_inj' hturns' rfl).2 |> List.singleton_inj.mp])

/-- **Inversion of the callables.** -/
theorem call_ok {lobbyId : LobbyId} {c : Call} {now : ℕ} {lobby lobby' : Lobby}
    (h : updateLobby lobbyId (c.transaction lobbyId) now (some lobby) = .ok lobby') :
    CallEffect now lobby c lobby' := by
  obtain ⟨hvalid, next, hupdate, rfl⟩ := updateLobby_ok h
  cases c with
  | addPlayerToLobby player playerId =>
    simp only [Call.transaction, addPlayerToLobby, ite_not] at hvalid hupdate
    split at hvalid
    · rename_i hstatus
      obtain ⟨_, _, hupdate⟩ := bind_eq_ok.mp hupdate
      exact ⟨hstatus, by rw [← Except.ok.inj hupdate]; rfl⟩
    · cases hvalid
  | addBot requesterId =>
    simp only [Call.transaction, addBot, ite_not] at hvalid hupdate
    split at hvalid
    · rename_i hhost
      split at hvalid
      · rename_i hstatus
        split at hupdate
        · cases hupdate
        · rename_i hplayers
          exact ⟨hhost, hstatus, hplayers, by rw [← Except.ok.inj hupdate]; rfl⟩
      · cases hvalid
    · cases hvalid
  | startGame playerId gameSettings random =>
    simp only [Call.transaction, startGame, ite_not] at hvalid hupdate
    split at hvalid
    · rename_i hhost
      split at hvalid
      · rename_i hstatus
        obtain ⟨r, hr, hupdate⟩ := bind_eq_ok.mp hupdate
        obtain ⟨_, _, hupdate⟩ := bind_eq_ok.mp hupdate
        obtain rfl := Except.ok.inj hupdate
        exact ⟨hhost, hstatus, _, initializeGame_ok hr, rfl⟩
      · cases hvalid
    · cases hvalid
  | submitWord playerId word =>
    simp only [Call.transaction, submitWord, ite_not] at hvalid hupdate
    split at hvalid
    · rename_i hstatus
      obtain ⟨t, hcurr, hvalid⟩ := bind_eq_ok.mp hvalid
      obtain ⟨done, hturns⟩ := currTurn_eq_ok.mp hcurr
      split at hvalid
      · rename_i hplayer
        obtain ⟨r, hr, hupdate⟩ := bind_eq_ok.mp hupdate
        obtain ⟨_, _, hupdate⟩ := bind_eq_ok.mp hupdate
        obtain rfl := Except.ok.inj hupdate
        exact ⟨hstatus, ⟨done, t, hturns, hplayer⟩, setStatus r, playWord_ok hr, rfl⟩
      · obtain ⟨_, _, hvalid⟩ := bind_eq_ok.mp hvalid
        cases hvalid
    · cases hvalid
  | requestNewWords playerId random =>
    simp only [Call.transaction, requestNewWords, ite_not] at hvalid hupdate
    refine ⟨?_, next, assignNewWords_ok hupdate, rfl⟩
    split at hvalid
    · rename_i hstatus
      obtain ⟨t, hcurr, hvalid⟩ := bind_eq_ok.mp hvalid
      obtain ⟨done, hturns⟩ := currTurn_eq_ok.mp hcurr
      split at hvalid
      · cases hvalid
      · rename_i hplayer
        exact Or.inr ⟨hstatus, not_onTurn_of_turns hturns hplayer⟩
    · split at hvalid
      · rename_i hstatus
        exact Or.inl hstatus
      · cases hvalid
  | voteOnWord playerId vote =>
    simp only [Call.transaction, voteOnWord, ite_not] at hvalid hupdate
    split at hvalid
    · rename_i hstatus
      obtain ⟨t, hcurr, hvalid⟩ := bind_eq_ok.mp hvalid
      obtain ⟨done, hturns⟩ := currTurn_eq_ok.mp hcurr
      split at hvalid
      · cases hvalid
      · rename_i hplayer
        split at hvalid
        · cases hvalid
        · rename_i hfresh
          obtain ⟨r, hr, hupdate⟩ := bind_eq_ok.mp hupdate
          obtain ⟨_, _, hupdate⟩ := bind_eq_ok.mp hupdate
          obtain rfl := Except.ok.inj hupdate
          obtain ⟨k, hk, hcast⟩ := castVotes_ok hr
          exact ⟨hstatus, not_onTurn_of_turns hturns hplayer, by simpa using hfresh,
            k, setStatus r, hk, hcast, rfl⟩
    · cases hvalid

/-- **Inversion of the bot triggers.** -/
theorem trigger_ok {lobbyId : LobbyId} {trigger : BotTrigger} {answer : BotAnswer} {now : ℕ}
    {lobby lobby' : Lobby}
    (h : updateLobby lobbyId (trigger.transaction answer) now (some lobby) = .ok lobby') :
    TriggerEffect now answer lobby trigger lobby' := by
  obtain ⟨_, next, hupdate, rfl⟩ := updateLobby_ok h
  cases trigger with
  | watchForBotVotes turn votingBotIds =>
    obtain ⟨r, hr, hupdate⟩ := bind_eq_ok.mp hupdate
    obtain rfl := Except.ok.inj hupdate
    obtain ⟨k, hk, hcast⟩ := castVotes_ok hr
    exact ⟨k, setStatus r, hk, hcast, rfl⟩
  | watchForBotTurns turn =>
    obtain ⟨r, hr, hupdate⟩ := bind_eq_ok.mp hupdate
    obtain rfl := Except.ok.inj hupdate
    exact ⟨setStatus r, playWord_ok hr, rfl⟩

/-! ### The moves of a room -/

/-- The room after a commit. -/
def Room.store (room : Room) (lobby : Lobby) : Room :=
  { room with lobby := lobby, pending := room.pending ++ firedTriggers room.lobby lobby }

/-- If the input is a call, it is rejected. -/
def RoomInput.Rejected (i : RoomInput) (lobbyId : LobbyId) (room : Room) : Prop :=
  ∀ now c lobby, i = .call now c →
    updateLobby lobbyId (c.transaction lobbyId) now (some room.lobby) ≠ .ok lobby

/-- What an input does to a room. -/
inductive RoomStep (lobbyId : LobbyId) (room : Room) : RoomInput → Room → Prop
  | rejected (i : RoomInput) (hrejected : i.Rejected lobbyId room) : RoomStep lobbyId room i room
  | called (now : ℕ) (c : Call) (lobby : Lobby)
      (hok : updateLobby lobbyId (c.transaction lobbyId) now (some room.lobby) = .ok lobby)
      (heffect : CallEffect now room.lobby c lobby) :
      RoomStep lobbyId room (.call now c) (room.store lobby)
  | failed (now i : ℕ) (answer : BotAnswer) (trigger : BotTrigger)
      (hpending : room.pending[i]? = some trigger)
      (hfailed : ∀ lobby,
        updateLobby lobbyId (trigger.transaction answer) now (some room.lobby) ≠ .ok lobby) :
      RoomStep lobbyId room (.deliver now i answer) (room.take i trigger)
  | delivered (now i : ℕ) (answer : BotAnswer) (trigger : BotTrigger)
      (hpending : room.pending[i]? = some trigger) (lobby : Lobby)
      (heffect : TriggerEffect now answer room.lobby trigger lobby) :
      RoomStep lobbyId room (.deliver now i answer) ((room.take i trigger).store lobby)
  | redelivered (now i : ℕ) (answer : BotAnswer) (trigger : BotTrigger)
      (hdelivered : room.delivered[i]? = some trigger) (lobby : Lobby)
      (heffect : TriggerEffect now answer room.lobby trigger lobby) :
      RoomStep lobbyId room (.redeliver now i answer) (room.store lobby)

/-- **Inversion of a room's step.** -/
theorem Room.step_cases (lobbyId : LobbyId) (room : Room) (i : RoomInput) :
    RoomStep lobbyId room i (room.step lobbyId i) := by
  cases i with
  | call now c =>
    show RoomStep lobbyId room _ (room.commit lobbyId (c.transaction lobbyId) now)
    rcases Room.commit_cases lobbyId (c.transaction lobbyId) now room with
      ⟨h, hrejected⟩ | ⟨lobby, hok, h⟩
    · rw [h]
      refine .rejected _ ?_
      rintro _ _ lobby ⟨⟩
      exact hrejected lobby
    · rw [h]; exact .called now c lobby hok (call_ok hok)
  | deliver now i answer =>
    cases hpending : room.pending[i]? with
    | none => simp only [Room.step, hpending]; exact .rejected _ (by rintro _ _ _ ⟨⟩)
    | some trigger =>
      simp only [Room.step, hpending]
      rcases Room.commit_cases lobbyId (trigger.transaction answer) now (room.take i trigger) with
        ⟨h, hfailed⟩ | ⟨lobby, hok, h⟩
      · rw [h]; exact .failed now i answer trigger hpending hfailed
      · rw [h]; exact .delivered now i answer trigger hpending lobby (trigger_ok hok)
  | redeliver now i answer =>
    cases hdelivered : room.delivered[i]? with
    | none => simp only [Room.step, hdelivered]; exact .rejected _ (by rintro _ _ _ ⟨⟩)
    | some trigger =>
      simp only [Room.step, hdelivered]
      rcases Room.commit_cases lobbyId (trigger.transaction answer) now room with
        ⟨h, _⟩ | ⟨lobby, hok, h⟩
      · rw [h]; exact .rejected _ (by rintro _ _ _ ⟨⟩)
      · rw [h]; exact .redelivered now i answer trigger hdelivered lobby (trigger_ok hok)

end PasswordApp
