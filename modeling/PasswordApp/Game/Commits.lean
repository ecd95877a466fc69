import PasswordApp.Game.Schedule

namespace PasswordApp

/-!
# Game — when the transactions of a started game commit

* `Scheduled.playWord` — a word can always be played;
* `Scheduled.castVotes` — ballots can be cast unless they are complete and a challenger does
  not play;
* `Scheduled.watchForBotTurns_commits`, `Scheduled.watchForBotVotes_commits`,
  `Scheduled.submitWord_commits`, `Scheduled.voteOnWord_commits` — the transactions that commit;
* `Scheduled.voteOnWord_refused` — the votes that are refused.
-/

theorem findOther_mem {lobby : Lobby} {submitter otherId : Uid} {word : Option Json}
    (h : findOther lobby submitter word = some otherId) :
    otherId ∈ lobby.targetWords.keys := by
  obtain ⟨e, he, rfl⟩ := Option.map_eq_some_iff.mp h
  exact List.mem_map.mpr ⟨e, List.mem_of_find?_eq_some he, rfl⟩

/-- `handleWordSubmission` works on any turn of a player. -/
theorem handleWordSubmission_isOk {lobby : Lobby} {done : List Turn} {t : Turn}
    {settings : Settings}
    (hturns : lobby.turns = done ++ [t]) (hplayer : t.player ∈ lobby.players.keys)
    (hbanks : lobby.targetWords.keys = lobby.players.keys)
    (hsettings : lobby.settings = some settings) (horder : lobby.playerOrder ≠ []) :
    ∃ r, handleWordSubmission lobby = .ok r := by
  unfold handleWordSubmission
  rw [currTurn_eq_ok.mpr ⟨done, hturns⟩, ok_bind]
  cases hfind : findOther lobby t.player t.submittedWord with
  | none => exact ⟨_, rfl⟩
  | some otherId =>
    have hother : otherId ∈ lobby.players.keys := hbanks ▸ findOther_mem hfind
    have hcurr : Lobby.currTurn { lobby with turns := done ++ [t.stolen otherId] }
        = .ok (t.stolen otherId) := currTurn_eq_ok.mpr ⟨done, rfl⟩
    -- the owner of a bank plays, so the points can be paid
    have hpayable : (t.stolen otherId).Payable lobby.players := by
      have hstolen : (t.stolen otherId).wasOthersWord = true := rfl
      rw [Turn.Payable, if_pos hstolen]
      exact ⟨otherId, hother, rfl⟩
    obtain ⟨scored, hscored⟩ := scoreTurn_isOk hcurr hplayer hpayable
    obtain ⟨_, players, _, rfl⟩ := scoreTurn_ok hcurr hscored
    have hnext : ∃ r, startNextTurnOrEndGame
        { lobby with turns := done ++ [t.stolen otherId], players := players } = .ok r :=
      startNextTurnOrEndGame_isOk hsettings horder
    obtain ⟨r, hr⟩ := hnext
    refine ⟨r, ?_⟩
    simp only [setCurrTurn_of_turns hturns]
    change (scoreTurn { lobby with turns := done ++ [t.stolen otherId] } >>= startNextTurnOrEndGame)
      = .ok r
    rw [hscored, ok_bind, hr]

/-- `handleVote` works on any turn of a player that can be paid. -/
theorem handleVote_isOk {lobby : Lobby} {done : List Turn} {t : Turn} {settings : Settings}
    {bank : List String} (hturns : lobby.turns = done ++ [t])
    (hplayer : t.player ∈ lobby.players.keys) (hbank : lobby.targetWords.get? t.player = some bank)
    (hsettings : lobby.settings = some settings) (horder : lobby.playerOrder ≠ [])
    (hpayable : lobby.votes.size + 1 = lobby.playerOrder.length →
      (t.tally lobby.votes bank).Payable lobby.players) : ∃ r, handleVote lobby = .ok r := by
  unfold handleVote
  by_cases hquorum : lobby.votes.size + 1 = lobby.playerOrder.length
  · -- complete ballots: score the tally, then start the next turn
    have hcurr : Lobby.currTurn { lobby with turns := done ++ [t.tally lobby.votes bank] }
        = .ok (t.tally lobby.votes bank) := currTurn_eq_ok.mpr ⟨done, rfl⟩
    obtain ⟨scored, hscored⟩ := scoreTurn_isOk hcurr hplayer (hpayable hquorum)
    obtain ⟨_, players, _, rfl⟩ := scoreTurn_ok hcurr hscored
    have hnext : ∃ r, startNextTurnOrEndGame
        { lobby with turns := done ++ [t.tally lobby.votes bank], players := players, votes := ∅ }
        = .ok r :=
      startNextTurnOrEndGame_isOk hsettings horder
    obtain ⟨r, hr⟩ := hnext
    refine ⟨r, ?_⟩
    simp only [if_pos hquorum, currTurn_eq_ok.mpr ⟨done, hturns⟩, ok_bind, hbank, orThrow_some,
      setCurrTurn_of_turns hturns]
    change (scoreTurn { lobby with turns := done ++ [t.tally lobby.votes bank] } >>=
      fun scored => startNextTurnOrEndGame { scored with votes := ∅ }) = .ok r
    rw [hscored, ok_bind, hr]
  · simp only [if_neg hquorum]
    exact ⟨_, rfl⟩

/-- A turn that is voted on can be paid if its challengers play. -/
theorem Turn.tally_payable {t : Turn} (hvoted : t.wasOthersWord = false) (votes : Votes)
    (bank : List String) (players : Dict Uid Player) :
    (t.tally votes bank).Payable players ↔
      ∀ ballot ∈ votes.entries, ballot.2.truthy = true → ballot.1 ∈ players.keys := by
  have hothers : (t.tally votes bank).wasOthersWord ≠ true := Bool.eq_false_iff.mp hvoted
  rw [Turn.Payable, if_neg hothers]
  rfl

/-- The player on turn may submit. -/
theorem submitWord_valid {lobby : Lobby} {done : List Turn} {t : Turn} (lobbyId : LobbyId)
    (word : Json) (hstatus : lobby.status = .submission) (hturns : lobby.turns = done ++ [t]) :
    (submitWord lobbyId t.player word).validateLobbyFn lobby = .ok none := by
  simp only [submitWord, hstatus, ne_eq, not_true_eq_false, if_false]
  rw [currTurn_eq_ok.mpr ⟨done, hturns⟩, ok_bind, if_neg (not_not.mpr rfl)]

namespace Scheduled

variable {settings : Settings} {lobby : Lobby}

/-- A word can be played at any time of a game. -/
theorem playWord (h : Scheduled settings lobby) (word : Json) :
    ∃ r, PasswordApp.playWord lobby word = .ok r := by
  obtain ⟨done, t, hturns⟩ := h.turns_eq
  have hplayer : t.player ∈ lobby.players.keys := h.player_mem (by rw [hturns]; simp)
  unfold PasswordApp.playWord
  rw [currTurn_eq_ok.mpr ⟨done, hturns⟩, ok_bind, setCurrTurn_of_turns hturns]
  exact handleWordSubmission_isOk (t := t.submit word) rfl hplayer h.banks_keys h.settings_eq
    h.order_ne_nil

/-- Ballots can be cast unless they are complete and the turn cannot be paid. -/
theorem castVotes (h : Scheduled settings lobby) {done : List Turn} {t : Turn}
    (hturns : lobby.turns = done ++ [t]) {votes : Votes} {n k : ℕ}
    (hcounter : lobby.votesTallied = some k)
    (hpayable : votes.size + 1 = lobby.playerOrder.length →
      ∀ bank, (t.tally votes bank).Payable lobby.players) :
    ∃ r, PasswordApp.castVotes lobby votes n = .ok r := by
  have hplayer : t.player ∈ lobby.players.keys := h.player_mem (by rw [hturns]; simp)
  obtain ⟨bank, hbank⟩ : ∃ bank, lobby.targetWords.get? t.player = some bank :=
    Dict.mem_keys_iff.mp (h.banks_keys ▸ hplayer)
  obtain ⟨r, hr⟩ : ∃ r, handleVote { lobby with
      votes := votes, votesTallied := some (k + n) } = .ok r :=
    handleVote_isOk hturns hplayer hbank h.settings_eq h.order_ne_nil
      (fun hquorum => hpayable hquorum bank)
  exact ⟨r, castVotes_eq_ok.mpr ⟨k, hcounter, hr⟩⟩

/-- So a turn trigger never fails. -/
theorem watchForBotTurns_commits (h : Scheduled settings lobby) (lobbyId : LobbyId) (now : ℕ)
    (botWord : String) :
    ∃ lobby', updateLobby lobbyId (watchForBotTurns botWord) now (some lobby) = .ok lobby' := by
  obtain ⟨r, hr⟩ := (h.stamp now).playWord (.str botWord)
  have hupdate : (watchForBotTurns botWord).updateLobbyFn (lobby.stamp now)
      = .ok { setStatus r with awaitingBotTurn := false } := by
    simp only [watchForBotTurns, hr, ok_bind]
  exact ⟨_, updateLobby_commits lobbyId rfl hupdate⟩

/-- The submission of the player on turn commits if the database takes the word. -/
theorem submitWord_commits (h : Scheduled settings lobby) (lobbyId : LobbyId) (now : ℕ)
    (hstatus : lobby.status = .submission) {done : List Turn} {t : Turn}
    (hturns : lobby.turns = done ++ [t]) {word : Json} (hword : word.storable = true) :
    ∃ lobby', updateLobby lobbyId (submitWord lobbyId t.player word) now (some lobby)
      = .ok lobby' := by
  obtain ⟨r, hr⟩ := (h.stamp now).playWord word
  have hupdate : (submitWord lobbyId t.player word).updateLobbyFn (lobby.stamp now)
      = .ok (setStatus r) := by
    simp only [submitWord, hr, ok_bind, hword, checkStorable_true]
  exact ⟨_, updateLobby_commits lobbyId (submitWord_valid lobbyId word hstatus hturns) hupdate⟩

/-- A vote the database takes commits if it is not the submitter's, the recorded vote of the user
    is falsy, and the turn can be paid should the ballots be complete. -/
theorem voteOnWord_commits (h : Scheduled settings lobby) (lobbyId : LobbyId) (now : ℕ)
    (hstatus : lobby.status = .voting) {done : List Turn} {t : Turn}
    (hturns : lobby.turns = done ++ [t]) {uid : Uid} {vote : Json} (hother : t.player ≠ uid)
    (hvote : vote.storable = true) (hfresh : truthy? (lobby.votes.get? uid) = false) {k : ℕ}
    (hcounter : lobby.votesTallied = some k)
    (hpayable : (lobby.votes.set uid vote).size + 1 = lobby.playerOrder.length →
      ∀ bank, (t.tally (lobby.votes.set uid vote) bank).Payable lobby.players) :
    ∃ lobby', updateLobby lobbyId (voteOnWord lobbyId uid vote) now (some lobby) = .ok lobby' := by
  obtain ⟨r, hr⟩ := (h.stamp now).castVotes (n := 1) hturns hcounter hpayable
  have hvalid : (voteOnWord lobbyId uid vote).validateLobbyFn lobby = .ok none := by
    simp [voteOnWord, hstatus, currTurn_eq_ok.mpr ⟨done, hturns⟩, hother, hfresh]
  have hupdate : (voteOnWord lobbyId uid vote).updateLobbyFn (lobby.stamp now)
      = .ok (setStatus r) := by
    have hr : PasswordApp.castVotes (lobby.stamp now) ((lobby.stamp now).votes.set uid vote) 1
        = .ok r := hr
    simp only [voteOnWord, hr, ok_bind, hvote, checkStorable_true]
  exact ⟨_, updateLobby_commits lobbyId hvalid hupdate⟩

/-- A batch commits if the turn can be paid should it complete the ballots. -/
theorem watchForBotVotes_commits (h : Scheduled settings lobby) (lobbyId : LobbyId) (now : ℕ)
    {done : List Turn} {t : Turn} (hturns : lobby.turns = done ++ [t]) {k : ℕ}
    (hcounter : lobby.votesTallied = some k) (ids : List Uid) (botVote : Bool) (random : Draw)
    (hpayable : (castBotVotes lobby.votes ids botVote random).size + 1 = lobby.playerOrder.length →
      ∀ bank, (t.tally (castBotVotes lobby.votes ids botVote random) bank).Payable lobby.players) :
    ∃ lobby', updateLobby lobbyId (watchForBotVotes ids botVote random) now (some lobby)
      = .ok lobby' := by
  obtain ⟨r, hr⟩ := (h.stamp now).castVotes (n := ids.length) hturns hcounter hpayable
  have hupdate : (watchForBotVotes ids botVote random).updateLobbyFn (lobby.stamp now)
      = .ok { setStatus r with awaitingBotVotes := [] } := by
    have hr : PasswordApp.castVotes (lobby.stamp now)
        (castBotVotes (lobby.stamp now).votes ids botVote random) ids.length = .ok r := hr
    simp only [watchForBotVotes, hr, ok_bind]
  exact ⟨_, updateLobby_commits lobbyId rfl hupdate⟩

/-- A vote of the submitter, or over a recorded truthy vote, is refused. -/
theorem voteOnWord_refused (h : Scheduled settings lobby) (lobbyId : LobbyId) (now : ℕ)
    {uid : Uid} (hrefused : lobby.OnTurn uid ∨ truthy? (lobby.votes.get? uid) = true)
    (vote : Json) :
    ∃ error, updateLobby lobbyId (voteOnWord lobbyId uid vote) now (some lobby)
      = .error (.https error) := by
  obtain ⟨done, t, hturns⟩ := h.turns_eq
  have hcurr : lobby.currTurn = .ok t := currTurn_eq_ok.mpr ⟨done, hturns⟩
  have hvalid : ∃ error, (voteOnWord lobbyId uid vote).validateLobbyFn lobby
      = .ok (some error) := by
    simp only [voteOnWord, hcurr, ok_bind]
    split
    · exact ⟨_, rfl⟩
    · split
      · exact ⟨_, rfl⟩
      · rename_i hother
        rcases hrefused with hturn | htruthy
        · exact absurd hturn (not_onTurn_of_turns hturns hother)
        · rw [if_pos htruthy]
          exact ⟨_, rfl⟩
  obtain ⟨error, hvalid⟩ := hvalid
  exact ⟨error, updateLobby_refuses lobbyId hvalid⟩

end Scheduled

end PasswordApp
