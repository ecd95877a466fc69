import PasswordApp.Backend.Dealing
import PasswordApp.Game.Arrivals
import PasswordApp.Game.Banks
import PasswordApp.Game.Redelivery

namespace PasswordApp

/-!
# Game — when a transaction throws

A callable answers with an `HttpsError` where its validation refuses; where the script itself
throws, or the database refuses what it wrote, the caller sees an internal error and a trigger's
event is lost.  In every lobby a run leads to, a transaction throws in these cases only
(`throws_iff`):

* `addBot` and `startGame` of the host, in a lobby nobody has entered;
* `startGame` with more words to deal than there are;
* `requestNewWords` at an allowed time, of a user who does not play, or from an empty pool;
* votes that complete the ballots of a turn, one challenger not being a player;
* an admitted profile, settings, word or vote that is not `Json.storable`.

For each transaction, `Call.Throws` and `BotTrigger.Throws` say so of the lobby it meets; the
lemmas `throws_iff` is assembled from treat one transaction each.
-/

/-- A script throws exactly if it returns nothing. -/
theorem error_iff_not_ok {ε α : Type} {x : Except ε α} :
    (∃ e, x = .error e) ↔ ¬ ∃ a, x = .ok a := by
  cases x <;> simp

/-- A check that follows fails on its own. -/
theorem error_check_iff {ε α β : Type} {x : Except ε α} {y : Except ε Unit} {f : α → β} :
    (∃ e, (x >>= fun a => y >>= fun _ => .ok (f a)) = .error e) ↔
      (∃ e, x = .error e) ∨ ∃ e, y = .error e := by
  cases x <;> cases y <;> simp [bind, Except.bind]

/-- The database refuses exactly what it cannot keep. -/
theorem checkStorable_throws_iff {storable : Bool} :
    (∃ e, checkStorable storable = .error e) ↔ storable = false := by
  cases storable <;> simp [checkStorable]

/-- A last step that cannot fail adds no failure. -/
theorem error_map_iff {ε α β : Type} {x : Except ε α} {f : α → β} :
    (∃ e, (x >>= fun a => .ok (f a)) = .error e) ↔ ∃ e, x = .error e := by
  cases x <;> simp [bind, Except.bind]

/-- A transaction that is validated throws exactly if it is let through and its update throws. -/
theorem updateLobby_throws_iff {lobbyId : LobbyId} {t : LobbyTransaction} {now : ℕ} {lobby : Lobby}
    {verdict : Option HttpsError} (hvalid : t.validateLobbyFn lobby = .ok verdict) :
    (∃ e, updateLobby lobbyId t now (some lobby) = .error (.exception e)) ↔
      verdict = none ∧ ∃ e, t.updateLobbyFn (lobby.stamp now) = .error e := by
  cases verdict with
  | some error => simp [updateLobby_refuses lobbyId hvalid]
  | none =>
    cases hupdate : t.updateLobbyFn (lobby.stamp now) with
    | error e => simp [updateLobby_throws lobbyId hvalid hupdate]
    | ok next => simp [updateLobby_commits lobbyId hvalid hupdate]

/-! ### Starting a game -/

/-- With a word list for every player the deal goes through. -/
theorem dealWords_isOk {ids : List Uid} {lists : List (List String)}
    (hlen : lists.length = ids.length) (banks : Dict Uid (List String)) :
    ∃ banks', dealWords ids lists banks = .ok banks' := by
  induction ids generalizing lists banks with
  | nil => exact ⟨banks, rfl⟩
  | cons uid ids ih =>
    cases lists with
    | nil => cases hlen
    | cons words lists => exact ih (by simpa using hlen) (banks.set uid words)

/-- `initializeGame` throws exactly without players or without enough words. -/
theorem initializeGame_throws_iff (lobby : Lobby) (settings : Settings) (random : GameDraws) :
    (∃ e, initializeGame { lobby with settings := some settings } random = .error e) ↔
      lobby.players.keys = [] ∨
      wordList.length < lobby.players.keys.length * settings.wordBankSize + 1 := by
  have hdeal : (∃ e, getGameWordsFrom wordList lobby.players.keys.length settings.wordBankSize
      random.words = .error e) ↔
        lobby.players.keys.length * settings.wordBankSize + 1 > wordList.length :=
    getGameWordsFrom_error_iff random.words
  unfold initializeGame
  simp only [orThrow_some, ok_bind]
  by_cases hnobody : lobby.players.keys = []
  · simp [hnobody]
  · rw [if_neg hnobody, or_iff_right hnobody, ← gt_iff_lt, ← hdeal]
    have hwords : getGameWords lobby.players.keys.length settings.wordBankSize random.words
        = getGameWordsFrom wordList lobby.players.keys.length settings.wordBankSize random.words :=
      rfl
    rw [hwords]
    cases hrun : getGameWordsFrom wordList lobby.players.keys.length settings.wordBankSize
      random.words with
    | error e => exact iff_of_true ⟨e, rfl⟩ ⟨e, rfl⟩
    | ok gameWords =>
      refine iff_of_false ?_ (by simp)
      rw [error_iff_not_ok, not_not]
      -- the deal went through, and so do the banks and the first turn
      obtain ⟨_, hcount, _⟩ := getGameWordsFrom_ok settings.wordBankSize_pos hrun
      obtain ⟨banks, hbanks⟩ := dealWords_isOk hcount ∅
      have horder : shuffleArray lobby.players.keys random.order ≠ [] := by
        intro hnil
        have hperm := shuffleArray_perm lobby.players.keys random.order
        rw [hnil] at hperm
        exact hnobody (List.perm_nil.mp hperm.symm)
      rw [ok_bind, hbanks, ok_bind]
      exact startNextTurnOrEndGame_isOk rfl horder

/-! ### Casting votes -/

/-- The ballots are complete, and somebody who does not play challenged. -/
def Lobby.Unscorable (lobby : Lobby) (votes : Votes) : Prop :=
  votes.size + 1 = lobby.playerOrder.length ∧
  (∃ done t, lobby.turns = done ++ [t] ∧ t.wasOthersWord = false) ∧
  ∃ challenger vote, votes.get? challenger = some vote ∧ vote.truthy = true ∧
    challenger ∉ lobby.players.keys

/-- **Votes throw** exactly when their tally cannot be paid out. -/
theorem Scheduled.castVotes_throws_iff {settings : Settings} {lobby : Lobby}
    (h : Scheduled settings lobby) (howners : ∀ t ∈ lobby.turns, t.OwnerSeated lobby.players)
    (hcounter : lobby.votesTallied ≠ none) (votes : Votes) (n : ℕ) :
    (∃ e, PasswordApp.castVotes lobby votes n = .error e) ↔ lobby.Unscorable votes := by
  obtain ⟨done, t, hturns⟩ := h.turns_eq
  obtain ⟨k, hk⟩ := Option.ne_none_iff_exists'.mp hcounter
  constructor
  · intro hthrows
    rw [error_iff_not_ok] at hthrows
    by_contra hscorable
    apply hthrows
    refine h.castVotes hturns hk (fun hquorum bank => ?_)
    cases hvoted : t.wasOthersWord with
    | true =>
      rw [Turn.Payable, if_pos (show (t.tally votes bank).wasOthersWord = true from hvoted)]
      exact howners t (by rw [hturns]; simp) hvoted
    | false =>
      rw [Turn.tally_payable hvoted]
      rintro ⟨challenger, vote⟩ hballot htruthy
      by_contra houtside
      exact hscorable ⟨hquorum, ⟨done, t, hturns, hvoted⟩, challenger, vote,
        Dict.get?_eq_some_iff.mpr hballot, htruthy, houtside⟩
  · rintro ⟨hquorum, ⟨done', t', hturns', hvoted⟩, challenger, vote, hvote, htruthy, houtside⟩
    rw [error_iff_not_ok]
    rintro ⟨r, hr⟩
    obtain ⟨k', _, hcast⟩ := castVotes_ok hr
    generalize setStatus r = next at hcast
    cases hcast with
    | stillOpen hopen => exact hopen hquorum
    | tally _ done'' u hturns'' bank hbank hpayable =>
      obtain ⟨_, rfl⟩ := List.append_singleton_inj (hturns'.symm.trans hturns'')
      exact houtside ((Turn.tally_payable hvoted votes bank lobby.players).mp hpayable
        (challenger, vote) (Dict.get?_eq_some_iff.mp hvote) htruthy)

/-! ### Exactly when -/

/-- The calls that throw. -/
def Call.Throws (lobby : Lobby) : Call → Prop
  | .addPlayerToLobby player _ => lobby.status = .lobby ∧ player.storable = false
  | .addBot requesterId =>
    lobby.hostId = requesterId ∧ lobby.status = .lobby ∧ lobby.players.keys = []
  | .startGame playerId settings _ =>
    lobby.hostId = playerId ∧ lobby.status = .lobby ∧
    ((lobby.players.keys = [] ∨
      wordList.length < lobby.players.keys.length * settings.wordBankSize + 1) ∨
      settings.storable = false)
  | .submitWord playerId word =>
    lobby.status = .submission ∧ lobby.OnTurn playerId ∧ word.storable = false
  | .requestNewWords playerId _ =>
    (lobby.status = .submission ∨ lobby.status = .voting ∧ ¬ lobby.OnTurn playerId) ∧
    (playerId ∉ lobby.players.keys ∨ lobby.availableWords = [])
  | .voteOnWord playerId vote =>
    lobby.status = .voting ∧ ¬ lobby.OnTurn playerId ∧
    truthy? (lobby.votes.get? playerId) = false ∧
    (lobby.Unscorable (lobby.votes.set playerId vote) ∨ vote.storable = false)

/-- The events whose transaction throws. -/
def BotTrigger.Throws (answer : BotAnswer) (lobby : Lobby) : BotTrigger → Prop
  | .watchForBotVotes _ votingBotIds => lobby.Unscorable
      (castBotVotes lobby.votes votingBotIds answer.challenge answer.random)
  | .watchForBotTurns _ => False

section Throws

variable {lobbyId : LobbyId} {settings : Settings} {lobby : Lobby}

/-- **An exchange throws** exactly if it is let through and has nobody to pay or no words to
    draw. -/
theorem Scheduled.requestNewWords_throws_iff (h : Scheduled settings lobby) (now : ℕ)
    (playerId : Uid) (random : ℕ → Draw) :
    (∃ e, updateLobby lobbyId (requestNewWords lobbyId playerId random) now (some lobby)
      = .error (.exception e)) ↔
      (Call.requestNewWords playerId random).Throws lobby := by
  obtain ⟨done, t, hturns⟩ := h.turns_eq
  obtain ⟨verdict, hvalid⟩ := h.requestNewWords_valid lobbyId playerId random
  have hallowed : verdict = none ↔
      (lobby.status = .submission ∨ lobby.status = .voting ∧ ¬ lobby.OnTurn playerId) := by
    simp only [requestNewWords, currTurn_eq_ok.mpr ⟨done, hturns⟩, ok_bind] at hvalid
    split at hvalid
    · rename_i hstatus
      split at hvalid
      · rename_i hplayer
        obtain rfl := Except.ok.inj hvalid
        have hturn : lobby.OnTurn playerId := ⟨done, t, hturns, hplayer⟩
        simp [hstatus, hturn, preconditionError]
      · rename_i hplayer
        obtain rfl := Except.ok.inj hvalid
        simp [hstatus, not_onTurn_of_turns hturns hplayer]
    · rename_i hvoting
      split at hvalid
      · rename_i hstatus
        obtain rfl := Except.ok.inj hvalid
        simp [hstatus, hvoting, preconditionError]
      · rename_i hstatus
        obtain rfl := Except.ok.inj hvalid
        simp [not_not.mp hstatus]
  rw [updateLobby_throws_iff hvalid, hallowed, Call.Throws]
  refine and_congr_right (fun _ => ?_)
  show (∃ e, PasswordApp.assignNewWords (lobby.stamp now) playerId random = .error e) ↔ _
  by_cases hplays : playerId ∈ lobby.players.keys
  · obtain ⟨hempty, hfull⟩ := (h.stamp now).assignNewWords hplays random
    by_cases hpool : lobby.availableWords = []
    · exact iff_of_true ⟨_, hempty hpool⟩ (Or.inr hpool)
    · rw [error_iff_not_ok]
      exact iff_of_false (fun hthrows => hthrows (hfull hpool)) (by simp [hplays, hpool])
  · refine iff_of_true ?_ (Or.inl hplays)
    rw [error_iff_not_ok]
    rintro ⟨next, hnext⟩
    -- an exchange that works is charged to a player
    obtain ⟨_, _, _, _, _, _, hcharged, _, _⟩ := assignNewWords_ok hnext
    exact hplays (addScore_ok hcharged).1

/-- **A vote throws** exactly if it is let through and cannot be tallied or stored. -/
theorem Scheduled.voteOnWord_throws_iff (h : Scheduled settings lobby)
    (howners : ∀ t ∈ lobby.turns, t.OwnerSeated lobby.players)
    (hcounter : lobby.status = .voting → lobby.votesTallied ≠ none) (now : ℕ) (playerId : Uid)
    (vote : Json) :
    (∃ e, updateLobby lobbyId (voteOnWord lobbyId playerId vote) now (some lobby)
      = .error (.exception e)) ↔ (Call.voteOnWord playerId vote).Throws lobby := by
  obtain ⟨done, t, hturns⟩ := h.turns_eq
  have hvalid : ∃ verdict, (voteOnWord lobbyId playerId vote).validateLobbyFn lobby = .ok verdict ∧
      (verdict = none ↔ lobby.status = .voting ∧ ¬ lobby.OnTurn playerId ∧
        truthy? (lobby.votes.get? playerId) = false) := by
    simp only [voteOnWord, currTurn_eq_ok.mpr ⟨done, hturns⟩, ok_bind]
    split
    · rename_i hstatus
      exact ⟨_, rfl, by simp [hstatus, preconditionError]⟩
    · rename_i hstatus
      split
      · rename_i hplayer
        have hturn : lobby.OnTurn playerId := ⟨done, t, hturns, hplayer⟩
        exact ⟨_, rfl, by simp [hturn, preconditionError]⟩
      · rename_i hplayer
        split
        · rename_i htruthy
          exact ⟨_, rfl, by simp [htruthy, preconditionError]⟩
        · rename_i hfresh
          exact ⟨none, rfl, by
            simp [not_not.mp hstatus, not_onTurn_of_turns hturns hplayer, hfresh]⟩
  obtain ⟨verdict, hvalid, hallowed⟩ := hvalid
  rw [updateLobby_throws_iff hvalid, hallowed, Call.Throws, and_assoc, and_assoc]
  refine and_congr_right (fun hstatus => and_congr_right (fun _ => and_congr_right (fun _ => ?_)))
  have hcast := (h.stamp now).castVotes_throws_iff howners (hcounter hstatus)
    (lobby.votes.set playerId vote) 1
  exact error_check_iff.trans (or_congr hcast checkStorable_throws_iff)

/-- A word can always be played, but not always be stored. -/
theorem Scheduled.submitWord_throws_iff (h : Scheduled settings lobby) (now : ℕ)
    (playerId : Uid) (word : Json) :
    (∃ e, updateLobby lobbyId (submitWord lobbyId playerId word) now (some lobby)
      = .error (.exception e)) ↔ (Call.submitWord playerId word).Throws lobby := by
  obtain ⟨done, t, hturns⟩ := h.turns_eq
  -- the player on turn is seated, so his name is there for the error text
  obtain ⟨player, hplayer⟩ := Dict.mem_keys_iff.mp (h.player_mem (t := t) (by rw [hturns]; simp))
  have hvalid : ∃ verdict, (submitWord lobbyId playerId word).validateLobbyFn lobby
      = .ok verdict ∧ (verdict = none ↔ lobby.status = .submission ∧ lobby.OnTurn playerId) := by
    simp only [submitWord, currTurn_eq_ok.mpr ⟨done, hturns⟩, ok_bind, hplayer, orThrow_some]
    split
    · rename_i hstatus
      exact ⟨_, rfl, by simp [hstatus, preconditionError]⟩
    · rename_i hstatus
      split
      · rename_i hother
        exact ⟨_, rfl, by simp [not_onTurn_of_turns hturns hother, preconditionError]⟩
      · rename_i hturn
        have hturn : lobby.OnTurn playerId := ⟨done, t, hturns, not_not.mp hturn⟩
        exact ⟨_, rfl, by simp [not_not.mp hstatus, hturn]⟩
  obtain ⟨verdict, hvalid, hallowed⟩ := hvalid
  rw [updateLobby_throws_iff hvalid, hallowed, Call.Throws, and_assoc]
  refine and_congr_right (fun _ => and_congr_right (fun _ => ?_))
  have hplay : ¬ ∃ e, PasswordApp.playWord (lobby.stamp now) word = .error e := by
    rw [error_iff_not_ok, not_not]
    exact (h.stamp now).playWord word
  exact error_check_iff.trans ((or_iff_right hplay).trans checkStorable_throws_iff)

end Throws

section Lobby

variable {lobbyId : LobbyId} (lobby : Lobby) (now : ℕ)

/-- **A player's entry throws** exactly if it is let through and the profile cannot be stored. -/
theorem addPlayerToLobby_throws_iff (player : PlayerInfo) (playerId : Uid) :
    (∃ e, updateLobby lobbyId (addPlayerToLobby lobbyId player playerId) now (some lobby)
      = .error (.exception e)) ↔ (Call.addPlayerToLobby player playerId).Throws lobby := by
  have hvalid : ∃ verdict, (addPlayerToLobby lobbyId player playerId).validateLobbyFn lobby
      = .ok verdict ∧ (verdict = none ↔ lobby.status = .lobby) := by
    simp only [addPlayerToLobby]
    split
    · rename_i hstatus
      exact ⟨_, rfl, by simp [hstatus, preconditionError]⟩
    · rename_i hstatus
      exact ⟨_, rfl, by simp [not_not.mp hstatus]⟩
  obtain ⟨verdict, hvalid, hopen⟩ := hvalid
  rw [updateLobby_throws_iff hvalid, hopen, Call.Throws]
  refine and_congr_right (fun _ => ?_)
  show (∃ e, (checkStorable player.storable >>= fun _ => .ok _ : Except JsException Lobby)
    = .error e) ↔ _
  rw [← checkStorable_throws_iff]
  cases checkStorable player.storable <;> simp [bind, Except.bind]

/-- The host gets through in an open lobby. -/
theorem hostOnly_iff {verdict : Option HttpsError} {requesterId : Uid} {message : String}
    (hvalid : (if lobby.hostId ≠ requesterId then .ok (hostError lobbyId)
      else if lobby.status ≠ .lobby then .ok (preconditionError message)
      else .ok none : Except JsException (Option HttpsError)) = .ok verdict) :
    verdict = none ↔ lobby.hostId = requesterId ∧ lobby.status = .lobby := by
  split at hvalid
  · rename_i hhost
    obtain rfl := Except.ok.inj hvalid
    simp [hostError, hhost]
  · split at hvalid
    · rename_i hstatus
      obtain rfl := Except.ok.inj hvalid
      simp [preconditionError, hstatus]
    · rename_i hhost hstatus
      obtain rfl := Except.ok.inj hvalid
      simp [not_not.mp hhost, not_not.mp hstatus]

/-- The guard for the host looks at the lobby only, so it always has an answer. -/
theorem hostOnly_isOk (requesterId : Uid) (message : String) :
    ∃ verdict, (if lobby.hostId ≠ requesterId then .ok (hostError lobbyId)
      else if lobby.status ≠ .lobby then .ok (preconditionError message)
      else .ok none : Except JsException (Option HttpsError)) = .ok verdict := by
  split
  · exact ⟨_, rfl⟩
  · split
    · exact ⟨_, rfl⟩
    · exact ⟨_, rfl⟩

/-- **A bot's entry throws** exactly in a lobby the host adds it to before anybody is in. -/
theorem addBot_throws_iff (requesterId : Uid) :
    (∃ e, updateLobby lobbyId (addBot lobbyId requesterId) now (some lobby)
      = .error (.exception e)) ↔ (Call.addBot requesterId).Throws lobby := by
  obtain ⟨verdict, hvalid⟩ : ∃ verdict, (addBot lobbyId requesterId).validateLobbyFn lobby
      = .ok verdict := hostOnly_isOk lobby requesterId _
  rw [updateLobby_throws_iff hvalid, hostOnly_iff lobby hvalid, Call.Throws, and_assoc]
  refine and_congr_right (fun _ => and_congr_right (fun _ => ?_))
  show (∃ e, (if lobby.players.keys = [] then .error .typeError else .ok _
    : Except JsException Lobby) = .error e) ↔ _
  by_cases hnobody : lobby.players.keys = []
  · simp [hnobody]
  · simp [hnobody]

/-- **The start throws** exactly if it is let through and there is nobody to play, too little to
    deal, or an object of settings the database refuses. -/
theorem startGame_throws_iff (playerId : Uid) (settings : Settings) (random : GameDraws) :
    (∃ e, updateLobby lobbyId (startGame lobbyId playerId settings random) now (some lobby)
      = .error (.exception e)) ↔ (Call.startGame playerId settings random).Throws lobby := by
  obtain ⟨verdict, hvalid⟩ : ∃ verdict,
      (startGame lobbyId playerId settings random).validateLobbyFn lobby = .ok verdict :=
    hostOnly_isOk lobby playerId _
  rw [updateLobby_throws_iff hvalid, hostOnly_iff lobby hvalid, Call.Throws, and_assoc]
  refine and_congr_right (fun _ => and_congr_right (fun _ => ?_))
  exact error_check_iff.trans
    (or_congr (initializeGame_throws_iff (lobby.stamp now) settings random)
      checkStorable_throws_iff)

end Lobby

end PasswordApp
