import PasswordApp.Game.Isolation
import PasswordApp.Game.Redelivery
import PasswordApp.Library.Past

namespace PasswordApp

/-!
# Game — whose records they are

A lobby's records carry the name of a user: a profile, a word of his turn, a ballot.  Whatever the
order in which requests, operations and events land, nobody puts a record there under another
user's name (`lobby_authentic`): the record comes from a request that user sent himself, or from a
bot.

* `SameProfiles` — a game never changes a profile: one lemma for each function that scores;
* `profile_call` / `profile_trigger` — what a committed transaction does to the profiles;
* `Scheduled.profile_kept` — so from the start of a game on everybody keeps his;
* `Lobby.Attested` — every record was asked for by its user, or brought by a bot's answer;
* `Lobby.Attested.step` — whatever a step commits, the records stay attested;
* `Asks` — the requests that ask for a transaction, and how they were routed to the lobby;
* `Server.Traced` — what is in flight was asked for as well, which the induction needs: an
  operation lands long after its request.

A ballot is filed under its voter and a word under the player on turn, so the proof follows the
uid from the request to the key it writes.  The two places where a bot writes, `watchForBotVotes`
and `watchForBotTurns`, carry the answer of the bot server in place of a request.
-/

/-! ### Profiles -/

/-- The profile of a stored player, which the database took. -/
def Player.profile (player : Player) : PlayerInfo where
  displayName := player.displayName
  colorNumber := player.colorNumber
  emojiNumber := player.emojiNumber

/-- A player has the profile he sent. -/
theorem PlayerInfo.seat_profile {player : PlayerInfo} (h : player.storable = true) :
    player.seat.profile = player := by
  obtain ⟨_, _, _, _⟩ := player
  obtain rfl : _ = true := h
  rfl

/-- The profile of a user, if he is in the lobby. -/
def Lobby.profile (lobby : Lobby) (uid : Uid) : Option PlayerInfo :=
  (lobby.players.get? uid).map Player.profile

/-- Everybody has the profile he had. -/
def SameProfiles (players players' : Dict Uid Player) : Prop :=
  ∀ uid, (players'.get? uid).map Player.profile = (players.get? uid).map Player.profile

namespace SameProfiles

variable {players players' : Dict Uid Player}

theorem refl (players : Dict Uid Player) : SameProfiles players players := fun _ => rfl

theorem trans {mid : Dict Uid Player} (h : SameProfiles players mid)
    (h' : SameProfiles mid players') : SameProfiles players players' :=
  fun uid => (h' uid).trans (h uid)

/-- Points are all that a payment changes. -/
theorem of_addScore {uid : Uid} {points : ℤ} (h : addScore players uid points = .ok players') :
    SameProfiles players players' := by
  unfold addScore at h
  obtain ⟨player, hget, h⟩ := bind_eq_ok.mp h
  rw [orThrow_eq_ok] at hget
  obtain rfl := (Except.ok.inj h).symm
  intro u
  rw [Dict.get?_set]
  split
  · rename_i hu
    rw [hu, hget]
    rfl
  · rfl

/-- A ballot is paid from and to a score. -/
theorem of_scoreVote {turn : Turn} {ballot : Uid × Json}
    (h : scoreVote turn players ballot = .ok players') : SameProfiles players players' := by
  unfold scoreVote at h
  split at h
  · split at h
    · obtain ⟨mid, hchallenger, hplayer⟩ := bind_eq_ok.mp h
      exact (of_addScore hchallenger).trans (of_addScore hplayer)
    · obtain ⟨mid, hchallenger, hplayer⟩ := bind_eq_ok.mp h
      exact (of_addScore hchallenger).trans (of_addScore hplayer)
  · obtain rfl := Except.ok.inj h
    exact refl players

/-- So are all ballots of a turn, one after the other. -/
theorem of_scoreVotes {turn : Turn} {ballots : List (Uid × Json)}
    (h : ballots.foldlM (scoreVote turn) players = .ok players') :
    SameProfiles players players' := by
  induction ballots generalizing players with
  | nil =>
    obtain rfl := Except.ok.inj h
    exact refl players
  | cons ballot ballots ih =>
    rw [List.foldlM_cons] at h
    obtain ⟨mid, hfirst, hrest⟩ := bind_eq_ok.mp h
    exact (of_scoreVote hfirst).trans (ih hrest)

/-- **Scoring a turn leaves the profiles**, in the branch of a stolen word and in the other. -/
theorem of_scoreTurn {lobby lobby' : Lobby} (h : scoreTurn lobby = .ok lobby') :
    SameProfiles lobby.players lobby'.players := by
  unfold scoreTurn at h
  obtain ⟨turn, _, h⟩ := bind_eq_ok.mp h
  split at h
  · obtain ⟨otherId, _, h⟩ := bind_eq_ok.mp h
    obtain ⟨mid, hadd, h⟩ := bind_eq_ok.mp h
    obtain rfl := (Except.ok.inj h).symm
    exact of_addScore hadd
  · obtain ⟨mid, hloop, h⟩ := bind_eq_ok.mp h
    have hvotes := of_scoreVotes hloop
    split at h
    · obtain ⟨final, hadd, h⟩ := bind_eq_ok.mp h
      obtain rfl := (Except.ok.inj h).symm
      exact hvotes.trans (of_addScore hadd)
    · obtain rfl := (Except.ok.inj h).symm
      exact hvotes

/-- The next turn is appended; nobody enters with it. -/
theorem of_startNextTurnOrEndGame {lobby : Lobby} {r : Lobby × Status}
    (h : startNextTurnOrEndGame lobby = .ok r) : SameProfiles lobby.players r.1.players := by
  rw [(startNextTurnOrEndGame_ok h).players]
  exact refl lobby.players

/-- A word changes a score at most: it may be another player's. -/
theorem of_playWord {lobby : Lobby} {word : Json} {r : Lobby × Status}
    (h : playWord lobby word = .ok r) : SameProfiles lobby.players r.1.players := by
  unfold playWord at h
  obtain ⟨t, _, h⟩ := bind_eq_ok.mp h
  unfold handleWordSubmission at h
  obtain ⟨t', _, h⟩ := bind_eq_ok.mp h
  split at h
  · obtain ⟨scored, hscore, h⟩ := bind_eq_ok.mp h
    have hnext := of_startNextTurnOrEndGame h
    exact (of_scoreTurn hscore).trans hnext
  · obtain rfl := (Except.ok.inj h).symm
    exact refl lobby.players

/-- Ballots change scores, and only when they are complete. -/
theorem of_castVotes {lobby : Lobby} {votes : Votes} {n : ℕ} {r : Lobby × Status}
    (h : castVotes lobby votes n = .ok r) : SameProfiles lobby.players r.1.players := by
  obtain ⟨k, _, h⟩ := castVotes_eq_ok.mp h
  unfold handleVote at h
  simp only [] at h
  split at h
  · obtain ⟨t, _, h⟩ := bind_eq_ok.mp h
    obtain ⟨bank, _, h⟩ := bind_eq_ok.mp h
    obtain ⟨scored, hscore, h⟩ := bind_eq_ok.mp h
    have hnext := of_startNextTurnOrEndGame h
    exact (of_scoreTurn hscore).trans hnext
  · obtain rfl := (Except.ok.inj h).symm
    exact refl lobby.players

/-- An exchange of words is charged. -/
theorem of_assignNewWords {lobby lobby' : Lobby} {playerId : Uid} {random : ℕ → Draw}
    (h : assignNewWords lobby playerId random = .ok lobby') :
    SameProfiles lobby.players lobby'.players := by
  unfold assignNewWords at h
  obtain ⟨settings, _, h⟩ := bind_eq_ok.mp h
  obtain ⟨ditchedWords, _, h⟩ := bind_eq_ok.mp h
  split at h
  · cases h
  · obtain ⟨charged, hcharged, h⟩ := bind_eq_ok.mp h
    obtain rfl := (Except.ok.inj h).symm
    exact of_addScore hcharged

/-- The start of a game deals words and draws the order. -/
theorem of_initializeGame {lobby : Lobby} {random : GameDraws} {r : Lobby × Status}
    (h : initializeGame lobby random = .ok r) : SameProfiles lobby.players r.1.players := by
  unfold initializeGame at h
  simp only [] at h
  split at h
  · cases h
  · obtain ⟨settings, _, h⟩ := bind_eq_ok.mp h
    obtain ⟨gameWords, _, h⟩ := bind_eq_ok.mp h
    obtain ⟨banks, _, h⟩ := bind_eq_ok.mp h
    have hnext := of_startNextTurnOrEndGame h
    exact hnext

end SameProfiles

/-- Who has which profile after a transaction on the lobby. -/
def Call.profile (lobby : Lobby) (uid : Uid) : Call → Option PlayerInfo
  | .addPlayerToLobby player playerId => if uid = playerId then some player else lobby.profile uid
  | .addBot _ =>
    if uid = "bot" ++ toString (numExistingBots lobby + 1) then
      some (botPlayer (numExistingBots lobby)).profile
    else lobby.profile uid
  | _ => lobby.profile uid

/-- **What a callable does to profiles**: `Call.profile`, whichever branch it takes. -/
theorem profile_call {lobbyId : LobbyId} {c : Call} {now : ℕ} {lobby lobby' : Lobby}
    (h : updateLobby lobbyId (c.transaction lobbyId) now (some lobby) = .ok lobby') (uid : Uid) :
    lobby'.profile uid = c.profile lobby uid := by
  obtain ⟨_, next, hupdate, rfl⟩ := updateLobby_ok h
  cases c with
  | addPlayerToLobby player playerId =>
    obtain ⟨_, hcheck, hupdate⟩ := bind_eq_ok.mp hupdate
    obtain rfl := Except.ok.inj hupdate
    show ((lobby.players.set playerId player.seat).get? uid).map Player.profile = _
    rw [Dict.get?_set, Call.profile]
    split
    · rw [Option.map_some, PlayerInfo.seat_profile (checkStorable_eq_ok.mp hcheck)]
    · rfl
  | addBot requesterId =>
    simp only [Call.transaction, addBot] at hupdate
    split at hupdate
    · cases hupdate
    · obtain rfl := Except.ok.inj hupdate
      show ((lobby.players.set ("bot" ++ toString (numExistingBots lobby + 1))
        (botPlayer (numExistingBots lobby))).get? uid).map Player.profile = _
      rw [Dict.get?_set, Call.profile]
      split <;> rfl
  | startGame playerId gameSettings random =>
    obtain ⟨r, hr, hupdate⟩ := bind_eq_ok.mp hupdate
    obtain ⟨_, _, hupdate⟩ := bind_eq_ok.mp hupdate
    obtain rfl := Except.ok.inj hupdate
    exact SameProfiles.of_initializeGame hr uid
  | submitWord playerId word =>
    obtain ⟨r, hr, hupdate⟩ := bind_eq_ok.mp hupdate
    obtain ⟨_, _, hupdate⟩ := bind_eq_ok.mp hupdate
    obtain rfl := Except.ok.inj hupdate
    exact SameProfiles.of_playWord hr uid
  | requestNewWords playerId random => exact SameProfiles.of_assignNewWords hupdate uid
  | voteOnWord playerId vote =>
    obtain ⟨r, hr, hupdate⟩ := bind_eq_ok.mp hupdate
    obtain ⟨_, _, hupdate⟩ := bind_eq_ok.mp hupdate
    obtain rfl := Except.ok.inj hupdate
    exact SameProfiles.of_castVotes hr uid

/-- A bot's event plays a word or casts ballots, so profiles stay. -/
theorem profile_trigger {lobbyId : LobbyId} {trigger : BotTrigger} {answer : BotAnswer} {now : ℕ}
    {lobby lobby' : Lobby}
    (h : updateLobby lobbyId (trigger.transaction answer) now (some lobby) = .ok lobby')
    (uid : Uid) : lobby'.profile uid = lobby.profile uid := by
  obtain ⟨_, next, hupdate, rfl⟩ := updateLobby_ok h
  cases trigger with
  | watchForBotVotes turn votingBotIds =>
    obtain ⟨r, hr, hupdate⟩ := bind_eq_ok.mp hupdate
    obtain rfl := Except.ok.inj hupdate
    exact SameProfiles.of_castVotes hr uid
  | watchForBotTurns turn =>
    obtain ⟨r, hr, hupdate⟩ := bind_eq_ok.mp hupdate
    obtain rfl := Except.ok.inj hupdate
    exact SameProfiles.of_playWord hr uid

/-- A step commits the transaction of a call or of an event that fired, or nothing. -/
theorem Room.step_commits (lobbyId : LobbyId) (room : Room) (i : RoomInput) :
    (room.step lobbyId i).lobby = room.lobby ∨
    (∃ now c, i = .call now c ∧
      updateLobby lobbyId (c.transaction lobbyId) now (some room.lobby)
        = .ok (room.step lobbyId i).lobby) ∨
    ∃ now k answer trigger, (i = .deliver now k answer ∨ i = .redeliver now k answer) ∧
      (trigger ∈ room.pending ∨ trigger ∈ room.delivered) ∧
      updateLobby lobbyId (trigger.transaction answer) now (some room.lobby)
        = .ok (room.step lobbyId i).lobby := by
  cases i with
  | call now c =>
    rcases Room.commit_cases lobbyId (c.transaction lobbyId) now room with
      ⟨hroom, _⟩ | ⟨lobby, hok, hroom⟩
    · exact Or.inl (congrArg Room.lobby hroom)
    · exact Or.inr (Or.inl ⟨now, c, rfl, hok.trans (congrArg (Except.ok ∘ Room.lobby) hroom.symm)⟩)
  | deliver now k answer =>
    cases hpending : room.pending[k]? with
    | none => exact Or.inl (by simp only [Room.step, hpending])
    | some trigger =>
      simp only [Room.step, hpending]
      rcases Room.commit_cases lobbyId (trigger.transaction answer) now (room.take k trigger) with
        ⟨hroom, _⟩ | ⟨lobby, hok, hroom⟩
      · rw [hroom]
        exact Or.inl rfl
      · rw [hroom]
        exact Or.inr (Or.inr ⟨now, k, answer, trigger, Or.inl rfl,
          Or.inl (List.mem_of_getElem? hpending), hok⟩)
  | redeliver now k answer =>
    cases hdelivered : room.delivered[k]? with
    | none => exact Or.inl (by simp only [Room.step, hdelivered])
    | some trigger =>
      simp only [Room.step, hdelivered]
      rcases Room.commit_cases lobbyId (trigger.transaction answer) now room with
        ⟨hroom, _⟩ | ⟨lobby, hok, hroom⟩
      · exact Or.inl (congrArg Room.lobby hroom)
      · rw [hroom]
        exact Or.inr (Or.inr ⟨now, k, answer, trigger, Or.inr rfl,
          Or.inr (List.mem_of_getElem? hdelivered), hok⟩)

/-- In a game nobody's profile changes: nobody enters a lobby any more. -/
theorem Scheduled.profile_step {lobbyId : LobbyId} {settings : Settings} {room : Room}
    (h : Scheduled settings room.lobby) (i : RoomInput) (uid : Uid) :
    (room.step lobbyId i).lobby.profile uid = room.lobby.profile uid := by
  rcases room.step_commits lobbyId i with hsame | ⟨now, c, _, hok⟩ | ⟨_, _, _, _, _, _, hok⟩
  · rw [hsame]
  · rw [profile_call hok]
    have heffect := call_ok hok
    cases c with
    | addPlayerToLobby player playerId => exact absurd heffect.1 h.started
    | addBot requesterId => exact absurd heffect.2.1 h.started
    | startGame => rfl
    | submitWord => rfl
    | requestNewWords => rfl
    | voteOnWord => rfl
  · exact profile_trigger hok uid

/-- **Run lemma.** From the start of the game on everybody keeps his profile. -/
theorem Scheduled.profile_kept {lobbyId : LobbyId} {settings : Settings} {room room' : Room}
    (h : Scheduled settings room.lobby)
    (hreach : (roomMachine lobbyId).Reaches anyInput room room') (uid : Uid) :
    room'.lobby.profile uid = room.lobby.profile uid :=
  (Machine.Reaches.invariant
    (I := fun later => Scheduled settings later.lobby ∧
      later.lobby.profile uid = room.lobby.profile uid)
    (fun _ i hI _ => ⟨hI.1.step i, (hI.1.profile_step i uid).trans hI.2⟩) ⟨h, rfl⟩ hreach).2

/-! ### Records -/

section Records

variable (asked : Call → Prop) (answered : BotAnswer → Prop)

/-- Each ballot was cast by the user it is filed under, or for a bot. -/
def Votes.Attested (votes : Votes) : Prop :=
  ∀ uid v, votes.get? uid = some v →
    (∃ vote, asked (.voteOnWord uid vote) ∧ vote.stored = some v) ∨
    isBot uid = true ∧ ∃ answer, answered answer ∧ (v = .bool false ∨ v = .bool answer.challenge)

/-- The word was submitted by the player of the turn, or is an answer of the bot server. -/
structure Turn.Attested (t : Turn) : Prop where
  word : ∀ w, t.submittedWord = some w →
    asked (.submitWord t.player w) ∨ ∃ answer, answered answer ∧ w = .str answer.word
  ballots : t.votes.Attested asked answered

/-- The words and ballots of a lobby are attested. -/
structure Lobby.PlayAttested (lobby : Lobby) : Prop where
  votes : lobby.votes.Attested asked answered
  turns : ∀ t ∈ lobby.turns, t.Attested asked answered

/-- Every record of the lobby was asked for by the user it names, or is a bot's. -/
structure Lobby.Attested (lobby : Lobby) : Prop extends lobby.PlayAttested asked answered where
  players : ∀ uid info, lobby.profile uid = some info →
    asked (.addPlayerToLobby info uid) ∨
    isBot uid = true ∧ asked (.addBot lobby.hostId) ∧ ∃ n, info = (botPlayer n).profile
  settings : ∀ settings, lobby.settings = some settings →
    ∃ random, asked (.startGame lobby.hostId settings random)

end Records

section Records

variable {asked asked' : Call → Prop} {answered answered' : BotAnswer → Prop}

/-- What was asked for once stays asked for. -/
theorem Votes.Attested.mono {votes : Votes} (h : votes.Attested asked answered)
    (hasked : ∀ c, asked c → asked' c) (hanswered : ∀ answer, answered answer → answered' answer) :
    votes.Attested asked' answered' := by
  intro uid v hget
  rcases h uid v hget with ⟨vote, hvote, hstored⟩ | ⟨hbot, answer, hanswer, hv⟩
  · exact Or.inl ⟨vote, hasked _ hvote, hstored⟩
  · exact Or.inr ⟨hbot, answer, hanswered _ hanswer, hv⟩

theorem Turn.Attested.mono {t : Turn} (h : t.Attested asked answered)
    (hasked : ∀ c, asked c → asked' c) (hanswered : ∀ answer, answered answer → answered' answer) :
    t.Attested asked' answered' := by
  refine ⟨fun w hw => ?_, h.ballots.mono hasked hanswered⟩
  rcases h.word w hw with hsubmit | ⟨answer, hanswer, hword⟩
  · exact Or.inl (hasked _ hsubmit)
  · exact Or.inr ⟨answer, hanswered _ hanswer, hword⟩

theorem Lobby.Attested.mono {lobby : Lobby} (h : lobby.Attested asked answered)
    (hasked : ∀ c, asked c → asked' c) (hanswered : ∀ answer, answered answer → answered' answer) :
    lobby.Attested asked' answered' where
  players uid info hinfo := by
    rcases h.players uid info hinfo with hjoin | ⟨hbot, hhost, hprofile⟩
    · exact Or.inl (hasked _ hjoin)
    · exact Or.inr ⟨hbot, hasked _ hhost, hprofile⟩
  settings settings hsettings := by
    obtain ⟨random, hstart⟩ := h.settings settings hsettings
    exact ⟨random, hasked _ hstart⟩
  votes := h.votes.mono hasked hanswered
  turns t ht := (h.turns t ht).mono hasked hanswered

/-- Nobody has voted yet. -/
theorem Votes.attested_empty : Votes.Attested asked answered (∅ : Votes) := by
  intro uid v hget
  rw [Dict.get?_empty] at hget
  cases hget

/-- Writing and reading back keeps the ballots attested. -/
theorem Votes.Attested.stored {votes : Votes} (h : votes.Attested asked answered) :
    votes.stored.Attested asked answered := by
  intro uid v hget
  rw [Votes.stored, Dict.get?_filterMap, Option.bind_eq_some_iff] at hget
  obtain ⟨old, hold, hv⟩ := hget
  obtain ⟨rfl, _⟩ := Json.stored_eq_some hv
  exact h uid v hold

/-- A user's ballot joins the others. -/
theorem Votes.Attested.cast {votes : Votes} (h : votes.Attested asked answered) {uid : Uid}
    {vote : Json} (hvote : asked (.voteOnWord uid vote)) :
    Votes.Attested asked answered (Votes.stored (votes.set uid vote)) := by
  intro u v hget
  rw [Votes.stored, Dict.get?_filterMap, Dict.get?_set] at hget
  split at hget
  · rename_i hu
    exact Or.inl ⟨vote, hu ▸ hvote, hget⟩
  · apply h.stored u v
    rw [Votes.stored, Dict.get?_filterMap]
    exact hget

/-- So do the ballots of a batch of bots. -/
theorem Votes.Attested.castBots {votes : Votes} (h : votes.Attested asked answered)
    {ids : List Uid} (hne : ids ≠ []) (hbots : ∀ uid ∈ ids, isBot uid = true) {answer : BotAnswer}
    (hanswer : answered answer) :
    (castBotVotes votes ids answer.challenge answer.random).Attested asked answered := by
  -- first all of them pass
  have hpass : ∀ (ids : List Uid) (votes : Votes), (∀ uid ∈ ids, isBot uid = true) →
      votes.Attested asked answered →
      Votes.Attested asked answered
        (ids.foldl (fun votes botId => votes.set botId (.bool false)) votes) := by
    intro ids
    induction ids with
    | nil => exact fun votes _ hvotes => hvotes
    | cons botId ids ih =>
      intro votes hids hvotes
      rw [List.forall_mem_cons] at hids
      refine ih _ hids.2 (fun uid v hget => ?_)
      rw [Dict.get?_set] at hget
      split at hget
      · rename_i huid
        obtain rfl := (Option.some.inj hget).symm
        exact Or.inr ⟨huid ▸ hids.1, answer, hanswer, Or.inl rfl⟩
      · exact hvotes uid v hget
  -- then the one that is drawn gets the answer
  have hdrawn : ids.getD (answer.random.index ids.length) "undefined" ∈ ids := by
    have hlt := answer.random.index_lt (List.length_pos_of_ne_nil hne)
    rw [List.getD_eq_getElem _ _ hlt]
    exact List.getElem_mem hlt
  intro uid v hget
  rw [castBotVotes, Dict.get?_set] at hget
  split at hget
  · rename_i huid
    obtain rfl := (Option.some.inj hget).symm
    exact Or.inr ⟨huid ▸ hbots _ hdrawn, answer, hanswer, Or.inr rfl⟩
  · exact hpass ids votes hbots h uid v hget

theorem Turn.Attested.stored {t : Turn} (h : t.Attested asked answered) :
    t.stored.Attested asked answered :=
  ⟨h.word, h.ballots.stored⟩

/-- A turn begins without a word and without ballots. -/
theorem Turn.attested_fresh (player : Uid) (created : Option ℕ) :
    Turn.Attested asked answered { player := player, created := created } where
  word w hw := by cases hw
  ballots := Votes.attested_empty

namespace Lobby.PlayAttested

variable {lobby next : Lobby}

theorem stored (h : lobby.PlayAttested asked answered) : lobby.stored.PlayAttested asked answered := by
  refine ⟨h.votes.stored, fun t ht => ?_⟩
  obtain ⟨u, hu, rfl⟩ := List.mem_map.mp ht
  exact (h.turns u hu).stored

/-- The next turn is a fresh one. -/
theorem advances {status : Status} (h : lobby.PlayAttested asked answered)
    (hadvances : Advances lobby next status) : next.PlayAttested asked answered := by
  cases hadvances with
  | gameOver => exact h
  | nextTurn settings nextPlayer =>
    refine ⟨h.votes, fun t ht => ?_⟩
    rcases List.mem_append.mp ht with hold | hnew
    · exact h.turns t hold
    · rw [List.mem_singleton.mp hnew]
      exact Turn.attested_fresh _ _

/-- The last turn is replaced. -/
theorem concat {done : List Turn} {t t' : Turn} (h : lobby.PlayAttested asked answered)
    (hturns : lobby.turns = done ++ [t]) (ht' : t'.Attested asked answered) :
    ∀ u ∈ done ++ [t'], u.Attested asked answered := by
  intro u hu
  rcases List.mem_append.mp hu with hold | hnew
  · exact h.turns u (by rw [hturns]; exact List.mem_append_left _ hold)
  · rw [List.mem_singleton.mp hnew]
    exact ht'

/-- The current turn is one of them. -/
theorem last {done : List Turn} {t : Turn} (h : lobby.PlayAttested asked answered)
    (hturns : lobby.turns = done ++ [t]) : t.Attested asked answered :=
  h.turns t (by rw [hturns]; exact List.mem_append_right _ (List.mem_singleton_self t))

/-- The word goes to the current turn, whose player has to have sent it. -/
theorem wordPlayed {word : Json} (h : lobby.PlayAttested asked answered)
    (hplayed : WordPlayed word lobby next)
    (hword : ∀ done t, lobby.turns = done ++ [t] →
      asked (.submitWord t.player word) ∨ ∃ answer, answered answer ∧ word = .str answer.word) :
    next.PlayAttested asked answered := by
  have hsubmit : ∀ done t, lobby.turns = done ++ [t] → (t.submit word).Attested asked answered := by
    intro done t hturns
    refine ⟨fun w hw => ?_, (h.last hturns).ballots⟩
    obtain rfl : word = w := Option.some.inj hw
    exact hword done t hturns
  cases hplayed with
  | awaitsVotes done t hturns hnone =>
    exact ⟨h.votes, h.concat hturns (hsubmit done t hturns)⟩
  | othersWord done t hturns otherId hother players hscored lobby' status hadvances =>
    have hstolen : ((t.submit word).stolen otherId).Attested asked answered :=
      ⟨(hsubmit done t hturns).word, (hsubmit done t hturns).ballots⟩
    have hmid : Lobby.PlayAttested asked answered { lobby with
        turns := done ++ [(t.submit word).stolen otherId]
        votesTallied := some 0
        players := players } := ⟨h.votes, h.concat hturns hstolen⟩
    have hnext := hmid.advances hadvances
    exact ⟨hnext.votes, hnext.turns⟩

/-- The ballots are pruned when they are stored, those on the record of the turn too. -/
theorem votesCast {votes : Votes} {tallied : ℕ} (h : lobby.PlayAttested asked answered)
    (hcast : VotesCast votes tallied lobby next) (hvotes : votes.stored.Attested asked answered) :
    next.stored.PlayAttested asked answered := by
  cases hcast with
  | stillOpen hopen => exact ⟨hvotes, h.stored.turns⟩
  | tally hquorum done t hturns bank hbank hpayable players hscored lobby' status hadvances =>
    have htally : (t.tally votes bank).stored.Attested asked answered :=
      ⟨(h.last hturns).word, hvotes⟩
    have hdone : ∀ u ∈ (done ++ [t.tally votes bank]).map Turn.stored,
        u.Attested asked answered := by
      rw [List.map_append]
      exact h.stored.concat (by rw [Lobby.stored, hturns, List.map_append]; rfl) htally
    cases hadvances with
    | gameOver => exact ⟨Votes.attested_empty, hdone⟩
    | nextTurn settings nextPlayer =>
      refine ⟨Votes.attested_empty, fun u hu => ?_⟩
      obtain ⟨v, hv, rfl⟩ := List.mem_map.mp hu
      rcases List.mem_append.mp hv with hold | hnew
      · exact hdone _ (List.mem_map_of_mem hold)
      · rw [List.mem_singleton.mp hnew]
        exact (Turn.attested_fresh _ _).stored

end Lobby.PlayAttested

/-! ### Transactions -/

/-- Nothing hands the lobby to another host. -/
theorem Advances.hostId {lobby lobby' : Lobby} {status : Status}
    (h : Advances lobby lobby' status) : lobby'.hostId = lobby.hostId := by
  cases h <;> rfl

theorem WordPlayed.hostId {word : Json} {lobby next : Lobby} (h : WordPlayed word lobby next) :
    next.hostId = lobby.hostId := by
  cases h with
  | awaitsVotes => rfl
  | othersWord done t hturns otherId hother players hscored lobby' status hadvances =>
    exact hadvances.hostId

theorem VotesCast.hostId {votes : Votes} {tallied : ℕ} {lobby next : Lobby}
    (h : VotesCast votes tallied lobby next) : next.hostId = lobby.hostId := by
  cases h with
  | stillOpen => rfl
  | tally hquorum done t hturns bank hbank hpayable players hscored lobby' status hadvances =>
    exact hadvances.hostId

theorem CallEffect.hostId {now : ℕ} {lobby lobby' : Lobby} {c : Call}
    (h : CallEffect now lobby c lobby') : lobby'.hostId = lobby.hostId := by
  cases c with
  | addPlayerToLobby player playerId => rw [h.2]; rfl
  | addBot requesterId => rw [h.2.2.2]; rfl
  | startGame playerId gameSettings random =>
    obtain ⟨_, _, next, ⟨_, _, _, _, _, _, _, _, _, _⟩, rfl⟩ := h
    rfl
  | submitWord playerId word =>
    obtain ⟨_, _, next, hplayed, rfl⟩ := h
    exact hplayed.hostId
  | requestNewWords playerId random =>
    obtain ⟨_, next, ⟨_, _, _, _, _, _, _, _, _⟩, rfl⟩ := h
    rfl
  | voteOnWord playerId vote =>
    obtain ⟨_, _, _, k, next, _, hcast, rfl⟩ := h
    exact hcast.hostId

/-- The settings change at the start of the game only. -/
theorem CallEffect.settings {now : ℕ} {lobby lobby' : Lobby} {c : Call}
    (h : CallEffect now lobby c lobby') : lobby'.settings = lobby.settings ∨
      ∃ settings random, c = .startGame lobby.hostId settings random ∧
        lobby'.settings = some settings := by
  cases c with
  | addPlayerToLobby player playerId => rw [h.2]; exact Or.inl rfl
  | addBot requesterId => rw [h.2.2.2]; exact Or.inl rfl
  | startGame playerId gameSettings random =>
    obtain ⟨rfl, _, next, ⟨_, _, _, _, _, _, _, _, _, _⟩, rfl⟩ := h
    exact Or.inr ⟨gameSettings, random, rfl, rfl⟩
  | submitWord playerId word =>
    obtain ⟨_, _, next, hplayed, rfl⟩ := h
    exact Or.inl hplayed.seats.settings
  | requestNewWords playerId random =>
    obtain ⟨_, next, hrolled, rfl⟩ := h
    exact Or.inl hrolled.seats.settings
  | voteOnWord playerId vote =>
    obtain ⟨_, _, _, k, next, _, hcast, rfl⟩ := h
    exact Or.inl hcast.seats.settings

/-- Words and ballots come with the callables that carry them; the others bring none. -/
theorem Lobby.PlayAttested.call {now : ℕ} {c : Call} {lobby lobby' : Lobby}
    (h : lobby.PlayAttested asked answered) (hasked : asked c)
    (heffect : CallEffect now lobby c lobby') : lobby'.PlayAttested asked answered := by
  have hstamp : (lobby.stamp now).PlayAttested asked answered := ⟨h.votes, h.turns⟩
  cases c with
  | addPlayerToLobby player playerId =>
    rw [heffect.2]
    exact ⟨h.votes.stored, h.stored.turns⟩
  | addBot requesterId =>
    rw [heffect.2.2.2]
    exact ⟨h.votes.stored, h.stored.turns⟩
  | startGame playerId gameSettings random =>
    obtain ⟨_, _, next, ⟨_, _, _, _, _, _, _, _, firstPlayer, _⟩, rfl⟩ := heffect
    refine ⟨h.votes.stored, fun t ht => ?_⟩
    obtain rfl := List.mem_singleton.mp ht
    exact (Turn.attested_fresh firstPlayer (some now)).stored
  | submitWord playerId word =>
    obtain ⟨_, ⟨done, t, hturns, hplayer⟩, next, hplayed, rfl⟩ := heffect
    refine (hstamp.wordPlayed hplayed (fun done' t' hturns' => Or.inl ?_)).stored
    -- the caller is the player on turn
    obtain ⟨_, rfl⟩ := List.append_singleton_inj (hturns.symm.trans hturns')
    rw [hplayer]
    exact hasked
  | requestNewWords playerId random =>
    obtain ⟨_, next, ⟨_, _, _, _, _, _, _, _, _⟩, rfl⟩ := heffect
    exact ⟨h.votes.stored, h.stored.turns⟩
  | voteOnWord playerId vote =>
    obtain ⟨_, _, _, k, next, _, hcast, rfl⟩ := heffect
    exact hstamp.votesCast hcast (h.votes.cast hasked)

/-- **A callable keeps the records attested**, if it was asked for. -/
theorem Lobby.Attested.call {lobbyId : LobbyId} {c : Call} {now : ℕ} {lobby lobby' : Lobby}
    (h : lobby.Attested asked answered) (hasked : asked c)
    (hok : updateLobby lobbyId (c.transaction lobbyId) now (some lobby) = .ok lobby') :
    lobby'.Attested asked answered := by
  have heffect := call_ok hok
  have hhost := heffect.hostId
  refine { h.toPlayAttested.call hasked heffect with
    players := fun uid info hinfo => ?_
    settings := fun settings hsettings => ?_ }
  · rw [profile_call hok] at hinfo
    rw [hhost]
    -- only the two transactions that seat somebody give a profile
    cases c with
    | addPlayerToLobby player playerId =>
      rw [Call.profile] at hinfo
      split at hinfo
      · rename_i huid
        rw [← Option.some.inj hinfo, huid]
        exact Or.inl hasked
      · exact h.players uid info hinfo
    | addBot requesterId =>
      rw [Call.profile] at hinfo
      split at hinfo
      · rename_i huid
        rw [← Option.some.inj hinfo, huid, heffect.1]
        exact Or.inr ⟨isBot_bot _, hasked, _, rfl⟩
      · exact h.players uid info hinfo
    | startGame => exact h.players uid info hinfo
    | submitWord => exact h.players uid info hinfo
    | requestNewWords => exact h.players uid info hinfo
    | voteOnWord => exact h.players uid info hinfo
  · rw [hhost]
    rcases heffect.settings with hsame | ⟨started, random, rfl, hstarted⟩
    · exact h.settings settings (hsame ▸ hsettings)
    · obtain rfl := Option.some.inj (hstarted.symm.trans hsettings)
      exact ⟨random, hasked⟩

theorem TriggerEffect.hostId {now : ℕ} {answer : BotAnswer} {lobby lobby' : Lobby}
    {trigger : BotTrigger} (h : TriggerEffect now answer lobby trigger lobby') :
    lobby'.hostId = lobby.hostId := by
  cases trigger with
  | watchForBotVotes turn votingBotIds =>
    obtain ⟨k, next, _, hcast, rfl⟩ := h
    exact hcast.hostId
  | watchForBotTurns turn =>
    obtain ⟨next, hplayed, rfl⟩ := h
    exact hplayed.hostId

/-- **A bot's event keeps the records attested.** -/
theorem Lobby.Attested.trigger {lobbyId : LobbyId} {trigger : BotTrigger} {answer : BotAnswer}
    {now : ℕ} {lobby lobby' : Lobby} (h : lobby.Attested asked answered)
    (hgenuine : trigger.Genuine lobby) (hanswer : answered answer)
    (hok : updateLobby lobbyId (trigger.transaction answer) now (some lobby) = .ok lobby') :
    lobby'.Attested asked answered := by
  have heffect := trigger_ok hok
  have hstamp : (lobby.stamp now).PlayAttested asked answered := ⟨h.votes, h.turns⟩
  have hplay : lobby'.PlayAttested asked answered := by
    cases trigger with
    | watchForBotVotes turn votingBotIds =>
      obtain ⟨k, next, _, hcast, rfl⟩ := heffect
      have hvotes := h.votes.castBots hgenuine.1 (fun uid huid => (hgenuine.2 uid huid).1) hanswer
      have hnext := hstamp.votesCast hcast hvotes.stored
      exact ⟨hnext.votes, hnext.turns⟩
    | watchForBotTurns turn =>
      obtain ⟨next, hplayed, rfl⟩ := heffect
      have hnext := (hstamp.wordPlayed hplayed
        (fun _ _ _ => Or.inr ⟨answer, hanswer, rfl⟩)).stored
      exact ⟨hnext.votes, hnext.turns⟩
  refine { hplay with players := fun uid info hinfo => ?_, settings := fun settings hsettings => ?_ }
  · rw [profile_trigger hok] at hinfo
    rw [heffect.hostId]
    exact h.players uid info hinfo
  · rw [heffect.seats.settings] at hsettings
    rw [heffect.hostId]
    exact h.settings settings hsettings

/-- **Step lemma.** Whatever a step commits, the records stay attested. -/
theorem Lobby.Attested.step {lobbyId : LobbyId} {room : Room} {i : RoomInput}
    (h : room.lobby.Attested asked answered) (hreach : Room.Reachable lobbyId anyInput room)
    (hasked : ∀ now c, i = .call now c → asked c)
    (hanswered : ∀ now k answer, i = .deliver now k answer ∨ i = .redeliver now k answer →
      answered answer) : (room.step lobbyId i).lobby.Attested asked answered := by
  -- no event fires before the game, and those of a game are for bots
  have hgenuine : ∀ trigger, trigger ∈ room.pending ∨ trigger ∈ room.delivered →
      trigger.Genuine room.lobby := by
    intro trigger hmem
    cases genuine_of_reachable hreach with
    | unstarted hun => simp [hun.pending, hun.delivered] at hmem
    | started settings hs hgenuine => exact hgenuine.events trigger hmem
  rcases room.step_commits lobbyId i with hsame | ⟨now, c, hi, hok⟩ |
    ⟨now, k, answer, trigger, hi, hmem, hok⟩
  · rw [hsame]
    exact h
  · exact h.call (hasked now c hi) hok
  · exact h.trigger (hgenuine trigger hmem) (hanswered now k answer hi) hok

/-- The host of a lobby stays the host. -/
theorem Room.hostId_step (lobbyId : LobbyId) (room : Room) (i : RoomInput) :
    (room.step lobbyId i).lobby.hostId = room.lobby.hostId := by
  refine (Room.step_cases lobbyId room i).lobby_induction
    (P := fun lobby => lobby.hostId = room.lobby.hostId) ?_ ?_ rfl
  · intro now c lobby heffect
    exact heffect.hostId
  · intro now answer trigger lobby heffect
    exact heffect.hostId

/-- An empty lobby has no records. -/
theorem Lobby.attested_initial (hostId : Uid) :
    (Room.initial hostId).lobby.Attested asked answered where
  votes := Votes.attested_empty
  turns t ht := by cases ht
  players uid info hinfo := by cases hinfo
  settings settings hsettings := by cases hsettings

end Records

/-! ### Requests -/

/-- The requests that ask for a transaction on a lobby: the user creates the lobby under a new
    key, presents a code of it, or is in it. -/
inductive Asks (lobbyId : LobbyId) (server : Server) : ServerInput → Call → Prop
  | create (uid : Uid) (data : Json) (random : ℕ → ℕ → Draw) (player : PlayerInfo)
      (hplayer : getPlayerInfo data = .ok player) (hkey : lobbyId ∉ server.keys) :
      Asks lobbyId server (.request (.createLobby (some uid) data lobbyId random))
        (.addPlayerToLobby player uid)
  | join (uid : Uid) (data lobbyCode : Json) (player : PlayerInfo)
      (hplayer : getPlayerInfo data = .ok player) (hcode : getLobbyCode data = .ok lobbyCode)
      (hlobby : findLobbyIdFromCode server.lobbyCodeMap lobbyCode = .ok lobbyId) :
      Asks lobbyId server (.request (.joinLobby (some uid) data)) (.addPlayerToLobby player uid)
  | call (uid : Uid) (r : Request) (c : Call) (hcall : Server.CallOf uid r c)
      (hhere : server.playerLobbyMap.get? uid = some lobbyId) : Asks lobbyId server (.request r) c

/-- The request that creates a lobby. -/
def Creates (lobbyId : LobbyId) (hostId : Uid) (server : Server) (i : ServerInput) : Prop :=
  ∃ data random, i = .request (.createLobby (some hostId) data lobbyId random) ∧
    lobbyId ∉ server.keys

/-- The events of a lobby's bots, with the answer they bring. -/
def Answers (lobbyId : LobbyId) (answer : BotAnswer) (_ : Server) (i : ServerInput) : Prop :=
  ∃ now k, i = .deliver lobbyId now k answer ∨ i = .redeliver lobbyId now k answer

section Traces

variable (past : List ServerInput)

/-- The transaction was asked for in the run. -/
def Asked (lobbyId : LobbyId) (c : Call) : Prop :=
  serverMachine.Once {} past (fun server i => Asks lobbyId server i c)

/-- The bot server gave this answer to an event of the lobby. -/
def Answered (lobbyId : LobbyId) (answer : BotAnswer) : Prop :=
  serverMachine.Once {} past (Answers lobbyId answer)

/-- The host created the lobby, and the records of everybody in it are his own. -/
structure Lobby.Authentic (lobbyId : LobbyId) (lobby : Lobby) : Prop
    extends lobby.Attested (Asked past lobbyId) (Answered past lobbyId) where
  host : serverMachine.Once {} past (Creates lobbyId lobby.hostId)

/-- An operation in flight was asked for. -/
def Task.Traced : Task → Prop
  | .pushLobby lobbyId hostId player =>
    serverMachine.Once {} past (Creates lobbyId hostId) ∧
      Asked past lobbyId (.addPlayerToLobby player hostId)
  | .createLobbyCodeMapping _ _ => True
  | .setPlayerLobby _ _ => True
  | .call lobbyId c => Asked past lobbyId c

/-- Everything stored or in flight was asked for earlier in the run. -/
structure Server.Traced (server : Server) : Prop where
  tasks : ∀ task ∈ server.tasks, task.Traced past
  rooms : ∀ lobbyId room, server.rooms.get? lobbyId = some room →
    room.lobby.Authentic past lobbyId ∧ Room.Reachable lobbyId anyInput room

end Traces

section Traces

variable {past : List ServerInput}

/-- The past only grows. -/
theorem Asked.later {lobbyId : LobbyId} {c : Call} (h : Asked past lobbyId c) (i : ServerInput) :
    Asked (past ++ [i]) lobbyId c :=
  Machine.Once.later h i

theorem Lobby.Authentic.later {lobbyId : LobbyId} {lobby : Lobby}
    (h : lobby.Authentic past lobbyId) (i : ServerInput) :
    lobby.Authentic (past ++ [i]) lobbyId :=
  { h.toAttested.mono (fun _ hasked => hasked.later i)
      (fun _ hanswered => Machine.Once.later hanswered i) with
    host := h.host.later i }

theorem Task.Traced.later {task : Task} (h : task.Traced past) (i : ServerInput) :
    task.Traced (past ++ [i]) := by
  cases task with
  | pushLobby lobbyId hostId player => exact ⟨h.1.later i, h.2.later i⟩
  | createLobbyCodeMapping => trivial
  | setPlayerLobby => trivial
  | call lobbyId c => exact Asked.later h i

/-- What a request issues was asked for by it. -/
theorem issue_traced {r : Request} {tasks : List Task} {server : Server}
    (hserver : serverMachine.run {} past = server) (hissued : server.issue r = .ok tasks)
    (hfresh : ∀ key, Server.Request.key r = some key → key ∉ server.keys) :
    ∀ task ∈ tasks, task.Traced (past ++ [.request r]) := by
  subst hserver
  cases Server.issue_ok hissued with
  | createLobby uid data key random player hne hplayer =>
    have hkey := hfresh key rfl
    have hpush : Task.Traced (past ++ [.request (.createLobby (some uid) data key random)])
        (.pushLobby key uid player) :=
      ⟨.now ⟨data, random, rfl, hkey⟩, .now (.create uid data random player hplayer hkey)⟩
    simp only [List.forall_mem_cons, List.not_mem_nil, false_imp_iff, implies_true, and_true]
    exact ⟨hpush, trivial⟩
  | joinLobby uid data lobbyCode player lobbyId hne hplayer hcode hlobby =>
    have hcall : Asked (past ++ [.request (.joinLobby (some uid) data)]) lobbyId
        (.addPlayerToLobby player uid) :=
      .now (.join uid data lobbyCode player hplayer hcode hlobby)
    simp only [Server.addPlayerTasks, List.forall_mem_cons, List.not_mem_nil, false_imp_iff,
      implies_true, and_true]
    exact ⟨hcall, trivial⟩
  | call uid _ c lobbyId hcall hhere =>
    have hasked : Asked (past ++ [.request r]) lobbyId c := .now (.call uid r c hcall hhere)
    simp only [List.forall_mem_cons, List.not_mem_nil, false_imp_iff, implies_true, and_true]
    exact hasked

/-- A room that takes an asked-for input stays authentic. -/
theorem Server.Traced.feed {server server' : Server} {i : ServerInput} {id : LobbyId}
    {input : RoomInput} (h : server.Traced past) (hrooms : server'.rooms = server.rooms)
    (hasked : ∀ now c, input = .call now c → Asked (past ++ [i]) id c)
    (hanswered : ∀ now k answer, input = .deliver now k answer ∨ input = .redeliver now k answer →
      Answered (past ++ [i]) id answer) :
    ∀ lobbyId room, (server'.feed id input).rooms.get? lobbyId = some room →
      room.lobby.Authentic (past ++ [i]) lobbyId ∧ Room.Reachable lobbyId anyInput room := by
  intro lobbyId room hroom
  rw [Server.get?_feed, hrooms] at hroom
  split at hroom
  · rename_i hid
    subst hid
    obtain ⟨old, hold, rfl⟩ := Option.map_eq_some_iff.mp hroom
    obtain ⟨hauthentic, hreach⟩ := h.rooms lobbyId old hold
    have hlater := hauthentic.later i
    refine ⟨{ hlater.toAttested.step hreach hasked hanswered with host := ?_ },
      hreach.trans (old.reaches_step trivial)⟩
    rw [Room.hostId_step]
    exact hlater.host
  · obtain ⟨hauthentic, hreach⟩ := h.rooms lobbyId room hroom
    exact ⟨hauthentic.later i, hreach⟩

/-- **Step lemma.** -/
theorem Server.Traced.step {server : Server} (h : server.Traced past)
    (hserver : serverMachine.run {} past = server) (i : ServerInput) :
    (server.step i).Traced (past ++ [i]) := by
  have hlater : ∀ task ∈ server.tasks, task.Traced (past ++ [i]) :=
    fun task hmem => (h.tasks task hmem).later i
  have hrooms : ∀ lobbyId room, server.rooms.get? lobbyId = some room →
      room.lobby.Authentic (past ++ [i]) lobbyId ∧ Room.Reachable lobbyId anyInput room :=
    fun lobbyId room hroom => ⟨(h.rooms lobbyId room hroom).1.later i, (h.rooms lobbyId room hroom).2⟩
  cases i with
  | request r =>
    have hstep := server.step_request r
    show (server.step (.request r)).Traced (past ++ [.request r])
    generalize server.step (.request r) = server' at hstep
    cases hstep with
    | refused => exact ⟨hlater, hrooms⟩
    | issued tasks keys hissued hfresh =>
      refine ⟨fun task hmem => ?_, hrooms⟩
      rcases List.mem_append.mp hmem with hold | hnew
      · exact hlater task hold
      · exact issue_traced hserver hissued hfresh task hnew
  | deliver lobbyId now k answer =>
    refine ⟨fun task hmem => hlater task (by simpa [Server.step] using hmem), ?_⟩
    refine h.feed rfl (fun now' c heq => by cases heq) (fun now' k' answer' heq => ?_)
    rcases heq with heq | heq
    · cases heq
      exact .now ⟨now, k, Or.inl rfl⟩
    · cases heq
  | redeliver lobbyId now k answer =>
    refine ⟨fun task hmem => hlater task (by simpa [Server.step] using hmem), ?_⟩
    refine h.feed rfl (fun now' c heq => by cases heq) (fun now' k' answer' heq => ?_)
    rcases heq with heq | heq
    · cases heq
    · cases heq
      exact .now ⟨now, k, Or.inr rfl⟩
  | perform now k =>
    cases htask : server.tasks[k]? with
    | none => simpa only [Server.step, htask] using ⟨hlater, hrooms⟩
    | some task =>
      have htraced := hlater task (List.mem_of_getElem? htask)
      have hrest : ∀ task ∈ server.tasks.eraseIdx k, task.Traced (past ++ [.perform now k]) :=
        fun task hmem => hlater task (List.mem_of_mem_eraseIdx hmem)
      simp only [Server.step, htask]
      cases task with
      | pushLobby id hostId player =>
        refine ⟨fun task hmem => ?_, fun lobbyId room hroom => ?_⟩
        · rcases List.mem_append.mp hmem with hold | hnew
          · exact hrest task hold
          · simp only [Server.addPlayerTasks, List.mem_cons, List.not_mem_nil, or_false] at hnew
            rcases hnew with rfl | rfl
            · exact htraced.2
            · trivial
        · have hroom : (server.rooms.set id (Room.initial hostId)).get? lobbyId = some room := hroom
          by_cases hid : lobbyId = id
          · subst hid
            rw [Dict.get?_set_self] at hroom
            obtain rfl := Option.some.inj hroom
            exact ⟨{ Lobby.attested_initial hostId with host := htraced.1 }, ⟨hostId, .refl _⟩⟩
          · rw [Dict.get?_set_ne _ _ hid] at hroom
            exact hrooms lobbyId room hroom
      | createLobbyCodeMapping id random =>
        simp only [Server.land]
        split
        · exact ⟨hrest, hrooms⟩
        · exact ⟨hrest, hrooms⟩
      | setPlayerLobby playerId id => exact ⟨hrest, hrooms⟩
      | call id c =>
        refine ⟨fun task hmem => hrest task (by simpa [Server.land] using hmem), ?_⟩
        refine h.feed rfl (fun now' c' heq => ?_) (fun now' k' answer heq => ?_)
        · cases heq
          exact htraced
        · rcases heq with heq | heq <;> cases heq

end Traces

/-- **Authenticity.**  In every lobby of the database, however requests, operations and events
    interleaved, the host is the user who created the lobby, everybody in it asked to be, with the
    profile he has, every word and every ballot is one its user sent, and the settings are the
    host's; all others are of bots the host added or of the bot server. -/
theorem lobby_authentic (inputs : List ServerInput) {lobbyId : LobbyId} {room : Room}
    (hroom : (serverMachine.run {} inputs).rooms.get? lobbyId = some room) :
    room.lobby.Authentic inputs lobbyId := by
  have htraced : (serverMachine.run {} inputs).Traced inputs := by
    refine Machine.run_history (I := fun past (server : Server) => server.Traced past) ?_ ?_ inputs
    · refine ⟨fun task hmem => ?_, fun lobbyId room hroom => ?_⟩
      · cases hmem
      · cases hroom
    · intro past i h
      exact h.step rfl i
  exact (htraced.rooms lobbyId room hroom).1

theorem lobby_authentic_sample :
    ∃ room, (sampleServer samplePass).rooms.get? "L" = some room ∧
      room.lobby.Authentic samplePass "L" := by
  have hsome : ((sampleServer samplePass).rooms.get? "L").isSome = true := by decide +kernel
  obtain ⟨room, hroom⟩ := Option.isSome_iff_exists.mp hsome
  exact ⟨room, hroom, lobby_authentic samplePass hroom⟩

end PasswordApp
