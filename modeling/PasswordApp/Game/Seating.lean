import PasswordApp.Game.Triggers
import PasswordApp.Game.Words

namespace PasswordApp

/-!
# Game — everyone in the lobby is dealt in

`initializeGame` builds the player order and the private banks from one `Object.keys`
snapshot of the roster; everything later uses the three as if they were one set.

* `Call.Entry` — the callables that put somebody on the roster;
* `RoomStep.keeps_player` — nobody is ever taken off it;
* `Lobby.DealtIn` — roster, player order and private banks name the same players;
* `Room.Closed` — nobody enters any more, and the roster stays what it is.
-/

/-! ### The roster before the start -/

/-- A callable that puts somebody on the roster. -/
inductive Call.Entry : Call → Prop
  | join (player : PlayerInfo) (playerId : Uid) : Call.Entry (.addPlayerToLobby player playerId)
  | bot (requesterId : Uid) : Call.Entry (.addBot requesterId)

/-- Nobody is taken off the roster by a callable. -/
theorem CallEffect.keeps_player {now : ℕ} {lobby lobby' : Lobby} {c : Call} {uid : Uid}
    (h : CallEffect now lobby c lobby') (huid : uid ∈ lobby.players.keys) :
    uid ∈ lobby'.players.keys := by
  cases c with
  | addPlayerToLobby player playerId =>
    obtain ⟨_, rfl⟩ := h
    exact Dict.mem_keys_set.mpr (Or.inr huid)
  | addBot requesterId =>
    obtain ⟨_, _, _, rfl⟩ := h
    exact Dict.mem_keys_set.mpr (Or.inr huid)
  | startGame playerId gameSettings random =>
    obtain ⟨_, _, next, hdealt, rfl⟩ := h
    obtain ⟨_, _, _, _, _, _, _, _, _, _⟩ := hdealt
    exact huid
  | submitWord playerId word =>
    obtain ⟨_, _, next, hplayed, rfl⟩ := h
    show uid ∈ next.players.keys
    rw [hplayed.seats.players]
    exact huid
  | requestNewWords playerId random =>
    obtain ⟨_, next, hrolled, rfl⟩ := h
    show uid ∈ next.players.keys
    rw [hrolled.seats.players]
    exact huid
  | voteOnWord playerId vote =>
    obtain ⟨_, _, _, k, next, _, hcast, rfl⟩ := h
    show uid ∈ next.players.keys
    rw [hcast.seats.players]
    exact huid

/-- **Nobody is ever taken off the roster.** -/
theorem RoomStep.keeps_player {lobbyId : LobbyId} {room room' : Room} {i : RoomInput} {uid : Uid}
    (h : RoomStep lobbyId room i room') (huid : uid ∈ room.lobby.players.keys) :
    uid ∈ room'.lobby.players.keys := by
  refine h.lobby_induction (P := fun lobby => uid ∈ lobby.players.keys) ?_ ?_ huid
  · intro now c lobby heffect
    exact heffect.keeps_player huid
  · intro now answer trigger lobby heffect
    show uid ∈ lobby.players.keys
    rw [heffect.seats.players]
    exact huid

/-- A committed join seats its player. -/
theorem joined_of_commit {lobbyId : LobbyId} {room : Room} {now : ℕ} {player : PlayerInfo}
    {uid : Uid} {lobby : Lobby}
    (hok : updateLobby lobbyId (addPlayerToLobby lobbyId player uid) now (some room.lobby)
      = .ok lobby) :
    uid ∈ (room.step lobbyId (.call now (.addPlayerToLobby player uid))).lobby.players.keys := by
  have hcall : updateLobby lobbyId ((Call.addPlayerToLobby player uid).transaction lobbyId) now
      (some room.lobby) = .ok lobby := hok
  obtain ⟨_, rfl⟩ := call_ok hcall
  show uid ∈ (room.commit lobbyId (addPlayerToLobby lobbyId player uid) now).lobby.players.keys
  rw [Room.commit, hok]
  exact Dict.mem_keys_set.mpr (Or.inl rfl)

/-! ### After the start -/

/-- Roster, player order and private banks name the same players.  The database keeps no empty
    bank, so a player is in `private` exactly if he has words. -/
structure Lobby.DealtIn (lobby : Lobby) : Prop where
  banks : ∀ uid, (∃ bank, lobby.targetWords.get? uid = some bank ∧ bank ≠ []) ↔
    uid ∈ lobby.players.keys
  order_nodup : lobby.playerOrder.Nodup
  order : ∀ uid, uid ∈ lobby.playerOrder ↔ uid ∈ lobby.players.keys

theorem Scheduled.dealtIn {settings : Settings} {lobby : Lobby} (h : Scheduled settings lobby)
    (hwords : WordsShared lobby) : lobby.DealtIn where
  banks := by
    intro uid
    rw [← h.banks_keys, Dict.mem_keys_iff]
    constructor
    · rintro ⟨bank, hbank, _⟩
      exact ⟨bank, hbank⟩
    · rintro ⟨bank, hbank⟩
      exact ⟨bank, hbank, hwords.banks_ne_nil uid bank hbank⟩
  order_nodup := h.order_nodup
  order := fun _ => h.order_perm.mem_iff

/-- The roster is closed: entries are rejected without a trace, and no later state has another
    roster or player order. -/
structure Room.Closed (lobbyId : LobbyId) (room : Room) : Prop where
  refuses : ∀ now c, c.Entry →
    (∃ failure, updateLobby lobbyId (c.transaction lobbyId) now (some room.lobby)
      = .error failure) ∧
    room.step lobbyId (.call now c) = room
  kept : ∀ room', (roomMachine lobbyId).Reaches anyInput room room' →
    room'.lobby.status ≠ .lobby ∧ room'.lobby.players.keys = room.lobby.players.keys ∧
      room'.lobby.playerOrder = room.lobby.playerOrder

/-- A started lobby refuses every entry. -/
theorem entry_refused (lobbyId : LobbyId) {lobby : Lobby} (hstarted : lobby.status ≠ .lobby)
    {c : Call} (hentry : c.Entry) (now : ℕ) :
    ∃ failure, updateLobby lobbyId (c.transaction lobbyId) now (some lobby) = .error failure := by
  have hrefuses : ∃ error, (c.transaction lobbyId).validateLobbyFn lobby = .ok (some error) := by
    cases hentry with
    | join player playerId =>
      simp only [Call.transaction, addPlayerToLobby, if_pos hstarted]
      exact ⟨_, rfl⟩
    | bot requesterId =>
      -- whoever asks, the host or somebody else
      by_cases hhost : lobby.hostId = requesterId
      · simp only [Call.transaction, addBot, hhost, ne_eq, not_true_eq_false, if_false,
          if_pos hstarted]
        exact ⟨_, rfl⟩
      · simp only [Call.transaction, addBot, if_pos hhost]
        exact ⟨_, rfl⟩
  obtain ⟨error, hvalid⟩ := hrefuses
  exact ⟨_, updateLobby_refuses lobbyId hvalid⟩

/-- A scheduled game keeps its seats for ever. -/
theorem Scheduled.kept {lobbyId : LobbyId} {settings : Settings} {room room' : Room}
    (h : Scheduled settings room.lobby)
    (hreach : (roomMachine lobbyId).Reaches anyInput room room') :
    Scheduled settings room'.lobby ∧ SameSeats room.lobby room'.lobby := by
  refine Machine.Reaches.invariant
    (I := fun later => Scheduled settings later.lobby ∧ SameSeats room.lobby later.lobby) ?_
    ⟨h, .refl _⟩ hreach
  rintro later i ⟨hs, hseats⟩ _
  exact ⟨hs.step i, hseats.trans ((Room.step_cases lobbyId later i).seats hs.started)⟩

theorem Scheduled.closed {settings : Settings} {room : Room} (h : Scheduled settings room.lobby)
    (lobbyId : LobbyId) : room.Closed lobbyId where
  refuses := by
    intro now c hentry
    obtain ⟨failure, herror⟩ := entry_refused lobbyId h.started hentry now
    refine ⟨⟨failure, herror⟩, ?_⟩
    show room.commit lobbyId (c.transaction lobbyId) now = room
    rw [Room.commit, herror]
  kept := by
    intro room' hreach
    obtain ⟨hs', hseats⟩ := h.kept hreach
    exact ⟨hs'.started, hseats.players, hseats.order⟩

/-- **Everyone in the lobby is dealt in.**  In whatever order players join, bots are added and
    the game is started and played: who joined stays on the roster, and in every started lobby
    the roster, the player order and the private banks are the same players, nobody enters any
    more, and roster and order are final. -/
theorem everyone_dealt_in {lobbyId : LobbyId} {room : Room}
    (h : Room.Reachable lobbyId anyInput room) :
    (∀ now player uid lobby,
      updateLobby lobbyId (addPlayerToLobby lobbyId player uid) now (some room.lobby) = .ok lobby →
      ∀ room', (roomMachine lobbyId).Reaches anyInput
        (room.step lobbyId (.call now (.addPlayerToLobby player uid))) room' →
        uid ∈ room'.lobby.players.keys) ∧
    (room.lobby.status ≠ .lobby → room.lobby.DealtIn ∧ room.Closed lobbyId) := by
  refine ⟨?_, fun hstarted => ?_⟩
  · intro now player uid lobby hok room' hreach
    refine Machine.Reaches.invariant (I := fun later => uid ∈ later.lobby.players.keys)
      (fun later i huid _ => (Room.step_cases lobbyId later i).keeps_player huid) ?_ hreach
    exact joined_of_commit hok
  · obtain ⟨settings, hs⟩ := scheduled_of_reachable h hstarted
    exact ⟨hs.dealtIn (wordsShared_of_reachable h hstarted), hs.closed lobbyId⟩

theorem everyone_dealt_in_sample :
    (sampleRoom (sampleStart ["ben"] 1 defaultSettings)).Closed "L" :=
  ((everyone_dealt_in (sampleRoom_reachable (admissible_anyInput _ _))).2
    (by decide +kernel)).2

end PasswordApp
