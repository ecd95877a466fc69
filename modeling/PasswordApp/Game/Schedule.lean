import PasswordApp.Game.Moves
import PasswordApp.Library.RoundRobin

namespace PasswordApp

/-!
# Game — seats and the turn schedule

A lobby is either not started or scheduled, whatever its users and triggers do.

* `SameSeats` — settings, player order, roster and the owners of the word banks, which no
  move of a started game changes;
* `Scheduled` — a started game: the turns go round the player order, all but the last are
  resolved, and the game ends after exactly `numRounds` rounds;
* `RoomStep.move_induction` — a property kept by the moves of a started game is kept by its steps;
* `Phase`, `Room.Reachable.phase` — a room is unstarted, or its game is scheduled and has what
  every deal establishes and every step keeps.

The equality test of `startNextTurnOrEndGame` cannot be skipped: a turn is pushed only when
the schedule is not full (`Scheduled.advance`), one at a time.
-/

/-! ### Seats -/

/-- The part of a lobby that is fixed when the game starts. -/
structure SameSeats (lobby lobby' : Lobby) : Prop where
  settings : lobby'.settings = lobby.settings
  order : lobby'.playerOrder = lobby.playerOrder
  players : lobby'.players.keys = lobby.players.keys
  banks : lobby'.targetWords.keys = lobby.targetWords.keys

theorem SameSeats.refl (lobby : Lobby) : SameSeats lobby lobby := ⟨rfl, rfl, rfl, rfl⟩

theorem SameSeats.trans {a b c : Lobby} (h : SameSeats a b) (h' : SameSeats b c) : SameSeats a c :=
  ⟨h'.settings.trans h.settings, h'.order.trans h.order, h'.players.trans h.players,
    h'.banks.trans h.banks⟩

theorem Advances.seats {lobby lobby' : Lobby} {status : Status} (h : Advances lobby lobby' status) :
    SameSeats lobby lobby' := by
  cases h with
  | gameOver => exact .refl _
  | nextTurn => exact ⟨rfl, rfl, rfl, rfl⟩

theorem WordPlayed.seats {word : Json} {lobby next : Lobby} (h : WordPlayed word lobby next) :
    SameSeats lobby next := by
  cases h with
  | awaitsVotes => exact ⟨rfl, rfl, rfl, rfl⟩
  | othersWord done t hturns otherId hother players hscored lobby' status hadvances =>
    have h := hadvances.seats
    exact ⟨h.settings, h.order, h.players.trans hscored.keys, h.banks⟩

theorem VotesCast.seats {votes : Votes} {tallied : ℕ} {lobby next : Lobby}
    (h : VotesCast votes tallied lobby next) : SameSeats lobby next := by
  cases h with
  | stillOpen => exact ⟨rfl, rfl, rfl, rfl⟩
  | tally hquorum done t hturns bank hbank hpayable players hscored lobby' status hadvances =>
    have h := hadvances.seats
    exact ⟨h.settings, h.order, h.players.trans hscored.keys, h.banks⟩

theorem Rerolled.seats {playerId : Uid} {lobby next : Lobby} (h : Rerolled playerId lobby next) :
    SameSeats lobby next := by
  obtain ⟨settings, hsettings, ditched, hbank, hpool, players, hcharged, pool, hperm⟩ := h
  exact ⟨rfl, rfl, (addScore_ok hcharged).2.1,
    Dict.keys_set_of_mem _ (Dict.mem_keys_of_get? hbank)⟩

theorem stored_seats (lobby : Lobby) : SameSeats lobby lobby.stored := ⟨rfl, rfl, rfl, rfl⟩

theorem stamp_seats (lobby : Lobby) (now : ℕ) : SameSeats lobby (lobby.stamp now) :=
  ⟨rfl, rfl, rfl, rfl⟩

/-- In a started game no callable touches the seats. -/
theorem CallEffect.seats {now : ℕ} {lobby lobby' : Lobby} {c : Call}
    (h : CallEffect now lobby c lobby') (hstarted : lobby.status ≠ .lobby) :
    SameSeats lobby lobby' := by
  cases c with
  | addPlayerToLobby player playerId => exact absurd h.1 hstarted
  | addBot requesterId => exact absurd h.2.1 hstarted
  | startGame playerId gameSettings random => exact absurd h.2.1 hstarted
  | submitWord playerId word =>
    obtain ⟨_, _, next, hplayed, rfl⟩ := h
    exact (stamp_seats lobby now).trans (hplayed.seats.trans (stored_seats next))
  | requestNewWords playerId random =>
    obtain ⟨_, next, hrolled, rfl⟩ := h
    exact (stamp_seats lobby now).trans (hrolled.seats.trans (stored_seats next))
  | voteOnWord playerId vote =>
    obtain ⟨_, _, _, k, next, _, hcast, rfl⟩ := h
    exact (stamp_seats lobby now).trans (hcast.seats.trans (stored_seats next))

/-- No trigger touches the seats. -/
theorem TriggerEffect.seats {now : ℕ} {answer : BotAnswer} {lobby lobby' : Lobby}
    {trigger : BotTrigger} (h : TriggerEffect now answer lobby trigger lobby') :
    SameSeats lobby lobby' := by
  cases trigger with
  | watchForBotVotes turn votingBotIds =>
    obtain ⟨k, next, _, hcast, rfl⟩ := h
    have hseats := hcast.seats
    exact ⟨hseats.settings, hseats.order, hseats.players, hseats.banks⟩
  | watchForBotTurns turn =>
    obtain ⟨next, hplayed, rfl⟩ := h
    have hseats := hplayed.seats
    exact ⟨hseats.settings, hseats.order, hseats.players, hseats.banks⟩

/-! ### The schedule -/

/-- Whose turn each turn is. -/
def Lobby.turnPlayers (lobby : Lobby) : List Uid := lobby.turns.map Turn.player

/-- A started game on schedule. -/
structure Scheduled (settings : Settings) (lobby : Lobby) : Prop where
  started : lobby.status ≠ .lobby
  settings_eq : lobby.settings = some settings
  order_perm : lobby.playerOrder.Perm lobby.players.keys
  order_ne_nil : lobby.playerOrder ≠ []
  banks_keys : lobby.targetWords.keys = lobby.players.keys
  roundRobin : RoundRobin lobby.playerOrder lobby.turnPlayers
  turns_pos : 0 < lobby.turns.length
  turns_le : lobby.turns.length ≤ settings.numRounds * lobby.playerOrder.length
  resolved : ∀ t ∈ lobby.turns.dropLast, t.Resolved
  done : lobby.status = .done → lobby.turns.length = settings.numRounds * lobby.playerOrder.length

namespace Scheduled

variable {settings : Settings} {lobby lobby' : Lobby}

theorem length_turnPlayers (lobby : Lobby) : lobby.turnPlayers.length = lobby.turns.length :=
  List.length_map _

theorem order_nodup (h : Scheduled settings lobby) : lobby.playerOrder.Nodup :=
  h.order_perm.nodup_iff.mpr lobby.players.keys_nodup

/-- The schedule is a property of the seats, the players of the turns and the status. -/
theorem of_seats (h : Scheduled settings lobby) (hseats : SameSeats lobby lobby')
    (hplayers : lobby'.turnPlayers = lobby.turnPlayers)
    (hres : ∀ t ∈ lobby'.turns.dropLast, t.Resolved) (hstarted : lobby'.status ≠ .lobby)
    (hdone : lobby'.status = .done →
      lobby.turns.length = settings.numRounds * lobby.playerOrder.length) :
    Scheduled settings lobby' := by
  have hlen : lobby'.turns.length = lobby.turns.length := by
    rw [← length_turnPlayers, hplayers, length_turnPlayers]
  exact {
    started := hstarted
    settings_eq := hseats.settings.trans h.settings_eq
    order_perm := by rw [hseats.order, hseats.players]; exact h.order_perm
    order_ne_nil := by rw [hseats.order]; exact h.order_ne_nil
    banks_keys := by rw [hseats.banks, hseats.players]; exact h.banks_keys
    roundRobin := by rw [hseats.order, hplayers]; exact h.roundRobin
    turns_pos := by rw [hlen]; exact h.turns_pos
    turns_le := by rw [hlen, hseats.order]; exact h.turns_le
    resolved := hres
    done := fun hst => by rw [hlen, hseats.order]; exact hdone hst }

/-- The list of turns is not empty. -/
theorem turns_eq (h : Scheduled settings lobby) : ∃ done t, lobby.turns = done ++ [t] := by
  have hne : lobby.turns ≠ [] := List.ne_nil_of_length_pos h.turns_pos
  exact ⟨lobby.turns.dropLast, lobby.turns.getLast hne, (List.dropLast_append_getLast hne).symm⟩

/-- The player of a turn is a player. -/
theorem player_mem (h : Scheduled settings lobby) {t : Turn} (ht : t ∈ lobby.turns) :
    t.player ∈ lobby.players.keys := by
  have hmem : t.player ∈ lobby.turnPlayers := List.mem_map.mpr ⟨t, ht, rfl⟩
  obtain ⟨k, hk⟩ := List.mem_iff_getElem?.mp hmem
  exact h.order_perm.mem_iff.mp (List.mem_of_getElem? (h.roundRobin k t.player hk))

theorem resolved_of_turns (h : Scheduled settings lobby) {done : List Turn} {t : Turn}
    (hturns : lobby.turns = done ++ [t]) : ∀ u ∈ done, u.Resolved := by
  have := h.resolved
  rwa [hturns, List.dropLast_concat] at this

/-- The current turn may be rewritten while it stays current. -/
theorem rewriteTurn (h : Scheduled settings lobby) {done : List Turn} {t t' : Turn}
    (hturns : lobby.turns = done ++ [t]) (hturns' : lobby'.turns = done ++ [t'])
    (hplayer : t'.player = t.player) (hseats : SameSeats lobby lobby')
    (hstatus : lobby'.status = .voting) : Scheduled settings lobby' := by
  refine h.of_seats hseats ?_ ?_ (by simp [hstatus]) (by simp [hstatus])
  · rw [Lobby.turnPlayers, Lobby.turnPlayers, hturns, hturns']
    simp [hplayer]
  · rw [hturns', List.dropLast_concat]
    exact h.resolved_of_turns hturns

/-- **Resolving a turn.**  Once the current turn has its outcome, advancing either finds the
    schedule full or adds the turn that is due. -/
theorem advance (h : Scheduled settings lobby) {done : List Turn} {t t' : Turn}
    (hturns : lobby.turns = done ++ [t]) {mid : Lobby} {status : Status}
    (hadvances : Advances mid lobby' status) (hmid : mid.turns = done ++ [t'])
    (hplayer : t'.player = t.player) (hres : t'.Resolved) (hseats : SameSeats lobby mid) :
    Scheduled settings { lobby' with status := status } := by
  -- the outcome changes neither who played nor how many turns there are
  have hplayers : mid.turnPlayers = lobby.turnPlayers := by
    rw [Lobby.turnPlayers, Lobby.turnPlayers, hturns, hmid]; simp [hplayer]
  have hlen : mid.turns.length = lobby.turns.length := by
    rw [← length_turnPlayers, hplayers, length_turnPlayers]
  -- with its outcome all turns are resolved, so a new one may follow
  have hall : ∀ u ∈ mid.turns, u.Resolved := by
    rw [hmid]
    intro u hu
    rcases List.mem_append.mp hu with hu | hu
    · exact h.resolved_of_turns hturns u hu
    · rw [List.mem_singleton.mp hu]; exact hres
  cases hadvances with
  | gameOver settings' hsettings hfull =>
    obtain rfl : settings = settings' := by
      rw [hseats.settings, h.settings_eq] at hsettings
      exact Option.some.inj hsettings
    refine h.of_seats ⟨hseats.settings, hseats.order, hseats.players, hseats.banks⟩ hplayers
      (fun u hu => hall u ((List.dropLast_sublist _).subset hu)) (by simp) (fun _ => ?_)
    rw [← hlen, ← hseats.order]; exact hfull
  | nextTurn settings' nextPlayer hsettings hopen hnext =>
    obtain rfl : settings = settings' := by
      rw [hseats.settings, h.settings_eq] at hsettings
      exact Option.some.inj hsettings
    -- not full and at most full: one more turn still fits
    have hle := h.turns_le
    rw [← hlen, ← hseats.order] at hle
    exact {
      started := by simp
      settings_eq := hseats.settings.trans h.settings_eq
      order_perm := by
        show mid.playerOrder.Perm mid.players.keys
        rw [hseats.order, hseats.players]; exact h.order_perm
      order_ne_nil := by
        show mid.playerOrder ≠ []
        rw [hseats.order]; exact h.order_ne_nil
      banks_keys := by
        show mid.targetWords.keys = mid.players.keys
        rw [hseats.banks, hseats.players]; exact h.banks_keys
      roundRobin := by
        have hrr : RoundRobin mid.playerOrder mid.turnPlayers := by
          rw [hseats.order, hplayers]; exact h.roundRobin
        have hpush : (mid.pushTurn nextPlayer).turnPlayers = mid.turnPlayers ++ [nextPlayer] := by
          simp [Lobby.turnPlayers, Lobby.pushTurn]
        show RoundRobin mid.playerOrder (mid.pushTurn nextPlayer).turnPlayers
        rw [hpush]
        exact hrr.concat (by rw [length_turnPlayers]; exact hnext)
      turns_pos := by simp [Lobby.pushTurn]
      turns_le := by
        show (mid.turns ++ [_]).length ≤ settings.numRounds * mid.playerOrder.length
        rw [List.length_append, List.length_singleton]
        omega
      resolved := by
        intro u hu
        have hmem : u ∈ mid.turns := by simpa [Lobby.pushTurn] using hu
        exact hall u hmem
      done := fun hst => by cases hst }

theorem stored (h : Scheduled settings lobby) : Scheduled settings lobby.stored := by
  refine h.of_seats (stored_seats lobby) ?_ ?_ h.started h.done
  · simp [Lobby.turnPlayers, Lobby.stored, Turn.stored]
  · show ∀ t ∈ (lobby.turns.map Turn.stored).dropLast, t.Resolved
    rw [← List.map_dropLast]
    intro t ht
    obtain ⟨u, hu, rfl⟩ := List.mem_map.mp ht
    exact (Turn.stored_resolved u).mpr (h.resolved u hu)

theorem wordPlayed (h : Scheduled settings lobby) {word : Json}
    (hplayed : WordPlayed word lobby lobby') : Scheduled settings lobby' := by
  have hseats := hplayed.seats
  cases hplayed with
  | awaitsVotes done t hturns hnone =>
    exact h.rewriteTurn hturns rfl rfl hseats rfl
  | othersWord done t hturns otherId hother players hscored lobby' status hadvances =>
    exact h.advance hturns hadvances rfl rfl (Or.inl rfl) ⟨rfl, rfl, hscored.keys, rfl⟩

theorem votesCast (h : Scheduled settings lobby) {votes : Votes} {tallied : ℕ}
    (hcast : VotesCast votes tallied lobby lobby') : Scheduled settings lobby' := by
  cases hcast with
  | stillOpen hopen =>
    exact h.of_seats ⟨rfl, rfl, rfl, rfl⟩ rfl h.resolved (by simp) (by simp)
  | tally hquorum done t hturns bank hbank hpayable players hscored lobby' status hadvances =>
    exact h.advance hturns hadvances rfl rfl (Or.inr (by simp [Turn.tally]))
      ⟨rfl, rfl, hscored.keys, rfl⟩

theorem rerolled (h : Scheduled settings lobby) {playerId : Uid}
    (hrolled : Rerolled playerId lobby lobby') : Scheduled settings lobby' := by
  have hseats := hrolled.seats
  obtain ⟨settings', hsettings, ditched, hbank, hpool, players, hcharged, pool, hperm⟩ := hrolled
  exact h.of_seats hseats rfl h.resolved h.started h.done

theorem dealt (hdealt : Dealt settings lobby lobby') : Scheduled settings lobby' := by
  obtain ⟨gameWords, random, hplayers, hwords, banks, hbanks, order, horder, firstPlayer, hfirst⟩ :=
    hdealt
  have hcount := (getGameWordsFrom_ok settings.wordBankSize_pos hwords).2.1
  have hne : order ≠ [] := fun h => hplayers (List.perm_nil.mp (h ▸ horder).symm)
  exact {
    started := by simp
    settings_eq := rfl
    order_perm := horder
    order_ne_nil := hne
    banks_keys := by
      show banks.keys = lobby.players.keys
      rw [Dict.keys, hbanks, List.map_fst_zip (le_of_eq hcount.symm)]
    roundRobin := (RoundRobin.nil order).concat (by simpa using hfirst)
    turns_pos := by simp [Lobby.pushTurn]
    turns_le := Nat.mul_pos settings.numRounds_pos (List.length_pos_of_ne_nil hne)
    resolved := by simp [Lobby.pushTurn]
    done := by simp }

theorem stamp (h : Scheduled settings lobby) (now : ℕ) : Scheduled settings (lobby.stamp now) :=
  h.of_seats ⟨rfl, rfl, rfl, rfl⟩ rfl h.resolved h.started h.done

/-- Flags are no part of the schedule. -/
theorem flags (h : Scheduled settings lobby) (awaitingBotVotes : List Uid)
    (awaitingBotTurn : Bool) : Scheduled settings { lobby with
      awaitingBotVotes := awaitingBotVotes
      awaitingBotTurn := awaitingBotTurn } :=
  h.of_seats ⟨rfl, rfl, rfl, rfl⟩ rfl h.resolved h.started h.done

/-- A started game stays on schedule under every callable. -/
theorem call {now : ℕ} {c : Call} (h : Scheduled settings lobby)
    (heffect : CallEffect now lobby c lobby') : Scheduled settings lobby' := by
  cases c with
  | addPlayerToLobby player playerId => exact absurd heffect.1 h.started
  | addBot requesterId => exact absurd heffect.2.1 h.started
  | startGame playerId gameSettings random => exact absurd heffect.2.1 h.started
  | submitWord playerId word =>
    obtain ⟨_, _, next, hplayed, rfl⟩ := heffect
    exact ((h.stamp now).wordPlayed hplayed).stored
  | requestNewWords playerId random =>
    obtain ⟨_, next, hrolled, rfl⟩ := heffect
    exact ((h.stamp now).rerolled hrolled).stored
  | voteOnWord playerId vote =>
    obtain ⟨_, _, _, k, next, _, hcast, rfl⟩ := heffect
    exact ((h.stamp now).votesCast hcast).stored

/-- A started game stays on schedule under both triggers, however late they come. -/
theorem trigger {now : ℕ} {answer : BotAnswer} {trigger : BotTrigger}
    (h : Scheduled settings lobby) (heffect : TriggerEffect now answer lobby trigger lobby') :
    Scheduled settings lobby' := by
  cases trigger with
  | watchForBotVotes turn votingBotIds =>
    obtain ⟨k, next, _, hcast, rfl⟩ := heffect
    exact (((h.stamp now).votesCast hcast).flags [] next.awaitingBotTurn).stored
  | watchForBotTurns turn =>
    obtain ⟨next, hplayed, rfl⟩ := heffect
    exact (((h.stamp now).wordPlayed hplayed).flags next.awaitingBotVotes false).stored

end Scheduled

/-- A property of lobbies that every commit keeps is kept by a room's step. -/
theorem RoomStep.lobby_induction {lobbyId : LobbyId} {P : Lobby → Prop} {room room' : Room}
    {i : RoomInput} (h : RoomStep lobbyId room i room')
    (hcall : ∀ now c lobby, CallEffect now room.lobby c lobby → P lobby)
    (htrigger : ∀ now answer trigger lobby,
      TriggerEffect now answer room.lobby trigger lobby → P lobby)
    (hP : P room.lobby) : P room'.lobby := by
  cases h with
  | rejected => exact hP
  | called now c lobby hok heffect => exact hcall now c lobby heffect
  | failed => exact hP
  | delivered now i answer trigger hpending lobby heffect =>
    exact htrigger now answer trigger lobby heffect
  | redelivered now i answer trigger hdelivered lobby heffect =>
    exact htrigger now answer trigger lobby heffect

/-- **Move rule.**  In a started game a word is played, votes are cast or words are exchanged; then
    a trigger takes its flag back, and the lobby is stored. -/
theorem RoomStep.move_induction {lobbyId : LobbyId} {P : Lobby → Prop} {room room' : Room}
    {i : RoomInput} (h : RoomStep lobbyId room i room') (hstarted : room.lobby.status ≠ .lobby)
    (hword : ∀ now word next, WordPlayed word (room.lobby.stamp now) next → P next)
    (hvotes : ∀ now votes tallied next, VotesCast votes tallied (room.lobby.stamp now) next →
      P next)
    (hwords : ∀ now playerId next, Rerolled playerId (room.lobby.stamp now) next → P next)
    (hvoted : ∀ next, P next → P { next with awaitingBotVotes := [] })
    (hplayed : ∀ next, P next → P { next with awaitingBotTurn := false })
    (hstored : ∀ next, P next → P next.stored)
    (hP : P room.lobby) : P room'.lobby := by
  refine h.lobby_induction ?_ ?_ hP
  · intro now c lobby heffect
    cases c with
    | addPlayerToLobby player playerId => exact absurd heffect.1 hstarted
    | addBot requesterId => exact absurd heffect.2.1 hstarted
    | startGame playerId gameSettings random => exact absurd heffect.2.1 hstarted
    | submitWord playerId word =>
      obtain ⟨_, _, next, hmove, rfl⟩ := heffect
      exact hstored _ (hword now word next hmove)
    | requestNewWords playerId random =>
      obtain ⟨_, next, hmove, rfl⟩ := heffect
      exact hstored _ (hwords now playerId next hmove)
    | voteOnWord playerId vote =>
      obtain ⟨_, _, _, k, next, _, hmove, rfl⟩ := heffect
      exact hstored _ (hvotes now _ _ next hmove)
  · intro now answer trigger lobby heffect
    cases trigger with
    | watchForBotVotes turn votingBotIds =>
      obtain ⟨k, next, _, hmove, rfl⟩ := heffect
      exact hstored _ (hvoted next (hvotes now _ _ next hmove))
    | watchForBotTurns turn =>
      obtain ⟨next, hmove, rfl⟩ := heffect
      exact hstored _ (hplayed next (hword now _ next hmove))

theorem Scheduled.step {settings : Settings} {lobbyId : LobbyId} {room : Room}
    (h : Scheduled settings room.lobby) (i : RoomInput) :
    Scheduled settings (room.step lobbyId i).lobby :=
  (Room.step_cases lobbyId room i).lobby_induction (fun _ _ _ heffect => h.call heffect)
    (fun _ _ _ _ heffect => h.trigger heffect) h

/-! ### The two phases of a room -/

/-- A room whose game has not started: nothing of a game is there, nobody has scored and no
    trigger has fired. -/
structure Unstarted (room : Room) : Prop where
  status : room.lobby.status = .lobby
  turns : room.lobby.turns = []
  votes : room.lobby.votes = ∅
  awaitingBotVotes : room.lobby.awaitingBotVotes = []
  awaitingBotTurn : room.lobby.awaitingBotTurn = false
  scores : ∀ uid, scoreOf room.lobby.players uid = 0
  pending : room.pending = []
  delivered : room.delivered = []

theorem unstarted_initial (hostId : Uid) : Unstarted (Room.initial hostId) :=
  ⟨rfl, rfl, rfl, rfl, rfl, fun _ => rfl, rfl, rfl⟩

theorem scoreOf_set (players : Dict Uid Player) (uid u : Uid) (player : Player) :
    scoreOf (players.set uid player) u = if u = uid then player.score else scoreOf players u := by
  unfold scoreOf
  rw [Dict.get?_set]
  split <;> rfl

/-- A newcomer may take a seat in an unstarted room, with score `0`. -/
theorem Unstarted.seat {room : Room} (h : Unstarted room) (now : ℕ) (uid : Uid) (player : Player)
    (hscore : player.score = 0) :
    Unstarted (room.store (Lobby.stored
      { room.lobby.stamp now with players := room.lobby.players.set uid player })) where
  status := h.status
  turns := by simp [Room.store, Lobby.stored, Lobby.stamp, h.turns]
  votes := by simp [Room.store, Lobby.stored, Lobby.stamp, h.votes]; rfl
  awaitingBotVotes := h.awaitingBotVotes
  awaitingBotTurn := h.awaitingBotTurn
  scores := by
    intro u
    show scoreOf (room.lobby.players.set uid player) u = 0
    rw [scoreOf_set, h.scores u, hscore]
    split <;> rfl
  pending := by
    simp [Room.store, firedTriggers, Lobby.stored, Lobby.stamp, h.pending, h.awaitingBotVotes,
      h.awaitingBotTurn]
  delivered := h.delivered

/-- A room is unstarted, or its game is on schedule and has the property `P`. -/
inductive Phase (P : Settings → Room → Prop) (room : Room) : Prop
  | unstarted (h : Unstarted room)
  | started (settings : Settings) (h : Scheduled settings room.lobby) (hP : P settings room)

section Phase

variable {P : Settings → Room → Prop} {lobbyId : LobbyId} {G : Room → RoomInput → Prop}
    {room : Room}

theorem Phase.game (h : Phase P room) (hstatus : room.lobby.status ≠ .lobby) :
    ∃ settings, Scheduled settings room.lobby ∧ P settings room := by
  cases h with
  | unstarted h => exact absurd h.status hstatus
  | started settings h hP => exact ⟨settings, h, hP⟩

/-- An unstarted room stays so, or its game is dealt. -/
theorem Unstarted.step (h : Unstarted room) {i : RoomInput} {room' : Room}
    (hstep : RoomStep lobbyId room i room') :
    Unstarted room' ∨ ∃ now settings next, Dealt settings (room.lobby.stamp now) next ∧
      room' = room.store next.stored := by
  have hstatus := h.status
  cases hstep with
  | rejected => exact Or.inl h
  | called now c lobby hok heffect =>
    cases c with
    | addPlayerToLobby player playerId =>
      obtain ⟨_, rfl⟩ := heffect
      exact Or.inl (h.seat now playerId player.seat rfl)
    | addBot requesterId =>
      obtain ⟨_, _, _, rfl⟩ := heffect
      exact Or.inl (h.seat now _ _ rfl)
    | startGame playerId gameSettings random =>
      obtain ⟨_, _, next, hdealt, rfl⟩ := heffect
      exact Or.inr ⟨now, gameSettings, next, hdealt, rfl⟩
    | submitWord playerId word => simp [CallEffect, hstatus] at heffect
    | requestNewWords playerId random => simp [CallEffect, hstatus] at heffect
    | voteOnWord playerId vote => simp [CallEffect, hstatus] at heffect
  -- no trigger has fired yet
  | failed now i answer trigger hpending => simp [h.pending] at hpending
  | delivered now i answer trigger hpending => simp [h.pending] at hpending
  | redelivered now i answer trigger hdelivered => simp [h.delivered] at hdelivered

/-- **Invariant rule for games.**  What holds of every freshly dealt game and is kept by every
    admissible step of a started game holds of every started game reached. -/
theorem Room.Reachable.phase
    (hdealt : ∀ room now settings next, Unstarted room →
      Dealt settings (room.lobby.stamp now) next → P settings (room.store next.stored))
    (hstep : ∀ settings room i room', Scheduled settings room.lobby → P settings room → G room i →
      RoomStep lobbyId room i room' → P settings room')
    (h : Room.Reachable lobbyId G room) : Phase P room := by
  refine Room.Reachable.invariant (fun hostId => .unstarted (unstarted_initial hostId)) ?_ h
  intro room i hphase hG
  have hcases := Room.step_cases lobbyId room i
  cases hphase with
  | started settings hs hP =>
    exact .started settings (hs.step i) (hstep settings room i _ hs hP hG hcases)
  | unstarted hun =>
    -- the only way out of the first phase is the deal
    rcases hun.step hcases with hun' | ⟨now, settings, next, hdeal, hroom⟩
    · exact .unstarted hun'
    · rw [hroom]
      exact .started settings (Scheduled.dealt hdeal).stored
        (hdealt room now settings next hun hdeal)

end Phase

/-- **Every started lobby is on schedule**, whatever its users and triggers do. -/
theorem scheduled_of_reachable {lobbyId : LobbyId} {G : Room → RoomInput → Prop} {room : Room}
    (h : Room.Reachable lobbyId G room) (hstarted : room.lobby.status ≠ .lobby) :
    ∃ settings, Scheduled settings room.lobby := by
  have hphase : Phase (fun _ _ => True) room :=
    h.phase (fun _ _ _ _ _ _ => trivial) (fun _ _ _ _ _ _ _ _ => trivial)
  obtain ⟨settings, hs, _⟩ := hphase.game hstarted
  exact ⟨settings, hs⟩

/-- **Turn schedule.**  Whatever the callers and the triggers do, and in whatever order, the
    turns of a started lobby go round the player order, there is at least one and at most
    `numRounds` rounds of them, all before the last are resolved, and a finished game gave
    every player exactly `numRounds` turns. -/
theorem turn_schedule {lobbyId : LobbyId} {room : Room}
    (h : Room.Reachable lobbyId anyInput room) (hstarted : room.lobby.status ≠ .lobby) :
    ∃ settings, room.lobby.settings = some settings ∧
      (∀ k t, room.lobby.turns[k]? = some t →
        room.lobby.playerOrder[k % room.lobby.playerOrder.length]? = some t.player) ∧
      1 ≤ room.lobby.turns.length ∧
      room.lobby.turns.length ≤ settings.numRounds * room.lobby.playerOrder.length ∧
      (∀ k t, k + 1 < room.lobby.turns.length → room.lobby.turns[k]? = some t →
        t.wasOthersWord = true ∨ t.wasSubmittersWord ≠ none) ∧
      (room.lobby.status = .done →
        room.lobby.turns.length = settings.numRounds * room.lobby.playerOrder.length ∧
        ∀ uid ∈ room.lobby.players.keys,
          (room.lobby.turns.filter (fun t => t.player = uid)).length = settings.numRounds) := by
  obtain ⟨settings, hs⟩ := scheduled_of_reachable h hstarted
  refine ⟨settings, hs.settings_eq, ?_, hs.turns_pos, hs.turns_le, ?_, fun hdone => ?_⟩
  · intro k t ht
    exact hs.roundRobin k t.player (by rw [Lobby.turnPlayers, List.getElem?_map, ht]; rfl)
  · intro k t hk ht
    refine hs.resolved t (List.mem_of_getElem? (i := k) ?_)
    rw [List.getElem?_dropLast, if_pos (by omega)]
    exact ht
  · have hlen := hs.done hdone
    refine ⟨hlen, fun uid huid => ?_⟩
    -- full rounds give everyone one turn each
    have hcount := hs.roundRobin.count_eq
      (by rw [Scheduled.length_turnPlayers]; exact hlen) hs.order_nodup
      (hs.order_perm.mem_iff.mpr huid)
    rw [Lobby.turnPlayers, List.count, List.countP_map, List.countP_eq_length_filter] at hcount
    simpa only [Function.comp_def, beq_eq_decide] using hcount

/-! ### A sample game -/

/-- A profile as the clients send it. -/
def samplePlayer : PlayerInfo where
  displayName := some (.str "Ann")
  colorNumber := some (.num 1)
  emojiNumber := some (.num 1)

/-- One round, default banks. -/
def sampleSettings : Settings :=
  { defaultSettings with numRounds := 1, numRounds_pos := Nat.le_refl 1 }

/-- Every draw is `0`. -/
def zeroDraws : ℕ → Draw := fun _ => Draw.zero

/-- The host `ann` and `guests` enter and `bots` bots are added. -/
def sampleEntry (guests : List Uid) (bots : ℕ) : List RoomInput :=
  ("ann" :: guests).map (fun uid => .call 0 (.addPlayerToLobby samplePlayer uid)) ++
  List.replicate bots (.call 0 (.addBot "ann"))

/-- They enter, and the game starts. -/
def sampleStart (guests : List Uid) (bots : ℕ) (settings : Settings) : List RoomInput :=
  sampleEntry guests bots ++ [.call 0 (.startGame "ann" settings ⟨zeroDraws, zeroDraws⟩)]

/-- The room of `ann` after some inputs. -/
def sampleRoom (inputs : List RoomInput) : Room :=
  (roomMachine "L").run (Room.initial "ann") inputs

theorem sampleRoom_reachable {G : Room → RoomInput → Prop} {inputs : List RoomInput}
    (h : (roomMachine "L").Admissible G (Room.initial "ann") inputs) :
    Room.Reachable "L" G (sampleRoom inputs) :=
  ⟨"ann", inputs, h, rfl⟩

theorem admissible_anyInput (room : Room) (inputs : List RoomInput) :
    (roomMachine "L").Admissible anyInput room inputs := by
  induction inputs generalizing room with
  | nil => trivial
  | cons i inputs ih => exact ⟨trivial, ih _⟩

/-- `ben` and `ann` play one round; no word is anybody's, and each passes on the other's. -/
def sampleRound : List RoomInput :=
  sampleStart ["ben"] 0 sampleSettings ++
    [.call 1 (.submitWord "ben" (.str "zebra")), .call 2 (.voteOnWord "ann" (.bool false)),
      .call 3 (.submitWord "ann" (.str "zebra")), .call 4 (.voteOnWord "ben" (.bool false))]

/-- Their game is over after two turns. -/
theorem turn_schedule_sample :
    ∃ lobby settings, lobby = (sampleRoom sampleRound).lobby ∧
      lobby.status = .done ∧ lobby.turns.length = 2 ∧
      lobby.settings = some settings ∧
      (∀ k t, lobby.turns[k]? = some t →
        lobby.playerOrder[k % lobby.playerOrder.length]? = some t.player) ∧
      1 ≤ lobby.turns.length ∧
      lobby.turns.length ≤ settings.numRounds * lobby.playerOrder.length ∧
      (∀ k t, k + 1 < lobby.turns.length → lobby.turns[k]? = some t →
        t.wasOthersWord = true ∨ t.wasSubmittersWord ≠ none) ∧
      (lobby.status = .done →
        lobby.turns.length = settings.numRounds * lobby.playerOrder.length ∧
        ∀ uid ∈ lobby.players.keys,
          (lobby.turns.filter (fun t => t.player = uid)).length = settings.numRounds) := by
  have hdone : (sampleRoom sampleRound).lobby.status = .done := by decide +kernel
  have hturns : (sampleRoom sampleRound).lobby.turns.length = 2 := by decide +kernel
  obtain ⟨settings, hschedule⟩ :=
    turn_schedule (sampleRoom_reachable (admissible_anyInput _ sampleRound))
      (by rw [hdone]; exact Status.noConfusion)
  exact ⟨_, settings, rfl, hdone, hturns, hschedule⟩

end PasswordApp
