import PasswordApp.Game.Commits

namespace PasswordApp

/-!
# Game — steps without stale triggers

The bot triggers validate nothing, so a late one rewrites whatever the game has become.  A
run is **orderly** if nobody submits in place of a bot, no vote completes the ballots while
the votes of the bots are in flight, and no event runs twice.

* `Orderly` — the guard of such runs;
* `Tidy` — at most one trigger is pending, and it belongs to the phase the game is in;
* `GameStep` — what a step of a started game can then do;
* `Tidy.gameStep`, `Tidy.step` — orderly steps are such, and keep the game tidy.
-/

/-! ### Fired triggers -/

theorem Advances.awaitingBotVotes {lobby lobby' : Lobby} {status : Status}
    (h : Advances lobby lobby' status) : lobby'.awaitingBotVotes = lobby.awaitingBotVotes := by
  cases h <;> rfl

theorem Advances.votes {lobby lobby' : Lobby} {status : Status} (h : Advances lobby lobby' status) :
    lobby'.votes = lobby.votes := by
  cases h <;> rfl

theorem VotesCast.awaitingBotVotes {votes : Votes} {tallied : ℕ} {lobby next : Lobby}
    (h : VotesCast votes tallied lobby next) : next.awaitingBotVotes = lobby.awaitingBotVotes := by
  cases h with
  | stillOpen => rfl
  | tally hquorum done t hturns bank hbank hpayable players hscored lobby' status hadvances =>
    exact hadvances.awaitingBotVotes

/-- A commit that does not fill `awaitingBotVotes` can only fire a turn trigger. -/
theorem firedTriggers_turn {before after : Lobby}
    (h : after.awaitingBotVotes = before.awaitingBotVotes ∨ after.awaitingBotVotes = []) :
    firedTriggers before after =
      if before.awaitingBotTurn = false ∧ after.awaitingBotTurn = true then
        [.watchForBotTurns after.turns.length] else [] := by
  have hvotes : ¬ (before.awaitingBotVotes = [] ∧ after.awaitingBotVotes ≠ []) := by
    rintro ⟨hbefore, hafter⟩
    rcases h with heq | hnil
    · exact hafter (heq.trans hbefore)
    · exact hafter hnil
  rw [firedTriggers, if_neg hvotes, List.nil_append]

/-- A commit that does not raise `awaitingBotTurn` can only fire a vote trigger. -/
theorem firedTriggers_votes {before after : Lobby}
    (h : after.awaitingBotTurn = true → before.awaitingBotTurn = true) :
    firedTriggers before after =
      if before.awaitingBotVotes = [] ∧ after.awaitingBotVotes ≠ [] then
        [.watchForBotVotes after.turns.length after.awaitingBotVotes] else [] := by
  have hturn : ¬ (before.awaitingBotTurn = false ∧ after.awaitingBotTurn = true) := by
    rintro ⟨hbefore, hafter⟩
    rw [h hafter] at hbefore
    cases hbefore
  rw [firedTriggers, if_neg hturn, List.append_nil]

/-! ### Genuine triggers -/

/-- The lobby waits for the votes of bots of its roster. -/
def Lobby.AwaitsBots (lobby : Lobby) : Prop :=
  ∀ uid ∈ lobby.awaitingBotVotes, isBot uid = true ∧ uid ∈ lobby.players.keys

theorem votingBots_genuine {lobby : Lobby} {submitter uid : Uid}
    (h : uid ∈ votingBots lobby submitter) : isBot uid = true ∧ uid ∈ lobby.players.keys := by
  rw [votingBots, List.mem_filter, Bool.and_eq_true] at h
  exact ⟨h.2.1, h.1⟩

namespace Lobby.AwaitsBots

variable {lobby next : Lobby}

theorem congr (h : lobby.AwaitsBots) (hids : next.awaitingBotVotes = lobby.awaitingBotVotes)
    (hkeys : next.players.keys = lobby.players.keys) : next.AwaitsBots := by
  intro uid huid
  rw [hids] at huid
  rw [hkeys]
  exact h uid huid

theorem wordPlayed (h : lobby.AwaitsBots) {word : Json} (hplayed : WordPlayed word lobby next) :
    next.AwaitsBots := by
  have hkeys := hplayed.seats.players
  cases hplayed with
  | awaitsVotes done t hturns hnone =>
    intro uid huid
    exact votingBots_genuine huid
  | othersWord done t hturns otherId hother players hscored lobby' status hadvances =>
    exact h.congr hadvances.awaitingBotVotes hkeys

theorem call {now : ℕ} {c : Call} (h : lobby.AwaitsBots) (hstarted : lobby.status ≠ .lobby)
    (heffect : CallEffect now lobby c next) : next.AwaitsBots := by
  have hkeys := (heffect.seats hstarted).players
  cases c with
  | addPlayerToLobby player playerId => exact absurd heffect.1 hstarted
  | addBot requesterId => exact absurd heffect.2.1 hstarted
  | startGame playerId gameSettings random => exact absurd heffect.2.1 hstarted
  | submitWord playerId word =>
    obtain ⟨_, _, mid, hplayed, rfl⟩ := heffect
    have hstamp : (lobby.stamp now).AwaitsBots := h
    have hmid : mid.AwaitsBots := hstamp.wordPlayed hplayed
    exact hmid
  | requestNewWords playerId random =>
    obtain ⟨_, mid, hrolled, rfl⟩ := heffect
    obtain ⟨_, _, _, _, _, _, _, _, _⟩ := hrolled
    exact h.congr rfl hkeys
  | voteOnWord playerId vote =>
    obtain ⟨_, _, _, k, mid, _, hcast, rfl⟩ := heffect
    exact h.congr hcast.awaitingBotVotes hkeys

theorem trigger {now : ℕ} {answer : BotAnswer} {trigger : BotTrigger} (h : lobby.AwaitsBots)
    (heffect : TriggerEffect now answer lobby trigger next) : next.AwaitsBots := by
  cases trigger with
  | watchForBotVotes turn votingBotIds =>
    obtain ⟨k, mid, _, hcast, rfl⟩ := heffect
    intro uid huid
    cases huid
  | watchForBotTurns turn =>
    obtain ⟨mid, hplayed, rfl⟩ := heffect
    have hstamp : (lobby.stamp now).AwaitsBots := h
    have hmid : mid.AwaitsBots := hstamp.wordPlayed hplayed
    exact hmid

end Lobby.AwaitsBots

/-- A batch is never empty and votes for bots of the roster. -/
def BotTrigger.Genuine (lobby : Lobby) : BotTrigger → Prop
  | .watchForBotVotes _ votingBotIds =>
      votingBotIds ≠ [] ∧ ∀ uid ∈ votingBotIds, isBot uid = true ∧ uid ∈ lobby.players.keys
  | .watchForBotTurns _ => True

/-- All events of a room, also those whose transaction has run, are genuine. -/
structure GenuineTriggers (room : Room) : Prop where
  awaits : room.lobby.AwaitsBots
  events : ∀ trigger, trigger ∈ room.pending ∨ trigger ∈ room.delivered →
    trigger.Genuine room.lobby

theorem BotTrigger.Genuine.congr {lobby lobby' : Lobby} {trigger : BotTrigger}
    (h : trigger.Genuine lobby) (hkeys : lobby'.players.keys = lobby.players.keys) :
    trigger.Genuine lobby' := by
  cases trigger with
  | watchForBotVotes turn votingBotIds =>
    refine ⟨h.1, fun uid huid => ?_⟩
    rw [hkeys]
    exact h.2 uid huid
  | watchForBotTurns turn => trivial

theorem firedTriggers_genuine {before after : Lobby} (h : after.AwaitsBots) :
    ∀ trigger ∈ firedTriggers before after, trigger.Genuine after := by
  intro trigger htrigger
  rw [firedTriggers, List.mem_append] at htrigger
  rcases htrigger with hvotes | hturn
  · split at hvotes
    · rename_i hfired
      rw [List.mem_singleton.mp hvotes]
      exact ⟨hfired.2, h⟩
    · cases hvotes
  · split at hturn
    · rw [List.mem_singleton.mp hturn]
      trivial
    · cases hturn

/-- A commit of a started game keeps its events genuine and fires genuine ones. -/
theorem GenuineTriggers.store {room : Room} {lobby : Lobby} (h : GenuineTriggers room)
    (hawaits : lobby.AwaitsBots) (hkeys : lobby.players.keys = room.lobby.players.keys) :
    GenuineTriggers (room.store lobby) := by
  refine ⟨hawaits, ?_⟩
  rintro trigger (hpending | hdelivered)
  · rcases List.mem_append.mp hpending with hold | hnew
    · exact (h.events trigger (Or.inl hold)).congr hkeys
    · exact firedTriggers_genuine hawaits trigger hnew
  · exact (h.events trigger (Or.inr hdelivered)).congr hkeys

theorem GenuineTriggers.take {room : Room} {i : ℕ} {trigger : BotTrigger} (h : GenuineTriggers room)
    (hpending : room.pending[i]? = some trigger) : GenuineTriggers (room.take i trigger) := by
  refine ⟨h.awaits, ?_⟩
  rintro u (hu | hu)
  · exact h.events u (Or.inl (List.mem_of_mem_eraseIdx hu))
  · rcases List.mem_append.mp hu with hu | hu
    · exact h.events u (Or.inr hu)
    · rw [List.mem_singleton.mp hu]
      exact h.events trigger (Or.inl (List.mem_of_getElem? hpending))

theorem GenuineTriggers.step {lobbyId : LobbyId} {room room' : Room} {i : RoomInput}
    (h : GenuineTriggers room) (hstarted : room.lobby.status ≠ .lobby)
    (hstep : RoomStep lobbyId room i room') : GenuineTriggers room' := by
  cases hstep with
  | rejected => exact h
  | called now c lobby hok heffect =>
    exact h.store (h.awaits.call hstarted heffect) (heffect.seats hstarted).players
  | failed now i answer trigger hpending => exact h.take hpending
  | delivered now i answer trigger hpending lobby heffect =>
    exact (h.take hpending).store (h.awaits.trigger heffect) heffect.seats.players
  | redelivered now i answer trigger hdelivered lobby heffect =>
    exact h.store (h.awaits.trigger heffect) heffect.seats.players

/-! ### The discipline -/

instance (lobby : Lobby) (uid : Uid) : Decidable (lobby.OnTurn uid) :=
  decidable_of_iff (lobby.turns.getLast?.map Turn.player = some uid) (by
    constructor
    · intro h
      obtain ⟨t, ht, hplayer⟩ := Option.map_eq_some_iff.mp h
      exact ⟨lobby.turns.dropLast, t, (List.dropLast_append_getLast? t ht).symm, hplayer⟩
    · rintro ⟨done, t, hturns, rfl⟩
      rw [hturns, List.getLast?_concat]; rfl)

/-- The guard of orderly runs. -/
def Orderly (room : Room) : RoomInput → Prop
  | .call _ (.submitWord uid _) =>
      room.lobby.status = .submission → room.lobby.OnTurn uid → room.pending = []
  | .call _ (.voteOnWord uid vote) =>
      room.lobby.status = .voting → ¬ room.lobby.OnTurn uid →
        (room.lobby.votes.set uid vote).size + 1 = room.lobby.playerOrder.length →
        room.pending = []
  | .redeliver _ _ _ => False
  | _ => True

instance (room : Room) : ∀ i, Decidable (Orderly room i)
  | .call _ (.submitWord uid _) => inferInstanceAs (Decidable (_ → room.lobby.OnTurn uid → _))
  | .call _ (.voteOnWord uid _) => inferInstanceAs (Decidable (_ → ¬ room.lobby.OnTurn uid → _ → _))
  | .redeliver _ _ _ => inferInstanceAs (Decidable False)
  | .call _ (.addPlayerToLobby _ _) => inferInstanceAs (Decidable True)
  | .call _ (.addBot _) => inferInstanceAs (Decidable True)
  | .call _ (.startGame _ _ _) => inferInstanceAs (Decidable True)
  | .call _ (.requestNewWords _ _) => inferInstanceAs (Decidable True)
  | .deliver _ _ _ => inferInstanceAs (Decidable True)

/-- The events that may be pending in a phase. -/
def TidyPending (pending : List BotTrigger) : Status → Prop
  | .lobby => pending = []
  | .submission => pending = [] ∨ ∃ turn, pending = [.watchForBotTurns turn]
  | .voting => pending = [] ∨ ∃ turn ids, pending = [.watchForBotVotes turn ids]
  | .done => pending = []

/-- A game whose pending trigger and current turn fit its status. -/
structure Tidy (room : Room) : Prop where
  pending : TidyPending room.pending room.lobby.status
  stored : room.lobby.stored = room.lobby
  current : ∀ done t, room.lobby.turns = done ++ [t] → (t.Resolved ↔ room.lobby.status = .done)
  submitted : ∀ t ∈ room.lobby.turns, t.Resolved → t.submittedWord ≠ none
  voting : room.lobby.status = .voting →
    ∀ done t, room.lobby.turns = done ++ [t] → t.submittedWord ≠ none

theorem TidyPending.nil (status : Status) : TidyPending [] status := by
  cases status with
  | lobby => rfl
  | submission => exact Or.inl rfl
  | voting => exact Or.inl rfl
  | done => rfl

/-- At most one event is pending. -/
theorem TidyPending.take {pending : List BotTrigger} {status : Status}
    (h : TidyPending pending status) {i : ℕ} {trigger : BotTrigger}
    (hget : pending[i]? = some trigger) : pending = [trigger] ∧ pending.eraseIdx i = [] := by
  -- in every phase there is at most one event
  have hsingle : pending = [] ∨ ∃ only, pending = [only] := by
    cases status with
    | lobby => exact Or.inl h
    | submission => exact h.imp_right (fun ⟨turn, heq⟩ => ⟨_, heq⟩)
    | voting => exact h.imp_right (fun ⟨turn, ids, heq⟩ => ⟨_, heq⟩)
    | done => exact Or.inl h
  rcases hsingle with rfl | ⟨only, rfl⟩
  · simp at hget
  · cases i with
    | zero =>
      obtain rfl : only = trigger := by simpa using hget
      exact ⟨rfl, rfl⟩
    | succ i => simp at hget

/-- A batch is pending in the vote only. -/
theorem Tidy.voting_of_votes {room : Room} {turn : ℕ} {ids : List Uid} (h : Tidy room)
    (hpending : room.pending = [.watchForBotVotes turn ids]) : room.lobby.status = .voting := by
  have htidy := h.pending
  rw [hpending] at htidy
  cases hstatus : room.lobby.status with
  | voting => rfl
  | lobby => simp [hstatus, TidyPending] at htidy
  | submission => simp [hstatus, TidyPending] at htidy
  | done => simp [hstatus, TidyPending] at htidy

/-- A turn trigger is pending before the word only. -/
theorem Tidy.submission_of_turns {room : Room} {turn : ℕ} (h : Tidy room)
    (hpending : room.pending = [.watchForBotTurns turn]) : room.lobby.status = .submission := by
  have htidy := h.pending
  rw [hpending] at htidy
  cases hstatus : room.lobby.status with
  | submission => rfl
  | lobby => simp [hstatus, TidyPending] at htidy
  | voting => simp [hstatus, TidyPending] at htidy
  | done => simp [hstatus, TidyPending] at htidy

theorem stored_turns {lobby : Lobby} (h : lobby.stored = lobby) :
    lobby.turns.map Turn.stored = lobby.turns :=
  congrArg Lobby.turns h

theorem stored_votes {lobby : Lobby} (h : lobby.stored = lobby) :
    lobby.votes.stored = lobby.votes :=
  congrArg Lobby.votes h

/-- What is read back after a commit is stored as it is. -/
theorem RoomStep.stored {lobbyId : LobbyId} {room room' : Room} {i : RoomInput}
    (hstep : RoomStep lobbyId room i room') (h : room.lobby.stored = room.lobby) :
    room'.lobby.stored = room'.lobby := by
  refine hstep.lobby_induction (P := fun lobby => lobby.stored = lobby) ?_ ?_ h
  · intro now c lobby heffect
    cases c with
    | addPlayerToLobby player playerId => rw [heffect.2, Lobby.stored_stored]
    | addBot requesterId => rw [heffect.2.2.2, Lobby.stored_stored]
    | startGame playerId gameSettings random =>
      obtain ⟨_, _, next, _, rfl⟩ := heffect
      exact Lobby.stored_stored next
    | submitWord playerId word =>
      obtain ⟨_, _, next, _, rfl⟩ := heffect
      exact Lobby.stored_stored next
    | requestNewWords playerId random =>
      obtain ⟨_, next, _, rfl⟩ := heffect
      exact Lobby.stored_stored next
    | voteOnWord playerId vote =>
      obtain ⟨_, _, _, k, next, _, _, rfl⟩ := heffect
      exact Lobby.stored_stored next
  · intro now answer trigger lobby heffect
    cases trigger with
    | watchForBotVotes turn votingBotIds =>
      obtain ⟨k, next, _, _, rfl⟩ := heffect
      exact Lobby.stored_stored _
    | watchForBotTurns turn =>
      obtain ⟨next, _, rfl⟩ := heffect
      exact Lobby.stored_stored _

/-- A step of a started game keeps the seats. -/
theorem RoomStep.seats {lobbyId : LobbyId} {room room' : Room} {i : RoomInput}
    (hstep : RoomStep lobbyId room i room') (hstarted : room.lobby.status ≠ .lobby) :
    SameSeats room.lobby room'.lobby :=
  hstep.lobby_induction (P := SameSeats room.lobby) (fun _ _ _ heffect => heffect.seats hstarted)
    (fun _ _ _ _ heffect => heffect.seats) (.refl _)

/-! ### The steps of a started game -/

/-- Who plays a word: the player on turn, no trigger being pending, or the pending trigger,
    which clears `awaitingBotTurn` at the end. -/
inductive PlaysWord (room : Room) : RoomInput → Json → Bool → Prop
  | player (now : ℕ) (uid : Uid) (word : Json) (hturn : room.lobby.OnTurn uid)
      (hpending : room.pending = []) :
      PlaysWord room (.call now (.submitWord uid word)) word false
  | bot (now i : ℕ) (answer : BotAnswer) (turn : ℕ)
      (hevent : room.pending[i]? = some (.watchForBotTurns turn))
      (hpending : room.pending = [.watchForBotTurns turn]) :
      PlaysWord room (.deliver now i answer) (.str answer.word) true

/-- Who casts which ballots, and the triggers left pending: one user, completing the ballots
    only if no trigger is pending, or the bots. -/
inductive CastsVotes (room : Room) : RoomInput → Votes → List BotTrigger → Prop
  | user (now : ℕ) (uid : Uid) (vote : Json) (hother : ¬ room.lobby.OnTurn uid)
      (hfresh : truthy? (room.lobby.votes.get? uid) = false)
      (hpending : (room.lobby.votes.set uid vote).size + 1 = room.lobby.playerOrder.length →
        room.pending = []) :
      CastsVotes room (.call now (.voteOnWord uid vote)) (room.lobby.votes.set uid vote)
        room.pending
  | bots (now i : ℕ) (answer : BotAnswer) (turn : ℕ) (ids : List Uid)
      (hpending : room.pending = [.watchForBotVotes turn ids]) :
      CastsVotes room (.deliver now i answer)
        (castBotVotes room.lobby.votes ids answer.challenge answer.random) []

/-- The game goes on after the turns `turns`, all resolved. -/
inductive NextTurn (room : Room) (turns : List Turn) (cleared : Bool) (room' : Room) : Prop
  | gameOver (hstatus : room'.lobby.status = .done) (hturns : room'.lobby.turns = turns)
      (hawaiting : room'.lobby.awaitingBotTurn = (!cleared && room.lobby.awaitingBotTurn))
      (hpending : room'.pending = [])
  | nextTurn (nextPlayer : Uid) (created : Option ℕ)
      (hopen : ∀ settings, room.lobby.settings = some settings →
        turns.length ≠ settings.numRounds * room.lobby.playerOrder.length)
      (hnext : room.lobby.playerOrder[turns.length % room.lobby.playerOrder.length]?
        = some nextPlayer)
      (hstatus : room'.lobby.status = .submission)
      (hturns : room'.lobby.turns = turns ++ [{ player := nextPlayer, created := created }])
      (hawaiting : room'.lobby.awaitingBotTurn
        = (!cleared && (room.lobby.awaitingBotTurn || isBot nextPlayer)))
      (hpending : room'.pending =
        if room.lobby.awaitingBotTurn = false ∧ room'.lobby.awaitingBotTurn = true then
          [.watchForBotTurns room'.lobby.turns.length] else [])

/-- The current turn `t` gets its outcome: it becomes `t'` and is scored, once. -/
structure Resolves (room : Room) (done : List Turn) (t t' : Turn) (cleared : Bool) (room' : Room) :
    Prop where
  turns : room.lobby.turns = done ++ [t]
  player : t'.player = t.player
  resolved : t'.Resolved
  scored : Scored t' room.lobby.players room'.lobby.players
  next : NextTurn room (done ++ [t'.stored]) cleared room'

theorem Resolves.not_voting {room room' : Room} {done : List Turn} {t t' : Turn} {cleared : Bool}
    (h : Resolves room done t t' cleared room') : room'.lobby.status ≠ .voting := by
  cases h.next with
  | gameOver hstatus => rw [hstatus]; simp
  | nextTurn nextPlayer created hopen hnext hstatus => rw [hstatus]; simp

/-- A step of a started game.  Only a batch of votes can be lost in an idle one. -/
inductive GameStep (lobbyId : LobbyId) (room : Room) : RoomInput → Room → Prop
  | idle (i : RoomInput) (hrejected : i.Rejected lobbyId room)
      (room' : Room) (hlobby : room'.lobby = room.lobby)
      (hpending : room'.pending = room.pending ∨
        room.lobby.status = .voting ∧ room'.pending = []) : GameStep lobbyId room i room'
  | exchanged (now : ℕ) (playerId : Uid) (random : ℕ → Draw)
      (hallowed : room.lobby.status = .submission ∨
        room.lobby.status = .voting ∧ ¬ room.lobby.OnTurn playerId)
      (room' : Room)
      (hok : updateLobby lobbyId (requestNewWords lobbyId playerId random) now (some room.lobby)
        = .ok room'.lobby)
      (hstatus : room'.lobby.status = room.lobby.status)
      (hturns : room'.lobby.turns = room.lobby.turns)
      (hvotes : room'.lobby.votes = room.lobby.votes)
      (hawaiting : room'.lobby.awaitingBotTurn = room.lobby.awaitingBotTurn)
      (hcharged : ∀ uid, scoreOf room'.lobby.players uid
        = scoreOf room.lobby.players uid - if playerId = uid then 1 else 0)
      (hpending : room'.pending = room.pending) :
      GameStep lobbyId room (.call now (.requestNewWords playerId random)) room'
  | opened (i : RoomInput) (word : Json) (cleared : Bool) (hby : PlaysWord room i word cleared)
      (hstatus : room.lobby.status = .submission)
      (done : List Turn) (t : Turn) (hturns : room.lobby.turns = done ++ [t])
      (room' : Room) (hstatus' : room'.lobby.status = .voting)
      (hturns' : room'.lobby.turns = done ++ [t.submit word])
      (hvotes : room'.lobby.votes = room.lobby.votes)
      (hplayers : room'.lobby.players = room.lobby.players)
      (hawaiting : room'.lobby.awaitingBotTurn = (!cleared && room.lobby.awaitingBotTurn))
      (hpending : room'.pending =
        if room.lobby.awaitingBotVotes = [] ∧ votingBots room.lobby t.player ≠ [] then
          [.watchForBotVotes room'.lobby.turns.length (votingBots room.lobby t.player)] else []) :
      GameStep lobbyId room i room'
  | stolen (i : RoomInput) (word : Json) (cleared : Bool) (hby : PlaysWord room i word cleared)
      (hstatus : room.lobby.status = .submission) (done : List Turn) (t : Turn) (otherId : Uid)
      (hother : findOther room.lobby t.player (some word) = some otherId)
      (room' : Room) (hvotes : room'.lobby.votes = room.lobby.votes)
      (hres : Resolves room done t ((t.submit word).stolen otherId) cleared room') :
      GameStep lobbyId room i room'
  | counted (i : RoomInput) (votes : Votes) (left : List BotTrigger)
      (hby : CastsVotes room i votes left) (hstatus : room.lobby.status = .voting)
      (hopen : votes.size + 1 ≠ room.lobby.playerOrder.length)
      (room' : Room) (hstatus' : room'.lobby.status = .voting)
      (hturns : room'.lobby.turns = room.lobby.turns)
      (hvotes : room'.lobby.votes = votes.stored)
      (hplayers : room'.lobby.players = room.lobby.players)
      (hawaiting : room'.lobby.awaitingBotTurn = room.lobby.awaitingBotTurn)
      (hpending : room'.pending = left) : GameStep lobbyId room i room'
  | tallied (i : RoomInput) (votes : Votes) (left : List BotTrigger)
      (hby : CastsVotes room i votes left) (hstatus : room.lobby.status = .voting)
      (hquorum : votes.size + 1 = room.lobby.playerOrder.length)
      (done : List Turn) (t : Turn) (bank : List String)
      (room' : Room) (hvotes : room'.lobby.votes = ∅)
      (hres : Resolves room done t (t.tally votes bank) false room') : GameStep lobbyId room i room'

/-- `startNextTurnOrEndGame` resolves the current turn, whatever the two flags of the bots
    become, as long as no vote trigger fires. -/
theorem Resolves.of_advances {room room' : Room} {done : List Turn} {t t' : Turn}
    {mid lobby : Lobby} {status : Status} {cleared : Bool} {ids : List Uid}
    (hadvances : Advances mid lobby status)
    (hstored : room.lobby.stored = room.lobby) (hturns : room.lobby.turns = done ++ [t])
    (hplayer : t'.player = t.player) (hres : t'.Resolved)
    (hscored : Scored t' room.lobby.players mid.players)
    (hmid : mid.turns = done ++ [t']) (hseats : SameSeats room.lobby mid)
    (hflag : mid.awaitingBotTurn = room.lobby.awaitingBotTurn)
    (hids : ids = room.lobby.awaitingBotVotes ∨ ids = [])
    (hlobby : room'.lobby = Lobby.stored { lobby with
      status := status
      awaitingBotTurn := !cleared && lobby.awaitingBotTurn
      awaitingBotVotes := ids })
    (hpending : room'.pending = firedTriggers room.lobby room'.lobby) :
    Resolves room done t t' cleared room' := by
  -- the turns before `t` were read back from the database, so storing them changes nothing
  have hdone : done.map Turn.stored = done := by
    have hall := stored_turns hstored
    rw [hturns, List.map_append] at hall
    exact (List.append_inj' hall rfl).1
  have hmid' : mid.turns.map Turn.stored = done ++ [t'.stored] := by
    rw [hmid, List.map_append, hdone]; rfl
  have hlen : mid.turns.length = (done ++ [t'.stored]).length := by rw [hmid]; simp
  have hfired : room'.pending =
      if room.lobby.awaitingBotTurn = false ∧ room'.lobby.awaitingBotTurn = true then
        [.watchForBotTurns room'.lobby.turns.length] else [] := by
    rw [hpending]
    exact firedTriggers_turn (by rw [hlobby]; exact hids)
  cases hadvances with
  | gameOver settings hsettings hfull =>
    refine ⟨hturns, hplayer, hres, by rw [hlobby]; exact hscored, .gameOver ?_ ?_ ?_ ?_⟩
    · rw [hlobby]; rfl
    · rw [hlobby]; exact hmid'
    · rw [hlobby, ← hflag]; rfl
    · -- at the end of the game nobody raises the flag, so nothing fires
      have hkeep : room'.lobby.awaitingBotTurn = (!cleared && room.lobby.awaitingBotTurn) := by
        rw [hlobby, ← hflag]; rfl
      rw [hfired, if_neg]
      rintro ⟨hbefore, hafter⟩
      rw [hkeep, hbefore, Bool.and_false] at hafter
      cases hafter
  | nextTurn settings nextPlayer hsettings hopen hnext =>
    refine ⟨hturns, hplayer, hres, by rw [hlobby]; exact hscored,
      .nextTurn nextPlayer mid.transactionTime ?_ ?_ ?_ ?_ ?_ hfired⟩
    · intro settings' hsettings'
      rw [← hseats.settings, hsettings] at hsettings'
      obtain rfl := Option.some.inj hsettings'
      rw [← hlen, ← hseats.order]
      exact hopen
    · rw [← hlen, ← hseats.order]
      exact hnext
    · rw [hlobby]; rfl
    · rw [hlobby]
      show (mid.turns ++ [_]).map Turn.stored = _
      rw [List.map_append, hmid']
      rfl
    · rw [hlobby, ← hflag]; rfl

theorem List.append_singleton_inj {α : Type} {l m : List α} {a b : α} (h : l ++ [a] = m ++ [b]) :
    l = m ∧ a = b := by
  obtain ⟨hinit, hlast⟩ := List.append_inj' h rfl
  exact ⟨hinit, List.singleton_inj.mp hlast⟩

/-- A played word opens the vote or is another player's. -/
theorem PlaysWord.gameStep {lobbyId : LobbyId} {room room' : Room} {i : RoomInput} {word : Json}
    {cleared : Bool}
    (hby : PlaysWord room i word cleared) (hstored : room.lobby.stored = room.lobby)
    (hstatus : room.lobby.status = .submission) {now : ℕ} {next : Lobby}
    (hplayed : WordPlayed word (room.lobby.stamp now) next)
    (hlobby : room'.lobby = Lobby.stored
      { next with awaitingBotTurn := !cleared && next.awaitingBotTurn })
    (hpending : room'.pending = firedTriggers room.lobby room'.lobby) :
    GameStep lobbyId room i room' := by
  have hkept : room.lobby.votes.stored = room.lobby.votes := stored_votes hstored
  cases hplayed with
  | awaitsVotes done t hturns hnone =>
    have hturns : room.lobby.turns = done ++ [t] := hturns
    -- of a turn the database prunes the votes only, never the word
    have hturns' : room'.lobby.turns = done ++ [t.submit word] := by
      have hall := stored_turns hstored
      rw [hturns, List.map_append] at hall
      obtain ⟨hdone, ht⟩ := List.append_singleton_inj hall
      rw [hlobby]
      show (done ++ [t.submit word]).map Turn.stored = _
      rw [List.map_append, hdone]
      have hsubmit : (t.submit word).stored = t.stored.submit word := rfl
      rw [List.map_singleton, hsubmit, ht]
    have hflag : room'.lobby.awaitingBotTurn = (!cleared && room.lobby.awaitingBotTurn) := by
      rw [hlobby]; rfl
    refine .opened i word cleared hby hstatus done t hturns room' (by rw [hlobby]; rfl) hturns' ?_
      (by rw [hlobby]; rfl) hflag ?_
    · rw [hlobby]
      exact hkept
    · -- the flag of the turns is not raised here, so only the batch of the bots can fire
      have hids : room'.lobby.awaitingBotVotes = votingBots room.lobby t.player := by
        rw [hlobby]; rfl
      rw [hpending, firedTriggers_votes, hids]
      intro hafter
      rw [hflag, Bool.and_eq_true] at hafter
      exact hafter.2
  | othersWord done t hturns otherId hother players hscored lobby status hadvances =>
    have hvotes := hadvances.votes
    refine .stolen i word cleared hby hstatus done t otherId hother room' ?_ ?_
    · rw [hlobby]
      show lobby.votes.stored = _
      rw [hvotes]
      exact hkept
    · refine Resolves.of_advances hadvances hstored hturns rfl (Or.inl rfl) hscored rfl
        ⟨rfl, rfl, hscored.keys, rfl⟩ rfl (Or.inl ?_) hlobby hpending
      exact hadvances.awaitingBotVotes

/-- New ballots stay open or are tallied. -/
theorem CastsVotes.gameStep {lobbyId : LobbyId} {room room' : Room} {i : RoomInput} {votes : Votes}
    {left : List BotTrigger} (hby : CastsVotes room i votes left)
    (hstored : room.lobby.stored = room.lobby) (hstatus : room.lobby.status = .voting)
    {now tallied : ℕ} {next : Lobby} (hcast : VotesCast votes tallied (room.lobby.stamp now) next)
    {ids : List Uid} (hids : ids = room.lobby.awaitingBotVotes ∨ ids = [])
    (hlobby : room'.lobby = Lobby.stored { next with awaitingBotVotes := ids })
    (hpending : room'.pending = left ++ firedTriggers room.lobby room'.lobby) :
    GameStep lobbyId room i room' := by
  have hkept : room.lobby.turns.map Turn.stored = room.lobby.turns := stored_turns hstored
  cases hcast with
  | stillOpen hopen =>
    refine .counted i votes left hby hstatus hopen room' (by rw [hlobby]; rfl) ?_
      (by rw [hlobby]; rfl) (by rw [hlobby]; rfl) (by rw [hlobby]; rfl) ?_
    · rw [hlobby]
      exact hkept
    · -- short of the quorum `handleVote` touches neither flag
      have hnone : ¬ (room.lobby.awaitingBotTurn = false ∧ room'.lobby.awaitingBotTurn = true) := by
        rw [hlobby]
        rintro ⟨hbefore, hafter⟩
        have hafter : room.lobby.awaitingBotTurn = true := hafter
        rw [hbefore] at hafter
        cases hafter
      rw [hpending, firedTriggers_turn (by rw [hlobby]; exact hids), if_neg hnone, List.append_nil]
  | tally hquorum done t hturns bank hbank hpayable players hscored lobby status hadvances =>
    -- who completes the ballots leaves no event behind: a user by the guard, the bots because
    -- theirs was the only one
    have hleft : left = [] := by
      cases hby with
      | user now uid vote hother hfresh hnone => exact hnone hquorum
      | bots => rfl
    rw [hleft, List.nil_append] at hpending
    refine .tallied i votes left hby hstatus hquorum done t bank room' ?_ ?_
    · rw [hlobby]
      show lobby.votes.stored = ∅
      rw [hadvances.votes]
      rfl
    · exact Resolves.of_advances hadvances hstored hturns rfl (Or.inr (by simp [Turn.tally]))
        hscored rfl ⟨rfl, rfl, hscored.keys, rfl⟩ rfl hids hlobby hpending

/-- **Inversion of an orderly step.** -/
theorem Tidy.gameStep {lobbyId : LobbyId} {settings : Settings} {room room' : Room} {i : RoomInput}
    (h : Tidy room) (hs : Scheduled settings room.lobby) (hG : Orderly room i)
    (hstep : RoomStep lobbyId room i room') : GameStep lobbyId room i room' := by
  cases hstep with
  | rejected i hrejected => exact .idle i hrejected room rfl (Or.inl rfl)
  | failed now i answer trigger hpending hfailed =>
    obtain ⟨hsingle, hrest⟩ := h.pending.take hpending
    refine .idle _ (by rintro _ _ _ ⟨⟩) _ rfl (Or.inr ⟨?_, hrest⟩)
    -- the transaction of a turn never throws, so the lost event is a batch
    cases trigger with
    | watchForBotVotes turn votingBotIds => exact h.voting_of_votes hsingle
    | watchForBotTurns turn =>
      obtain ⟨lobby', hok⟩ := hs.watchForBotTurns_commits lobbyId now answer.word
      exact absurd hok (hfailed lobby')
  | called now c lobby hok heffect =>
    cases c with
    | addPlayerToLobby player playerId => exact absurd heffect.1 hs.started
    | addBot requesterId => exact absurd heffect.2.1 hs.started
    | startGame playerId gameSettings random => exact absurd heffect.2.1 hs.started
    | submitWord playerId word =>
      obtain ⟨hstatus, hturn, next, hplayed, rfl⟩ := heffect
      have hpending : room.pending = [] := hG hstatus hturn
      refine PlaysWord.gameStep (.player now playerId word hturn hpending) h.stored hstatus hplayed
        rfl ?_
      rw [Room.store, hpending, List.nil_append]
    | requestNewWords playerId random =>
      obtain ⟨hallowed, next, hrolled, rfl⟩ := heffect
      obtain ⟨_, _, _, _, _, players, hcharged, _, _⟩ := hrolled
      have hturns : room.lobby.turns.map Turn.stored = room.lobby.turns := stored_turns h.stored
      have hvotes : room.lobby.votes.stored = room.lobby.votes := stored_votes h.stored
      refine .exchanged now playerId random hallowed _ hok rfl hturns hvotes rfl ?_ ?_
      · intro uid
        have hscore := (addScore_ok hcharged).2.2 uid
        show scoreOf players uid = scoreOf (room.lobby.stamp now).players uid - _
        rw [hscore]
        by_cases hu : uid = playerId
        · rw [if_pos hu, if_pos hu.symm]; omega
        · rw [if_neg hu, if_neg (Ne.symm hu)]; omega
      · -- an exchange moves no flag
        show room.pending ++ firedTriggers room.lobby _ = room.pending
        simp [firedTriggers, Lobby.stored, Lobby.stamp]
    | voteOnWord playerId vote =>
      obtain ⟨hstatus, hother, hfresh, k, next, _, hcast, rfl⟩ := heffect
      refine CastsVotes.gameStep (.user now playerId vote hother hfresh (hG hstatus hother))
        h.stored hstatus hcast (Or.inl hcast.awaitingBotVotes) rfl rfl
  | delivered now i answer trigger hpending lobby heffect =>
    obtain ⟨hsingle, hrest⟩ := h.pending.take hpending
    cases trigger with
    | watchForBotVotes turn votingBotIds =>
      obtain ⟨k, next, _, hcast, rfl⟩ := heffect
      have hstatus := h.voting_of_votes hsingle
      refine CastsVotes.gameStep (.bots now i answer turn votingBotIds hsingle) h.stored hstatus
        hcast (Or.inr rfl) rfl ?_
      show room.pending.eraseIdx i ++ _ = _
      rw [hrest]; rfl
    | watchForBotTurns turn =>
      obtain ⟨next, hplayed, rfl⟩ := heffect
      have hstatus := h.submission_of_turns hsingle
      refine PlaysWord.gameStep (.bot now i answer turn hpending hsingle) h.stored hstatus hplayed
        rfl ?_
      show room.pending.eraseIdx i ++ _ = _
      rw [hrest]; rfl
  | redelivered => exact absurd hG id

/-! ### Tidiness is kept -/

theorem not_resolved_fresh (player : Uid) (created : Option ℕ) :
    ¬ ({ player := player, created := created } : Turn).Resolved := by
  simp [Turn.Resolved]

/-- The list of triggers after the next turn was pushed. -/
theorem tidyPending_turn (before after : Bool) (turn : ℕ) :
    TidyPending (if before = false ∧ after = true then [.watchForBotTurns turn] else [])
      .submission := by
  split
  · exact Or.inr ⟨turn, rfl⟩
  · exact Or.inl rfl

theorem Resolves.tidy {room room' : Room} {done : List Turn} {t t' : Turn} {cleared : Bool}
    (hres : Resolves room done t t' cleared room') (h : Tidy room)
    (hstored : room'.lobby.stored = room'.lobby) (hword : t'.submittedWord ≠ none) :
    Tidy room' := by
  have hdone : ∀ u ∈ done, u.Resolved → u.submittedWord ≠ none := by
    intro u hu
    exact h.submitted u (by rw [hres.turns]; exact List.mem_append_left _ hu)
  -- the new outcome joins the earlier ones
  have hall : ∀ u ∈ done ++ [t'.stored], u.Resolved → u.submittedWord ≠ none := by
    intro u hu hur
    rcases List.mem_append.mp hu with hu | hu
    · exact hdone u hu hur
    · rw [List.mem_singleton.mp hu]; exact hword
  cases hres.next with
  | gameOver hstatus hturns hawaiting hpending =>
    refine ⟨?_, hstored, ?_, ?_, ?_⟩
    · rw [hpending]; exact .nil _
    · intro done' u hu
      rw [hturns] at hu
      obtain ⟨_, rfl⟩ := List.append_singleton_inj hu
      exact iff_of_true hres.resolved hstatus
    · rw [hturns]; exact hall
    · intro hvoting
      rw [hstatus] at hvoting
      cases hvoting
  | nextTurn nextPlayer created hopen hnext hstatus hturns hawaiting hpending =>
    refine ⟨?_, hstored, ?_, ?_, ?_⟩
    · rw [hpending, hstatus]; exact tidyPending_turn _ _ _
    · intro done' u hu
      rw [hturns] at hu
      obtain ⟨_, rfl⟩ := List.append_singleton_inj hu
      exact iff_of_false (not_resolved_fresh _ _) (by rw [hstatus]; simp)
    · rw [hturns]
      intro u hu hur
      rcases List.mem_append.mp hu with hu | hu
      · exact hall u hu hur
      · rw [List.mem_singleton.mp hu] at hur
        exact absurd hur (not_resolved_fresh _ _)
    · intro hvoting
      rw [hstatus] at hvoting
      cases hvoting

/-- A game at its first submission. -/
structure FreshGame (room : Room) (firstPlayer : Uid) (created : Option ℕ) : Prop where
  status : room.lobby.status = .submission
  turns : room.lobby.turns = [{ player := firstPlayer, created := created }]
  votes : room.lobby.votes = ∅
  awaitingBotTurn : room.lobby.awaitingBotTurn = isBot firstPlayer
  pending : room.pending = if isBot firstPlayer = true then [.watchForBotTurns 1] else []
  scores : ∀ uid, scoreOf room.lobby.players uid = 0
  stored : room.lobby.stored = room.lobby

/-- Dealing starts a fresh game. -/
theorem Dealt.fresh {room : Room} {settings : Settings} {now : ℕ} {next : Lobby}
    (hdealt : Dealt settings (room.lobby.stamp now) next) (h : Unstarted room) :
    ∃ firstPlayer created, FreshGame (room.store next.stored) firstPlayer created := by
  obtain ⟨_, _, _, _, _, _, _, _, firstPlayer, _⟩ := hdealt
  have hflag : (room.lobby.awaitingBotTurn || isBot firstPlayer) = isBot firstPlayer := by
    rw [h.awaitingBotTurn, Bool.false_or]
  refine ⟨firstPlayer, some now, rfl, rfl, ?_, hflag, ?_, h.scores, Lobby.stored_stored _⟩
  · show room.lobby.votes.stored = ∅
    rw [h.votes]; rfl
  · show room.pending ++ firedTriggers room.lobby _ = _
    rw [h.pending, List.nil_append]
    simp [firedTriggers, Lobby.stored, Lobby.pushTurn, Lobby.stamp, h.awaitingBotVotes,
      h.awaitingBotTurn]

theorem FreshGame.tidy {room : Room} {firstPlayer : Uid} {created : Option ℕ}
    (h : FreshGame room firstPlayer created) : Tidy room := by
  refine ⟨?_, h.stored, ?_, ?_, ?_⟩
  · rw [h.pending, h.status]
    split
    · exact Or.inr ⟨1, rfl⟩
    · exact Or.inl rfl
  · intro done t hturns
    rw [h.turns] at hturns
    obtain ⟨_, rfl⟩ := List.append_singleton_inj (l := []) hturns
    exact iff_of_false (not_resolved_fresh _ _) (by rw [h.status]; simp)
  · rw [h.turns]
    intro t ht htr
    rw [List.mem_singleton.mp ht] at htr
    exact absurd htr (not_resolved_fresh _ _)
  · intro hvoting
    rw [h.status] at hvoting
    cases hvoting

/-- **Orderly steps keep a game tidy.** -/
theorem Tidy.step {lobbyId : LobbyId} {settings : Settings} {room room' : Room} {i : RoomInput}
    (h : Tidy room) (hs : Scheduled settings room.lobby) (hG : Orderly room i)
    (hstep : RoomStep lobbyId room i room') : Tidy room' := by
  have hstored := hstep.stored h.stored
  cases h.gameStep hs hG hstep with
  | idle i hrejected room' hlobby hpending =>
    refine ⟨?_, hstored, ?_, ?_, ?_⟩
    · rw [hlobby]
      rcases hpending with heq | ⟨_, hnil⟩
      · rw [heq]; exact h.pending
      · rw [hnil]; exact .nil _
    · rw [hlobby]; exact h.current
    · rw [hlobby]; exact h.submitted
    · rw [hlobby]; exact h.voting
  | exchanged now playerId random hallowed room' hok hstatus hturns hvotes hawaiting hcharged
      hpending =>
    refine ⟨?_, hstored, ?_, ?_, ?_⟩
    · rw [hpending, hstatus]; exact h.pending
    · rw [hturns, hstatus]; exact h.current
    · rw [hturns]; exact h.submitted
    · rw [hturns, hstatus]; exact h.voting
  | opened i word cleared hby hstatus done t hturns room' hstatus' hturns' hvotes hplayers hawaiting
      hpending =>
    -- the submission does not resolve the turn, and it was not resolved before
    have hfresh : ¬ t.Resolved := by
      intro ht
      have hover := (h.current done t hturns).mp ht
      rw [hstatus] at hover
      cases hover
    refine ⟨?_, hstored, ?_, ?_, ?_⟩
    · rw [hpending, hstatus']
      split
      · exact Or.inr ⟨_, _, rfl⟩
      · exact Or.inl rfl
    · intro done' u hu
      rw [hturns'] at hu
      obtain ⟨_, rfl⟩ := List.append_singleton_inj hu
      exact iff_of_false hfresh (by rw [hstatus']; simp)
    · rw [hturns']
      intro u hu hur
      rcases List.mem_append.mp hu with hu | hu
      · exact h.submitted u (by rw [hturns]; exact List.mem_append_left _ hu) hur
      · rw [List.mem_singleton.mp hu]
        exact Option.some_ne_none word
    · intro _ done' u hu
      rw [hturns'] at hu
      obtain ⟨_, rfl⟩ := List.append_singleton_inj hu
      exact Option.some_ne_none word
  | stolen i word cleared hby hstatus done t otherId hother room' hvotes hres =>
    exact hres.tidy h hstored (Option.some_ne_none word)
  | counted i votes left hby hstatus hopen room' hstatus' hturns hvotes hplayers hawaiting hpending
      =>
    refine ⟨?_, hstored, ?_, ?_, ?_⟩
    · rw [hpending, hstatus']
      cases hby with
      | user =>
        have hvoting := h.pending
        rw [hstatus] at hvoting
        exact hvoting
      | bots => exact Or.inl rfl
    · rw [hturns, hstatus', ← hstatus]; exact h.current
    · rw [hturns]; exact h.submitted
    · rw [hturns]
      intro _
      exact h.voting hstatus
  | tallied i votes left hby hstatus hquorum done t bank room' hvotes hres =>
    exact hres.tidy h hstored (h.voting hstatus done t hres.turns)

/-- **Every game of an orderly run is tidy.** -/
theorem tidy_of_reachable {lobbyId : LobbyId} {room : Room}
    (h : Room.Reachable lobbyId Orderly room) : Phase (fun _ room => Tidy room) room := by
  refine h.phase ?_ ?_
  · intro room now settings next hun hdealt
    obtain ⟨firstPlayer, created, hfresh⟩ := hdealt.fresh hun
    exact hfresh.tidy
  · intro settings room i room' hs htidy hG hstep
    exact htidy.step hs hG hstep

/-- The deal fires genuine triggers only. -/
theorem Dealt.genuine {room : Room} {settings : Settings} {now : ℕ} {next : Lobby}
    (hdealt : Dealt settings (room.lobby.stamp now) next) (h : Unstarted room) :
    GenuineTriggers (room.store next.stored) := by
  obtain ⟨_, _, _, _, _, _, _, _, _, _⟩ := hdealt
  -- before the game there is no event at all
  have hnone : GenuineTriggers room := by
    refine ⟨?_, ?_⟩
    · intro uid huid
      rw [h.awaitingBotVotes] at huid
      cases huid
    · rintro trigger (hpending | hdelivered)
      · rw [h.pending] at hpending; cases hpending
      · rw [h.delivered] at hdelivered; cases hdelivered
  exact hnone.store (hnone.awaits.congr rfl rfl) rfl

/-- **Every event of every run is genuine.** -/
theorem genuine_of_reachable {lobbyId : LobbyId} {G : Room → RoomInput → Prop} {room : Room}
    (h : Room.Reachable lobbyId G room) : Phase (fun _ room => GenuineTriggers room) room := by
  refine h.phase ?_ ?_
  · intro room now settings next hun hdealt
    exact hdealt.genuine hun
  · intro settings room i room' hs hgenuine _ hstep
    exact hgenuine.step hs.started hstep

end PasswordApp
