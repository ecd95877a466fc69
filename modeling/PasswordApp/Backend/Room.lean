import PasswordApp.Backend.Transactions
import PasswordApp.Library.Machine

namespace PasswordApp

/-!
# Backend — one lobby and its bot triggers

A `Room` is a stored lobby with the bot-trigger events it has fired.  Its inputs are the
lobby transactions of any authenticated user and the transactions of the triggers, each
landing at any time after its event; a redelivered event runs its transaction again.

A `null → value` change of `internal/awaitingBotVotes` or `internal/awaitingBotTurn` fires
the trigger watching that path.
-/

/-- A callable's lobby transaction, with the payload its validation let through. -/
inductive Call where
  | addPlayerToLobby (player : PlayerInfo) (playerId : Uid)
  | addBot (requesterId : Uid)
  | startGame (playerId : Uid) (gameSettings : Settings) (random : GameDraws)
  | submitWord (playerId : Uid) (word : Json)
  | requestNewWords (playerId : Uid) (random : ℕ → Draw)
  | voteOnWord (playerId : Uid) (vote : Json)

def Call.transaction (lobbyId : LobbyId) : Call → LobbyTransaction
  | .addPlayerToLobby player playerId => PasswordApp.addPlayerToLobby lobbyId player playerId
  | .addBot requesterId => PasswordApp.addBot lobbyId requesterId
  | .startGame playerId gameSettings random =>
      PasswordApp.startGame lobbyId playerId gameSettings random
  | .submitWord playerId word => PasswordApp.submitWord lobbyId playerId word
  | .requestNewWords playerId random => PasswordApp.requestNewWords lobbyId playerId random
  | .voteOnWord playerId vote => PasswordApp.voteOnWord lobbyId playerId vote

/-- A fired trigger event.  `turn` is the number of the turn it was fired for; the functions
    do not know it. -/
inductive BotTrigger where
  | watchForBotVotes (turn : ℕ) (votingBotIds : List Uid)
  | watchForBotTurns (turn : ℕ)
  deriving DecidableEq

/-- What the bot server answers, and the trigger's own draw. -/
structure BotAnswer where
  challenge : Bool
  word : String
  random : Draw

def BotTrigger.transaction (answer : BotAnswer) : BotTrigger → LobbyTransaction
  | .watchForBotVotes _ votingBotIds =>
      PasswordApp.watchForBotVotes votingBotIds answer.challenge answer.random
  | .watchForBotTurns _ => PasswordApp.watchForBotTurns answer.word

/-- The events a commit fires. -/
def firedTriggers (before after : Lobby) : List BotTrigger :=
  (if before.awaitingBotVotes = [] ∧ after.awaitingBotVotes ≠ [] then
    [.watchForBotVotes after.turns.length after.awaitingBotVotes] else []) ++
  (if before.awaitingBotTurn = false ∧ after.awaitingBotTurn = true then
    [.watchForBotTurns after.turns.length] else [])

/-- A lobby, the triggers whose transaction has yet to run, and those whose has run. -/
structure Room where
  lobby : Lobby
  pending : List BotTrigger := []
  delivered : List BotTrigger := []

/-- What happens to a lobby. -/
inductive RoomInput where
  | call (now : ℕ) (c : Call)
  | deliver (now : ℕ) (i : ℕ) (answer : BotAnswer)
  | redeliver (now : ℕ) (i : ℕ) (answer : BotAnswer)

namespace Room

/-- The lobby `createLobby` pushes. -/
def initial (hostId : Uid) : Room := { lobby := { hostId := hostId } }

/-- Run a transaction on the room's lobby; a rejected one changes nothing. -/
def commit (lobbyId : LobbyId) (t : LobbyTransaction) (now : ℕ) (room : Room) : Room :=
  match updateLobby lobbyId t now (some room.lobby) with
  | .error _ => room
  | .ok lobby =>
    { room with lobby := lobby, pending := room.pending ++ firedTriggers room.lobby lobby }

/-- Take the `i`-th pending trigger off the list. -/
def take (room : Room) (i : ℕ) (trigger : BotTrigger) : Room :=
  { room with pending := room.pending.eraseIdx i, delivered := room.delivered ++ [trigger] }

def step (lobbyId : LobbyId) (room : Room) : RoomInput → Room
  | .call now c => room.commit lobbyId (c.transaction lobbyId) now
  | .deliver now i answer =>
    match room.pending[i]? with
    | none => room
    | some trigger => (room.take i trigger).commit lobbyId (trigger.transaction answer) now
  | .redeliver now i answer =>
    match room.delivered[i]? with
    | none => room
    | some trigger => room.commit lobbyId (trigger.transaction answer) now

end Room

/-- The machine of one lobby. -/
def roomMachine (lobbyId : LobbyId) : Machine Room RoomInput := ⟨Room.step lobbyId⟩

/-- The rooms some guarded run leads to from a fresh lobby. -/
def Room.Reachable (lobbyId : LobbyId) (G : Room → RoomInput → Prop) (room : Room) : Prop :=
  ∃ hostId, (roomMachine lobbyId).Reaches G (Room.initial hostId) room

/-- No assumption on the requests and triggers. -/
def anyInput : Room → RoomInput → Prop := fun _ _ => True

namespace Room

variable {lobbyId : LobbyId} {G G' : Room → RoomInput → Prop}

/-- A commit either leaves the room alone or stores what the transaction made of the lobby. -/
theorem commit_cases (lobbyId : LobbyId) (t : LobbyTransaction) (now : ℕ) (room : Room) :
    (room.commit lobbyId t now = room ∧
      ∀ lobby, updateLobby lobbyId t now (some room.lobby) ≠ .ok lobby) ∨
    ∃ lobby, updateLobby lobbyId t now (some room.lobby) = .ok lobby ∧
      room.commit lobbyId t now =
        { room with
          lobby := lobby
          pending := room.pending ++ firedTriggers room.lobby lobby } := by
  unfold commit
  cases h : updateLobby lobbyId t now (some room.lobby) with
  | error _ => exact Or.inl ⟨rfl, fun _ h => by cases h⟩
  | ok lobby => exact Or.inr ⟨lobby, rfl, rfl⟩

theorem Reachable.trans {room room' : Room} (h : Room.Reachable lobbyId G room)
    (h' : (roomMachine lobbyId).Reaches G room room') : Room.Reachable lobbyId G room' := by
  obtain ⟨hostId, hreach⟩ := h
  exact ⟨hostId, hreach.trans h'⟩

theorem reaches_step (room : Room) {i : RoomInput} (h : G room i) :
    (roomMachine lobbyId).Reaches G room (room.step lobbyId i) :=
  ⟨[i], ⟨h, trivial⟩, rfl⟩

/-- Invariant rule for rooms. -/
theorem Reachable.invariant {I : Room → Prop} (hinit : ∀ hostId, I (Room.initial hostId))
    (hstep : ∀ room i, I room → G room i → I (room.step lobbyId i)) {room : Room}
    (h : Room.Reachable lobbyId G room) : I room := by
  obtain ⟨hostId, hreach⟩ := h
  exact hreach.invariant hstep (hinit hostId)

end Room

end PasswordApp
