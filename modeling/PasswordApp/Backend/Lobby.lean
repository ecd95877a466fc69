import PasswordApp.Backend.Runtime

namespace PasswordApp

/-!
# Backend — the lobby record (`schema/schema.json`)

One record holds the three subtrees `internal`, `public` and `private` of
`/lobbies/$lobbyId`.  The database keeps no empty container, so an empty list or
dictionary field stands for an absent path: code that reads such a path throws where the
source reads a property of `undefined`.
-/

/-- The uid of a signed-in user, or the key of a bot. -/
abbrev Uid := String
/-- The key of a lobby. -/
abbrev LobbyId := String

/-- `public.status`. -/
inductive Status where
  | lobby
  | submission
  | voting
  | done
  deriving DecidableEq

/-- Validated game settings (`public.settings`). -/
structure Settings where
  numRounds : ℕ
  wordBankSize : ℕ
  numRounds_pos : 1 ≤ numRounds
  wordBankSize_pos : 1 ≤ wordBankSize
  /-- Does the database take the client's object? -/
  storable : Bool := true
  deriving DecidableEq

/-- An entry of `public.players`. -/
structure Player where
  displayName : Option Json
  colorNumber : Option Json
  emojiNumber : Option Json
  score : ℤ

/-- The value of a recorded vote is the `challenge` field of the request. -/
abbrev Votes := Dict Uid Json

/-- An entry of `public.turns`. -/
structure Turn where
  player : Uid
  created : Option ℕ
  submittedWord : Option Json := none
  votes : Votes := ∅
  wasSubmittersWord : Option Bool := none
  wasOthersWord : Bool := false
  otherId : Option Uid := none

/-- A turn is over once its outcome is recorded. -/
def Turn.Resolved (t : Turn) : Prop := t.wasOthersWord = true ∨ t.wasSubmittersWord ≠ none

instance (t : Turn) : Decidable t.Resolved := inferInstanceAs (Decidable (_ ∨ _))

/-- The record of a lobby. -/
structure Lobby where
  -- internal
  hostId : Uid
  transactionTime : Option ℕ := none
  availableWords : List String := []
  votes : Votes := ∅
  awaitingBotVotes : List Uid := []
  awaitingBotTurn : Bool := false
  -- public
  status : Status := .lobby
  players : Dict Uid Player := ∅
  playerOrder : List Uid := []
  turns : List Turn := []
  settings : Option Settings := none
  startWord : Option String := none
  votesTallied : Option ℕ := none
  -- private: `$uid` to `$uid/targetWords`
  targetWords : Dict Uid (List String) := ∅

/-- `uid.startsWith("bot")`. -/
def isBot (uid : Uid) : Bool := "bot".toList.isPrefixOf uid.toList

/-- A bot's key tells that it is one. -/
theorem isBot_bot (s : String) : isBot ("bot" ++ s) = true := by
  simp [isBot, String.toList_append]

namespace Lobby

/-- `turns[turns.length - 1]`; reading it off an absent list throws. -/
def currTurn (lobby : Lobby) : Except JsException Turn := orThrow .typeError lobby.turns.getLast?

/-- The lobby after the current turn, an object shared with the list, was modified. -/
def setCurrTurn (lobby : Lobby) (turn : Turn) : Lobby :=
  { lobby with turns := lobby.turns.dropLast ++ [turn] }

end Lobby

/-! ### Writing to the database -/

/-- The ballots as they are read back: a vote the database does not keep is gone. -/
def Votes.stored (votes : Votes) : Votes := votes.filterMap Json.stored

def Turn.stored (turn : Turn) : Turn := { turn with votes := turn.votes.stored }

/-- The lobby as it is read back after a commit. Ballots are the only foreign values the
    game logic writes; player profiles are pruned where they enter. -/
def Lobby.stored (lobby : Lobby) : Lobby :=
  { lobby with votes := lobby.votes.stored, turns := lobby.turns.map Turn.stored }

/-- What was read back is written back unchanged. -/
theorem Votes.stored_stored (votes : Votes) : votes.stored.stored = votes.stored := by
  refine Dict.filterMap_eq_self (fun e he => ?_)
  have hget : votes.stored.get? e.1 = some e.2 := Dict.get?_eq_some_iff.mpr he
  rw [Votes.stored, Dict.get?_filterMap, Option.bind_eq_some_iff] at hget
  obtain ⟨v, _, hv⟩ := hget
  exact (Json.stored_eq_some hv).2

theorem Turn.stored_stored (turn : Turn) : turn.stored.stored = turn.stored := by
  simp only [Turn.stored, Votes.stored_stored]

theorem Lobby.stored_stored (lobby : Lobby) : lobby.stored.stored = lobby.stored := by
  simp only [Lobby.stored, Votes.stored_stored, List.map_map]
  congr 1
  exact List.map_congr_left (fun t _ => Turn.stored_stored t)

@[simp] theorem Turn.stored_resolved (turn : Turn) : turn.stored.Resolved ↔ turn.Resolved := Iff.rfl

/-- Boolean ballots are kept as they are. -/
theorem Votes.stored_of_bool {votes : Votes}
    (h : ∀ uid v, votes.get? uid = some v → ∃ b, v = .bool b) :
    votes.stored = votes := by
  refine Dict.filterMap_eq_self (fun e he => ?_)
  obtain ⟨b, hb⟩ := h e.1 e.2 (Dict.get?_eq_some_iff.mpr he)
  rw [hb, Json.stored_bool]

end PasswordApp
