import PasswordApp.Backend.GameLogic
import PasswordApp.Backend.LobbyUtils

namespace PasswordApp

/-!
# Backend — the lobby transactions of `index.js`

Every callable and both bot triggers change a lobby through `updateLobby`, which runs a
validation and an update function on the stored value.  `LobbyTransaction` is such a pair;
each callable's pair keeps its name and its error texts.
-/

open ErrorCode

/-- The two functions handed to `updateLobby`.  A validation function that returns an error
    aborts the transaction. -/
structure LobbyTransaction where
  validateLobbyFn : Lobby → Except JsException (Option HttpsError)
  updateLobbyFn : Lobby → Except JsException Lobby

/-- `updateLobby(lobbyId, validateLobbyFn, updateLobbyFn)`, run on the value stored at
    `/lobbies/lobbyId` at the time `now`. -/
def updateLobby (lobbyId : LobbyId) (t : LobbyTransaction) (now : ℕ) :
    Option Lobby → Except Failure Lobby
  | none => httpsError notFound ("Lobby with id " ++ lobbyId ++ " not found.")
  | some lobby =>
    match t.validateLobbyFn lobby with
    | .error e => .error (.exception e)
    | .ok (some transactionError) => .error (.https transactionError)
    | .ok none =>
      match t.updateLobbyFn { lobby with transactionTime := some now } with
      | .error e => .error (.exception e)
      | .ok lobby => .ok lobby.stored

/-- `new functions.https.HttpsError("failed-precondition", message)`. -/
def preconditionError (message : String) : Option HttpsError := some ⟨failedPrecondition, message⟩

/-- The database validates the values a transaction returns, and refuses some. -/
def checkStorable (storable : Bool) : Except JsException Unit :=
  if storable then .ok () else .error .unstorable

@[simp] theorem checkStorable_true : checkStorable true = .ok () := rfl

@[simp] theorem checkStorable_eq_ok {storable : Bool} {u : Unit} :
    checkStorable storable = .ok u ↔ storable = true := by
  cases storable <;> simp [checkStorable]

/-- `lobby.public.status = newStatus`. -/
def setStatus (result : Lobby × Status) : Lobby := { result.1 with status := result.2 }

/-! ### Building a lobby -/

/-- The transaction of `addPlayerToLobby(lobbyId, player, playerId)`. -/
def addPlayerToLobby (lobbyId : LobbyId) (player : PlayerInfo) (playerId : Uid) :
    LobbyTransaction where
  validateLobbyFn lobby :=
    if lobby.status ≠ .lobby then
      .ok (preconditionError ("Lobby with id " ++ lobbyId ++ " is no longer open to join."))
    else .ok none
  updateLobbyFn lobby := do
    checkStorable player.storable
    .ok { lobby with
      players := lobby.players.set playerId {
        displayName := player.displayName
        colorNumber := player.colorNumber
        emojiNumber := player.emojiNumber
        score := 0 } }

/-- The number of bots in the lobby, counted by their uids. -/
def numExistingBots (lobby : Lobby) : ℕ := (lobby.players.keys.filter isBot).length

/-- The player `addBot` writes. -/
def botPlayer (numExistingBots : ℕ) : Player where
  colorNumber := some (.num numExistingBots)
  displayName := some (.str ("Bot " ++ toString (numExistingBots + 1)))
  emojiNumber := some (.num 0)
  score := 0

/-- The requester is the host, or the call is refused. -/
def hostError (lobbyId : LobbyId) : Option HttpsError :=
  some ⟨permissionDenied, "You are not the host of the lobby with id " ++ lobbyId ++ "."⟩

/-- The transaction of `addBot`; writing into absent players throws. -/
def addBot (lobbyId : LobbyId) (requesterId : Uid) : LobbyTransaction where
  validateLobbyFn lobby :=
    if lobby.hostId ≠ requesterId then .ok (hostError lobbyId)
    else if lobby.status ≠ .lobby then
      .ok (preconditionError ("Lobby with id " ++ lobbyId ++ " is no longer open to join."))
    else .ok none
  updateLobbyFn lobby :=
    if lobby.players.keys = [] then .error .typeError
    else
      .ok { lobby with
        players := lobby.players.set ("bot" ++ toString (numExistingBots lobby + 1))
          (botPlayer (numExistingBots lobby)) }

/-- The transaction of `startGame`. -/
def startGame (lobbyId : LobbyId) (playerId : Uid) (gameSettings : Settings)
    (random : GameDraws) : LobbyTransaction where
  validateLobbyFn lobby :=
    if lobby.hostId ≠ playerId then .ok (hostError lobbyId)
    else if lobby.status ≠ .lobby then
      .ok (preconditionError ("Lobby with id " ++ lobbyId ++ " already started."))
    else .ok none
  updateLobbyFn lobby := do
    let result ← initializeGame { lobby with settings := some gameSettings } random
    checkStorable gameSettings.storable
    .ok (setStatus result)

/-! ### Playing -/

/-- `${displayName}` in an error text. -/
def displayText (displayName : Option Json) : String :=
  match displayName with
  | none => "undefined"
  | some v => v.text

/-- The lines `submitWord` and `watchForBotTurns` share: the word becomes the submission of
    the current turn and is handled. -/
def playWord (lobby : Lobby) (word : Json) : Except JsException (Lobby × Status) := do
  let currTurn ← lobby.currTurn
  let lobby := lobby.setCurrTurn { currTurn with submittedWord := some word }
  handleWordSubmission { lobby with votesTallied := some 0 }

/-- The transaction of `submitWord`. -/
def submitWord (lobbyId : LobbyId) (playerId : Uid) (word : Json) : LobbyTransaction where
  validateLobbyFn lobby :=
    if lobby.status ≠ .submission then
      .ok (preconditionError ("Lobby with id " ++ lobbyId ++ " not awaiting word submission."))
    else do
      let currTurn ← lobby.currTurn
      if currTurn.player ≠ playerId then
        let activePlayer ← orThrow .typeError (lobby.players.get? currTurn.player)
        .ok (preconditionError ("Not your turn: awaiting word submission from " ++
          displayText activePlayer.displayName ++ "."))
      else .ok none
  updateLobbyFn lobby := do
    let result ← playWord lobby word
    checkStorable word.storable
    .ok (setStatus result)

/-- The transaction of `requestNewWords`. -/
def requestNewWords (lobbyId : LobbyId) (playerId : Uid) (random : ℕ → Draw) :
    LobbyTransaction where
  validateLobbyFn lobby :=
    if lobby.status = .voting then do
      let currTurn ← lobby.currTurn
      if currTurn.player = playerId then
        .ok (preconditionError "Cannot request new words during voting for your turn.")
      else .ok none
    else if lobby.status ≠ .submission then
      .ok (preconditionError ("Cannot request new words in lobby " ++ lobbyId ++ " at this time."))
    else .ok none
  updateLobbyFn lobby := assignNewWords lobby playerId random

/-- The lines `voteOnWord` and `watchForBotVotes` share: `n` more votes are counted, the
    ballots now being `votes`, and handled.  An absent counter becomes `NaN`, which the database
    refuses in the end. -/
def castVotes (lobby : Lobby) (votes : Votes) (n : ℕ) : Except JsException (Lobby × Status) := do
  let result ← handleVote { lobby with
    votes := votes
    votesTallied := lobby.votesTallied.map (· + n) }
  checkStorable lobby.votesTallied.isSome
  .ok result

/-- The transaction of `voteOnWord`. -/
def voteOnWord (lobbyId : LobbyId) (playerId : Uid) (vote : Json) : LobbyTransaction where
  validateLobbyFn lobby :=
    if lobby.status ≠ .voting then
      .ok (preconditionError ("Lobby with id " ++ lobbyId ++ " not in voting stage."))
    else do
      let currTurn ← lobby.currTurn
      if currTurn.player = playerId then
        .ok (preconditionError "Cannot vote on your own word.")
      -- `lobby.internal.votes[playerId]` tests the recorded value, not its presence
      else if truthy? (lobby.votes.get? playerId) then .ok (preconditionError "Already voted.")
      else .ok none
  updateLobbyFn lobby := do
    let result ← castVotes lobby (lobby.votes.set playerId vote) 1
    checkStorable vote.storable
    .ok (setStatus result)

/-! ### Bot triggers -/

/-- The ballots the bots cast in one batch: all pass, then a drawn one gets the algorithm's
    vote (`votes[undefined]` if there is no bot). -/
def castBotVotes (votes : Votes) (votingBotIds : List Uid) (botVote : Bool) (random : Draw) :
    Votes :=
  let votes := votingBotIds.foldl (fun votes botId => votes.set botId (.bool false)) votes
  votes.set (votingBotIds.getD (random.index votingBotIds.length) "undefined") (.bool botVote)

/-- What `watchForBotVotes` asks the bot server. -/
structure InfoForBotVote where
  previousWord : Option Json
  submittedWord : Option Json

/-- The question about the lobby as it is read. -/
def infoForBotVote (lobby : Lobby) : Except JsException InfoForBotVote := do
  let currTurn ← lobby.currTurn
  let previousWord ← getPreviousWord lobby
  .ok ⟨previousWord, currTurn.submittedWord⟩

/-- The transaction of `watchForBotVotes`; its validation function accepts every lobby. -/
def watchForBotVotes (votingBotIds : List Uid) (botVote : Bool) (random : Draw) :
    LobbyTransaction where
  validateLobbyFn _ := .ok none
  updateLobbyFn lobby := do
    let votes := castBotVotes lobby.votes votingBotIds botVote random
    let result ← castVotes lobby votes votingBotIds.length
    .ok { setStatus result with awaitingBotVotes := [] }

/-- What `watchForBotTurns` asks the bot server. -/
structure InfoForBotTurn where
  previousWord : Option Json
  targetWords : List String

/-- The question about the lobby as it is read. -/
def infoForBotTurn (lobby : Lobby) : Except JsException InfoForBotTurn := do
  let currTurn ← lobby.currTurn
  let botId := currTurn.player
  let previousWord ← getPreviousWord lobby
  let targetWords ← orThrow .typeError (lobby.targetWords.get? botId)
  .ok ⟨previousWord, targetWords⟩

/-- The transaction of `watchForBotTurns`; its validation function accepts every lobby. -/
def watchForBotTurns (botWord : String) : LobbyTransaction where
  validateLobbyFn _ := .ok none
  updateLobbyFn lobby := do
    let result ← playWord lobby (.str botWord)
    .ok { setStatus result with awaitingBotTurn := false }

end PasswordApp
