import PasswordApp.Backend.Lobby
import PasswordApp.Backend.WordUtils

namespace PasswordApp

/-!
# Backend — `game-logic.js`

The functions modify the lobby in place; here they take it and return it.  Where the
source returns the new status, the pair of both is returned.
-/

/-! ### Scoring -/

/-- `players[uid].score += points`. -/
def addScore (players : Dict Uid Player) (uid : Uid) (points : ℤ) :
    Except JsException (Dict Uid Player) := do
  let player ← orThrow .typeError (players.get? uid)
  .ok (players.set uid { player with score := player.score + points })

/-- The body of the loop over `doneTurn.votes`. -/
def scoreVote (doneTurn : Turn) (players : Dict Uid Player) (ballot : Uid × Json) :
    Except JsException (Dict Uid Player) :=
  if ballot.2.truthy then
    if doneTurn.wasSubmittersWord = some true then do
      let players ← addScore players ballot.1 2
      addScore players doneTurn.player (-1)
    else do
      let players ← addScore players ballot.1 (-1)
      addScore players doneTurn.player (-1)
  else
    .ok players

/-- `scoreTurn(lobby)`. -/
def scoreTurn (lobby : Lobby) : Except JsException Lobby := do
  let doneTurn ← lobby.currTurn
  if doneTurn.wasOthersWord then
    let otherId ← orThrow .typeError doneTurn.otherId
    let players ← addScore lobby.players otherId 2
    .ok { lobby with players := players }
  else
    let wasChallenged := doneTurn.votes.entries.any (fun ballot => ballot.2.truthy)
    let players ← doneTurn.votes.entries.foldlM (scoreVote doneTurn) lobby.players
    if !wasChallenged && doneTurn.wasSubmittersWord = some true then
      let players ← addScore players doneTurn.player 2
      .ok { lobby with players := players }
    else
      .ok { lobby with players := players }

/-! ### Turns -/

/-- `startNextTurnOrEndGame(lobby)`. -/
def startNextTurnOrEndGame (lobby : Lobby) : Except JsException (Lobby × Status) := do
  let numTurnsTaken := lobby.turns.length
  let numPlayers := lobby.playerOrder.length
  let settings ← orThrow .typeError lobby.settings
  if numTurnsTaken = settings.numRounds * numPlayers then
    .ok (lobby, .done)
  else
    let nextPlayer ← orThrow .typeError lobby.playerOrder[numTurnsTaken % numPlayers]?
    .ok ({ lobby with
      awaitingBotTurn := lobby.awaitingBotTurn || isBot nextPlayer
      turns := lobby.turns ++ [{ player := nextPlayer, created := lobby.transactionTime }] },
      .submission)

/-- The loop of `initializeGame` that writes the private word banks. A player without a
    word list would get `targetWords: undefined`. -/
def dealWords : List Uid → List (List String) → Dict Uid (List String) →
    Except JsException (Dict Uid (List String))
  | [], _, banks => .ok banks
  | playerId :: ids, words :: lists, banks => dealWords ids lists (banks.set playerId words)
  | _ :: _, [], _ => .error .unstorable

/-- The random draws of one `startGame`. -/
structure GameDraws where
  order : ℕ → Draw
  words : ℕ → Draw

/-- `initializeGame(lobby)`; `Object.keys` throws on absent players.  The database hands the keys
    back sorted and here they are in the order of entry: what the shuffle starts from, and which
    bank goes to whom, depends on it. -/
def initializeGame (lobby : Lobby) (random : GameDraws) : Except JsException (Lobby × Status) := do
  let playerIds := lobby.players.keys
  if playerIds = [] then .error .typeError else
  let numPlayers := playerIds.length
  let settings ← orThrow .typeError lobby.settings
  let gameWords ← getGameWords numPlayers settings.wordBankSize random.words
  let banks ← dealWords playerIds gameWords.playerWordLists ∅
  startNextTurnOrEndGame { lobby with
    playerOrder := shuffleArray playerIds random.order
    turns := []
    startWord := gameWords.startWord
    targetWords := banks
    availableWords := gameWords.availableWords }

/-! ### Submissions and votes -/

/-- `words.includes(word)`: strict equality, so only a string can be found. -/
def includes (words : List String) (word : Option Json) : Bool :=
  match word with
  | some (.str s) => words.contains s
  | _ => false

/-- Only strings are found in a list of words. -/
theorem includes_eq_true {words : List String} {word : Option Json} :
    includes words word = true ↔ ∃ s, word = some (.str s) ∧ s ∈ words := by
  unfold includes
  split
  · simp
  · rename_i hother
    simp only [Bool.false_eq_true, false_iff]
    rintro ⟨s, hs, _⟩
    exact hother s hs

/-- The first player other than the submitter, in key order, whose bank has the word. -/
def findOther (lobby : Lobby) (submitterId : Uid) (word : Option Json) : Option Uid :=
  (lobby.targetWords.entries.find? (fun e => e.1 ≠ submitterId && includes e.2 word)).map Prod.fst

/-- The bots that have to vote on a word of `submitterId`. -/
def votingBots (lobby : Lobby) (submitterId : Uid) : List Uid :=
  lobby.players.keys.filter (fun playerId => isBot playerId && playerId ≠ submitterId)

/-- `handleWordSubmission(lobby)`. -/
def handleWordSubmission (lobby : Lobby) : Except JsException (Lobby × Status) := do
  let currTurn ← lobby.currTurn
  match findOther lobby currTurn.player currTurn.submittedWord with
  | some otherId =>
    let lobby := lobby.setCurrTurn { currTurn with wasOthersWord := true, otherId := some otherId }
    let lobby ← scoreTurn lobby
    startNextTurnOrEndGame lobby
  | none =>
    .ok ({ lobby with awaitingBotVotes := votingBots lobby currTurn.player }, .voting)

/-- `handleVote(lobby)`. -/
def handleVote (lobby : Lobby) : Except JsException (Lobby × Status) := do
  let numVotes := lobby.votes.size
  let numPlayers := lobby.playerOrder.length
  -- `numVotes === numPlayers - 1`, without truncation at zero
  if numVotes + 1 = numPlayers then
    let currTurn ← lobby.currTurn
    let targetWords ← orThrow .typeError (lobby.targetWords.get? currTurn.player)
    let lobby ← scoreTurn (lobby.setCurrTurn { currTurn with
      votes := lobby.votes
      wasSubmittersWord := some (includes targetWords currTurn.submittedWord) })
    startNextTurnOrEndGame { lobby with votes := ∅ }
  else
    .ok (lobby, .voting)

/-- `getPreviousWord(lobby)`: the start word, or the word of the turn before. -/
def getPreviousWord (lobby : Lobby) : Except JsException (Option Json) := do
  let numTurns := lobby.turns.length
  -- an absent list of turns has no `length`
  if numTurns = 0 then .error .typeError
  else if numTurns = 1 then .ok (lobby.startWord.map .str)
  else do
    let lastTurn ← orThrow .typeError lobby.turns[numTurns - 2]?
    .ok lastTurn.submittedWord

/-- `assignNewWords(lobby, playerId)`; an empty pool is absent and cannot be spliced. -/
def assignNewWords (lobby : Lobby) (playerId : Uid) (random : ℕ → Draw) :
    Except JsException Lobby := do
  let settings ← orThrow .typeError lobby.settings
  let ditchedWords ← orThrow .typeError (lobby.targetWords.get? playerId)
  if lobby.availableWords = [] then .error .typeError else
  let freshWords := lobby.availableWords.take settings.wordBankSize
  let remaining := lobby.availableWords.drop settings.wordBankSize
  let players ← addScore lobby.players playerId (-1)
  .ok { lobby with
    targetWords := lobby.targetWords.set playerId freshWords
    availableWords := shuffleArray (remaining ++ ditchedWords) random
    players := players }

end PasswordApp
