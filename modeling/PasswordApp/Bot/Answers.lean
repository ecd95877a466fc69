import PasswordApp.Bot.PasswordBot
import PasswordApp.Game.Redelivery
import PasswordApp.Game.Words

namespace PasswordApp

/-!
# Bot — asking the bot server

A trigger reads the lobby, asks the bot server and runs its transaction with the answer.  If
the server raises, the trigger logs the error and is over: its flag stays set.

* `BotTrigger.ask` — the answer to the question about the lobby that was read;
* `Room.fire` — a trigger event runs, whether it is answered or not;
* `BotTrigger.Survives` — the bot answers, the transaction commits and the flag is cleared;
* `BotTrigger.Answerable`, `BotTrigger.Scorable` — when it does;
* `bot_survives_iff` — exactly then.
-/

variable {V D : Type}

/-! ### Asking -/

/-- Why a trigger ends without its transaction. -/
inductive TriggerFailure where
  /-- The question cannot be read off the lobby. -/
  | script (e : JsException)
  /-- The bot server answers with an error. -/
  | bot (e : PyException)
  deriving DecidableEq

namespace BotTrigger

/-- The answer of the bot server to the question about `lobby`; a trigger asks one of the two
    questions, and `random` is its own draw. -/
def ask (bot : PasswordBot V D) (lobby : Lobby) (random : Draw) :
    BotTrigger → Except TriggerFailure BotAnswer
  | .watchForBotVotes _ _ => do
    let info ← (infoForBotVote lobby).mapError TriggerFailure.script
    let challenge ← (bot.voteOnOtherTurn info.previousWord info.submittedWord).mapError .bot
    .ok { challenge := challenge, word := "", random := random }
  | .watchForBotTurns _ => do
    let info ← (infoForBotTurn lobby).mapError TriggerFailure.script
    let word ← (bot.playTurn info.targetWords info.previousWord).mapError .bot
    .ok { challenge := false, word := word, random := random }

/-- The flag that fired the trigger is absent. -/
def Cleared (lobby : Lobby) : BotTrigger → Prop
  | .watchForBotVotes _ _ => lobby.awaitingBotVotes = []
  | .watchForBotTurns _ => lobby.awaitingBotTurn = false

/-- The trigger reads one lobby and is answered; its transaction meets another, commits, and
    clears the flag. -/
def Survives (bot : PasswordBot V D) (lobbyId : LobbyId) (read : Lobby) (now : ℕ) (random : Draw)
    (met : Lobby) (trigger : BotTrigger) : Prop :=
  ∃ answer lobby, trigger.ask bot read random = .ok answer ∧
    updateLobby lobbyId (trigger.transaction answer) now (some met) = .ok lobby ∧
    trigger.Cleared lobby

/-- The words of the question are known to the bot, and it finds a word to play. -/
def Answerable (bot : PasswordBot V D) (lobby : Lobby) : BotTrigger → Prop
  | .watchForBotVotes _ _ => ∃ info, infoForBotVote lobby = .ok info ∧
      bot.Knows info.previousWord ∧ bot.Knows info.submittedWord
  | .watchForBotTurns _ => ∃ info, infoForBotTurn lobby = .ok info ∧
      bot.Playable info.targetWords info.previousWord

/-- No batch completes ballots in which somebody outside the lobby challenges. -/
def Scorable (lobby : Lobby) : BotTrigger → Prop
  | .watchForBotVotes _ votingBotIds =>
      (lobby.votes.keys ++ votingBotIds).toFinset.card + 1 = lobby.playerOrder.length →
      ∀ done t, lobby.turns = done ++ [t] → t.wasOthersWord = false →
      ∀ challenger vote, lobby.votes.get? challenger = some vote → vote.truthy = true →
        challenger ∈ lobby.players.keys
  | .watchForBotTurns _ => True

end BotTrigger

/-- The `i`-th pending event runs at once.  Without an answer it is over all the same. -/
def Room.fire (lobbyId : LobbyId) (bot : PasswordBot V D) (now i : ℕ) (random : Draw)
    (room : Room) : Room :=
  match room.pending[i]? with
  | none => room
  | some trigger =>
    match trigger.ask bot room.lobby random with
    | .error _ => room.take i trigger
    | .ok answer => room.step lobbyId (.deliver now i answer)

/-! ### When the bot server answers -/

theorem mapError_eq_ok {ε ε' α : Type} {x : Except ε α} {f : ε → ε'} {a : α} :
    x.mapError f = .ok a ↔ x = .ok a := by
  cases x with
  | error e => simp [Except.mapError]
  | ok b => simp [Except.mapError]

theorem infoForBotVote_ok {lobby : Lobby} {info : InfoForBotVote}
    (h : infoForBotVote lobby = .ok info) :
    ∃ t ∈ lobby.turns, info.submittedWord = t.submittedWord := by
  obtain ⟨t, hcurr, h⟩ := bind_eq_ok.mp h
  obtain ⟨previousWord, _, h⟩ := bind_eq_ok.mp h
  obtain rfl := (Except.ok.inj h).symm
  obtain ⟨done, hturns⟩ := currTurn_eq_ok.mp hcurr
  exact ⟨t, by rw [hturns]; simp, rfl⟩

theorem infoForBotTurn_ok {lobby : Lobby} {info : InfoForBotTurn}
    (h : infoForBotTurn lobby = .ok info) :
    ∃ botId, lobby.targetWords.get? botId = some info.targetWords := by
  obtain ⟨t, _, h⟩ := bind_eq_ok.mp h
  obtain ⟨previousWord, _, h⟩ := bind_eq_ok.mp h
  obtain ⟨targetWords, hbank, h⟩ := bind_eq_ok.mp h
  obtain rfl := (Except.ok.inj h).symm
  exact ⟨t.player, orThrow_eq_ok.mp hbank⟩

/-- The banks hold words of the word list. -/
theorem WordsShared.bank_subset {lobby : Lobby} (h : WordsShared lobby) {uid : Uid}
    {bank : List String} (hbank : lobby.targetWords.get? uid = some bank) :
    ∀ word ∈ bank, word ∈ wordList := by
  intro word hword
  apply h.perm.subset
  rw [Lobby.gameWords, List.mem_append, List.mem_append, List.mem_flatten]
  exact Or.inr (Or.inl ⟨bank, Dict.mem_values_iff.mpr ⟨uid, hbank⟩, hword⟩)

/-- **The bot answers** exactly if it knows the words it is asked about. -/
theorem BotTrigger.ask_isOk {bot : PasswordBot V D} {lobby : Lobby} (random : Draw)
    (hdict : ∀ word ∈ wordList, word ∈ bot.embeddings.keys) (hwords : WordsShared lobby)
    (trigger : BotTrigger) :
    (∃ answer, trigger.ask bot lobby random = .ok answer) ↔ trigger.Answerable bot lobby := by
  cases trigger with
  | watchForBotVotes turn votingBotIds =>
    constructor
    · rintro ⟨answer, h⟩
      obtain ⟨info, hinfo, h⟩ := bind_eq_ok.mp h
      obtain ⟨challenge, hchallenge, _⟩ := bind_eq_ok.mp h
      exact ⟨info, mapError_eq_ok.mp hinfo,
        PasswordBot.voteOnOtherTurn_isOk.mp ⟨challenge, mapError_eq_ok.mp hchallenge⟩⟩
    · rintro ⟨info, hinfo, hknown⟩
      obtain ⟨challenge, hchallenge⟩ := PasswordBot.voteOnOtherTurn_isOk.mpr hknown
      refine ⟨⟨challenge, "", random⟩, ?_⟩
      rw [ask, mapError_eq_ok.mpr hinfo, ok_bind, mapError_eq_ok.mpr hchallenge, ok_bind]
  | watchForBotTurns turn =>
    -- the targets are words of the game, which the bot knows
    have hplay : ∀ {info}, infoForBotTurn lobby = .ok info →
        ((∃ word, bot.playTurn info.targetWords info.previousWord = .ok word) ↔
          bot.Playable info.targetWords info.previousWord) := by
      intro info hinfo
      obtain ⟨botId, hbank⟩ := infoForBotTurn_ok hinfo
      exact PasswordBot.playTurn_isOk
        (fun word hword => hdict word (hwords.bank_subset hbank word hword))
    constructor
    · rintro ⟨answer, h⟩
      obtain ⟨info, hinfo, h⟩ := bind_eq_ok.mp h
      obtain ⟨word, hword, _⟩ := bind_eq_ok.mp h
      have hinfo := mapError_eq_ok.mp hinfo
      exact ⟨info, hinfo, (hplay hinfo).mp ⟨word, mapError_eq_ok.mp hword⟩⟩
    · rintro ⟨info, hinfo, hplayable⟩
      obtain ⟨word, hword⟩ := (hplay hinfo).mpr hplayable
      refine ⟨⟨false, word, random⟩, ?_⟩
      rw [ask, mapError_eq_ok.mpr hinfo, ok_bind, mapError_eq_ok.mpr hword, ok_bind]

/-! ### When the transaction commits -/

theorem BotTrigger.scorable_iff {lobby : Lobby} (turn : ℕ) (ids : List Uid) (answer : BotAnswer) :
    (BotTrigger.watchForBotVotes turn ids).Scorable lobby ↔
      ¬ (BotTrigger.watchForBotVotes turn ids).Harmless answer lobby := by
  constructor
  · intro hscorable hharmless
    cases hharmless with
    | unscorable turn ids done t hturns hquorum hvoted challenger vote hvote htruthy houtside =>
      exact houtside (hscorable hquorum done t hturns hvoted challenger vote hvote htruthy)
  · intro hscorable hquorum done t hturns hvoted challenger vote hvote htruthy
    by_contra houtside
    exact hscorable (.unscorable turn ids done t hturns hquorum hvoted challenger vote hvote htruthy
      houtside)

/-- A trigger that has run has cleared its flag. -/
theorem TriggerEffect.cleared {now : ℕ} {answer : BotAnswer} {lobby lobby' : Lobby}
    {trigger : BotTrigger} (h : TriggerEffect now answer lobby trigger lobby') :
    trigger.Cleared lobby' := by
  cases trigger with
  | watchForBotVotes turn ids =>
    obtain ⟨k, next, _, _, rfl⟩ := h
    exact (rfl : [] = [])
  | watchForBotTurns turn =>
    obtain ⟨next, _, rfl⟩ := h
    exact (rfl : false = false)

/-- **The transaction of a pending event commits** exactly if its ballots can be scored. -/
theorem pending_commits_iff {lobbyId : LobbyId} {room : Room}
    (h : Room.Reachable lobbyId anyInput room) {trigger : BotTrigger}
    (hpending : trigger ∈ room.pending) (now : ℕ) (answer : BotAnswer) :
    (∃ lobby, updateLobby lobbyId (trigger.transaction answer) now (some room.lobby) = .ok lobby) ↔
      trigger.Scorable room.lobby := by
  cases accounted_of_reachable h with
  | unstarted hun => rw [hun.pending] at hpending; cases hpending
  | started settings hs hrest =>
    obtain ⟨haccounted, hbatches, _⟩ := hrest
    obtain ⟨_, _, hgenuine⟩ := (genuine_of_reachable h).game hs.started
    cases trigger with
    | watchForBotTurns turn =>
      exact iff_of_true (hs.watchForBotTurns_commits lobbyId now answer.word) trivial
    | watchForBotVotes turn ids =>
      rw [BotTrigger.scorable_iff turn ids answer,
        ← haccounted.unscorable_iff hs (hgenuine.events _ (Or.inl hpending))
          (hbatches turn ids (Or.inl hpending)) lobbyId now answer]
      simp only [not_forall, not_not]
      rfl

/-! ### Surviving a word -/

/-- **A bot game survives a word** exactly if the bot knows the words it is asked about, finds
    one to play, and its votes can be scored.  The event reads a reachable lobby and its
    transaction lands at any later time at which it is still pending. -/
theorem bot_survives_iff {lobbyId : LobbyId} {bot : PasswordBot V D} {room later : Room}
    (hdict : ∀ word ∈ wordList, word ∈ bot.embeddings.keys)
    (h : Room.Reachable lobbyId anyInput room)
    (hlater : (roomMachine lobbyId).Reaches anyInput room later) {trigger : BotTrigger}
    (hpending : trigger ∈ room.pending) (hstill : trigger ∈ later.pending) (now : ℕ)
    (random : Draw) :
    trigger.Survives bot lobbyId room.lobby now random later.lobby ↔
      trigger.Answerable bot room.lobby ∧ trigger.Scorable later.lobby := by
  have hstarted : room.lobby.status ≠ .lobby := by
    intro hstatus
    cases accounted_of_reachable h with
    | unstarted hun => rw [hun.pending] at hpending; cases hpending
    | started _ hs _ => exact hs.started hstatus
  have hask := trigger.ask_isOk random hdict (wordsShared_of_reachable h hstarted)
  have hcommits := fun answer => pending_commits_iff (h.trans hlater) hstill now answer
  rw [← hask]
  constructor
  · rintro ⟨answer, lobby, hanswer, hok, _⟩
    exact ⟨⟨answer, hanswer⟩, (hcommits answer).mp ⟨lobby, hok⟩⟩
  · rintro ⟨⟨answer, hanswer⟩, hscorable⟩
    obtain ⟨lobby, hok⟩ := (hcommits answer).mpr hscorable
    exact ⟨answer, lobby, hanswer, hok, (trigger_ok hok).cleared⟩

/-! ### A word the bot does not know -/

/-- Embeddings on a line. -/
def sampleTools : Tools ℤ ℤ where
  add := (· + ·)
  sub := (· - ·)
  half := (· / 2)
  norm x := |x|
  cosine x y := |x - y|
  lt x y := x < y
  ge x y := y ≤ x
  stem := id
  isDigit := Char.isDigit
  isDigit_ascii := fun _ _ => rfl

/-- A bot that knows the words of the game only. -/
def sampleBot : PasswordBot ℤ ℤ := PasswordBot.init sampleTools (wordList.map (·, 0)) 6 7

theorem sampleBot_keys : sampleBot.embeddings.keys = wordList := by decide +kernel

theorem sampleBot_words : ∀ word ∈ wordList, word ∈ sampleBot.embeddings.keys := by
  intro word hmem
  rwa [sampleBot_keys]

/-- `ben` submits a word of nobody's, and the vote of `bot1` is awaited. -/
def sampleAsked : Room :=
  sampleRoom (sampleStart ["ben"] 1 sampleSettings ++ [.call 1 (.submitWord "ben" (.str "zebra"))])

theorem bot_survives_iff_sample :
    (BotTrigger.watchForBotVotes 1 ["bot1"]).Survives sampleBot "L" sampleAsked.lobby 2 Draw.zero
        sampleAsked.lobby ↔
      (BotTrigger.watchForBotVotes 1 ["bot1"]).Answerable sampleBot sampleAsked.lobby ∧
        (BotTrigger.watchForBotVotes 1 ["bot1"]).Scorable sampleAsked.lobby :=
  bot_survives_iff sampleBot_words (sampleRoom_reachable (admissible_anyInput _ _)) (.refl _)
    (by decide +kernel) (by decide +kernel) 2 Draw.zero

/-- After the failed event the vote is still awaited, and no event is outstanding. -/
example : (sampleAsked.fire "L" sampleBot 2 0 Draw.zero).lobby.awaitingBotVotes = ["bot1"] ∧
    (sampleAsked.fire "L" sampleBot 2 0 Draw.zero).pending = [] := by decide +kernel

/-- A legal word outside the bot's dictionary: the bot raises instead of voting. -/
theorem bot_vote_lost :
    ¬ ∀ (data word : Json), getWord data = .ok word →
      ∀ lobbyId (room : Room), Room.Reachable lobbyId anyInput room →
        (∃ done t, room.lobby.turns = done ++ [t] ∧ t.submittedWord = some word) →
        ∀ (trigger : BotTrigger) now random, trigger ∈ room.pending →
          trigger.Survives sampleBot lobbyId room.lobby now random room.lobby := by
  intro hsurvives
  have hturns : sampleAsked.lobby.turns.map (fun t => t.submittedWord)
      = [some (.str "zebra")] := by
    decide +kernel
  obtain ⟨t, hturn, hword⟩ := List.map_eq_singleton_iff.mp hturns
  have hanswered := hsurvives (.obj [("word", .str "zebra")]) (.str "zebra") rfl "L" sampleAsked
    (sampleRoom_reachable (admissible_anyInput _ _))
    ⟨[], t, by rw [hturn, List.nil_append], hword⟩ (.watchForBotVotes 1 ["bot1"]) 2 Draw.zero
    (by decide +kernel)
  obtain ⟨answer, lobby, hanswer, _⟩ := hanswered
  obtain ⟨info, hinfo, hanswer⟩ := bind_eq_ok.mp hanswer
  obtain ⟨challenge, hchallenge, _⟩ := bind_eq_ok.mp hanswer
  have hknown := PasswordBot.voteOnOtherTurn_isOk.mp ⟨challenge, mapError_eq_ok.mp hchallenge⟩
  -- the word the bot was asked about is not in its dictionary
  obtain ⟨u, hu, hsubmitted⟩ := infoForBotVote_ok (mapError_eq_ok.mp hinfo)
  rw [hturn, List.mem_singleton] at hu
  obtain ⟨s, hs, hmem⟩ := hknown.2
  rw [hsubmitted, hu, hword] at hs
  obtain rfl : "zebra" = s := by simpa using hs
  rw [sampleBot_keys] at hmem
  revert hmem
  decide +kernel

end PasswordApp
