import PasswordApp.Bot.Answers
import PasswordApp.Game.Handoff
import PasswordApp.Game.Phases
import PasswordApp.Library.Past

namespace PasswordApp

/-!
# Bot — the bots' turns and their votes

In a game in which only players vote, a trigger that reads the lobby, at whatever moment while it
is out, asks about the turn its answer is for: the words that were played stay.  So the record
of the game shows what the bot said of it.

* `Punctual` — the triggers that are out are for the current turn;
* `words_while_out` — what a trigger asks about stays while it is out;
* `AsksBot` — the answers of a run are those of a bot;
* `TurnJudged` — what the bot said of a turn;
* `bots_judge` — of every turn of the game;
* `bots_challenge_bot` — of the words of the bots.
-/

variable {lobbyId : LobbyId} {settings : Settings} {V D : Type}

/-! ### Words stay -/

/-- The word before turn `k`. -/
def wordBefore (startWord : Option String) (turns : List Turn) : ℕ → Option Json
  | 0 => startWord.map .str
  | k + 1 => turns[k]?.bind Turn.submittedWord

theorem wordBefore_append {startWord : Option String} {turns later : List Turn} {k : ℕ}
    (hk : k ≤ turns.length) :
    wordBefore startWord (turns ++ later) k = wordBefore startWord turns k := by
  cases k with
  | zero => rfl
  | succ k => rw [wordBefore, wordBefore, List.getElem?_append_left (by omega)]

theorem getPreviousWord_eq {lobby : Lobby} {done : List Turn} {t : Turn}
    (hturns : lobby.turns = done ++ [t]) :
    getPreviousWord lobby = .ok (wordBefore lobby.startWord done done.length) := by
  have hlen : lobby.turns.length = done.length + 1 := by simp [hturns]
  rw [getPreviousWord, hlen, if_neg (by omega)]
  cases done using List.reverseRecOn with
  | nil => rfl
  | append_singleton done u =>
    rw [if_neg (by simp), hturns]
    simp [wordBefore, orThrow, bind, Except.bind]

/-- The word of turn `k`, if it was played. -/
def Room.wordAt (room : Room) (k : ℕ) : Option Json := room.lobby.turns[k]?.bind Turn.submittedWord

/-- Every word that was played is where it was. -/
def WordsStay (room room' : Room) : Prop :=
  ∀ k word, room.wordAt k = some word → room'.wordAt k = some word

theorem WordsStay.trans {room room' room'' : Room} (h : WordsStay room room')
    (h' : WordsStay room' room'') : WordsStay room room'' :=
  fun k word hword => h' k word (h k word hword)

/-- The last turn may change, as long as its word, if there is one, does not. -/
theorem WordsStay.of_concat {room room' : Room} {done later : List Turn} {t t' : Turn}
    (hturns : room.lobby.turns = done ++ [t]) (hturns' : room'.lobby.turns = done ++ t' :: later)
    (hword : ∀ word, t.submittedWord = some word → t'.submittedWord = some word) :
    WordsStay room room' := by
  intro k word hk
  rw [Room.wordAt, hturns] at hk
  rw [Room.wordAt, hturns']
  rcases Nat.lt_trichotomy k done.length with hlt | rfl | hgt
  · rw [List.getElem?_append_left hlt] at hk ⊢
    exact hk
  · simp only [List.getElem?_concat_length, Option.bind_some] at hk
    simp [hword word hk]
  · rw [List.getElem?_eq_none (by simp; omega)] at hk
    cases hk

theorem WordsStay.resolves {room room' : Room} {done : List Turn} {t t' : Turn} {cleared : Bool}
    (hres : Resolves room done t t' cleared room')
    (hword : ∀ word, t.submittedWord = some word → t'.submittedWord = some word) :
    WordsStay room room' := by
  cases hres.next with
  | gameOver hstatus hturns =>
    exact .of_concat hres.turns hturns hword
  | nextTurn nextPlayer created hopen hnext hstatus hturns =>
    have hturns' : room'.lobby.turns =
        done ++ t'.stored :: [{ player := nextPlayer, created := created }] := by
      rw [hturns, List.append_assoc]
      rfl
    exact .of_concat hres.turns hturns' hword

theorem Phased.wordsStay {room room' : Room} {i : RoomInput} (h : Phased room)
    (hs : Scheduled settings room.lobby) (hP : PlayersOnly room i)
    (hstep : RoomStep lobbyId room i room') : WordsStay room room' := by
  have hblank : room.lobby.status = .submission → ∀ done t, room.lobby.turns = done ++ [t] →
      ∀ word, t.submittedWord ≠ some word := by
    intro hstatus done t hturns word hword
    rw [(h.inSubmission hstatus hturns).word] at hword
    cases hword
  cases h.toTidy.gameStep hs (h.toFair.orderly hs hP) hstep with
  | idle i hrejected room' hlobby =>
    intro k word hk
    rwa [Room.wordAt, hlobby]
  | exchanged now playerId random hallowed room' hok hstatus hturns =>
    intro k word hk
    rwa [Room.wordAt, hturns]
  | opened i word cleared hby hstatus done t hturns room' hstatus' hturns' =>
    exact .of_concat hturns hturns' (fun w hw => absurd hw (hblank hstatus done t hturns w))
  | stolen i word cleared hby hstatus done t otherId hother room' hvotes hres =>
    exact .resolves hres (fun w hw => absurd hw (hblank hstatus done t hres.turns w))
  | counted i votes left hby hstatus hopen room' hstatus' hturns =>
    intro k word hk
    rwa [Room.wordAt, hturns]
  | tallied i votes left hby hstatus hquorum done t bank room' hvotes hres =>
    exact .resolves hres (fun w hw => hw)

/-! ### Punctual triggers -/

/-- The number of the turn a trigger was fired for. -/
def BotTrigger.turn : BotTrigger → ℕ
  | .watchForBotVotes turn _ => turn
  | .watchForBotTurns turn => turn

/-- The triggers that are out are for the current turn. -/
def Punctual (room : Room) : Prop :=
  ∀ trigger ∈ room.pending, trigger.turn = room.lobby.turns.length

theorem Resolves.punctual {room room' : Room} {done : List Turn} {t t' : Turn} {cleared : Bool}
    (hres : Resolves room done t t' cleared room') : Punctual room' := by
  intro trigger htrigger
  cases hres.next with
  | gameOver hstatus hturns hawaiting hpending =>
    rw [hpending] at htrigger
    cases htrigger
  | nextTurn nextPlayer created hopen hnext hstatus hturns hawaiting hpending =>
    rw [hpending] at htrigger
    split at htrigger
    · rw [List.mem_singleton.mp htrigger]
      rfl
    · cases htrigger

theorem Punctual.step {room room' : Room} {i : RoomInput} (h : Punctual room)
    (hphased : Phased room) (hs : Scheduled settings room.lobby) (hP : PlayersOnly room i)
    (hstep : RoomStep lobbyId room i room') : Punctual room' := by
  cases hphased.toTidy.gameStep hs (hphased.toFair.orderly hs hP) hstep with
  | idle i hrejected room' hlobby hpending =>
    rcases hpending with hsame | ⟨_, hnil⟩
    · rwa [Punctual, hsame, hlobby]
    · simp [Punctual, hnil]
  | exchanged now playerId random hallowed room' hok hstatus hturns hvotes hawaiting hcharged
      hpending =>
    rwa [Punctual, hpending, hturns]
  | opened i word cleared hby hstatus done t hturns room' hstatus' hturns' hvotes hplayers hawaiting
      hpending =>
    intro trigger htrigger
    rw [hpending] at htrigger
    split at htrigger
    · rw [List.mem_singleton.mp htrigger]
      rfl
    · cases htrigger
  | stolen i word cleared hby hstatus done t otherId hother room' hvotes hres =>
    exact hres.punctual
  | counted i votes left hby hstatus hopen room' hstatus' hturns hvotes hplayers hawaiting
      hpending =>
    rw [Punctual, hpending, hturns]
    cases hby with
    | user => exact h
    | bots => simp
  | tallied i votes left hby hstatus hquorum done t bank room' hvotes hres =>
    exact hres.punctual

theorem FreshGame.punctual {room : Room} {firstPlayer : Uid} {created : Option ℕ}
    (h : FreshGame room firstPlayer created) : Punctual room := by
  intro trigger htrigger
  rw [h.pending] at htrigger
  split at htrigger
  · rw [List.mem_singleton.mp htrigger, h.turns]
    rfl
  · cases htrigger

theorem punctual_of_reachable {room : Room} (h : Room.Reachable lobbyId PlayersOnly room) :
    Phase (fun _ room => Phased room ∧ Punctual room) room := by
  refine h.phase ?_ ?_
  · intro room now settings next hun hdealt
    obtain ⟨firstPlayer, created, hfresh⟩ := hdealt.fresh hun
    exact ⟨hdealt.phased hun, hfresh.punctual⟩
  · rintro settings room i room' hs ⟨hphased, hpunctual⟩ hP hstep
    exact ⟨hphased.step hs hP hstep, hpunctual.step hphased hs hP hstep⟩

/-! ### What a trigger asks about -/

/-- What the bots vote on the words. -/
theorem BotTrigger.ask_votes {bot : PasswordBot V D} {lobby : Lobby} {random : Draw}
    {answer : BotAnswer} {turn : ℕ} {ids : List Uid} {done : List Turn} {t : Turn}
    (hturns : lobby.turns = done ++ [t])
    (h : (BotTrigger.watchForBotVotes turn ids).ask bot lobby random = .ok answer) :
    bot.voteOnOtherTurn (wordBefore lobby.startWord done done.length) t.submittedWord
      = .ok answer.challenge := by
  obtain ⟨info, hinfo, h⟩ := bind_eq_ok.mp h
  obtain ⟨challenge, hchallenge, h⟩ := bind_eq_ok.mp h
  obtain rfl := Except.ok.inj h
  have hinfo := mapError_eq_ok.mp hinfo
  rw [infoForBotVote, currTurn_eq_ok.mpr ⟨done, hturns⟩, ok_bind, getPreviousWord_eq hturns,
    ok_bind] at hinfo
  obtain rfl := Except.ok.inj hinfo
  exact mapError_eq_ok.mp hchallenge

/-- The answer is handed on with its draw. -/
theorem BotTrigger.ask_random {bot : PasswordBot V D} {lobby : Lobby} {random : Draw}
    {answer : BotAnswer} {trigger : BotTrigger} (h : trigger.ask bot lobby random = .ok answer) :
    answer.random = random := by
  cases trigger with
  | watchForBotVotes turn ids | watchForBotTurns turn =>
    obtain ⟨info, _, h⟩ := bind_eq_ok.mp h
    obtain ⟨said, _, h⟩ := bind_eq_ok.mp h
    rw [← Except.ok.inj h]

/-- What the bot plays. -/
theorem BotTrigger.ask_turns {bot : PasswordBot V D} {lobby : Lobby} {random : Draw}
    {answer : BotAnswer} {turn : ℕ} {done : List Turn} {t : Turn}
    (hturns : lobby.turns = done ++ [t])
    (h : (BotTrigger.watchForBotTurns turn).ask bot lobby random = .ok answer) :
    ∃ targetWords, lobby.targetWords.get? t.player = some targetWords ∧
      bot.playTurn targetWords (wordBefore lobby.startWord done done.length)
        = .ok answer.word := by
  obtain ⟨info, hinfo, h⟩ := bind_eq_ok.mp h
  obtain ⟨word, hword, h⟩ := bind_eq_ok.mp h
  obtain rfl := Except.ok.inj h
  have hinfo := mapError_eq_ok.mp hinfo
  rw [infoForBotTurn, currTurn_eq_ok.mpr ⟨done, hturns⟩, ok_bind, getPreviousWord_eq hturns,
    ok_bind] at hinfo
  obtain ⟨targetWords, hbank, hinfo⟩ := bind_eq_ok.mp hinfo
  obtain rfl := Except.ok.inj hinfo
  exact ⟨targetWords, orThrow_eq_ok.mp hbank, mapError_eq_ok.mp hword⟩

/-- Words stay in a game in which only players vote. -/
theorem wordsStay_of_reaches {room room' : Room} (hs : Scheduled settings room.lobby)
    (hphased : Phased room) (h : (roomMachine lobbyId).Reaches PlayersOnly room room') :
    WordsStay room room' := by
  refine Machine.Reaches.relates (I := fun room => Scheduled settings room.lobby ∧ Phased room)
    (fun _ _ _ h => h) (fun _ _ _ h h' => h.trans h') ?_ ⟨hs, hphased⟩ h
  rintro room i ⟨hs, hphased⟩ hP
  have hstep := Room.step_cases lobbyId room i
  exact ⟨⟨hs.step i, hphased.step hs hP hstep⟩, hphased.wordsStay hs hP hstep⟩

/-- A batch is out during a vote. -/
theorem Tidy.voting_of_batch {room : Room} (h : Tidy room) {trigger : BotTrigger}
    (hout : trigger ∈ room.pending) (hbatch : trigger.playsTurn = false) :
    room.lobby.status = .voting := by
  have hpending := h.pending
  cases hstatus : room.lobby.status with
  | voting => rfl
  | submission =>
    rw [hstatus] at hpending
    rcases hpending with hnil | ⟨turn, hsingle⟩
    · rw [hnil] at hout
      cases hout
    · rw [hsingle, List.mem_singleton] at hout
      rw [hout] at hbatch
      cases hbatch
  | lobby | done =>
    rw [hstatus] at hpending
    rw [hpending] at hout
    cases hout

/-- A room with a trigger out has started. -/
theorem started_of_out {room : Room} (h : Room.Reachable lobbyId PlayersOnly room)
    {trigger : BotTrigger} (hout : trigger ∈ room.pending) :
    ∃ settings, Scheduled settings room.lobby ∧ Phased room ∧
      trigger.turn = room.lobby.turns.length := by
  cases punctual_of_reachable h with
  | unstarted hun =>
    rw [hun.pending] at hout
    cases hout
  | started settings hs hP => exact ⟨settings, hs, hP.1, hP.2 trigger hout⟩

/-- Its words are those of the game. -/
theorem wordsShared_of_out {room : Room} (h : Room.Reachable lobbyId PlayersOnly room)
    {trigger : BotTrigger} (hout : trigger ∈ room.pending) : WordsShared room.lobby := by
  obtain ⟨settings, hs, _⟩ := started_of_out h hout
  obtain ⟨hostId, hreach⟩ := h
  exact wordsShared_of_reachable ⟨hostId, hreach.mono (fun _ _ _ => trivial)⟩ hs.started

/-- The word before a turn stays. -/
theorem wordBefore_of_reaches {room room' : Room} (hs : Scheduled settings room.lobby)
    (hphased : Phased room) (h : (roomMachine lobbyId).Reaches PlayersOnly room room')
    {done done' : List Turn} {t t' : Turn} (hturns : room.lobby.turns = done ++ [t])
    (hturns' : room'.lobby.turns = done' ++ [t']) (hlen : done.length = done'.length) :
    wordBefore room.lobby.startWord done done.length =
      wordBefore room'.lobby.startWord done' done'.length := by
  have hfree : (roomMachine lobbyId).Reaches anyInput room room' := h.mono (fun _ _ _ => trivial)
  rw [startWord_of_reaches hs hfree, ← hlen]
  cases hk : done.length with
  | zero => rfl
  | succ k =>
    -- the turn before is resolved, and has a word
    have hlt : k < done.length := by omega
    have hresolved : done[k].Resolved := hs.resolved _ (by simp [hturns])
    obtain ⟨word, hword⟩ := Option.ne_none_iff_exists'.mp
      (hphased.submitted done[k] (by simp [hturns]) hresolved)
    have hat : room.wordAt k = some word := by
      rw [Room.wordAt, hturns, List.getElem?_append_left hlt, List.getElem?_eq_getElem hlt]
      exact hword
    have hat' := wordsStay_of_reaches hs hphased h k word hat
    rw [Room.wordAt, hturns', List.getElem?_append_left (by omega)] at hat'
    rw [wordBefore, wordBefore, hat', List.getElem?_eq_getElem hlt]
    exact hword

/-- The word that is voted on stays, as long as the turn does. -/
theorem submittedWord_of_reaches {room room' : Room} (hs : Scheduled settings room.lobby)
    (hphased : Phased room) (h : (roomMachine lobbyId).Reaches PlayersOnly room room')
    (hvoting : room.lobby.status = .voting) {done done' : List Turn} {t t' : Turn}
    (hturns : room.lobby.turns = done ++ [t]) (hturns' : room'.lobby.turns = done' ++ [t'])
    (hlen : done.length = done'.length) : t.submittedWord = t'.submittedWord := by
  obtain ⟨word, hword⟩ := Option.ne_none_iff_exists'.mp (hphased.voting hvoting done t hturns)
  have hat : room.wordAt done.length = some word := by
    simp [Room.wordAt, hturns, hword]
  have hat' := wordsStay_of_reaches hs hphased h _ word hat
  rw [Room.wordAt, hturns', hlen, List.getElem?_concat_length, Option.bind_some] at hat'
  rw [hword, hat']

/-- While a trigger is out, the words it asks about stay. -/
theorem words_while_out {room room' : Room} (h : Room.Reachable lobbyId PlayersOnly room)
    (h' : (roomMachine lobbyId).Reaches PlayersOnly room room') {trigger : BotTrigger}
    (hout : trigger ∈ room.pending) (hout' : trigger ∈ room'.pending) {done' : List Turn}
    {t' : Turn} (hturns' : room'.lobby.turns = done' ++ [t']) :
    ∃ done t, room.lobby.turns = done ++ [t] ∧
      wordBefore room.lobby.startWord done done.length =
        wordBefore room'.lobby.startWord done' done'.length ∧
      (trigger.playsTurn = false → t.submittedWord = t'.submittedWord) := by
  obtain ⟨settings, hs, hphased, hturn⟩ := started_of_out h hout
  obtain ⟨_, _, _, hturn'⟩ := started_of_out (h.trans h') hout'
  obtain ⟨done, t, hturns⟩ := hs.turns_eq
  have hlen : done.length = done'.length := by
    rw [hturn, hturns, hturns'] at hturn'
    simpa using hturn'
  refine ⟨done, t, hturns, wordBefore_of_reaches hs hphased h' hturns hturns' hlen, ?_⟩
  intro hbatch
  have hvoting := hphased.voting_of_batch hout hbatch
  exact submittedWord_of_reaches hs hphased h' hvoting hturns hturns' hlen

/-! ### What the bot said of a turn -/

/-- The bot's vote on the word is the ballot of one of the bots, and the other ones pass. -/
def BotsJudged (bot : PasswordBot V D) (previousWord submittedWord : Option Json) (ids : List Uid)
    (votes : Votes) : Prop :=
  ∃ challenge, bot.voteOnOtherTurn previousWord submittedWord = .ok challenge ∧
    ∃ chosen ∈ ids, ∀ uid ∈ ids, votes.get? uid = some (.bool (challenge && decide (uid = chosen)))

/-- The bot plays the word after `previousWord`, towards words of the game. -/
def PlayedBy (bot : PasswordBot V D) (previousWord : Option Json) (word : String) : Prop :=
  ∃ targetWords, (∀ target ∈ targetWords, target ∈ wordList) ∧
    bot.playTurn targetWords previousWord = .ok word

/-- A turn after `previousWord`: the bots' ballots, if it was resolved by a vote, and the word, if
    it is a bot's. -/
structure TurnJudged (bot : PasswordBot V D) (bots : Uid → List Uid) (previousWord : Option Json)
    (t : Turn) : Prop where
  votes : t.wasSubmittersWord ≠ none → bots t.player ≠ [] →
    BotsJudged bot previousWord t.submittedWord (bots t.player) t.votes
  word : isBot t.player = true → ∀ word, t.submittedWord = some word →
    ∃ s, word = .str s ∧ PlayedBy bot previousWord s

def LogJudged (bot : PasswordBot V D) (bots : Uid → List Uid) (startWord : Option String)
    (turns : List Turn) : Prop :=
  ∀ k t, turns[k]? = some t → TurnJudged bot bots (wordBefore startWord turns k) t

variable {bot : PasswordBot V D} {bots : Uid → List Uid}

theorem logJudged_nil {startWord : Option String} : LogJudged bot bots startWord [] := by
  intro k t ht
  cases ht

theorem logJudged_concat {startWord : Option String} {done : List Turn} {t : Turn} :
    LogJudged bot bots startWord (done ++ [t]) ↔ LogJudged bot bots startWord done ∧
      TurnJudged bot bots (wordBefore startWord done done.length) t := by
  constructor
  · intro h
    refine ⟨fun k u hu => ?_, ?_⟩
    · obtain ⟨hk, _⟩ := List.getElem?_eq_some_iff.mp hu
      have hjudged := h k u (by rw [List.getElem?_append_left hk]; exact hu)
      rwa [wordBefore_append (by omega)] at hjudged
    · have hjudged := h done.length t List.getElem?_concat_length
      rwa [wordBefore_append le_rfl] at hjudged
  · rintro ⟨hdone, hlast⟩ k u hu
    rcases Nat.lt_trichotomy k done.length with hlt | rfl | hgt
    · rw [List.getElem?_append_left hlt] at hu
      rw [wordBefore_append (by omega)]
      exact hdone k u hu
    · rw [List.getElem?_concat_length] at hu
      obtain rfl := Option.some.inj hu
      rwa [wordBefore_append le_rfl]
    · rw [List.getElem?_eq_none (by simp; omega)] at hu
      cases hu

/-- Nothing was said of a turn that is only begun. -/
theorem TurnJudged.fresh {previousWord : Option Json} (player : Uid) (created : Option ℕ) :
    TurnJudged bot bots previousWord { player := player, created := created } :=
  ⟨fun h => absurd rfl h, fun _ _ h => by cases h⟩

/-- Every bot of a batch passes at first. -/
theorem foldl_pass_mem {votes : Votes} {ids : List Uid} {uid : Uid} (huid : uid ∈ ids) :
    (ids.foldl (fun votes botId => votes.set botId (.bool false)) votes).get? uid
      = some (.bool false) := by
  induction ids generalizing votes with
  | nil => cases huid
  | cons botId ids ih =>
    rw [List.foldl_cons]
    by_cases hlater : uid ∈ ids
    · exact ih hlater
    · obtain rfl := (List.mem_cons.mp huid).resolve_right hlater
      rw [foldl_pass_get? hlater, Dict.get?_set_self]

/-- A batch is judged by the bot's vote. -/
theorem castBotVotes_judged {previousWord submittedWord : Option Json} {ids : List Uid}
    (hne : ids ≠ []) {challenge : Bool}
    (hvote : bot.voteOnOtherTurn previousWord submittedWord = .ok challenge) (votes : Votes)
    (random : Draw) :
    BotsJudged bot previousWord submittedWord ids (castBotVotes votes ids challenge random) := by
  refine ⟨challenge, hvote, _, chosen_mem hne random, fun uid huid => ?_⟩
  unfold castBotVotes
  by_cases hchosen : uid = ids.getD (random.index ids.length) "undefined"
  · subst hchosen
    rw [Dict.get?_set_self]
    simp
  · rw [Dict.get?_set_ne _ _ hchosen, foldl_pass_mem huid, decide_eq_false hchosen, Bool.and_false]

/-- Ballots of others leave the bots' ballots alone. -/
theorem BotsJudged.congr {previousWord submittedWord : Option Json} {ids : List Uid}
    {votes votes' : Votes} (h : BotsJudged bot previousWord submittedWord ids votes)
    (hsame : ∀ uid ∈ ids, votes'.get? uid = votes.get? uid) :
    BotsJudged bot previousWord submittedWord ids votes' := by
  obtain ⟨challenge, hvote, chosen, hmem, hballots⟩ := h
  exact ⟨challenge, hvote, chosen, hmem, fun uid huid => (hsame uid huid).trans (hballots uid huid)⟩

/-! ### What it said of a game -/

/-- The ballots of the bots are still out, or they are judged. -/
def BallotsJudged (bot : PasswordBot V D) (previousWord submittedWord : Option Json)
    (ids : List Uid) (votes : Votes) : Prop :=
  (∀ uid ∈ ids, uid ∉ votes.keys) ∨ BotsJudged bot previousWord submittedWord ids votes

structure Lobby.BotJudged (bot : PasswordBot V D) (lobby : Lobby) : Prop where
  log : LogJudged bot (votingBots lobby) lobby.startWord lobby.turns
  ballots : lobby.status = .voting → ∀ done t, lobby.turns = done ++ [t] →
    BallotsJudged bot (wordBefore lobby.startWord done done.length) t.submittedWord
      (votingBots lobby t.player) lobby.votes

/-- The answer is the bot's, to the question about the current turn. -/
def BotTrigger.IsTold (bot : PasswordBot V D) (lobby : Lobby) (answer : BotAnswer) :
    BotTrigger → Prop
  | .watchForBotVotes _ _ => ∀ done t, lobby.turns = done ++ [t] →
      bot.voteOnOtherTurn (wordBefore lobby.startWord done done.length) t.submittedWord
        = .ok answer.challenge
  | .watchForBotTurns _ => ∀ done t, lobby.turns = done ++ [t] →
      PlayedBy bot (wordBefore lobby.startWord done done.length) answer.word

/-- Whoever answers a trigger that is out is the bot. -/
def FromBot (bot : PasswordBot V D) (room : Room) : RoomInput → Prop
  | .deliver _ _ answer => ∀ trigger ∈ room.pending, trigger.IsTold bot room.lobby answer
  | _ => True

namespace Lobby.BotJudged

variable {room room' : Room} {i : RoomInput}

/-- The word of the current turn is the bot's, if the turn is. -/
theorem word_played {word : Json} {cleared : Bool} (hby : PlaysWord room i word cleared)
    (hP : PlayersOnly room i) (hfrom : FromBot bot room i)
    (hstatus : room.lobby.status = .submission) {done : List Turn} {t : Turn}
    (hturns : room.lobby.turns = done ++ [t])
    (hbot : isBot t.player = true) :
    ∃ s, word = .str s ∧
      PlayedBy bot (wordBefore room.lobby.startWord done done.length) s := by
  cases hby with
  | player now uid word hturn hpending =>
    obtain ⟨done', u, hturns', rfl⟩ := hturn
    obtain ⟨_, rfl⟩ := List.append_singleton_inj (hturns.symm.trans hturns')
    have hhuman : isBot t.player = false := hP hstatus ⟨done', t, hturns', rfl⟩
    rw [hhuman] at hbot
    cases hbot
  | bot now k answer turn hevent hpending =>
    have hplayed := hfrom (.watchForBotTurns turn)
      (by rw [hpending]; exact List.mem_singleton_self _) done t hturns
    exact ⟨answer.word, rfl, hplayed⟩

/-- The ballots that are cast are those of others, or the bot's. -/
theorem ballots_cast (h : room.lobby.BotJudged bot) (hfair : Fair room) {votes : Votes}
    {left : List BotTrigger} (hby : CastsVotes room i votes left) (hP : PlayersOnly room i)
    (hfrom : FromBot bot room i) (hstatus : room.lobby.status = .voting) {done : List Turn}
    {t : Turn} (hturns : room.lobby.turns = done ++ [t]) :
    BallotsJudged bot (wordBefore room.lobby.startWord done done.length) t.submittedWord
      (votingBots room.lobby t.player) votes := by
  cases hby with
  | user now uid vote hother hfresh hpending =>
    have hhuman : ∀ botId ∈ votingBots room.lobby t.player, botId ≠ uid := by
      rintro botId hmem rfl
      have hbot := (mem_votingBots.mp hmem).2
      rw [(hP hstatus).2.1] at hbot
      cases hbot
    refine (h.ballots hstatus done t hturns).imp ?_ ?_
    · intro hout botId hmem hvoted
      rcases Dict.mem_keys_set.mp hvoted with heq | hbefore
      · exact hhuman botId hmem heq
      · exact hout botId hmem hbefore
    · intro hjudged
      exact hjudged.congr (fun botId hmem => Dict.get?_set_ne _ _ (hhuman botId hmem))
  | bots now k answer turn ids hpending =>
    rcases hfair.batch hstatus done t hturns with hnil | ⟨hne, _, turn', hbatch⟩
    · rw [hpending] at hnil
      cases hnil
    · rw [hpending] at hbatch
      obtain ⟨_, rfl⟩ : turn = turn' ∧ ids = votingBots room.lobby t.player := by simpa using hbatch
      have hvote := hfrom (.watchForBotVotes turn (votingBots room.lobby t.player))
        (by rw [hpending]; exact List.mem_singleton_self _) done t hturns
      exact Or.inr (castBotVotes_judged hne hvote _ _)

/-- The turn that is resolved, and the next one. -/
theorem resolves {done : List Turn} {t t' : Turn} {cleared : Bool}
    (hres : Resolves room done t t' cleared room')
    (hbots : votingBots room'.lobby = votingBots room.lobby)
    (hstart : room'.lobby.startWord = room.lobby.startWord) (h : room.lobby.BotJudged bot)
    (hjudged : TurnJudged bot (votingBots room.lobby)
      (wordBefore room.lobby.startWord done done.length) t'.stored) :
    room'.lobby.BotJudged bot := by
  have hlog : LogJudged bot (votingBots room'.lobby) room'.lobby.startWord
      (done ++ [t'.stored]) := by
    have hbefore := h.log
    rw [hres.turns] at hbefore
    rw [hbots, hstart]
    exact logJudged_concat.mpr ⟨(logJudged_concat.mp hbefore).1, hjudged⟩
  refine ⟨?_, fun hvoting => absurd hvoting hres.not_voting⟩
  cases hres.next with
  | gameOver hstatus hturns => rwa [hturns]
  | nextTurn nextPlayer created hopen hnext hstatus hturns =>
    rw [hturns]
    exact logJudged_concat.mpr ⟨hlog, .fresh nextPlayer created⟩

/-- **Step lemma.** -/
theorem step (h : room.lobby.BotJudged bot) (hs : Scheduled settings room.lobby)
    (hphased : Phased room) (hP : PlayersOnly room i) (hfrom : FromBot bot room i) :
    (room.step lobbyId i).lobby.BotJudged bot := by
  have hstep := Room.step_cases lobbyId room i
  have hmove : (roomMachine lobbyId).Reaches anyInput room (room.step lobbyId i) := .step trivial
  have hstart := startWord_of_reaches hs hmove
  clear hmove
  generalize room.step lobbyId i = room' at hstep hstart
  have hbots : votingBots room'.lobby = votingBots room.lobby :=
    funext (fun submitter => votingBots_congr (hstep.seats hs.started).players submitter)
  have hopen : ∀ {done t}, room.lobby.turns = done ++ [t] → room.lobby.status ≠ .done →
      t.wasSubmittersWord = none := by
    intro done t hturns hstatus
    by_contra hvoted
    exact hstatus ((hphased.current done t hturns).mp (Or.inr hvoted))
  cases hphased.toTidy.gameStep hs (hphased.toFair.orderly hs hP) hstep with
  | idle i hrejected room' hlobby => rwa [hlobby]
  | exchanged now playerId random hallowed room' hok hstatus hturns hvotes =>
    refine ⟨by rw [hbots, hstart, hturns]; exact h.log, ?_⟩
    rw [hbots, hstart, hturns, hstatus, hvotes]
    exact h.ballots
  | opened i word cleared hby hstatus done t hturns room' hstatus' hturns' hvotes =>
    have hlog := h.log
    rw [hturns] at hlog
    refine ⟨?_, fun _ done' u hu => Or.inl ?_⟩
    · rw [hbots, hstart, hturns']
      refine logJudged_concat.mpr ⟨(logJudged_concat.mp hlog).1, ?_, ?_⟩
      · intro hvoted
        exact absurd (hopen hturns (by rw [hstatus]; simp)) hvoted
      · intro hbot w hw
        obtain rfl := Option.some.inj hw
        exact word_played hby hP hfrom hstatus hturns hbot
    · rw [hvotes, hphased.quiet (by rw [hstatus]; simp)]
      simp
  | stolen i word cleared hby hstatus done t otherId hother room' hvotes hres =>
    refine resolves hres hbots hstart h ⟨?_, ?_⟩
    · intro hvoted
      exact absurd (hopen hres.turns (by rw [hstatus]; simp)) hvoted
    · intro hbot w hw
      obtain rfl := Option.some.inj hw
      exact word_played hby hP hfrom hstatus hres.turns hbot
  | counted i votes left hby hstatus hcount room' hstatus' hturns hvotes =>
    refine ⟨by rw [hbots, hstart, hturns]; exact h.log, ?_⟩
    intro _ done t hlast
    rw [hturns] at hlast
    rw [hbots, hstart, hvotes, (hby.ballots hphased.toFair hP hstatus hlast).stored]
    exact h.ballots_cast hphased.toFair hby hP hfrom hstatus hlast
  | tallied i votes left hby hstatus hquorum done t bank room' hvotes hres =>
    have hballots := hby.ballots hphased.toFair hP hstatus hres.turns
    have hlog := h.log
    rw [hres.turns] at hlog
    refine resolves hres hbots hstart h ⟨fun _ hne => ?_, (logJudged_concat.mp hlog).2.word⟩
    show BotsJudged bot _ t.submittedWord (votingBots room.lobby t.player) votes.stored
    rw [hballots.stored]
    -- the quorum is everyone, so the bots have voted
    have hlen := hs.length_electorate (t := t) (by rw [hres.turns]; simp)
    refine (h.ballots_cast hphased.toFair hby hP hfrom hstatus hres.turns).resolve_left ?_
    intro hout
    obtain ⟨botId, hmem⟩ := List.exists_mem_of_ne_nil _ hne
    exact hout botId hmem
      ((hballots.voters (by omega) botId).mpr (mem_votingBots.mp hmem).1)

end Lobby.BotJudged

/-! ### Runs whose answers are a bot's -/

/-- An answer that is given after `past` is the bot's: to what its trigger asked when it read the
    lobby, at some moment while it was out. -/
def AskedBot (bot : PasswordBot V D) (lobbyId : LobbyId) (start : Room) (past : List RoomInput) :
    RoomInput → Prop
  | .deliver _ i answer => ∀ trigger ∈ ((roomMachine lobbyId).run start past).pending[i]?,
      ∃ earlier later, past = earlier ++ later ∧
        trigger ∈ ((roomMachine lobbyId).run start earlier).pending ∧
        trigger.ask bot ((roomMachine lobbyId).run start earlier).lobby answer.random = .ok answer
  | _ => True

/-- The answers of the run are the bot's. -/
def AsksBot (bot : PasswordBot V D) (lobbyId : LobbyId) (start : Room) (inputs : List RoomInput) :
    Prop :=
  ∀ past i rest, inputs = past ++ i :: rest → AskedBot bot lobbyId start past i

theorem asksBot_concat {start : Room} {past : List RoomInput} {i : RoomInput} :
    AsksBot bot lobbyId start (past ++ [i]) ↔
      AsksBot bot lobbyId start past ∧ AskedBot bot lobbyId start past i := by
  constructor
  · intro h
    refine ⟨?_, h past i [] rfl⟩
    rintro before j rest rfl
    exact h before j (rest ++ [i]) (by simp)
  · rintro ⟨hpast, hi⟩ before j rest heq
    rcases concat_eq_append_cons heq with ⟨rfl, rfl, rfl⟩ | ⟨rest, rfl, rfl⟩
    · exact hi
    · exact hpast before j rest rfl

/-- **Reading late makes no difference.**  What the bot said when it was asked, it says of the
    current turn. -/
theorem AskedBot.fromBot {hostId : Uid} {past : List RoomInput} {i : RoomInput}
    (h : AskedBot bot lobbyId (Room.initial hostId) past i)
    (hadm : (roomMachine lobbyId).Admissible PlayersOnly (Room.initial hostId) past)
    (hmoves : ((roomMachine lobbyId).run (Room.initial hostId) past).step lobbyId i ≠
      (roomMachine lobbyId).run (Room.initial hostId) past) :
    FromBot bot ((roomMachine lobbyId).run (Room.initial hostId) past) i := by
  cases i with
  | call now c => trivial
  | redeliver now k answer => trivial
  | deliver now k answer =>
    obtain ⟨trigger, hevent⟩ : ∃ trigger,
        ((roomMachine lobbyId).run (Room.initial hostId) past).pending[k]? = some trigger := by
      rw [← Option.ne_none_iff_exists']
      intro hnone
      exact hmoves (by rw [Room.step, hnone])
    obtain ⟨earlier, later, hpast, hout, hask⟩ := h trigger hevent
    intro other hother
    have hmem := List.mem_of_getElem? hevent
    obtain ⟨settings, _, hphased, _⟩ := started_of_out ⟨hostId, past, hadm, rfl⟩ hmem
    -- at most one trigger is out
    obtain ⟨hsingle, _⟩ := hphased.pending.take hevent
    rw [hsingle, List.mem_singleton] at hother
    subst hother
    subst hpast
    rw [Machine.admissible_append] at hadm
    have hreach : (roomMachine lobbyId).Reaches PlayersOnly
        ((roomMachine lobbyId).run (Room.initial hostId) earlier)
        ((roomMachine lobbyId).run (Room.initial hostId) (earlier ++ later)) :=
      ⟨later, hadm.2, (Machine.run_append _ _ _).symm⟩
    cases other with
    | watchForBotVotes turn ids =>
      intro done t hturns
      obtain ⟨done', t', hturns', hword, hsubmitted⟩ :=
        words_while_out ⟨hostId, earlier, hadm.1, rfl⟩ hreach hout hmem hturns
      rw [← hword, ← hsubmitted rfl]
      exact BotTrigger.ask_votes hturns' hask
    | watchForBotTurns turn =>
      intro done t hturns
      obtain ⟨done', t', hturns', hword, _⟩ :=
        words_while_out ⟨hostId, earlier, hadm.1, rfl⟩ hreach hout hmem hturns
      obtain ⟨targetWords, hbank, hplayed⟩ := BotTrigger.ask_turns hturns' hask
      have hwords := wordsShared_of_out ⟨hostId, earlier, hadm.1, rfl⟩ hout
      rw [← hword]
      exact ⟨targetWords, hwords.bank_subset hbank, hplayed⟩

/-- **Run lemma.** -/
theorem judged_of_run {hostId : Uid} {inputs : List RoomInput}
    (hadm : (roomMachine lobbyId).Admissible PlayersOnly (Room.initial hostId) inputs)
    (hbot : AsksBot bot lobbyId (Room.initial hostId) inputs)
    (hstarted : ((roomMachine lobbyId).run (Room.initial hostId) inputs).lobby.status ≠ .lobby) :
    ((roomMachine lobbyId).run (Room.initial hostId) inputs).lobby.BotJudged bot := by
  refine Machine.run_history (m := roomMachine lobbyId)
    (I := fun past room => (roomMachine lobbyId).Admissible PlayersOnly (Room.initial hostId) past →
      AsksBot bot lobbyId (Room.initial hostId) past → room.lobby.status ≠ .lobby →
      room.lobby.BotJudged bot) ?_ ?_ inputs hadm hbot hstarted
  · intro _ _ hstatus
    exact absurd rfl hstatus
  · intro past i ih hpast hasked hstatus
    rw [Machine.admissible_append] at hpast
    obtain ⟨hbefore, hP, _⟩ := hpast
    obtain ⟨hearlier, hi⟩ := asksBot_concat.mp hasked
    cases punctual_of_reachable ⟨hostId, past, hbefore, rfl⟩ with
    | unstarted hun =>
      have hstep := Room.step_cases lobbyId ((roomMachine lobbyId).run (Room.initial hostId) past) i
      rcases hun.step hstep with hun' | ⟨now, settings, next, hdealt, hroom⟩
      · exact absurd hun'.status hstatus
      · obtain ⟨firstPlayer, created, hfresh⟩ := hdealt.fresh hun
        show (Room.step lobbyId _ i).lobby.BotJudged bot
        rw [hroom]
        refine ⟨?_, fun hvoting => ?_⟩
        · rw [hfresh.turns]
          show LogJudged bot _ _ ([] ++ [_])
          exact logJudged_concat.mpr ⟨logJudged_nil, .fresh firstPlayer created⟩
        · rw [hfresh.status] at hvoting
          cases hvoting
    | started settings hs hphased =>
      have hjudged := ih hbefore hearlier hs.started
      by_cases hmoves : ((roomMachine lobbyId).run (Room.initial hostId) past).step lobbyId i =
          (roomMachine lobbyId).run (Room.initial hostId) past
      · show (Room.step lobbyId _ i).lobby.BotJudged bot
        rwa [hmoves]
      · exact hjudged.step hs hphased.1 hP (hi.fromBot hbefore hmoves)

/-- Every turn is judged. -/
theorem turnJudged_of_run {hostId : Uid} {inputs : List RoomInput}
    (hadm : (roomMachine lobbyId).Admissible PlayersOnly (Room.initial hostId) inputs)
    (hbot : AsksBot bot lobbyId (Room.initial hostId) inputs) {room : Room}
    (hroom : (roomMachine lobbyId).run (Room.initial hostId) inputs = room) {k : ℕ} {t : Turn}
    (ht : room.lobby.turns[k]? = some t) :
    TurnJudged bot (votingBots room.lobby) (wordBefore room.lobby.startWord room.lobby.turns k)
      t := by
  subst hroom
  have hstarted : ((roomMachine lobbyId).run (Room.initial hostId) inputs).lobby.status ≠
      .lobby := by
    intro hstatus
    cases punctual_of_reachable ⟨hostId, inputs, hadm, rfl⟩ with
    | unstarted hun =>
      rw [hun.turns] at ht
      cases ht
    | started settings hs hP => exact hs.started hstatus
  exact (judged_of_run hadm hbot hstarted).log k t ht

/-- One of the bots votes, if they do. -/
theorem BotsJudged.challengers {previousWord submittedWord : Option Json} {ids : List Uid}
    {votes : Votes} (h : BotsJudged bot previousWord submittedWord ids votes) (hnd : ids.Nodup) :
    ∃ challenge, bot.voteOnOtherTurn previousWord submittedWord = .ok challenge ∧
      ids.countP (fun uid => truthy? (votes.get? uid)) = challenge.toNat := by
  obtain ⟨challenge, hvote, chosen, hmem, hballots⟩ := h
  refine ⟨challenge, hvote, ?_⟩
  have hcount : ids.countP (fun uid => truthy? (votes.get? uid)) =
      ids.countP (fun uid => challenge && decide (uid = chosen)) := by
    refine List.countP_congr (fun uid huid => ?_)
    rw [hballots uid huid]
    rfl
  rw [hcount]
  cases challenge with
  | false => simp
  | true =>
    have hone : ids.count chosen = 1 := List.count_eq_one_of_mem hnd hmem
    simpa [List.count, beq_eq_decide] using hone

/-- **The bots play and vote as the bot says.**  In a game in which only players vote, with the
    answers of a bot: one bot challenges a word if the bot does, and else none; and the words of
    the bots are what the bot plays after the word before. -/
theorem bots_judge {hostId : Uid} {inputs : List RoomInput}
    (hadm : (roomMachine lobbyId).Admissible PlayersOnly (Room.initial hostId) inputs)
    (hbot : AsksBot bot lobbyId (Room.initial hostId) inputs) {room : Room}
    (hroom : (roomMachine lobbyId).run (Room.initial hostId) inputs = room) {k : ℕ} {t : Turn}
    (ht : room.lobby.turns[k]? = some t) :
    (t.wasSubmittersWord ≠ none → votingBots room.lobby t.player ≠ [] →
      ∃ challenge, bot.voteOnOtherTurn (wordBefore room.lobby.startWord room.lobby.turns k)
          t.submittedWord = .ok challenge ∧
        (votingBots room.lobby t.player).countP (fun uid => truthy? (t.votes.get? uid))
          = challenge.toNat) ∧
    (isBot t.player = true → ∀ word, t.submittedWord = some word →
      ∃ s, word = .str s ∧
        PlayedBy bot (wordBefore room.lobby.startWord room.lobby.turns k) s) := by
  have hjudged := turnJudged_of_run hadm hbot hroom ht
  refine ⟨fun hvoted hbots => ?_, hjudged.word⟩
  exact (hjudged.votes hvoted hbots).challengers (room.lobby.players.keys_nodup.filter _)

/-- A bot to which all words are alike but the one that comes first. -/
def sampleJudge : PasswordBot ℤ ℤ :=
  PasswordBot.init sampleTools
    (wordList.map (fun word => (word, if word = "age" then 9 else 0))) 6 7

/-- `bot1` plays the first word. -/
def sampleFirst : List RoomInput :=
  sampleStart [] 2 sampleSettings ++ [.deliver 1 0 (sampleAnswer false "advance")]

/-- `ann` votes while `bot2` is asked. -/
def sampleDoubt : List RoomInput := sampleFirst ++ [.call 2 (.voteOnWord "ann" (.bool false))]

/-- The vote of `bot2` arrives. -/
def sampleJudged : List RoomInput := sampleDoubt ++ [.deliver 3 0 (sampleAnswer true "")]

/-- What is shown of an answer determines it. -/
theorem ask_of_shown {bot : PasswordBot ℤ ℤ} {lobby : Lobby} {trigger : BotTrigger}
    {challenge : Bool} {word : String}
    (h : (trigger.ask bot lobby Draw.zero).toOption.map (fun answer =>
      (answer.challenge, answer.word)) = some (challenge, word)) :
    trigger.ask bot lobby Draw.zero = .ok (sampleAnswer challenge word) := by
  cases hask : trigger.ask bot lobby Draw.zero with
  | error e =>
    rw [hask] at h
    cases h
  | ok answer =>
    have hrandom := BotTrigger.ask_random hask
    rw [hask] at h
    obtain ⟨challenge', word', random⟩ := answer
    obtain ⟨rfl, rfl⟩ : challenge' = challenge ∧ word' = word := by
      simpa [Except.toOption] using h
    rw [sampleAnswer, ← hrandom]

theorem sampleJudged_pending :
    (sampleRoom (sampleStart [] 2 sampleSettings)).pending = [.watchForBotTurns 1] ∧
    (sampleRoom sampleFirst).pending = [.watchForBotVotes 1 ["bot2"]] ∧
    (sampleRoom sampleDoubt).pending = [.watchForBotVotes 1 ["bot2"]] := by
  decide +kernel

/-- `bot2` read the lobby before `ann` voted. -/
theorem sampleJudged_asks : AsksBot sampleJudge "L" (Room.initial "ann") sampleJudged := by
  obtain ⟨hturn, hasked, hvote⟩ := sampleJudged_pending
  rw [sampleJudged, sampleDoubt, asksBot_concat, asksBot_concat, sampleFirst, asksBot_concat]
  refine ⟨⟨⟨?_, ?_⟩, trivial⟩, ?_⟩
  · intro past i rest heq
    have hmem : i ∈ sampleStart [] 2 sampleSettings := by simp [heq]
    cases i with
    | call now c => trivial
    | redeliver now k answer => trivial
    | deliver now k answer => simp [sampleStart, sampleEntry] at hmem
  · intro trigger htrigger
    change trigger ∈ (sampleRoom (sampleStart [] 2 sampleSettings)).pending[0]? at htrigger
    obtain rfl : BotTrigger.watchForBotTurns 1 = trigger := by simpa [hturn] using htrigger
    refine ⟨sampleStart [] 2 sampleSettings, [], rfl, ?_, ask_of_shown (by decide +kernel)⟩
    show _ ∈ (sampleRoom (sampleStart [] 2 sampleSettings)).pending
    simp [hturn]
  · intro trigger htrigger
    change trigger ∈ (sampleRoom sampleDoubt).pending[0]? at htrigger
    obtain rfl : BotTrigger.watchForBotVotes 1 ["bot2"] = trigger := by
      simpa [hvote] using htrigger
    refine ⟨sampleFirst, [.call 2 (.voteOnWord "ann" (.bool false))], rfl, ?_,
      ask_of_shown (by decide +kernel)⟩
    show _ ∈ (sampleRoom sampleFirst).pending
    simp [hasked]

theorem sampleJudged_shown :
    (sampleRoom sampleJudged).lobby.turns[0]?.map (fun t =>
      (t.player, t.wasSubmittersWord, truthy? (t.votes.get? "bot2"))) =
        some ("bot1", some false, true) := by
  decide +kernel

theorem sampleJudged_admissible :
    (roomMachine "L").Admissible PlayersOnly (Room.initial "ann") sampleJudged := by
  decide +kernel

theorem bots_judge_sample :
    ∃ t, (sampleRoom sampleJudged).lobby.turns[0]? = some t ∧ t.wasSubmittersWord = some false ∧
      ((t.wasSubmittersWord ≠ none →
        votingBots (sampleRoom sampleJudged).lobby t.player ≠ [] →
        ∃ challenge, sampleJudge.voteOnOtherTurn (wordBefore
            (sampleRoom sampleJudged).lobby.startWord (sampleRoom sampleJudged).lobby.turns 0)
            t.submittedWord = .ok challenge ∧
          (votingBots (sampleRoom sampleJudged).lobby t.player).countP
            (fun uid => truthy? (t.votes.get? uid)) = challenge.toNat) ∧
      (isBot t.player = true → ∀ word, t.submittedWord = some word →
        ∃ s, word = .str s ∧ PlayedBy sampleJudge
          (wordBefore (sampleRoom sampleJudged).lobby.startWord
            (sampleRoom sampleJudged).lobby.turns 0) s)) := by
  obtain ⟨t, ht, hshown⟩ := Option.map_eq_some_iff.mp sampleJudged_shown
  have hresolved : t.wasSubmittersWord = some false := by
    simp only [Prod.mk.injEq] at hshown
    exact hshown.2.1
  have hroom : (roomMachine "L").run (Room.initial "ann") sampleJudged = sampleRoom sampleJudged :=
    rfl
  exact ⟨t, ht, hresolved, bots_judge sampleJudged_admissible sampleJudged_asks hroom ht⟩

/-! ### A bot against the bots -/

namespace PasswordBot

/-- What is computed for a target word. -/
def targetAt (bot : PasswordBot V D) (lastWordVec : V) (targetWord : String) (targetVec : V) :
    Target V D :=
  let path := bot.tools.sub targetVec lastWordVec
  ⟨targetWord, path, bot.tools.norm path⟩

/-- The word is one of the ten nearest to the middle of the path from `previousWord` to one of the
    target words, which is not nearby, and has the stem of neither. -/
def Midway (bot : PasswordBot V D) (targetWords : List String) (previousWord : Option Json)
    (word : String) : Prop :=
  ∃ previous vec targetWord targetVec, previousWord = some (.str previous) ∧
    bot.embeddings.get? previous = some vec ∧ targetWord ∈ targetWords ∧
    bot.embeddings.get? targetWord = some targetVec ∧
    bot.tools.lt (bot.targetAt vec targetWord targetVec).distance bot.targetDistThreshold = false ∧
    word ∈ bot.filtered previous vec (bot.targetAt vec targetWord targetVec)

/-- What is nearby is not challenged. -/
def Lenient (bot : PasswordBot V D) : Prop :=
  ∀ d, bot.tools.lt d bot.targetDistThreshold = true →
    bot.tools.ge d bot.challengeThreshold = false

theorem mem_options {vec : V} {targetWords : List String} {options : List (Target V D)}
    (h : bot.options vec targetWords = .ok options) {target : Target V D} (ht : target ∈ options) :
    ∃ targetWord ∈ targetWords, ∃ targetVec, bot.embeddings.get? targetWord = some targetVec ∧
      target = bot.targetAt vec targetWord targetVec := by
  induction targetWords generalizing options with
  | nil =>
    obtain rfl := (Except.ok.inj h).symm
    cases ht
  | cons targetWord rest ih =>
    obtain ⟨entry, hentry, h⟩ := bind_eq_ok.mp h
    obtain ⟨others, hothers, h⟩ := bind_eq_ok.mp h
    obtain rfl := Except.ok.inj h
    rcases List.mem_cons.mp ht with rfl | hmem
    · obtain ⟨hword, hvec⟩ := lookup_ok.mp hentry
      obtain rfl : targetWord = entry.1 := by simpa using hword
      exact ⟨entry.1, List.mem_cons_self, entry.2, hvec, rfl⟩
    · obtain ⟨other, hother, htarget⟩ := ih hothers hmem
      exact ⟨other, List.mem_cons_of_mem _ hother, htarget⟩

/-- A nearby target, which the bot does not challenge, or a word on the way to a far one. -/
theorem playTurn_choice (hlenient : bot.Lenient) {targetWords : List String}
    {previousWord : Option Json} {word : String}
    (h : bot.playTurn targetWords previousWord = .ok word) :
    bot.voteOnOtherTurn previousWord (some (.str word)) = .ok false ∨
      bot.Midway targetWords previousWord word := by
  obtain ⟨⟨previous, vec⟩, hprevious, h⟩ := bind_eq_ok.mp h
  obtain ⟨options, hoptions, h⟩ := bind_eq_ok.mp h
  split at h
  · cases h
  · rename_i target others hsorted
    have hmem : target ∈ options :=
      (sortedBy_perm bot.tools.lt Target.distance options).mem_iff.mp (by rw [hsorted]; simp)
    obtain ⟨targetWord, htargetWord, targetVec, htargetVec, rfl⟩ := mem_options hoptions hmem
    split at h
    · rename_i hnear
      obtain rfl := Except.ok.inj h
      have hplayed : bot.lookup (some (.str targetWord)) = .ok (targetWord, targetVec) :=
        lookup_ok.mpr ⟨rfl, htargetVec⟩
      refine Or.inl ?_
      rw [voteOnOtherTurn, hprevious, ok_bind]
      show (bot.lookup (some (.str targetWord)) >>= _) = _
      rw [hplayed, ok_bind]
      exact congrArg Except.ok (hlenient _ hnear)
    · rename_i hfar
      obtain ⟨hword, hvec⟩ := lookup_ok.mp hprevious
      refine Or.inr ⟨previous, vec, targetWord, targetVec, hword, hvec, htargetWord, htargetVec,
        by simpa using hfar, ?_⟩
      split at h
      · cases h
      · rename_i first rest hfiltered
        obtain rfl := Except.ok.inj h
        rw [hfiltered]
        exact List.mem_cons_self

end PasswordBot

/-- **Bots challenge a bot only midway.**  If nothing nearby is challenged, the word of a bot that
    bots challenge is not a nearby target of it: it is one of the ten words nearest to the middle
    of the path from the word before to a word of the game that is not nearby. -/
theorem bots_challenge_bot {hostId : Uid} {inputs : List RoomInput}
    (hadm : (roomMachine lobbyId).Admissible PlayersOnly (Room.initial hostId) inputs)
    (hbot : AsksBot bot lobbyId (Room.initial hostId) inputs) (hlenient : bot.Lenient) {room : Room}
    (hroom : (roomMachine lobbyId).run (Room.initial hostId) inputs = room) {k : ℕ} {t : Turn}
    (ht : room.lobby.turns[k]? = some t) (hplayer : isBot t.player = true)
    (hvoted : t.wasSubmittersWord ≠ none) {challenger : Uid}
    (hchallenger : challenger ∈ votingBots room.lobby t.player)
    (hchallenges : truthy? (t.votes.get? challenger) = true) :
    ∃ word, t.submittedWord = some (.str word) ∧
      bot.Midway wordList (wordBefore room.lobby.startWord room.lobby.turns k) word := by
  have hjudged := turnJudged_of_run hadm hbot hroom ht
  obtain ⟨challenge, hvote, chosen, _, hballots⟩ :=
    hjudged.votes hvoted (List.ne_nil_of_mem hchallenger)
  rw [hballots challenger hchallenger] at hchallenges
  obtain ⟨rfl, _⟩ : challenge = true ∧ challenger = chosen := by
    simpa [truthy?, Json.truthy] using hchallenges
  -- the bot could read the word it challenged
  obtain ⟨_, s, hsubmitted, _⟩ := PasswordBot.voteOnOtherTurn_isOk.mp ⟨true, hvote⟩
  obtain ⟨word, hword, targetWords, hgame, hplayed⟩ := hjudged.word hplayer _ hsubmitted
  rw [hsubmitted, hword] at hvote
  refine ⟨word, by rw [hsubmitted, hword], ?_⟩
  rcases PasswordBot.playTurn_choice hlenient hplayed with hpass | hmidway
  · rw [hvote] at hpass
    cases hpass
  · obtain ⟨previous, vec, targetWord, targetVec, hprevious, hvec, hmem, hrest⟩ := hmidway
    exact ⟨previous, vec, targetWord, targetVec, hprevious, hvec, hgame _ hmem, hrest⟩

theorem bots_challenge_bot_sample :
    ∃ t word, (sampleRoom sampleJudged).lobby.turns[0]? = some t ∧
      t.submittedWord = some (.str word) ∧
      sampleJudge.Midway wordList (wordBefore (sampleRoom sampleJudged).lobby.startWord
        (sampleRoom sampleJudged).lobby.turns 0) word := by
  obtain ⟨t, ht, hshown⟩ := Option.map_eq_some_iff.mp sampleJudged_shown
  obtain ⟨hplayer, hresolved, hchallenges⟩ : t.player = "bot1" ∧
      t.wasSubmittersWord = some false ∧ truthy? (t.votes.get? "bot2") = true := by
    simpa only [Prod.mk.injEq] using hshown
  have hroom : (roomMachine "L").run (Room.initial "ann") sampleJudged = sampleRoom sampleJudged :=
    rfl
  have hlenient : sampleJudge.Lenient := by
    intro d hd
    have hlt : d < 6 := by simpa [sampleJudge, PasswordBot.init, sampleTools] using hd
    have hge : ¬ (7 ≤ d) := by omega
    simpa [sampleJudge, PasswordBot.init, sampleTools] using hge
  have hmem : "bot2" ∈ votingBots (sampleRoom sampleJudged).lobby t.player := by
    rw [hplayer]
    decide +kernel
  obtain ⟨word, hword, hmidway⟩ :=
    bots_challenge_bot sampleJudged_admissible sampleJudged_asks hlenient hroom ht
      (by rw [hplayer]; decide) (by rw [hresolved]; simp) hmem hchallenges
  exact ⟨t, word, ht, hword, hmidway⟩

end PasswordApp
