import PasswordApp.Game.Commits
import PasswordApp.Game.Triggers
import PasswordApp.Game.Words

namespace PasswordApp

/-!
# Game — a submission is judged by the banks it met

`handleWordSubmission` looks for the word in the other banks at once; the submitter's own bank
is only looked at when the votes are tallied.  Meanwhile the others may vote and exchange their
banks, but the submitter may not.

* `Lobby.TurnOpen` — a turn waiting for its word has no outcome yet;
* `HasWord`, `WordsShared.findOther_eq_some_iff` — the bank with a word, whatever the scan order;
* `Judged` — the invariant from the submission to the outcome;
* `submission_judged` — the recorded outcome is that of the banks at the submission.
-/

/-! ### A turn waiting for its word -/

/-- The current turn of a lobby in submission has no outcome. -/
def Lobby.TurnOpen (lobby : Lobby) : Prop :=
  lobby.status = .submission → ∀ done t, lobby.turns = done ++ [t] → ¬ t.Resolved

namespace Lobby.TurnOpen

variable {lobby next : Lobby}

theorem congr (h : lobby.TurnOpen) (hstatus : next.status = lobby.status)
    (hturns : next.turns = lobby.turns) : next.TurnOpen := by
  intro hsubmission done t heq
  exact h (hstatus ▸ hsubmission) done t (hturns ▸ heq)

theorem advances {mid : Lobby} {status : Status} (h : Advances mid lobby status) :
    Lobby.TurnOpen { lobby with status := status } := by
  intro hstatus done t hturns
  cases h with
  | gameOver settings hsettings hlen => cases hstatus
  | nextTurn settings nextPlayer hsettings hlen hnext =>
    -- the current turn is the one just pushed
    have hlast := (List.append_singleton_inj hturns).2
    rw [← hlast]
    exact not_resolved_fresh _ _

theorem wordPlayed {word : Json} (h : WordPlayed word lobby next) : next.TurnOpen := by
  cases h with
  | awaitsVotes => rintro ⟨⟩
  | othersWord done t hturns otherId hother players hscored lobby' status hadvances =>
    exact advances hadvances

theorem votesCast {votes : Votes} {tallied : ℕ} (h : VotesCast votes tallied lobby next) :
    next.TurnOpen := by
  cases h with
  | stillOpen => rintro ⟨⟩
  | tally hquorum done t hturns bank hbank hpayable players hscored lobby' status hadvances =>
    exact advances hadvances

theorem stored (h : lobby.TurnOpen) : lobby.stored.TurnOpen := by
  intro hstatus done t hturns
  rcases List.eq_nil_or_concat lobby.turns with hnil | ⟨done', t', hturns'⟩
  · rw [Lobby.stored, hnil] at hturns
    exact absurd hturns (by simp)
  · rw [List.concat_eq_append] at hturns'
    have hmap : lobby.turns.map Turn.stored = done ++ [t] := hturns
    rw [hturns', List.map_append] at hmap
    obtain rfl := (List.append_singleton_inj hmap).2
    exact h hstatus done' t' hturns'

/-- **Step lemma.** -/
theorem step {lobbyId : LobbyId} {room room' : Room} {i : RoomInput} (h : room.lobby.TurnOpen)
    (hstarted : room.lobby.status ≠ .lobby) (hstep : RoomStep lobbyId room i room') :
    room'.lobby.TurnOpen := by
  refine hstep.move_induction hstarted (fun _ _ _ => wordPlayed) (fun _ _ _ _ => votesCast) ?_
    (fun _ hnext => hnext.congr rfl rfl) (fun _ hnext => hnext.congr rfl rfl) (fun _ => stored) h
  intro now playerId next hrolled
  obtain ⟨_, _, _, _, _, _, _, _, _⟩ := hrolled
  exact h.congr rfl rfl

end Lobby.TurnOpen

/-- **A turn waiting for its word is open**, in every lobby reached. -/
theorem turnOpen_of_reachable {lobbyId : LobbyId} {G : Room → RoomInput → Prop} {room : Room}
    (h : Room.Reachable lobbyId G room) : room.lobby.TurnOpen := by
  have hphase : Phase (fun _ room => room.lobby.TurnOpen) room := by
    refine h.phase ?_ ?_
    · intro room now settings next _ hdealt
      cases hdealt with
      | intro gameWords random hplayers hwords banks hbanks order horder firstPlayer hfirst =>
        refine Lobby.TurnOpen.stored ?_
        intro _ done t hturns
        have hlast := (List.append_singleton_inj hturns).2
        rw [← hlast]
        exact not_resolved_fresh _ _
    · intro settings room i room' hs hopen _ hstep
      exact hopen.step hs.started hstep
  intro hstatus
  obtain ⟨settings, _, hopen⟩ := hphase.game (by rw [hstatus]; exact Status.noConfusion)
  exact hopen hstatus

/-- A turn whose word is voted on. -/
theorem wasOthersWord_of_unresolved {t : Turn} (h : ¬ t.Resolved) : t.wasOthersWord = false := by
  by_contra hothers
  exact h (Or.inl (by simpa using hothers))

/-! ### Whose word it is -/

/-- The word is in the bank of `uid`. -/
def HasWord (banks : Dict Uid (List String)) (uid : Uid) (word : Json) : Prop :=
  ∃ bank, banks.get? uid = some bank ∧ includes bank (some word) = true

/-- A word of a game is in one bank at most. -/
theorem WordsShared.hasWord_unique {lobby : Lobby} (h : WordsShared lobby) {uid uid' : Uid}
    {word : Json} (hword : HasWord lobby.targetWords uid word)
    (hword' : HasWord lobby.targetWords uid' word) : uid = uid' := by
  obtain ⟨bank, hbank, hin⟩ := hword
  obtain ⟨bank', hbank', hin'⟩ := hword'
  by_contra hne
  obtain ⟨s, hword, hs⟩ := includes_eq_true.mp hin
  obtain ⟨s', hword', hs'⟩ := includes_eq_true.mp hin'
  obtain ⟨rfl⟩ : s = s' := by simpa using hword.symm.trans hword'
  exact h.banks_disjoint hne hbank hbank' hs hs'

/-- The entry `findOther` stops at. -/
theorem hasWord_of_findOther {lobby : Lobby} {submitterId otherId : Uid} {word : Json}
    (h : findOther lobby submitterId (some word) = some otherId) :
    otherId ≠ submitterId ∧ HasWord lobby.targetWords otherId word := by
  obtain ⟨e, he, rfl⟩ := Option.map_eq_some_iff.mp h
  have hfound := List.find?_some he
  simp only [Bool.and_eq_true, decide_eq_true_eq] at hfound
  exact ⟨hfound.1, e.2, Dict.get?_eq_some_iff.mpr (List.mem_of_find?_eq_some he), hfound.2⟩

theorem findOther_isSome {lobby : Lobby} {submitterId otherId : Uid} {word : Json}
    (hne : otherId ≠ submitterId) (h : HasWord lobby.targetWords otherId word) :
    ∃ uid, findOther lobby submitterId (some word) = some uid := by
  obtain ⟨bank, hbank, hin⟩ := h
  cases hfind : findOther lobby submitterId (some word) with
  | some uid => exact ⟨uid, rfl⟩
  | none =>
    have hnone := List.find?_eq_none.mp (Option.map_eq_none_iff.mp hfind) (otherId, bank)
      (Dict.get?_eq_some_iff.mp hbank)
    simp [hne, hin] at hnone

/-- **The scan order does not matter**: the player found is the one whose bank has the word. -/
theorem WordsShared.findOther_eq_some_iff {lobby : Lobby} (h : WordsShared lobby)
    {submitterId otherId : Uid} {word : Json} :
    findOther lobby submitterId (some word) = some otherId ↔
      otherId ≠ submitterId ∧ HasWord lobby.targetWords otherId word := by
  refine ⟨hasWord_of_findOther, ?_⟩
  rintro ⟨hne, hword⟩
  obtain ⟨uid, hfind⟩ := findOther_isSome hne hword
  rw [hfind, h.hasWord_unique (hasWord_of_findOther hfind).2 hword]

/-! ### From the submission to the outcome -/

/-- The outcome of the turn is that of the banks `before`. -/
structure Verdict (before : Dict Uid (List String)) (submitter : Uid) (word : Json) (t : Turn) :
    Prop where
  others : ∀ otherId, (t.wasOthersWord = true ∧ t.otherId = some otherId) ↔
    (otherId ≠ submitter ∧ HasWord before otherId word)
  own : t.wasOthersWord = false →
    (t.wasSubmittersWord = some true ↔ HasWord before submitter word)

/-- Turn `k`, in which `submitter` played `word` when the banks were `before`, is being voted on
    with the submitter's bank as it was, or is over and recorded by the banks `before`; or the
    database refused the word, and the turn waits for another. -/
inductive Judged (before : Dict Uid (List String)) (submitter : Uid) (word : Json) (k : ℕ)
    (lobby : Lobby) : Prop
  | awaits (done : List Turn) (t : Turn) (hturns : lobby.turns = done ++ [t])
      (hk : done.length = k) (hplayer : t.player = submitter)
      (hword : t.submittedWord = some word) (hopen : ¬ t.Resolved)
      (hstatus : lobby.status = .voting)
      (hothers : ∀ otherId, otherId ≠ submitter → ¬ HasWord before otherId word)
      (hbank : lobby.targetWords.get? submitter = before.get? submitter)
  | recorded (t : Turn) (hk : lobby.turns[k]? = some t) (hplayer : t.player = submitter)
      (hword : t.submittedWord = some word) (hstatus : lobby.status ≠ .voting)
      (hverdict : Verdict before submitter word t)
  | refused (done : List Turn) (t : Turn) (hturns : lobby.turns = done ++ [t])
      (hk : done.length = k) (hplayer : t.player = submitter) (hword : word.storable = false)
      (hopen : ¬ t.Resolved) (hstatus : lobby.status = .submission)

/-- Advancing leaves the vote and keeps the resolved turn at its place. -/
theorem Advances.keeps_turn {mid lobby : Lobby} {status : Status} (h : Advances mid lobby status)
    {done : List Turn} {t : Turn} (hturns : mid.turns = done ++ [t]) :
    status ≠ .voting ∧ lobby.turns[done.length]? = some t := by
  cases h with
  | gameOver => exact ⟨Status.noConfusion, by rw [hturns]; simp⟩
  | nextTurn settings nextPlayer hsettings hlen hnext =>
    refine ⟨Status.noConfusion, ?_⟩
    rw [Lobby.pushTurn, hturns]
    simp

namespace Judged

variable {before : Dict Uid (List String)} {lobby next : Lobby} {submitter : Uid} {word : Json}
  {k : ℕ}

theorem congr (h : Judged before submitter word k lobby) (hstatus : next.status = lobby.status)
    (hturns : next.turns = lobby.turns) (hbanks : next.targetWords = lobby.targetWords) :
    Judged before submitter word k next := by
  cases h with
  | awaits done t hts hk hplayer hword hopen hst hothers hbank =>
    exact .awaits done t (hturns.trans hts) hk hplayer hword hopen (hstatus.trans hst) hothers
      (by rw [hbanks, hbank])
  | recorded t hk hplayer hword hst hverdict =>
    exact .recorded t (by rw [hturns, hk]) hplayer hword (by rw [hstatus]; exact hst) hverdict
  | refused done t hts hk hplayer hword hopen hst =>
    exact .refused done t (hturns.trans hts) hk hplayer hword hopen (hstatus.trans hst)

theorem stored (h : Judged before submitter word k lobby) :
    Judged before submitter word k lobby.stored := by
  cases h with
  | awaits done t hturns hk hplayer hword hopen hstatus hothers hbank =>
    refine .awaits (done.map Turn.stored) t.stored ?_ (by rw [List.length_map, hk]) hplayer hword
      hopen hstatus hothers hbank
    rw [Lobby.stored, hturns, List.map_append]
    rfl
  | recorded t hk hplayer hword hstatus hverdict =>
    refine .recorded t.stored ?_ hplayer hword hstatus ⟨hverdict.others, hverdict.own⟩
    rw [Lobby.stored, List.getElem?_map, hk]
    rfl
  | refused done t hturns hk hplayer hword hopen hstatus =>
    refine .refused (done.map Turn.stored) t.stored ?_ (by rw [List.length_map, hk]) hplayer hword
      hopen hstatus
    rw [Lobby.stored, hturns, List.map_append]
    rfl

/-- The submission opens the vote on the word, or records whose word it is. -/
theorem of_wordPlayed (hwords : WordsShared lobby) (hopen : lobby.TurnOpen)
    (hstatus : lobby.status = .submission) (hturn : lobby.OnTurn submitter)
    (hplayed : WordPlayed word lobby next) :
    Judged lobby.targetWords submitter word (lobby.turns.length - 1) next := by
  obtain ⟨done, t, hturns, rfl⟩ := hturn
  have hk : done.length = lobby.turns.length - 1 := by rw [hturns]; simp
  have hunresolved := hopen hstatus done t hturns
  cases hplayed with
  | awaitsVotes done' t' hturns' hnone =>
    obtain ⟨rfl, rfl⟩ := List.append_singleton_inj (hturns.symm.trans hturns')
    refine .awaits done (t.submit word) rfl hk rfl rfl hunresolved rfl ?_ rfl
    intro otherId hne hword
    rw [hwords.findOther_eq_some_iff.mpr ⟨hne, hword⟩] at hnone
    cases hnone
  | othersWord done' t' hturns' otherId hother players hscored lobby' status hadvances =>
    obtain ⟨rfl, rfl⟩ := List.append_singleton_inj (hturns.symm.trans hturns')
    obtain ⟨hover, hrecord⟩ := hadvances.keeps_turn rfl
    refine .recorded ((t.submit word).stolen otherId) (hk ▸ hrecord) rfl rfl hover ⟨?_, ?_⟩
    · intro uid
      rw [← hwords.findOther_eq_some_iff, hother]
      exact ⟨fun h => h.2, fun h => ⟨rfl, h⟩⟩
    · rintro ⟨⟩

/-- Ballots keep the vote open, or the tally records whether the word was the submitter's. -/
theorem votesCast (h : Judged before submitter word k lobby) (hvoting : lobby.status = .voting)
    {votes : Votes} {tallied : ℕ} (hcast : VotesCast votes tallied lobby next) :
    Judged before submitter word k next := by
  cases h with
  | recorded t hk hplayer hword hstatus hverdict => exact absurd hvoting hstatus
  | refused done t hturns hk hplayer hword hopen hstatus =>
    rw [hstatus] at hvoting
    cases hvoting
  | awaits done t hturns hk hplayer hword hopen hstatus hothers hbank =>
    cases hcast with
    | stillOpen hsize => exact .awaits done t hturns hk hplayer hword hopen rfl hothers hbank
    | tally hquorum done' t' hturns' bank hbank' hpayable players hscored lobby' status hadvances =>
      obtain ⟨rfl, rfl⟩ := List.append_singleton_inj (hturns.symm.trans hturns')
      obtain ⟨hover, hrecord⟩ := hadvances.keeps_turn rfl
      have hfalse : t.wasOthersWord = false := wasOthersWord_of_unresolved hopen
      refine .recorded (t.tally votes bank) (hk ▸ hrecord) hplayer hword hover ⟨?_, ?_⟩
      · intro otherId
        refine iff_of_false ?_ (fun h => hothers otherId h.1 h.2)
        rintro ⟨htrue, _⟩
        have htrue : t.wasOthersWord = true := htrue
        rw [hfalse] at htrue
        cases htrue
      · intro _
        -- the bank looked at is the one the submitter had
        rw [hplayer, hbank] at hbank'
        show some (includes bank t.submittedWord) = some true ↔ _
        rw [hword, Option.some_inj]
        constructor
        · exact fun hin => ⟨bank, hbank', hin⟩
        · rintro ⟨bank', hget, hin⟩
          rw [hbank'] at hget
          rwa [Option.some.inj hget]

/-- An exchange is not the submitter's while the vote is on. -/
theorem exchanged (h : Judged before submitter word k lobby) {playerId : Uid}
    (hallowed : lobby.status = .submission ∨ lobby.status = .voting ∧ ¬ lobby.OnTurn playerId)
    (hrolled : Rerolled playerId lobby next) : Judged before submitter word k next := by
  cases hrolled with
  | intro settings hsettings ditched hget hpool players hcharged pool hperm =>
    cases h with
    | recorded t hk hplayer hword hstatus hverdict =>
      exact .recorded t hk hplayer hword hstatus hverdict
    | refused done t hturns hk hplayer hword hopen hstatus =>
      exact .refused done t hturns hk hplayer hword hopen hstatus
    | awaits done t hturns hk hplayer hword hopen hstatus hothers hbank =>
      refine .awaits done t hturns hk hplayer hword hopen hstatus hothers ?_
      rw [Dict.get?_set_ne]
      · exact hbank
      · rintro rfl
        rcases hallowed with hsubmission | ⟨_, hother⟩
        · rw [hstatus] at hsubmission
          cases hsubmission
        · exact hother ⟨done, t, hturns, hplayer⟩

end Judged

/-- Votes and exchanges of words: of any user at any time, and the bots' ballots while a vote is
    on. -/
def VotesAndExchanges (room : Room) : RoomInput → Prop
  | .call _ (.voteOnWord _ _) => True
  | .call _ (.requestNewWords _ _) => True
  | .deliver _ i _ => room.lobby.status = .voting ∧
      ∃ turn ids, room.pending[i]? = some (.watchForBotVotes turn ids)
  | .redeliver _ i _ => room.lobby.status = .voting ∧
      ∃ turn ids, room.delivered[i]? = some (.watchForBotVotes turn ids)
  | _ => False

/-- The bots' ballots. -/
theorem Judged.bots {before : Dict Uid (List String)} {lobby next : Lobby} {submitter : Uid}
    {word : Json} {k now : ℕ} {answer : BotAnswer} {trigger : BotTrigger} {turn : ℕ}
    {ids : List Uid}
    (h : Judged before submitter word k lobby) (hvoting : lobby.status = .voting)
    (htrigger : trigger = .watchForBotVotes turn ids)
    (heffect : TriggerEffect now answer lobby trigger next) :
    Judged before submitter word k next := by
  subst htrigger
  obtain ⟨tallied, voted, _, hcast, rfl⟩ := heffect
  have hstamp : Judged before submitter word k (lobby.stamp now) := h.congr rfl rfl rfl
  have hvoted := hstamp.votesCast hvoting hcast
  refine Judged.stored ?_
  exact hvoted.congr rfl rfl rfl

/-- **Step lemma.** -/
theorem Judged.step {lobbyId : LobbyId} {before : Dict Uid (List String)} {submitter : Uid}
    {word : Json} {k : ℕ} {room : Room} (h : Judged before submitter word k room.lobby)
    {i : RoomInput}
    (hG : VotesAndExchanges room i) :
    Judged before submitter word k (room.step lobbyId i).lobby := by
  have hstep := Room.step_cases lobbyId room i
  generalize room.step lobbyId i = room' at hstep
  cases hstep with
  | rejected => exact h
  | called now c lobby hok heffect =>
    have hstamp : Judged before submitter word k (room.lobby.stamp now) := h.congr rfl rfl rfl
    cases c with
    | voteOnWord uid vote =>
      obtain ⟨hvoting, _, _, tallied, voted, _, hcast, rfl⟩ := heffect
      exact (hstamp.votesCast hvoting hcast).stored
    | requestNewWords uid random =>
      obtain ⟨hallowed, rolled, hrolled, rfl⟩ := heffect
      exact (hstamp.exchanged hallowed hrolled).stored
    | addPlayerToLobby player uid => exact absurd hG id
    | addBot uid => exact absurd hG id
    | startGame uid gameSettings random => exact absurd hG id
    | submitWord uid word' => exact absurd hG id
  | failed => exact h
  | delivered now i answer trigger hpending lobby heffect =>
    obtain ⟨hvoting, turn, ids, hget⟩ := hG
    exact h.bots hvoting (Option.some.inj (hpending.symm.trans hget)) heffect
  | redelivered now i answer trigger hdelivered lobby heffect =>
    obtain ⟨hvoting, turn, ids, hget⟩ := hG
    exact h.bots hvoting (Option.some.inj (hdelivered.symm.trans hget)) heffect

/-- `submitter`, on turn, plays `word`: by a call, or by the trigger of a bot's turn. -/
inductive Submits (room : Room) (submitter : Uid) (word : Json) : RoomInput → Prop
  | player (now : ℕ) (hturn : room.lobby.OnTurn submitter) :
      Submits room submitter word (.call now (.submitWord submitter word))
  | bot (now i : ℕ) (answer : BotAnswer) (turn : ℕ)
      (hpending : room.pending[i]? = some (.watchForBotTurns turn))
      (hturn : room.lobby.OnTurn submitter) (hword : word = .str answer.word) :
      Submits room submitter word (.deliver now i answer)

/-- A submission opens the vote or records whose word it is, unless the database refuses it. -/
theorem Submits.judged {lobbyId : LobbyId} {settings : Settings} {room : Room} {submitter : Uid}
    {word : Json} {i : RoomInput} (h : Submits room submitter word i)
    (hs : Scheduled settings room.lobby) (hwords : WordsShared room.lobby)
    (hopen : room.lobby.TurnOpen) (hstatus : room.lobby.status = .submission) :
    Judged room.lobby.targetWords submitter word (room.lobby.turns.length - 1)
      (room.step lobbyId i).lobby := by
  have hjudged : ∀ now next, WordPlayed word (room.lobby.stamp now) next →
      room.lobby.OnTurn submitter →
      Judged room.lobby.targetWords submitter word (room.lobby.turns.length - 1) next := by
    intro now next hplayed hturn
    have hstamp : WordsShared (room.lobby.stamp now) := hwords.congr ⟨rfl, rfl, rfl⟩
    have hnext := Judged.of_wordPlayed hstamp hopen hstatus hturn hplayed
    exact hnext
  cases h with
  | player now hturn =>
    rcases Room.commit_cases lobbyId ((Call.submitWord submitter word).transaction lobbyId) now room
      with ⟨hsame, hrejected⟩ | ⟨lobby, hok, hroom⟩
    · obtain ⟨done, t, hturns, rfl⟩ := hturn
      cases hword : word.storable with
      | true =>
        -- the player on turn is never refused
        obtain ⟨lobby, hok⟩ := hs.submitWord_commits lobbyId now hstatus hturns hword
        exact absurd hok (hrejected lobby)
      | false =>
        show Judged _ t.player word _ (room.commit lobbyId _ now).lobby
        rw [hsame]
        exact .refused done t hturns (by rw [hturns]; simp) rfl hword (hopen hstatus done t hturns)
          hstatus
    · obtain ⟨_, _, next, hplayed, rfl⟩ := call_ok hok
      show Judged _ submitter word _ (room.commit lobbyId _ now).lobby
      rw [hroom]
      exact (hjudged now next hplayed hturn).stored
  | bot now k answer turn hpending hturn hword =>
    subst hword
    simp only [Room.step, hpending]
    rcases Room.commit_cases lobbyId ((BotTrigger.watchForBotTurns turn).transaction answer) now
      (room.take k (.watchForBotTurns turn)) with ⟨_, hrejected⟩ | ⟨lobby, hok, hroom⟩
    · -- nor is the trigger of a bot's turn
      obtain ⟨lobby, hok⟩ := hs.watchForBotTurns_commits lobbyId now answer.word
      exact absurd hok (hrejected lobby)
    · obtain ⟨next, hplayed, rfl⟩ := trigger_ok hok
      have hnext := hjudged now next hplayed hturn
      rw [hroom]
      refine Judged.stored ?_
      exact hnext.congr rfl rfl rfl

/-- **A submission is judged by the banks it met.**  However the others vote and exchange words
    after it, the turn, once resolved, is recorded as another's word with `otherId` exactly if
    the word was in that bank when it was submitted, which only one bank can be said of, and
    else as the submitter's word exactly if it was in the submitter's own.  The word is that of
    the turn unless the database refuses it. -/
theorem submission_judged {lobbyId : LobbyId} {room room' : Room} {submitter : Uid} {word : Json}
    {i : RoomInput} (h : Room.Reachable lobbyId anyInput room)
    (hstatus : room.lobby.status = .submission) (hsubmits : Submits room submitter word i)
    (hrun : (roomMachine lobbyId).Reaches VotesAndExchanges (room.step lobbyId i) room') :
    (∀ uid uid', HasWord room.lobby.targetWords uid word →
      HasWord room.lobby.targetWords uid' word → uid = uid') ∧
    ∃ t, room'.lobby.turns[room.lobby.turns.length - 1]? = some t ∧ t.player = submitter ∧
      (word.storable = true → t.submittedWord = some word) ∧
      (t.Resolved → Verdict room.lobby.targetWords submitter word t) := by
  have hstarted : room.lobby.status ≠ .lobby := by
    rw [hstatus]
    exact Status.noConfusion
  obtain ⟨settings, hs⟩ := scheduled_of_reachable h hstarted
  have hwords := wordsShared_of_reachable h hstarted
  have hjudged : Judged room.lobby.targetWords submitter word (room.lobby.turns.length - 1)
      room'.lobby :=
    hrun.invariant (I := fun room' => Judged room.lobby.targetWords submitter word
        (room.lobby.turns.length - 1) room'.lobby)
      (fun _ _ hI hG => hI.step hG)
      (hsubmits.judged hs hwords (turnOpen_of_reachable h) hstatus)
  refine ⟨fun _ _ => hwords.hasWord_unique, ?_⟩
  cases hjudged with
  | awaits done t hturns hk hplayer hword hopen _ _ _ =>
    refine ⟨t, ?_, hplayer, fun _ => hword, fun hresolved => absurd hresolved hopen⟩
    rw [hturns, ← hk]
    simp
  | recorded t hk hplayer hword _ hverdict =>
    exact ⟨t, hk, hplayer, fun _ => hword, fun _ => hverdict⟩
  | refused done t hturns hk hplayer hword hopen _ =>
    refine ⟨t, ?_, hplayer, fun hstorable => ?_, fun hresolved => absurd hresolved hopen⟩
    · rw [hturns, ← hk]
      simp
    · rw [hword] at hstorable
      cases hstorable

/-- `ben` and `ann` play; `ben` has the first turn. -/
def sampleDuel : Room := sampleRoom (sampleStart ["ben"] 0 defaultSettings)

/-- `ann` exchanges her words before she lets `ben`'s word pass. -/
theorem submission_judged_duel :
    ∃ t, ((roomMachine "L").run (sampleDuel.step "L" (.call 1 (.submitWord "ben" (.str "zebra"))))
        [.call 2 (.requestNewWords "ann" zeroDraws),
          .call 3 (.voteOnWord "ann" (.bool false))]).lobby.turns[0]? = some t ∧
      t.submittedWord = some (.str "zebra") ∧
      (t.Resolved → Verdict sampleDuel.lobby.targetWords "ben" (.str "zebra") t) := by
  have hturn : sampleDuel.lobby.OnTurn "ben" := by decide +kernel
  have hlen : sampleDuel.lobby.turns.length = 1 := by decide +kernel
  have hreach : Room.Reachable "L" anyInput sampleDuel :=
    sampleRoom_reachable (admissible_anyInput _ (sampleStart ["ben"] 0 defaultSettings))
  have hsubmits : Submits sampleDuel "ben" (.str "zebra")
      (.call 1 (.submitWord "ben" (.str "zebra"))) := .player 1 hturn
  obtain ⟨_, t, hget, _, hword, hverdict⟩ := submission_judged hreach (by decide +kernel) hsubmits
    ⟨[.call 2 (.requestNewWords "ann" zeroDraws), .call 3 (.voteOnWord "ann" (.bool false))],
      ⟨trivial, trivial, trivial⟩, rfl⟩
  rw [hlen] at hget
  exact ⟨t, hget, hword rfl, hverdict⟩

end PasswordApp
