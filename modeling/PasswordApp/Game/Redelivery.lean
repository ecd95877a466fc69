import Mathlib.Data.Finset.Card
import PasswordApp.Game.Ballots

namespace PasswordApp

/-!
# Game — running the same trigger event again

Background events are delivered at least once, and the triggers validate nothing, so a
second run of one meets whatever the game has become.

* `SameGame` — turns, votes, counter, status and scores are as they were;
* `Accounted` — what the runs before tell about the lobby: whoever a turn pays is seated, and
  no batch was fired before the first word;
* `BotTrigger.Harmless` — the few states in which the second run changes nothing;
* `redelivery_iff` — in all others it does.
-/

/-- The game is as it was. -/
structure SameGame (lobby lobby' : Lobby) : Prop where
  turns : lobby'.turns = lobby.turns
  votes : lobby'.votes = lobby.votes
  votesTallied : lobby'.votesTallied = lobby.votesTallied
  status : lobby'.status = lobby.status
  scores : ∀ uid, scoreOf lobby'.players uid = scoreOf lobby.players uid

theorem SameGame.refl (lobby : Lobby) : SameGame lobby lobby := ⟨rfl, rfl, rfl, rfl, fun _ => rfl⟩

/-! ### The public counter -/

/-- The next turn keeps the counter: it is reset with the word. -/
theorem Advances.counter {lobby lobby' : Lobby} {status : Status}
    (h : Advances lobby lobby' status) :
    lobby'.votesTallied = lobby.votesTallied := by
  cases h <;> rfl

/-- The next turn pays nobody. -/
theorem Advances.players {lobby lobby' : Lobby} {status : Status}
    (h : Advances lobby lobby' status) :
    lobby'.players = lobby.players := by
  cases h <;> rfl

/-- Every word resets the counter. -/
theorem WordPlayed.counter {word : Json} {lobby next : Lobby} (h : WordPlayed word lobby next) :
    next.votesTallied = some 0 := by
  cases h with
  | awaitsVotes => rfl
  | othersWord done t hturns otherId hother players hscored lobby' status hadvances =>
    exact hadvances.counter

/-- Every vote is counted. -/
theorem VotesCast.counter {votes : Votes} {tallied : ℕ} {lobby next : Lobby}
    (h : VotesCast votes tallied lobby next) : next.votesTallied = some tallied := by
  cases h with
  | stillOpen => rfl
  | tally hquorum done t hturns bank hbank hpayable players hscored lobby' status hadvances =>
    exact hadvances.counter

/-! ### What every run keeps -/

/-- The owner of a stolen word plays. -/
def Turn.OwnerSeated (players : Dict Uid Player) (t : Turn) : Prop :=
  t.wasOthersWord = true → ∃ otherId ∈ players.keys, t.otherId = some otherId

/-- Whoever the turns pay is seated, and bots are awaited only once a word was played. -/
structure Accounted (lobby : Lobby) : Prop where
  owners : ∀ t ∈ lobby.turns, t.OwnerSeated lobby.players
  waiting : lobby.awaitingBotVotes ≠ [] → lobby.votesTallied ≠ none

namespace Accounted

variable {settings : Settings} {lobby next : Lobby}

theorem owners_concat {turns done : List Turn} {players : Dict Uid Player} {t t' : Turn}
    (h : ∀ u ∈ turns, u.OwnerSeated players) (hturns : turns = done ++ [t])
    (ht' : t'.OwnerSeated players) : ∀ u ∈ done ++ [t'], u.OwnerSeated players := by
  intro u hu
  rcases List.mem_append.mp hu with hu | hu
  · exact h u (by rw [hturns]; exact List.mem_append_left _ hu)
  · rw [List.mem_singleton.mp hu]
    exact ht'

theorem owners_congr {turns : List Turn} {players players' : Dict Uid Player}
    (h : ∀ u ∈ turns, u.OwnerSeated players) (hkeys : players'.keys = players.keys) :
    ∀ u ∈ turns, u.OwnerSeated players' := by
  intro u hu hothers
  rw [hkeys]
  exact h u hu hothers

/-- A fresh turn has no owner to pay. -/
theorem advances {lobby' : Lobby} {status : Status} (hadvances : Advances lobby lobby' status)
    (h : ∀ u ∈ lobby.turns, u.OwnerSeated lobby.players) :
    ∀ u ∈ lobby'.turns, u.OwnerSeated lobby'.players := by
  cases hadvances with
  | gameOver => exact h
  | nextTurn settings nextPlayer =>
    intro u hu
    rcases List.mem_append.mp hu with hu | hu
    · exact h u hu
    · rw [List.mem_singleton.mp hu]
      intro hothers
      cases hothers

theorem wordPlayed (h : Accounted lobby) (hs : Scheduled settings lobby) {word : Json}
    (hplayed : WordPlayed word lobby next) : Accounted next := by
  refine ⟨?_, fun _ => by rw [hplayed.counter]; simp⟩
  cases hplayed with
  | awaitsVotes done t hturns hnone =>
    exact owners_concat h.owners hturns (h.owners t (by rw [hturns]; simp))
  | othersWord done t hturns otherId hother players hscored lobby' status hadvances =>
    -- the owner has a bank, and banks are of players
    have howner : ((t.submit word).stolen otherId).OwnerSeated lobby.players :=
      fun _ => ⟨otherId, hs.banks_keys ▸ findOther_mem hother, rfl⟩
    have howners := owners_congr (owners_concat h.owners hturns howner) hscored.keys
    have hnext := advances hadvances howners
    exact hnext

theorem votesCast (h : Accounted lobby) {votes : Votes} {tallied : ℕ}
    (hcast : VotesCast votes tallied lobby next) : Accounted next := by
  refine ⟨?_, fun _ => by rw [hcast.counter]; simp⟩
  cases hcast with
  | stillOpen => exact h.owners
  | tally hquorum done t hturns bank hbank hpayable players hscored lobby' status hadvances =>
    have howner : (t.tally votes bank).OwnerSeated lobby.players :=
      h.owners t (by rw [hturns]; simp)
    have howners := owners_congr (owners_concat h.owners hturns howner) hscored.keys
    have hnext := advances hadvances howners
    exact hnext

/-- Pruning touches no owner and no flag. -/
theorem stored (h : Accounted lobby) : Accounted lobby.stored := by
  refine ⟨?_, h.waiting⟩
  intro t ht
  obtain ⟨u, hu, rfl⟩ := List.mem_map.mp ht
  exact h.owners u hu

theorem rerolled (h : Accounted lobby) {playerId : Uid} (hrolled : Rerolled playerId lobby next) :
    Accounted next := by
  have hkeys := hrolled.seats.players
  obtain ⟨_, _, _, _, _, _, _, _, _⟩ := hrolled
  exact ⟨owners_congr h.owners hkeys, h.waiting⟩

/-- **Step lemma.** -/
theorem step {lobbyId : LobbyId} {room room' : Room} {i : RoomInput} (h : Accounted room.lobby)
    (hs : Scheduled settings room.lobby) (hstep : RoomStep lobbyId room i room') :
    Accounted room'.lobby := by
  have hstamp : ∀ now, Accounted (room.lobby.stamp now) := fun _ => ⟨h.owners, h.waiting⟩
  refine hstep.move_induction hs.started ?_ ?_ ?_ ?_ ?_ (fun _ => stored) h
  · exact fun now word next hplayed => (hstamp now).wordPlayed (hs.stamp now) hplayed
  · exact fun now votes tallied next hcast => (hstamp now).votesCast hcast
  · exact fun now playerId next hrolled => (hstamp now).rerolled hrolled
  · exact fun next hnext => ⟨hnext.owners, fun hids => absurd rfl hids⟩
  · exact fun next hnext => ⟨hnext.owners, hnext.waiting⟩

end Accounted

/-- A batch is an event of a game in which a word was played. -/
def BatchesCounted (room : Room) : Prop :=
  ∀ turn ids,
    .watchForBotVotes turn ids ∈ room.pending ∨ .watchForBotVotes turn ids ∈ room.delivered →
    room.lobby.votesTallied ≠ none

/-- The counter is never taken away. -/
theorem RoomStep.counter {lobbyId : LobbyId} {room room' : Room} {i : RoomInput}
    (hstep : RoomStep lobbyId room i room') (hstarted : room.lobby.status ≠ .lobby)
    (h : room.lobby.votesTallied ≠ none) : room'.lobby.votesTallied ≠ none := by
  refine hstep.move_induction (P := fun lobby => lobby.votesTallied ≠ none) hstarted ?_ ?_ ?_
    (fun _ => id) (fun _ => id) (fun _ => id) h
  · intro now word next hplayed
    rw [hplayed.counter]
    exact Option.some_ne_none 0
  · intro now votes tallied next hcast
    rw [hcast.counter]
    exact Option.some_ne_none tallied
  · intro now playerId next hrolled
    obtain ⟨_, _, _, _, _, _, _, _, _⟩ := hrolled
    exact h

/-- A fired batch comes from a lobby that awaits bots. -/
theorem awaits_of_fired {before after : Lobby} {turn : ℕ} {ids : List Uid}
    (h : .watchForBotVotes turn ids ∈ firedTriggers before after) :
    after.awaitingBotVotes ≠ [] := by
  rw [firedTriggers, List.mem_append] at h
  rcases h with hvotes | hturn
  · split at hvotes
    · rename_i hfired
      exact hfired.2
    · cases hvotes
  · split at hturn
    · cases List.mem_singleton.mp hturn
    · cases hturn

theorem BatchesCounted.step {lobbyId : LobbyId} {room room' : Room} {i : RoomInput}
    (h : BatchesCounted room) (hstarted : room.lobby.status ≠ .lobby)
    (hstep : RoomStep lobbyId room i room') (haccounted : Accounted room'.lobby) :
    BatchesCounted room' := by
  have hcounter := hstep.counter hstarted
  -- an old event is counted already, a new one belongs to a lobby that awaits bots
  have hstore : ∀ {mid : Room} {lobby : Lobby}, BatchesCounted mid → mid.lobby = room.lobby →
      lobby = room'.lobby → BatchesCounted (mid.store lobby) := by
    rintro mid lobby hmid hlobby rfl turn ids (hpending | hdelivered)
    · rcases List.mem_append.mp hpending with hold | hnew
      · exact hcounter (hlobby ▸ hmid turn ids (Or.inl hold))
      · exact haccounted.waiting (awaits_of_fired hnew)
    · exact hcounter (hlobby ▸ hmid turn ids (Or.inr hdelivered))
  have htake : ∀ {j : ℕ} {trigger : BotTrigger}, room.pending[j]? = some trigger →
      BatchesCounted (room.take j trigger) := by
    rintro j trigger hget turn ids (hpending | hdelivered)
    · exact h turn ids (Or.inl (List.mem_of_mem_eraseIdx hpending))
    · rcases List.mem_append.mp hdelivered with hold | hnew
      · exact h turn ids (Or.inr hold)
      · obtain rfl := List.mem_singleton.mp hnew
        exact h turn ids (Or.inl (List.mem_of_getElem? hget))
  cases hstep with
  | rejected => exact h
  | called now c lobby hok heffect => exact hstore h rfl rfl
  | failed now j answer trigger hpending => exact htake hpending
  | delivered now j answer trigger hpending lobby heffect => exact hstore (htake hpending) rfl rfl
  | redelivered now j answer trigger hdelivered lobby heffect => exact hstore h rfl rfl

/-- **Run lemma.** In every started game. -/
theorem accounted_of_reachable {lobbyId : LobbyId} {G : Room → RoomInput → Prop} {room : Room}
    (h : Room.Reachable lobbyId G room) :
    Phase (fun _ room => Accounted room.lobby ∧ BatchesCounted room ∧
      room.lobby.stored = room.lobby) room := by
  refine h.phase ?_ ?_
  · intro room now settings next hun hdealt
    obtain ⟨firstPlayer, created, hfresh⟩ := hdealt.fresh hun
    have hnone : next.stored.awaitingBotVotes = [] := by
      obtain ⟨_, _, _, _, _, _, _, _, _, _⟩ := hdealt
      exact hun.awaitingBotVotes
    refine ⟨⟨?_, fun hids => absurd hnone hids⟩, ?_, hfresh.stored⟩
    · rw [hfresh.turns]
      intro t ht
      rw [List.mem_singleton.mp ht]
      intro hothers
      cases hothers
    · rintro turn ids (hpending | hdelivered)
      · exfalso
        rw [hfresh.pending] at hpending
        split at hpending
        · cases List.mem_singleton.mp hpending
        · cases hpending
      · have hdelivered : .watchForBotVotes turn ids ∈ room.delivered := hdelivered
        rw [hun.delivered] at hdelivered
        cases hdelivered
  · rintro settings room i room' hs ⟨haccounted, hbatches, hstored⟩ _ hstep
    have haccounted' : Accounted room'.lobby := haccounted.step hs hstep
    exact ⟨haccounted', hbatches.step hs.started hstep haccounted', hstep.stored hstored⟩

/-! ### A second run -/

/-- The states in which running an event again changes nothing: a word that is still voted
    on, without any vote yet; a complete batch that cannot be scored. -/
inductive BotTrigger.Harmless (answer : BotAnswer) (lobby : Lobby) : BotTrigger → Prop
  | sameWord (turn : ℕ) (done : List Turn) (t : Turn) (hturns : lobby.turns = done ++ [t])
      (hstatus : lobby.status = .voting) (hcounter : lobby.votesTallied = some 0)
      (hword : t.submittedWord = some (.str answer.word))
      (hnone : findOther lobby t.player (some (.str answer.word)) = none) :
      Harmless answer lobby (.watchForBotTurns turn)
  | unscorable (turn : ℕ) (ids : List Uid) (done : List Turn) (t : Turn)
      (hturns : lobby.turns = done ++ [t])
      (hquorum : (lobby.votes.keys ++ ids).toFinset.card + 1 = lobby.playerOrder.length)
      (hvoted : t.wasOthersWord = false) (challenger : Uid) (vote : Json)
      (hvote : lobby.votes.get? challenger = some vote) (htruthy : vote.truthy = true)
      (houtside : challenger ∉ lobby.players.keys) :
      Harmless answer lobby (.watchForBotVotes turn ids)

theorem turnDelta_stolen (t : Turn) (word : Json) (otherId : Uid) :
    turnDelta ((t.submit word).stolen otherId) otherId = 2 := by
  simp [turnDelta, Turn.stolen]

/-- A word played again changes the game, unless it is the word voted on and no vote was cast. -/
theorem TriggerEffect.sameWord_iff {now turn : ℕ} {answer : BotAnswer} {lobby lobby' : Lobby}
    (hstored : lobby.stored = lobby)
    (heffect : TriggerEffect now answer lobby (.watchForBotTurns turn) lobby') :
    SameGame lobby lobby' ↔ (BotTrigger.watchForBotTurns turn).Harmless answer lobby := by
  obtain ⟨next, hplayed, rfl⟩ := heffect
  have hall := stored_turns hstored
  constructor
  · intro hsame
    cases hplayed with
    | awaitsVotes done t hturns hnone =>
      have hturns : lobby.turns = done ++ [t] := hturns
      have hstatus : Status.voting = lobby.status := hsame.status
      have hcounter : some 0 = lobby.votesTallied := hsame.votesTallied
      have hlog : (done ++ [t.submit (.str answer.word)]).map Turn.stored = done ++ [t] :=
        hturns ▸ hsame.turns
      rw [List.map_append] at hlog
      -- the log is the same although the word was written: it was there already
      have ht : (t.submit (.str answer.word)).stored = t := (List.append_singleton_inj hlog).2
      exact .sameWord turn done t hturns hstatus.symm hcounter.symm (by rw [← ht]; rfl) hnone
    | othersWord done t hturns otherId hother players hscored mid status hadvances =>
      -- the owner of the word has been paid again
      have hpaid := hsame.scores otherId
      have hplayers : mid.players = players := hadvances.players
      have hpaid : scoreOf mid.players otherId = scoreOf lobby.players otherId := hpaid
      rw [hplayers, hscored.score, turnDelta_stolen] at hpaid
      have hstamp : scoreOf (lobby.stamp now).players otherId = scoreOf lobby.players otherId := rfl
      omega
  · intro hharmless
    cases hharmless with
    | sameWord turn done t hturns hstatus hcounter hword hnone =>
      cases hplayed with
      | othersWord done' u hturns' otherId hother =>
        obtain ⟨_, rfl⟩ := List.append_singleton_inj (hturns.symm.trans hturns')
        -- nobody else has the word
        have hother : findOther lobby t.player (some (.str answer.word)) = some otherId := hother
        rw [hnone] at hother
        cases hother
      | awaitsVotes done' u hturns' _ =>
        obtain ⟨rfl, rfl⟩ := List.append_singleton_inj (hturns.symm.trans hturns')
        have ht : t.submit (.str answer.word) = t := by rw [Turn.submit, ← hword]
        have hvotes : lobby.votes.stored = lobby.votes := stored_votes hstored
        refine ⟨?_, hvotes, hcounter.symm, hstatus.symm, fun _ => rfl⟩
        show (done ++ [t.submit (.str answer.word)]).map Turn.stored = lobby.turns
        rw [ht, ← hturns]
        exact hall

/-- A batch leaves one ballot for each who has voted or is in it. -/
theorem size_castBotVotes (votes : Votes) {ids : List Uid} (hne : ids ≠ []) (botVote : Bool)
    (random : Draw) :
    (castBotVotes votes ids botVote random).size = (votes.keys ++ ids).toFinset.card := by
  have hkeys : (castBotVotes votes ids botVote random).keys.toFinset
      = (votes.keys ++ ids).toFinset := by
    ext uid
    rw [List.mem_toFinset, List.mem_toFinset, List.mem_append, mem_keys_castBotVotes hne]
  rw [← hkeys, List.toFinset_card_of_nodup (Dict.keys_nodup _), Dict.size]

/-- A batch run again throws exactly if it completes ballots that cannot be scored. -/
theorem Accounted.unscorable_iff {settings : Settings} {lobby : Lobby} (h : Accounted lobby)
    (hs : Scheduled settings lobby) {turn : ℕ} {ids : List Uid}
    (hgenuine : (BotTrigger.watchForBotVotes turn ids).Genuine lobby)
    (hcounter : lobby.votesTallied ≠ none) (lobbyId : LobbyId) (now : ℕ) (answer : BotAnswer) :
    (∀ lobby', updateLobby lobbyId (watchForBotVotes ids answer.challenge answer.random) now
      (some lobby) ≠ .ok lobby') ↔
      (BotTrigger.watchForBotVotes turn ids).Harmless answer lobby := by
  obtain ⟨hne, hids⟩ := hgenuine
  have hsize := size_castBotVotes lobby.votes hne answer.challenge answer.random
  constructor
  · intro hfails
    obtain ⟨done, t, hturns⟩ := hs.turns_eq
    obtain ⟨k, hk⟩ := Option.ne_none_iff_exists'.mp hcounter
    -- if the second run is not harmless, everyone a complete batch pays is seated
    by_contra hharmful
    have hcommits := hs.watchForBotVotes_commits lobbyId now hturns hk ids answer.challenge
      answer.random ?_
    · obtain ⟨lobby', hok⟩ := hcommits
      exact hfails lobby' hok
    · intro hquorum bank
      rw [hsize] at hquorum
      cases hvoted : t.wasOthersWord with
      | true =>
        rw [Turn.Payable, if_pos (show (t.tally _ bank).wasOthersWord = true from hvoted)]
        exact h.owners t (by rw [hturns]; simp) hvoted
      | false =>
        rw [Turn.tally_payable hvoted]
        rintro ⟨challenger, vote⟩ hballot htruthy
        by_contra houtside
        -- the bots of the batch are seated, so the challenge was recorded before
        have hother : challenger ∉ ids := fun hmem => houtside (hids challenger hmem).2
        rw [← Dict.get?_eq_some_iff, castBotVotes_get? hne hother] at hballot
        exact hharmful (.unscorable turn ids done t hturns hquorum hvoted challenger vote hballot
          htruthy houtside)
  · intro hharmless lobby' hok
    cases hharmless with
    | unscorable turn ids done t hturns hquorum hvoted challenger vote hvote htruthy houtside =>
      have heffect : TriggerEffect now answer lobby (.watchForBotVotes turn ids) lobby' :=
        trigger_ok hok
      obtain ⟨k, next, _, hcast, rfl⟩ := heffect
      cases hcast with
      | stillOpen hopen =>
        have hopen : (castBotVotes lobby.votes ids answer.challenge answer.random).size + 1
            ≠ lobby.playerOrder.length := hopen
        rw [hsize] at hopen
        exact hopen hquorum
      | tally _ done' u hturns' bank hbank hpayable =>
        obtain ⟨_, rfl⟩ := List.append_singleton_inj (hturns.symm.trans hturns')
        -- the batch keeps the challenge of the outsider, who could not have been paid
        have hother : challenger ∉ ids := fun hmem => houtside (hids challenger hmem).2
        apply houtside
        refine (Turn.tally_payable hvoted _ bank _).mp hpayable (challenger, vote) ?_ htruthy
        rw [← Dict.get?_eq_some_iff, castBotVotes_get? hne hother]
        exact hvote

/-- A batch that commits again is counted again. -/
theorem TriggerEffect.batch_changes {now turn : ℕ} {ids : List Uid} {answer : BotAnswer}
    {lobby lobby' : Lobby} (hne : ids ≠ [])
    (heffect : TriggerEffect now answer lobby (.watchForBotVotes turn ids) lobby') :
    ¬ SameGame lobby lobby' := by
  obtain ⟨k, next, hk, hcast, rfl⟩ := heffect
  intro hsame
  have hcounter : next.votesTallied = lobby.votesTallied := hsame.votesTallied
  rw [hcast.counter, hk, Option.some.injEq] at hcounter
  -- the counter went up by the size of the batch
  have hpos := List.length_pos_of_ne_nil hne
  omega

/-- **Redelivery.**  In every state in which a trigger has run, whatever else happened, running
    its event again leaves the game as it was exactly if the second run is harmless. -/
theorem redelivery_iff {lobbyId : LobbyId} {room : Room} (h : Room.Reachable lobbyId anyInput room)
    {i : ℕ} {trigger : BotTrigger} (hdelivered : room.delivered[i]? = some trigger) (now : ℕ)
    (answer : BotAnswer) :
    SameGame room.lobby (room.step lobbyId (.redeliver now i answer)).lobby ↔
      trigger.Harmless answer room.lobby := by
  have hmem := List.mem_of_getElem? hdelivered
  cases accounted_of_reachable h with
  | unstarted hun => rw [hun.delivered] at hmem; cases hmem
  | started settings hs hrest =>
    obtain ⟨haccounted, hbatches, hstored⟩ := hrest
    obtain ⟨_, _, hgenuine⟩ := (genuine_of_reachable h).game hs.started
    have hstep : room.step lobbyId (.redeliver now i answer)
        = room.commit lobbyId (trigger.transaction answer) now := by
      simp only [Room.step, hdelivered]
    rw [hstep]
    cases trigger with
    | watchForBotTurns turn =>
      obtain ⟨lobby', hok⟩ := hs.watchForBotTurns_commits lobbyId now answer.word
      rcases Room.commit_cases lobbyId ((BotTrigger.watchForBotTurns turn).transaction answer)
        now room with ⟨_, hfails⟩ | ⟨next, hnext, hcommit⟩
      · exact absurd hok (hfails lobby')
      · rw [hcommit]
        exact (trigger_ok hnext).sameWord_iff hstored
    | watchForBotVotes turn ids =>
      have hevent : (BotTrigger.watchForBotVotes turn ids).Genuine room.lobby :=
        hgenuine.events _ (Or.inr hmem)
      have hfails_iff := haccounted.unscorable_iff hs hevent (hbatches turn ids (Or.inr hmem))
        lobbyId now answer
      rcases Room.commit_cases lobbyId ((BotTrigger.watchForBotVotes turn ids).transaction answer)
        now room with ⟨hsame, hfails⟩ | ⟨next, hnext, hcommit⟩
      · rw [hsame]
        exact iff_of_true (.refl _) (hfails_iff.mp hfails)
      · rw [hcommit]
        exact iff_of_false ((trigger_ok hnext).batch_changes hevent.1)
          (fun hharmless => hfails_iff.mpr hharmless next hnext)

/-- `bot1` plays `zebra` in a game with `ann`. -/
def sampleZebra : List RoomInput :=
  sampleStart [] 1 sampleSettings ++ [.deliver 1 0 (sampleAnswer false "zebra")]

theorem redelivery_iff_sample :
    SameGame (sampleRoom sampleZebra).lobby
      ((sampleRoom sampleZebra).step "L" (.redeliver 2 0 (sampleAnswer false "zebra"))).lobby := by
  have hturns : (sampleRoom sampleZebra).lobby.turns.map (fun t => (t.player, t.submittedWord))
      = [("bot1", some (.str "zebra"))] := by
    decide +kernel
  obtain ⟨t, hturn, hplayed⟩ := List.map_eq_singleton_iff.mp hturns
  obtain ⟨hplayer, hword⟩ := Prod.mk.inj hplayed
  have hreach : Room.Reachable "L" anyInput (sampleRoom sampleZebra) :=
    sampleRoom_reachable (admissible_anyInput _ _)
  have hdelivered : (sampleRoom sampleZebra).delivered[0]? = some (.watchForBotTurns 1) := by
    decide +kernel
  refine (redelivery_iff hreach hdelivered 2 (sampleAnswer false "zebra")).mpr ?_
  refine .sameWord 1 [] t hturn (by decide +kernel) (by decide +kernel) hword ?_
  rw [hplayer]
  decide +kernel

/-- `ann` passes, and it is her turn. -/
def sampleNextTurn : List RoomInput := sampleZebra ++ [.call 2 (.voteOnWord "ann" (.bool false))]

/-- The event of `bot1`, run again, plays `zebra` for `ann`. -/
theorem redelivery_changes :
    ¬ ∀ (lobbyId : LobbyId) (room : Room) (i : ℕ) (trigger : BotTrigger) (now : ℕ)
      (answer : BotAnswer), Room.Reachable lobbyId anyInput room →
      room.delivered[i]? = some trigger →
      SameGame room.lobby (room.step lobbyId (.redeliver now i answer)).lobby := by
  intro hharmless
  have hsame := hharmless "L" (sampleRoom sampleNextTurn) 0 (.watchForBotTurns 1) 3
    (sampleAnswer false "zebra") (sampleRoom_reachable (admissible_anyInput _ _))
    (by decide +kernel)
  have hstatus := hsame.status
  revert hstatus
  decide +kernel

end PasswordApp
