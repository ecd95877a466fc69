import PasswordApp.Game.Arrivals
import PasswordApp.Game.Handoff
import PasswordApp.Game.Phases
import PasswordApp.Game.Table

namespace PasswordApp

/-!
# Game — every game can be finished

While only players vote, no event fails (`Fair.trigger_commits`), so bots that are awaited have
their batch on the way (`Watched`).  If moreover no flag is dropped, in every state of a game of
two or more somebody can move it on (`Endgame.progress`), and each such move lowers the rank of
the table: the game can be played to its end (`can_finish`).
-/

open Rulebook

/-! ### No event fails -/

section Commits

variable {settings : Settings} {room : Room}

/-- Ballots of the electorate can be paid. -/
theorem ElectorateBallots.payable {lobby : Lobby} {t : Turn} {votes : Votes}
    (h : ElectorateBallots lobby t.player votes) (hvoted : t.wasOthersWord = false)
    (bank : List String) : (t.tally votes bank).Payable lobby.players := by
  rw [Turn.tally_payable hvoted]
  intro ballot hmem _
  exact (mem_electorate.mp (h ballot.1 ballot.2 (Dict.get?_eq_some_iff.mpr hmem)).1).2

/-- **In a fair game every pending event commits.** -/
theorem Fair.trigger_commits (lobbyId : LobbyId) (h : Fair room)
    (hs : Scheduled settings room.lobby)
    (hcounter : room.lobby.status = .voting → ∃ k, room.lobby.votesTallied = some k) {i : ℕ}
    {trigger : BotTrigger} (hpending : room.pending[i]? = some trigger) (now : ℕ)
    (answer : BotAnswer) :
    ∃ lobby, updateLobby lobbyId (trigger.transaction answer) now (some room.lobby) = .ok lobby := by
  obtain ⟨hsingle, _⟩ := h.pending.take hpending
  cases trigger with
  | watchForBotTurns turn => exact hs.watchForBotTurns_commits lobbyId now answer.word
  | watchForBotVotes turn ids =>
    have hstatus := h.voting_of_votes hsingle
    obtain ⟨k, hk⟩ := hcounter hstatus
    obtain ⟨done, t, hturns⟩ := hs.turns_eq
    have hby : CastsVotes room (.deliver now i answer)
        (castBotVotes room.lobby.votes ids answer.challenge answer.random) [] :=
      .bots now i answer turn ids hsingle
    have hballots := hby.ballots h trivial hstatus hturns
    have hopen := h.current_open (by rw [hstatus]; simp) hturns
    exact hs.watchForBotVotes_commits lobbyId now hturns hk ids answer.challenge answer.random
      (fun _ => hballots.payable (wasOthersWord_of_unresolved hopen))

end Commits

/-! ### Awaited bots -/

/-- If bots are awaited, their batch is on the way. -/
def Watched (room : Room) : Prop := room.lobby.awaitingBotVotes ≠ [] → room.pending ≠ []

theorem Watched.store {room : Room} {lobby : Lobby}
    (h : room.lobby.awaitingBotVotes ≠ [] → lobby.awaitingBotVotes ≠ [] → room.pending ≠ []) :
    Watched (room.store lobby) := by
  intro hawaited hnil
  obtain ⟨hpending, hfired⟩ := List.append_eq_nil_iff.mp hnil
  have hawaited : lobby.awaitingBotVotes ≠ [] := hawaited
  by_cases hbefore : room.lobby.awaitingBotVotes = []
  · -- the flag was raised from nothing, which fires the event
    rw [firedTriggers, if_pos ⟨hbefore, hawaited⟩] at hfired
    cases hfired
  · exact h hbefore hawaited hpending

/-- **Step lemma.** -/
theorem Watched.step {lobbyId : LobbyId} {settings : Settings} {room room' : Room} {i : RoomInput}
    (h : Watched room) (hphased : Phased room) (hs : Scheduled settings room.lobby)
    (hcounter : room.lobby.status = .voting → ∃ k, room.lobby.votesTallied = some k)
    (hP : PlayersOnly room i) (hstep : RoomStep lobbyId room i room') : Watched room' := by
  cases hstep with
  | rejected => exact h
  | redelivered => exact hP.elim
  | called now c lobby hok heffect => exact Watched.store (fun hbefore _ => h hbefore)
  | failed now i answer trigger hpending hfailed =>
    obtain ⟨lobby, hok⟩ := hphased.trigger_commits lobbyId hs hcounter hpending now answer
    exact absurd hok (hfailed lobby)
  | delivered now i answer trigger hpending lobby heffect =>
    obtain ⟨hsingle, _⟩ := hphased.pending.take hpending
    refine Watched.store (fun hbefore hafter => ?_)
    cases trigger with
    | watchForBotVotes turn ids =>
      obtain ⟨k, next, _, _, rfl⟩ := heffect
      exact absurd rfl hafter
    | watchForBotTurns turn =>
      -- before a word nobody is awaited
      have hstatus := hphased.submission_of_turns hsingle
      exact absurd (hphased.quietBots (by rw [hstatus]; simp)) hbefore

theorem watched_of_reachable {lobbyId : LobbyId} {room : Room}
    (h : Room.Reachable lobbyId PlayersOnly room) : Watched room := by
  refine (Room.Reachable.invariant (I := fun room => Room.Reachable lobbyId PlayersOnly room ∧
    Watched room) (fun hostId => ⟨⟨hostId, .refl _⟩, fun hne => absurd rfl hne⟩) ?_ h).2
  rintro room i ⟨hreach, hwatched⟩ hP
  refine ⟨hreach.trans (room.reaches_step hP), ?_⟩
  have hstep := Room.step_cases lobbyId room i
  cases phased_of_reachable hreach with
  | started settings hs hphased =>
    exact hwatched.step hphased hs (counter_of_voting hreach) hP hstep
  | unstarted hun =>
    rcases hun.step hstep with hun' | ⟨now, settings, next, hdealt, hroom⟩
    · exact fun hne => absurd hun'.awaitingBotVotes hne
    · obtain ⟨firstPlayer, created, hfresh⟩ := hdealt.fresh hun
      rw [hroom]
      exact Watched.store (fun hbefore _ => absurd hun.awaitingBotVotes hbefore)

/-! ### Somebody can move -/

theorem Room.step_call {lobbyId : LobbyId} {room : Room} {now : ℕ} {c : Call} {lobby : Lobby}
    (hok : updateLobby lobbyId (c.transaction lobbyId) now (some room.lobby) = .ok lobby) :
    room.step lobbyId (.call now c) = room.store lobby := by
  simp only [Room.step, Room.commit, hok]
  rfl

theorem Room.step_deliver {lobbyId : LobbyId} {room : Room} {now i : ℕ} {answer : BotAnswer}
    {trigger : BotTrigger} {lobby : Lobby} (hpending : room.pending[i]? = some trigger)
    (hok : updateLobby lobbyId (trigger.transaction answer) now (some room.lobby) = .ok lobby) :
    room.step lobbyId (.deliver now i answer) = (room.take i trigger).store lobby := by
  have htake : updateLobby lobbyId (trigger.transaction answer) now
      (some (room.take i trigger).lobby) = .ok lobby := hok
  simp only [Room.step, hpending, Room.commit, htake]
  rfl

/-- A run in which no flag is dropped is one in which only players vote. -/
theorem Room.Reachable.playersOnly {lobbyId : LobbyId} {room : Room}
    (h : Room.Reachable lobbyId KeepsFlag room) : Room.Reachable lobbyId PlayersOnly room := by
  obtain ⟨hostId, hreach⟩ := h
  exact ⟨hostId, hreach.strengthen (I := fun _ => True) (fun _ _ _ _ => trivial)
    (fun _ _ _ hG => hG.1) trivial⟩

/-- A game of two or more in which only players vote and no flag is dropped. -/
structure Endgame (lobbyId : LobbyId) (order : List Uid) (settings : Settings) (room : Room) :
    Prop where
  reachable : Room.Reachable lobbyId KeepsFlag room
  scheduled : Scheduled settings room.lobby
  order_eq : room.lobby.playerOrder = order
  two : 2 ≤ room.lobby.players.size

namespace Endgame

variable {lobbyId : LobbyId} {order : List Uid} {settings : Settings} {room : Room}

theorem phased (h : Endgame lobbyId order settings room) : Phased room := by
  obtain ⟨_, _, hphased⟩ := (phased_of_reachable h.reachable.playersOnly).game h.scheduled.started
  exact hphased

theorem handed (h : Endgame lobbyId order settings room) : Handed room := by
  obtain ⟨_, _, _, hhanded⟩ := (handed_of_reachable h.reachable).game h.scheduled.started
  exact hhanded

theorem words (h : Endgame lobbyId order settings room) : WordsShared room.lobby :=
  wordsShared_of_reachable h.reachable h.scheduled.started

theorem counter (h : Endgame lobbyId order settings room)
    (hstatus : room.lobby.status = .voting) : ∃ k, room.lobby.votesTallied = some k :=
  counter_of_voting h.reachable hstatus

theorem step (h : Endgame lobbyId order settings room) {i : RoomInput} (hG : KeepsFlag room i) :
    Endgame lobbyId order settings (room.step lobbyId i) := by
  have hseats := (Room.step_cases lobbyId room i).seats h.scheduled.started
  refine ⟨h.reachable.trans (room.reaches_step hG), h.scheduled.step i,
    hseats.order.trans h.order_eq, ?_⟩
  rw [Dict.size, hseats.players]
  exact h.two

/-- A bot that passes and plays nobody's word. -/
def blankAnswer : BotAnswer := ⟨false, "", .zero⟩

/-- A move of the turn that an admissible input makes. -/
def Advances (lobbyId : LobbyId) (order : List Uid) (settings : Settings) (room : Room) : Prop :=
  ∃ i, KeepsFlag room i ∧
    Advance order settings.numRounds room.lobby.table (room.step lobbyId i).lobby.table

/-- Nobody holds the empty word. -/
theorem not_owned (h : Endgame lobbyId order settings room) : room.lobby.ownedByOther (.str "") = false := by
  obtain ⟨done, t, hturns⟩ := h.scheduled.turns_eq
  by_contra howned
  obtain ⟨otherId, hother⟩ := (ownedByOther_iff hturns _).mp (by simpa using howned)
  obtain ⟨_, bank, hbank, hword⟩ := hasWord_of_findOther hother
  have hin : "" ∈ bank := by simpa [includes] using hword
  have hgame : "" ∈ room.lobby.gameWords := by
    rw [Lobby.gameWords]
    refine List.mem_append_right _ (List.mem_append_left _ ?_)
    exact List.mem_flatten.mpr ⟨bank, Dict.mem_values_iff.mpr ⟨_, hbank⟩, hin⟩
  exact absurd (h.words.perm.mem_iff.mp hgame) (by decide)

/-- The player on turn has a word to play, or the event of the bot does. -/
theorem word (h : Endgame lobbyId order settings room) (hstatus : room.lobby.status = .submission) :
    Advances lobbyId order settings room := by
  obtain ⟨done, t, hturns⟩ := h.scheduled.turns_eq
  by_cases hbot : isBot t.player = true
  · -- the turn was handed over, so its event is on the way
    have hpending := (h.handed.submission hstatus done t hturns).2 hbot
    have hget : room.pending[0]? = some (.watchForBotTurns room.lobby.turns.length) := by
      rw [hpending]; rfl
    obtain ⟨lobby, hok⟩ := h.phased.trigger_commits lobbyId h.scheduled h.counter hget 0 blankAnswer
    obtain ⟨next, hplayed, rfl⟩ := trigger_ok hok
    refine ⟨.deliver 0 0 blankAnswer, ⟨trivial, fun hdrops => ?_⟩, ?_⟩
    · exact absurd hdrops.2.1 (by simp [blankAnswer, h.not_owned])
    · have htable : (room.step lobbyId (.deliver 0 0 blankAnswer)).lobby.table = next.table := by
        rw [Room.step_deliver hget hok]
        exact table_stored { next with awaitingBotTurn := false }
      rw [htable]
      exact h.order_eq ▸ h.phased.advance_word h.scheduled h.words hplayed hstatus
  · have hstorable : Json.null.storable = true := rfl
    obtain ⟨lobby, hok⟩ := h.scheduled.submitWord_commits lobbyId 0 hstatus hturns hstorable
    obtain ⟨_, _, next, hplayed, rfl⟩ := call_ok (c := .submitWord t.player .null) hok
    refine ⟨.call 0 (.submitWord t.player .null), ⟨fun _ _ => by simpa using hbot, id⟩, ?_⟩
    have htable : (room.step lobbyId (.call 0 (.submitWord t.player .null))).lobby.table
        = next.table := by
      rw [Room.step_call hok]
      exact table_stored next
    rw [htable]
    exact h.order_eq ▸ h.phased.advance_word h.scheduled h.words hplayed hstatus

/-- Votes with a new voter among them advance the turn. -/
theorem of_newVoter (h : Endgame lobbyId order settings room) {i : RoomInput} {votes : Votes}
    {left : List BotTrigger} {now tallied : ℕ} {next : Lobby} (hG : KeepsFlag room i)
    (hby : CastsVotes room i votes left)
    (hcast : VotesCast votes tallied (room.lobby.stamp now) next)
    (hstatus : room.lobby.status = .voting) (uid : Uid) (hnew : uid ∈ votes.keys)
    (hold : uid ∉ room.lobby.votes.keys)
    (htable : (room.step lobbyId i).lobby.table = next.table) : Advances lobbyId order settings room := by
  obtain ⟨done, t, hturns⟩ := h.scheduled.turns_eq
  refine ⟨i, hG, ?_⟩
  rw [htable]
  rcases h.phased.advance_votes h.scheduled hG.1 hby hcast hstatus with ⟨_, hsame⟩ | hadvance
  · have hvoted := (ballots_ne_none (hby.ballots h.phased.toFair hG.1 hstatus hturns)).mpr hnew
    rw [hsame] at hvoted
    exact absurd ((ballots_ne_none (h.phased.ballots hstatus done t hturns)).mp hvoted) hold
  · exact h.order_eq ▸ hadvance

/-- The batch of the bots is on the way, or a player has yet to vote. -/
theorem vote (h : Endgame lobbyId order settings room) (hstatus : room.lobby.status = .voting) :
    Advances lobbyId order settings room := by
  obtain ⟨done, t, hturns⟩ := h.scheduled.turns_eq
  obtain ⟨k, hk⟩ := h.counter hstatus
  rcases h.phased.batch hstatus done t hturns with hnil | ⟨hne, hnobot, turn, hbatch⟩
  · -- nothing is on the way, so all bots have voted, but not everyone has
    have hawaiting : room.lobby.awaitingBotVotes = [] := by
      by_contra hawaited
      exact watched_of_reachable h.reachable.playersOnly hawaited hnil
    have hvoting := h.phased.inVoting h.scheduled hstatus h.two hturns
    obtain ⟨uid, hmem, hnot⟩ : ∃ uid ∈ room.lobby.electorate t.player,
        uid ∉ room.lobby.votes.keys := by
      by_contra hall
      push Not at hall
      have hle := (List.subperm_of_subset (room.lobby.players.keys_nodup.erase t.player)
        (fun uid hu => hall uid hu)).length_le
      have helectorate := h.scheduled.length_electorate (t := t) (by rw [hturns]; simp)
      have hlen : room.lobby.playerOrder.length = room.lobby.players.size :=
        h.scheduled.order_perm.length_eq
      have hsize := hvoting.unfinished
      have hle : (room.lobby.electorate t.player).length ≤ room.lobby.votes.size := hle
      omega
    obtain ⟨hother, hplayer⟩ := mem_electorate.mp hmem
    have hhuman : isBot uid = false := by
      by_contra hbot
      have hxor := hvoting.bots uid hplayer (by simpa using hbot) hother
      rw [hawaiting] at hxor
      simp [hnot] at hxor
    have hnone : room.lobby.votes.get? uid = none := Dict.get?_eq_none_iff.mpr hnot
    have hP : PlayersOnly room (.call 0 (.voteOnWord uid (.bool true))) :=
      fun _ => ⟨hplayer, hhuman, rfl⟩
    have honturn : ¬ room.lobby.OnTurn uid := not_onTurn_of_turns hturns (Ne.symm hother)
    have hby : CastsVotes room (.call 0 (.voteOnWord uid (.bool true)))
        (room.lobby.votes.set uid (.bool true)) room.pending :=
      .user 0 uid (.bool true) honturn (by rw [hnone]; rfl) (fun _ => hnil)
    have hballots := hby.ballots h.phased.toFair hP hstatus hturns
    have hopen := h.phased.current_open (by rw [hstatus]; simp) hturns
    obtain ⟨lobby, hok⟩ : ∃ lobby, updateLobby lobbyId (voteOnWord lobbyId uid (.bool true)) 0
        (some room.lobby) = .ok lobby :=
      h.scheduled.voteOnWord_commits lobbyId 0 hstatus hturns (Ne.symm hother) rfl
        (by rw [hnone]; rfl) hk
        (fun _ => hballots.payable (wasOthersWord_of_unresolved hopen))
    obtain ⟨_, _, _, k', next, _, hcast, rfl⟩ := call_ok (c := .voteOnWord uid (.bool true)) hok
    refine h.of_newVoter ⟨hP, id⟩ hby hcast hstatus uid
      (Dict.mem_keys_set.mpr (Or.inl rfl)) hnot ?_
    rw [Room.step_call hok]
    exact table_stored next
  · have hget : room.pending[0]? = some (.watchForBotVotes turn
        (votingBots room.lobby t.player)) := by
      rw [hbatch]; rfl
    obtain ⟨lobby, hok⟩ := h.phased.trigger_commits lobbyId h.scheduled h.counter hget 0 blankAnswer
    obtain ⟨k', next, _, hcast, rfl⟩ := trigger_ok hok
    obtain ⟨bot, hbot⟩ := List.exists_mem_of_ne_nil _ hne
    refine h.of_newVoter (i := .deliver 0 0 blankAnswer) ⟨trivial, ?_⟩
      (.bots 0 0 blankAnswer turn _ hbatch) hcast hstatus bot
      ((mem_keys_castBotVotes hne false .zero).mpr (Or.inr hbot)) ?_ ?_
    · rintro ⟨hplays, _⟩
      rw [hget] at hplays
      cases hplays
    · intro hvoted
      have hhuman := hnobot bot hvoted
      rw [(mem_votingBots.mp hbot).2] at hhuman
      cases hhuman
    · rw [Room.step_deliver hget hok]
      exact table_stored { next with awaitingBotVotes := [] }

/-- **Somebody can move the game on**, until it is over. -/
theorem progress (h : Endgame lobbyId order settings room) (hrunning : room.lobby.status ≠ .done) :
    Advances lobbyId order settings room := by
  cases hstatus : room.lobby.status with
  | lobby => exact absurd hstatus h.scheduled.started
  | submission => exact h.word hstatus
  | voting => exact h.vote hstatus
  | done => exact absurd hstatus hrunning

end Endgame

end PasswordApp
