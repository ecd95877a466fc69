import PasswordApp.Game.Ballots

namespace PasswordApp

/-!
# Game — what each phase looks like

In a fair game the status says everything about the current turn and the ballots:

* SUBMISSION — no word yet, no ballots, nobody awaited;
* VOTING — a word without an outcome, and fewer ballots than the electorate has members;
  every bot that votes either is awaited or has voted (`BotsVoting`);
* DONE — nothing is left over.

`internal.awaitingBotVotes` is no part of `GameStep`; `PlaysWord.awaitingBotVotes` and
`CastsVotes.awaitingBotVotes` say what becomes of it.
-/

/-! ### The awaited bots -/

theorem WordPlayed.awaitingBotVotes {word : Json} {lobby next : Lobby}
    (h : WordPlayed word lobby next) {done : List Turn} {t : Turn}
    (hturns : lobby.turns = done ++ [t]) :
    next.awaitingBotVotes =
      if next.status = .voting then votingBots lobby t.player else lobby.awaitingBotVotes := by
  cases h with
  | awaitsVotes done' u hturns' hnone =>
    obtain ⟨_, rfl⟩ := List.append_singleton_inj (hturns.symm.trans hturns')
    rw [if_pos rfl]
  | othersWord done' u hturns' otherId hother players hscored lobby' status hadvances =>
    have hstatus : status ≠ .voting := by
      cases hadvances with
      | gameOver => simp
      | nextTurn => simp
    rw [if_neg hstatus]
    exact hadvances.awaitingBotVotes

/-- A word that opens the vote awaits the bots of the electorate; any other awaits nobody new. -/
theorem PlaysWord.awaitingBotVotes {lobbyId : LobbyId} {room room' : Room} {i : RoomInput}
    {word : Json} {cleared : Bool} (hby : PlaysWord room i word cleared)
    (hstep : RoomStep lobbyId room i room') (hstatus : room.lobby.status = .submission)
    {done : List Turn} {t : Turn} (hturns : room.lobby.turns = done ++ [t]) :
    room'.lobby.awaitingBotVotes =
      if room'.lobby.status = .voting then votingBots room.lobby t.player
      else room.lobby.awaitingBotVotes := by
  have hrejected : ¬ room.lobby.status = .voting := by rw [hstatus]; simp
  cases hby with
  | player now uid word hturn hpending =>
    cases hstep with
    | rejected => rw [if_neg hrejected]
    | called now c lobby hok heffect =>
      obtain ⟨_, _, next, hplayed, rfl⟩ := heffect
      exact hplayed.awaitingBotVotes hturns
  | bot now k answer turn hevent hpending =>
    cases hstep with
    | rejected => rw [if_neg hrejected]
    | failed => exact (if_neg hrejected).symm
    | delivered now k answer trigger hget lobby heffect =>
      obtain rfl : .watchForBotTurns turn = trigger := Option.some.inj (hevent.symm.trans hget)
      obtain ⟨next, hplayed, rfl⟩ := heffect
      exact hplayed.awaitingBotVotes hturns

/-- A batch awaits nobody any more, a single vote leaves the awaited bots as they are. -/
theorem CastsVotes.awaitingBotVotes {lobbyId : LobbyId} {room room' : Room} {i : RoomInput}
    {votes : Votes} {left : List BotTrigger} (hby : CastsVotes room i votes left)
    (hstep : RoomStep lobbyId room i room') (hcommit : room'.lobby ≠ room.lobby) :
    room'.lobby.awaitingBotVotes =
      match i with
      | .call _ _ => room.lobby.awaitingBotVotes
      | _ => [] := by
  cases hby with
  | user now uid vote hother hfresh hpending =>
    cases hstep with
    | rejected => exact absurd rfl hcommit
    | called now c lobby hok heffect =>
      obtain ⟨_, _, _, k, next, _, hcast, rfl⟩ := heffect
      exact hcast.awaitingBotVotes
  | bots now k answer turn ids hpending =>
    cases hstep with
    | rejected => exact absurd rfl hcommit
    | failed => exact absurd rfl hcommit
    | delivered now k answer trigger hget lobby heffect =>
      rw [hpending] at hget
      obtain rfl : .watchForBotVotes turn ids = trigger := by
        have hmem := List.mem_of_getElem? hget
        exact (List.mem_singleton.mp hmem).symm
      obtain ⟨k, next, _, _, rfl⟩ := heffect
      rfl

/-! ### The invariant -/

/-- The word of the current turn. -/
def Lobby.currWord (lobby : Lobby) : Option Json := lobby.turns.getLast?.bind Turn.submittedWord

theorem currWord_of_turns {lobby : Lobby} {done : List Turn} {t : Turn}
    (h : lobby.turns = done ++ [t]) : lobby.currWord = t.submittedWord := by
  rw [Lobby.currWord, h, List.getLast?_concat, Option.bind_some]

/-- The bots that vote on a word of `submitter` are all awaited, or have all voted. -/
inductive BotsVoting (lobby : Lobby) (submitter : Uid) : Prop
  | awaited (hids : lobby.awaitingBotVotes = votingBots lobby submitter)
      (hnone : ∀ uid ∈ lobby.votes.keys, isBot uid = false)
  | voted (hids : lobby.awaitingBotVotes = [])
      (hall : ∀ uid ∈ votingBots lobby submitter, uid ∈ lobby.votes.keys)

/-- Each of them is in exactly one of the ballots and the awaited. -/
theorem BotsVoting.exactly_one {lobby : Lobby} {submitter uid : Uid}
    (h : BotsVoting lobby submitter) (huid : uid ∈ votingBots lobby submitter) :
    uid ∈ lobby.votes.keys ↔ uid ∉ lobby.awaitingBotVotes := by
  cases h with
  | awaited hids hnone =>
    have hbot := (mem_votingBots.mp huid).2
    rw [hids]
    refine iff_of_false (fun hvoted => ?_) (fun hnot => hnot huid)
    rw [hnone uid hvoted] at hbot
    cases hbot
  | voted hids hall =>
    rw [hids]
    exact iff_of_true (hall uid huid) (by simp)

theorem BotsVoting.congr {lobby lobby' : Lobby} {submitter : Uid} (h : BotsVoting lobby submitter)
    (hkeys : lobby'.players.keys = lobby.players.keys)
    (hids : lobby'.awaitingBotVotes = lobby.awaitingBotVotes)
    (hvotes : lobby'.votes = lobby.votes) : BotsVoting lobby' submitter := by
  cases h with
  | awaited hawaited hnone =>
    exact .awaited (by rw [hids, votingBots_congr hkeys]; exact hawaited)
      (by rw [hvotes]; exact hnone)
  | voted hnil hall =>
    exact .voted (by rw [hids]; exact hnil) (by rw [hvotes, votingBots_congr hkeys]; exact hall)

/-- A fair game whose words, awaited bots and flags fit its status. -/
structure Phased (room : Room) : Prop extends Fair room where
  blank : room.lobby.status = .submission → room.lobby.currWord = none
  quietBots : room.lobby.status ≠ .voting → room.lobby.awaitingBotVotes = []
  bots : room.lobby.status = .voting → ∀ done t, room.lobby.turns = done ++ [t] →
    BotsVoting room.lobby t.player
  /-- Somebody has yet to vote. -/
  unfinished : room.lobby.status = .voting → 2 ≤ room.lobby.playerOrder.length →
    room.lobby.votes.size + 1 ≠ room.lobby.playerOrder.length
  flag : room.lobby.awaitingBotTurn = true →
    room.lobby.status = .submission ∧ room.pending ≠ []

namespace Phased

variable {lobbyId : LobbyId} {settings : Settings} {room room' : Room} {i : RoomInput}

theorem flag_down (h : Phased room)
    (hdown : room.lobby.status ≠ .submission ∨ room.pending = []) :
    room.lobby.awaitingBotTurn = false := by
  cases hflag : room.lobby.awaitingBotTurn with
  | false => rfl
  | true =>
    obtain ⟨hstatus, hpending⟩ := h.flag hflag
    rcases hdown with hother | hnil
    · exact absurd hstatus hother
    · exact absurd hnil hpending

/-- Whoever plays a word leaves the flag down. -/
theorem flag_played (h : Phased room) {word : Json} {cleared : Bool}
    (hby : PlaysWord room i word cleared) : (!cleared && room.lobby.awaitingBotTurn) = false := by
  cases hby with
  | player now uid word hturn hpending => exact h.flag_down (Or.inr hpending)
  | bot => rfl

/-- Only complete ballots resolve a turn, and they have the votes of the bots. -/
theorem nobody_awaited (h : Phased room) (hs : Scheduled settings room.lobby)
    (hP : PlayersOnly room i) {votes : Votes} {left : List BotTrigger}
    (hby : CastsVotes room i votes left) (hstatus : room.lobby.status = .voting)
    (hquorum : votes.size + 1 = room.lobby.playerOrder.length)
    (hstep : RoomStep lobbyId room i room') (hcommit : room'.lobby ≠ room.lobby) :
    room'.lobby.awaitingBotVotes = [] := by
  obtain ⟨done, t, hturns⟩ := hs.turns_eq
  have hballots := hby.ballots h.toFair hP hstatus hturns
  have hlen := hs.length_electorate (t := t) (by rw [hturns]; simp)
  rw [hby.awaitingBotVotes hstep hcommit]
  cases hby with
  | bots => rfl
  | user now uid vote hother hfresh hpending =>
    show room.lobby.awaitingBotVotes = []
    cases h.bots hstatus done t hturns with
    | voted hids => exact hids
    | awaited hids hnone =>
      -- an awaited bot would have voted, but neither it nor the human did
      rw [hids, List.eq_nil_iff_forall_not_mem]
      intro bot hbot
      obtain ⟨hmem, hisbot⟩ := mem_votingBots.mp hbot
      have hvoted := (hballots.voters (by omega) bot).mpr hmem
      have hhuman : isBot bot = false := by
        rcases Dict.mem_keys_set.mp hvoted with rfl | hvoted
        · exact (hP hstatus).2.1
        · exact hnone bot hvoted
      rw [hhuman] at hisbot
      cases hisbot

/-- A vote that is counted leaves the bots awaited, a batch has all their votes. -/
theorem bots_counted (h : Phased room) (hP : PlayersOnly room i) {votes : Votes}
    {left : List BotTrigger} (hby : CastsVotes room i votes left)
    (hstatus : room.lobby.status = .voting) {done : List Turn} {t : Turn}
    (hlast : room.lobby.turns = done ++ [t])
    (hkeys : room'.lobby.players.keys = room.lobby.players.keys)
    (hvotes : room'.lobby.votes = votes)
    (hstep : RoomStep lobbyId room i room') (hcommit : room'.lobby ≠ room.lobby) :
    BotsVoting room'.lobby t.player := by
  have hids := hby.awaitingBotVotes hstep hcommit
  cases hby with
  | user now uid vote hother hfresh hquorum =>
    cases h.bots hstatus done t hlast with
    | awaited hawaited hnone =>
      refine .awaited (by rw [hids, votingBots_congr hkeys]; exact hawaited) ?_
      rw [hvotes]
      intro u hu
      rcases Dict.mem_keys_set.mp hu with rfl | hu
      · exact (hP hstatus).2.1
      · exact hnone u hu
    | voted hnil hall =>
      refine .voted (by rw [hids]; exact hnil) ?_
      rw [hvotes, votingBots_congr hkeys]
      intro u hu
      exact Dict.mem_keys_set.mpr (Or.inr (hall u hu))
  | bots now k answer turn ids hevent =>
    -- the batch is the one of this turn
    rcases h.batch hstatus done t hlast with hnil | ⟨hne, _, turn', hbatch⟩
    · rw [hevent] at hnil
      cases hnil
    · rw [hevent] at hbatch
      obtain ⟨_, rfl⟩ : turn = turn' ∧ ids = votingBots room.lobby t.player := by
        simpa using hbatch
      refine .voted hids ?_
      rw [hvotes, votingBots_congr hkeys]
      intro u hu
      exact (mem_keys_castBotVotes hne _ _).mpr (Or.inr hu)

/-- A resolved turn is followed by a blank one, or by none. -/
theorem resolved {done : List Turn} {t t' : Turn} {cleared : Bool}
    (hres : Resolves room done t t' cleared room') (hfair : Fair room')
    (hflag : (!cleared && room.lobby.awaitingBotTurn) = false)
    (hids : room'.lobby.awaitingBotVotes = []) : Phased room' := by
  cases hres.next with
  | gameOver hstatus hturns hawaiting hpending =>
    refine ⟨hfair, ?_, fun _ => hids, ?_, ?_, ?_⟩
    · simp [hstatus]
    · simp [hstatus]
    · simp [hstatus]
    · rw [hawaiting, hflag]
      simp
  | nextTurn nextPlayer created hopen hnext hstatus hturns hawaiting hpending =>
    refine ⟨hfair, fun _ => currWord_of_turns hturns, fun _ => hids, ?_, ?_, fun hraised => ?_⟩
    · simp [hstatus]
    · simp [hstatus]
    · -- the flag was down, so raising it fired an event
      refine ⟨hstatus, ?_⟩
      have hdown : room.lobby.awaitingBotTurn = false := by
        rw [hawaiting] at hraised
        cases cleared with
        | true => cases hraised
        | false => exact hflag
      rw [hpending, if_pos ⟨hdown, hraised⟩]
      simp

/-- **A game in which only players vote stays in phase.** -/
theorem step (h : Phased room) (hs : Scheduled settings room.lobby) (hP : PlayersOnly room i)
    (hstep : RoomStep lobbyId room i room') : Phased room' := by
  have hfair := h.toFair.step hs hP hstep
  have hseats := hstep.seats hs.started
  have hkeys := hseats.players
  cases h.toTidy.gameStep hs (h.toFair.orderly hs hP) hstep with
  | idle i hrejected room' hlobby hpending =>
    refine ⟨hfair, ?_, ?_, ?_, ?_, ?_⟩
    · rw [hlobby]; exact h.blank
    · rw [hlobby]; exact h.quietBots
    · rw [hlobby]; exact h.bots
    · rw [hlobby]; exact h.unfinished
    · rw [hlobby]
      rcases hpending with hsame | ⟨hvoting, _⟩
      · rw [hsame]; exact h.flag
      · rw [h.flag_down (Or.inl (by rw [hvoting]; simp))]
        simp
  | exchanged now playerId random hallowed room' hok hstatus hturns hvotes hawaiting hcharged
      hpending =>
    have hids : room'.lobby.awaitingBotVotes = room.lobby.awaitingBotVotes := by
      obtain ⟨_, next, hrolled, hstored⟩ := call_ok (c := .requestNewWords playerId random) hok
      obtain ⟨_, _, _, _, _, _, _, _, _⟩ := hrolled
      rw [hstored]
      rfl
    refine ⟨hfair, ?_, ?_, ?_, ?_, ?_⟩
    · rw [hstatus, Lobby.currWord, hturns]; exact h.blank
    · rw [hstatus, hids]; exact h.quietBots
    · rw [hstatus, hturns]
      intro hvoting done t ht
      exact (h.bots hvoting done t ht).congr hkeys hids hvotes
    · rw [hstatus, hvotes, hseats.order]; exact h.unfinished
    · rw [hstatus, hawaiting, hpending]; exact h.flag
  | opened i word cleared hby hstatus done t hturns room' hstatus' hturns' hvotes hplayers hawaiting
      hpending =>
    have hempty : room'.lobby.votes = ∅ := by
      rw [hvotes]
      exact h.quiet (by rw [hstatus]; simp)
    have hids := hby.awaitingBotVotes hstep hstatus hturns
    rw [if_pos hstatus'] at hids
    refine ⟨hfair, ?_, ?_, ?_, ?_, ?_⟩
    · simp [hstatus']
    · simp [hstatus']
    · intro _ done' u hu
      rw [hturns'] at hu
      obtain ⟨_, rfl⟩ := List.append_singleton_inj hu
      refine .awaited (by rw [hids, votingBots_congr hkeys]; rfl) ?_
      rw [hempty]
      simp
    · intro _ htwo
      rw [hempty, Dict.size_empty]
      omega
    · rw [hawaiting, h.flag_played hby]
      simp
  | stolen i word cleared hby hstatus done t otherId hother room' hvotes hres =>
    have hids := hby.awaitingBotVotes hstep hstatus hres.turns
    rw [if_neg hres.not_voting, h.quietBots (by rw [hstatus]; simp)] at hids
    exact resolved hres hfair (h.flag_played hby) hids
  | counted i votes left hby hstatus hopen room' hstatus' hturns hvotes hplayers hawaiting hpending
      =>
    obtain ⟨done, t, hlast⟩ := hs.turns_eq
    have hballots := hby.ballots h.toFair hP hstatus hlast
    rw [hballots.stored] at hvotes
    refine ⟨hfair, ?_, ?_, ?_, ?_, ?_⟩
    · simp [hstatus']
    · simp [hstatus']
    · intro _ done' u hu
      rw [hturns, hlast] at hu
      obtain ⟨_, rfl⟩ := List.append_singleton_inj hu
      -- a batch that throws leaves the lobby as it is
      by_cases hcommit : room'.lobby = room.lobby
      · rw [hcommit]
        exact h.bots hstatus done t hlast
      · exact h.bots_counted hP hby hstatus hlast hkeys hvotes hstep hcommit
    · rw [hvotes, hseats.order]
      exact fun _ _ => hopen
    · rw [hawaiting, h.flag_down (Or.inl (by rw [hstatus]; simp))]
      simp
  | tallied i votes left hby hstatus hquorum done t bank room' hvotes hres =>
    have hcommit : room'.lobby ≠ room.lobby := by
      intro hsame
      exact hres.not_voting (by rw [hsame]; exact hstatus)
    exact resolved hres hfair (h.flag_down (Or.inl (by rw [hstatus]; simp)))
      (h.nobody_awaited hs hP hby hstatus hquorum hstep hcommit)

end Phased

/-- A freshly dealt game is in phase. -/
theorem Dealt.phased {room : Room} {settings : Settings} {now : ℕ} {next : Lobby}
    (hdealt : Dealt settings (room.lobby.stamp now) next) (h : Unstarted room) :
    Phased (room.store next.stored) := by
  obtain ⟨firstPlayer, created, hfresh⟩ := hdealt.fresh h
  have hids : next.stored.awaitingBotVotes = [] := by
    obtain ⟨_, _, _, _, _, _, _, _, _, _⟩ := hdealt
    exact h.awaitingBotVotes
  refine ⟨hfresh.fair, fun _ => ?_, fun _ => hids, ?_, ?_, fun hraised => ⟨hfresh.status, ?_⟩⟩
  · rw [Lobby.currWord, hfresh.turns]
    rfl
  · simp [hfresh.status]
  · simp [hfresh.status]
  · rw [hfresh.awaitingBotTurn] at hraised
    rw [hfresh.pending, if_pos hraised]
    simp

theorem phased_of_reachable {lobbyId : LobbyId} {room : Room}
    (h : Room.Reachable lobbyId PlayersOnly room) : Phase (fun _ room => Phased room) room := by
  refine h.phase ?_ ?_
  · intro room now settings next hun hdealt
    exact hdealt.phased hun
  · intro settings room i room' hs hphased hP hstep
    exact hphased.step hs hP hstep

/-! ### The phase invariant -/

/-- Before the word of `t`. -/
structure Room.InSubmission (room : Room) (t : Turn) : Prop where
  word : t.submittedWord = none
  votes : room.lobby.votes = ∅
  awaiting : room.lobby.awaitingBotVotes = []

/-- During the vote on the word of `t`. -/
structure Room.InVoting (room : Room) (t : Turn) : Prop where
  word : t.submittedWord ≠ none
  unresolved : ¬ t.Resolved
  voters : ∀ uid ∈ room.lobby.votes.keys, uid ∈ room.lobby.players.keys ∧ uid ≠ t.player
  unfinished : room.lobby.votes.size < room.lobby.players.size - 1
  bots : ∀ uid ∈ room.lobby.players.keys, isBot uid = true → uid ≠ t.player →
    Xor (uid ∈ room.lobby.votes.keys) (uid ∈ room.lobby.awaitingBotVotes)

/-- After the last turn. -/
structure Room.IsOver (room : Room) : Prop where
  votes : room.lobby.votes = ∅
  awaitingVotes : room.lobby.awaitingBotVotes = []
  awaitingTurn : room.lobby.awaitingBotTurn = false
  pending : room.pending = []

namespace Phased

variable {settings : Settings} {room : Room}

theorem inSubmission (h : Phased room) (hstatus : room.lobby.status = .submission)
    {done : List Turn} {t : Turn} (hturns : room.lobby.turns = done ++ [t]) :
    room.InSubmission t where
  word := by rw [← currWord_of_turns hturns]; exact h.blank hstatus
  votes := h.quiet (by rw [hstatus]; simp)
  awaiting := h.quietBots (by rw [hstatus]; simp)

theorem inVoting (h : Phased room) (hs : Scheduled settings room.lobby)
    (hstatus : room.lobby.status = .voting) (htwo : 2 ≤ room.lobby.players.size) {done : List Turn}
    {t : Turn} (hturns : room.lobby.turns = done ++ [t]) : room.InVoting t where
  word := h.voting hstatus done t hturns
  unresolved := by
    rw [h.current done t hturns, hstatus]
    simp
  voters := by
    intro uid huid
    obtain ⟨v, hget⟩ := Dict.mem_keys_iff.mp huid
    have hmem := mem_electorate.mp (h.ballots hstatus done t hturns uid v hget).1
    exact ⟨hmem.2, hmem.1⟩
  unfinished := by
    have hlen : room.lobby.playerOrder.length = room.lobby.players.size := hs.order_perm.length_eq
    have hopen := h.unfinished hstatus (by rw [hlen]; exact htwo)
    -- the ballots are the electorate's, and one of it has not voted
    have hmem : room.lobby.votes.keys ⊆ room.lobby.electorate t.player := by
      intro uid huid
      obtain ⟨v, hget⟩ := Dict.mem_keys_iff.mp huid
      exact (h.ballots hstatus done t hturns uid v hget).1
    have hle : room.lobby.votes.size ≤ (room.lobby.electorate t.player).length :=
      (List.subperm_of_subset room.lobby.votes.keys_nodup hmem).length_le
    have helectorate := hs.length_electorate (t := t) (by rw [hturns]; simp)
    omega
  bots := by
    intro uid huid hbot hne
    have hmem : uid ∈ votingBots room.lobby t.player :=
      mem_votingBots.mpr ⟨mem_electorate.mpr ⟨hne, huid⟩, hbot⟩
    rw [xor_iff_iff_not]
    exact (h.bots hstatus done t hturns).exactly_one hmem

theorem isOver (h : Phased room) (hstatus : room.lobby.status = .done) : room.IsOver where
  votes := h.quiet (by rw [hstatus]; simp)
  awaitingVotes := h.quietBots (by rw [hstatus]; simp)
  awaitingTurn := h.flag_down (Or.inl (by rw [hstatus]; simp))
  pending := by
    have hpending := h.pending
    rw [hstatus] at hpending
    exact hpending

end Phased

/-- **Phase invariant.**  In every state of a lobby of two or more in which only players vote
    and every event runs once, however late: before the word there are no ballots and nobody is
    awaited; during the vote the word is there, the turn is open, fewer than all others have
    voted, and every bot among them either has voted or is awaited; after the last turn nothing
    is pending. -/
theorem phase_invariant {lobbyId : LobbyId} {room : Room}
    (h : Room.Reachable lobbyId PlayersOnly room) (htwo : 2 ≤ room.lobby.players.size) :
    (room.lobby.status = .submission →
      ∃ done t, room.lobby.turns = done ++ [t] ∧ room.InSubmission t) ∧
    (room.lobby.status = .voting →
      ∃ done t, room.lobby.turns = done ++ [t] ∧ room.InVoting t) ∧
    (room.lobby.status = .done → room.IsOver) := by
  refine ⟨fun hstatus => ?_, fun hstatus => ?_, fun hstatus => ?_⟩
  · obtain ⟨settings, hs, hphased⟩ := (phased_of_reachable h).game (by rw [hstatus]; simp)
    obtain ⟨done, t, hturns⟩ := hs.turns_eq
    exact ⟨done, t, hturns, hphased.inSubmission hstatus hturns⟩
  · obtain ⟨settings, hs, hphased⟩ := (phased_of_reachable h).game (by rw [hstatus]; simp)
    obtain ⟨done, t, hturns⟩ := hs.turns_eq
    exact ⟨done, t, hturns, hphased.inVoting hs hstatus htwo hturns⟩
  · obtain ⟨settings, _, hphased⟩ := (phased_of_reachable h).game (by rw [hstatus]; simp)
    exact hphased.isOver hstatus

theorem phase_invariant_sample :
    ∃ done t, (sampleRoom sampleLastVote).lobby.turns = done ++ [t] ∧
      (sampleRoom sampleLastVote).InVoting t :=
  (phase_invariant (sampleRoom_reachable (by decide +kernel)) (by decide +kernel)).2.1
    (by decide +kernel)

end PasswordApp
