import PasswordApp.Game.Ballots

namespace PasswordApp

/-!
# Game — when a recorded vote is final

`voteOnWord` refuses a second vote by the truthiness of the recorded one, so a challenge is
final and a pass is not.

* `OpenBallots` — as long as ballots are in the box, their number is not the quorum's, so
  replacing one of them completes nothing;
* `KeptVote` — what becomes of a vote its voter does not take back;
* `vote_final_iff` — a recorded vote is final exactly if it is a challenge.
-/

/-! ### The ballot box -/

/-- The ballots are booleans, too few or too many to be counted, and a vote under way has a
    public counter. -/
structure OpenBallots (lobby : Lobby) : Prop where
  bools : lobby.votes.All (fun _ v => v.isBool = true)
  uncounted : lobby.votes = ∅ ∨ lobby.votes.size + 1 ≠ lobby.playerOrder.length
  counter : lobby.status = .voting → lobby.votesTallied ≠ none

theorem Advances.not_voting {lobby lobby' : Lobby} {status : Status}
    (h : Advances lobby lobby' status) : status ≠ .voting := by
  cases h <;> simp

namespace OpenBallots

variable {lobby next : Lobby}

theorem empty (hvotes : lobby.votes = ∅) (hstatus : lobby.status ≠ .voting) :
    OpenBallots lobby := by
  refine ⟨?_, Or.inl hvotes, fun hst => absurd hst hstatus⟩
  intro uid v hget
  rw [hvotes] at hget
  cases hget

theorem stored (h : OpenBallots lobby) : OpenBallots lobby.stored := by
  have hvotes : lobby.stored.votes = lobby.votes := h.bools.stored
  refine ⟨?_, ?_, h.counter⟩
  · rw [hvotes]; exact h.bools
  · rw [hvotes]; exact h.uncounted

theorem wordPlayed (h : OpenBallots lobby) {word : Json} (hplayed : WordPlayed word lobby next) :
    OpenBallots next := by
  cases hplayed with
  | awaitsVotes done t hturns hnone => exact ⟨h.bools, h.uncounted, fun _ => Option.some_ne_none 0⟩
  | othersWord done t hturns otherId hother players hscored lobby' status hadvances =>
    -- a stolen word starts the next turn without touching the box
    have hvotes : lobby'.votes = lobby.votes := hadvances.votes
    have horder : lobby'.playerOrder = lobby.playerOrder := hadvances.seats.order
    refine ⟨?_, ?_, fun hst => absurd hst hadvances.not_voting⟩
    · show Votes.All _ lobby'.votes
      rw [hvotes]; exact h.bools
    · show lobby'.votes = ∅ ∨ lobby'.votes.size + 1 ≠ lobby'.playerOrder.length
      rw [hvotes, horder]; exact h.uncounted

theorem votesCast {votes : Votes} {tallied : ℕ} (hvotes : votes.All (fun _ v => v.isBool = true))
    (hcast : VotesCast votes tallied lobby next) : OpenBallots next := by
  cases hcast with
  | stillOpen hopen => exact ⟨hvotes, Or.inr hopen, fun _ => Option.some_ne_none tallied⟩
  | tally hquorum done t hturns bank hbank hpayable players hscored lobby' status hadvances =>
    exact .empty hadvances.votes hadvances.not_voting

/-- A callable keeps the box open, as long as votes are booleans. -/
theorem call {room : Room} {now : ℕ} {c : Call} (h : OpenBallots room.lobby)
    (hstarted : room.lobby.status ≠ .lobby) (hG : BooleanVotes room (.call now c))
    (heffect : CallEffect now room.lobby c next) : OpenBallots next := by
  have hstamp : OpenBallots (room.lobby.stamp now) := ⟨h.bools, h.uncounted, h.counter⟩
  cases c with
  | addPlayerToLobby player playerId => exact absurd heffect.1 hstarted
  | addBot requesterId => exact absurd heffect.2.1 hstarted
  | startGame playerId gameSettings random => exact absurd heffect.2.1 hstarted
  | submitWord playerId word =>
    obtain ⟨_, _, mid, hplayed, rfl⟩ := heffect
    exact (hstamp.wordPlayed hplayed).stored
  | requestNewWords playerId random =>
    obtain ⟨_, mid, hrolled, rfl⟩ := heffect
    obtain ⟨_, _, _, _, _, _, _, _, _⟩ := hrolled
    apply OpenBallots.stored
    exact ⟨h.bools, h.uncounted, h.counter⟩
  | voteOnWord playerId vote =>
    obtain ⟨_, _, _, k, mid, _, hcast, rfl⟩ := heffect
    exact (OpenBallots.votesCast (h.bools.set hG) hcast).stored

/-- So does a trigger. -/
theorem trigger {now : ℕ} {answer : BotAnswer} {trigger : BotTrigger} (h : OpenBallots lobby)
    (hgenuine : trigger.Genuine lobby) (heffect : TriggerEffect now answer lobby trigger next) :
    OpenBallots next := by
  cases trigger with
  | watchForBotVotes turn votingBotIds =>
    obtain ⟨k, mid, _, hcast, rfl⟩ := heffect
    -- a batch is never empty, so it casts booleans and no `votes[undefined]`
    have hbools := h.bools.castBotVotes hgenuine.1 (fun _ _ _ => rfl) answer.challenge answer.random
    have hmid : OpenBallots mid := OpenBallots.votesCast hbools hcast
    apply OpenBallots.stored
    exact ⟨hmid.bools, hmid.uncounted, hmid.counter⟩
  | watchForBotTurns turn =>
    obtain ⟨mid, hplayed, rfl⟩ := heffect
    have hstamp : OpenBallots (lobby.stamp now) := ⟨h.bools, h.uncounted, h.counter⟩
    have hmid : OpenBallots mid := hstamp.wordPlayed hplayed
    apply OpenBallots.stored
    exact ⟨hmid.bools, hmid.uncounted, hmid.counter⟩

end OpenBallots

/-- Whatever the triggers do, the box of a game with boolean votes is open. -/
theorem openBallots_of_reachable {lobbyId : LobbyId} {room : Room}
    (h : Room.Reachable lobbyId BooleanVotes room) :
    Phase (fun _ room => GenuineTriggers room ∧ OpenBallots room.lobby) room := by
  refine h.phase ?_ ?_
  · intro room now settings next hun hdealt
    obtain ⟨firstPlayer, created, hfresh⟩ := hdealt.fresh hun
    exact ⟨hdealt.genuine hun, .empty hfresh.votes (by rw [hfresh.status]; simp)⟩
  · rintro settings room i room' hs ⟨hgenuine, hopen⟩ hG hstep
    refine ⟨hgenuine.step hs.started hstep, ?_⟩
    cases hstep with
    | rejected => exact hopen
    | failed => exact hopen
    | called now c lobby hok heffect => exact hopen.call hs.started hG heffect
    | delivered now i answer trigger hpending lobby heffect =>
      exact hopen.trigger (hgenuine.events trigger (Or.inl (List.mem_of_getElem? hpending))) heffect
    | redelivered now i answer trigger hdelivered lobby heffect =>
      exact hopen.trigger
        (hgenuine.events trigger (Or.inr (List.mem_of_getElem? hdelivered))) heffect

/-! ### A second vote -/

/-- A rejected transaction leaves the room as it was. -/
theorem Room.commit_of_error {lobbyId : LobbyId} {t : LobbyTransaction} {now : ℕ} {room : Room}
    {failure : Failure} (h : updateLobby lobbyId t now (some room.lobby) = .error failure) :
    room.commit lobbyId t now = room := by
  simp only [Room.commit, h]

/-- No further vote of `uid` is accepted in the state of the room. -/
def Room.RefusesVotes (lobbyId : LobbyId) (uid : Uid) (room : Room) : Prop :=
  ∀ (now : ℕ) (vote : Json), vote.isBool = true →
    (∃ failure, updateLobby lobbyId (voteOnWord lobbyId uid vote) now (some room.lobby)
      = .error failure) ∧
    room.step lobbyId (.call now (.voteOnWord uid vote)) = room

/-- A second vote is refused over a challenge, or if the voter is on turn. -/
theorem Scheduled.refusesVotes {settings : Settings} {room : Room}
    (h : Scheduled settings room.lobby) (lobbyId : LobbyId) {uid : Uid}
    (hrefused : room.lobby.OnTurn uid ∨ truthy? (room.lobby.votes.get? uid) = true) :
    room.RefusesVotes lobbyId uid := by
  intro now vote _
  obtain ⟨error, herror⟩ := h.voteOnWord_refused lobbyId now hrefused vote
  exact ⟨⟨_, herror⟩, Room.commit_of_error herror⟩

/-- A second vote is accepted over a pass: it completes nothing, so nothing can throw. -/
theorem OpenBallots.accepts {lobbyId : LobbyId} {settings : Settings} {room : Room}
    (h : OpenBallots room.lobby) (hs : Scheduled settings room.lobby)
    (hstatus : room.lobby.status = .voting) {uid : Uid} (hother : ¬ room.lobby.OnTurn uid)
    (hvote : room.lobby.votes.get? uid = some (.bool false)) : ¬ room.RefusesVotes lobbyId uid := by
  intro hrefuses
  obtain ⟨done, t, hturns⟩ := hs.turns_eq
  obtain ⟨k, hk⟩ := Option.ne_none_iff_exists'.mp (h.counter hstatus)
  have hmem : uid ∈ room.lobby.votes.keys := Dict.mem_keys_of_get? hvote
  -- the box is not empty, so its size is not the quorum's
  have hopen : room.lobby.votes.size + 1 ≠ room.lobby.playerOrder.length := by
    rcases h.uncounted with hempty | hopen
    · rw [hempty] at hmem
      cases hmem
    · exact hopen
  have hsize : (room.lobby.votes.set uid (.bool true)).size = room.lobby.votes.size := by
    rw [Dict.size_set, if_pos hmem]
  obtain ⟨lobby', hok⟩ : ∃ lobby', updateLobby lobbyId (voteOnWord lobbyId uid (.bool true)) 0
      (some room.lobby) = .ok lobby' := hs.voteOnWord_commits lobbyId 0 hstatus hturns
    (fun heq => hother ⟨done, t, hturns, heq⟩) rfl (by rw [hvote]; rfl) hk
    (fun hquorum => absurd (hsize ▸ hquorum) hopen)
  obtain ⟨⟨failure, herror⟩, _⟩ := hrefuses 0 (.bool true) rfl
  rw [hok] at herror
  cases herror

/-! ### A vote that is not taken back -/

/-- `uid` does not vote again over a pass. -/
def NoRevote (uid : Uid) (room : Room) : RoomInput → Prop
  | .call _ (.voteOnWord voter _) =>
      voter = uid → (room.lobby.votes.get? uid).all Json.truthy = true
  | _ => True

/-- The guard of orderly runs in which `uid` does not vote again over a pass. -/
def SteadyVote (uid : Uid) (room : Room) (i : RoomInput) : Prop :=
  Orderly room i ∧ NoRevote uid room i

/-- The vote `b` of `uid` on the `k`-th turn: still in the box, with no batch to come that
    could vote for `uid`, or in the record of the resolved turn. -/
inductive KeptVote (k : ℕ) (uid : Uid) (b : Bool) (room : Room) : Prop
  | cast (hstatus : room.lobby.status = .voting) (hturn : room.lobby.turns.length = k + 1)
      (hvote : room.lobby.votes.get? uid = some (.bool b))
      (hbatch : isBot uid = false ∨ room.pending = [])
  | recorded (t : Turn) (hturn : room.lobby.turns[k]? = some t) (hresolved : t.Resolved)
      (hvote : t.votes.get? uid = some (.bool b))

theorem Votes.get?_stored_bool {votes : Votes} {uid : Uid} {b : Bool}
    (h : votes.get? uid = some (.bool b)) : votes.stored.get? uid = some (.bool b) := by
  rw [Votes.stored, Dict.get?_filterMap, h]
  rfl

/-- Ballots cast by others, or by the batch of other bots, keep the vote. -/
theorem CastsVotes.keeps {room : Room} {i : RoomInput} {votes : Votes} {left : List BotTrigger}
    (hby : CastsVotes room i votes left) (hgenuine : GenuineTriggers room) {uid : Uid} {b : Bool}
    (hG : NoRevote uid room i) (hvote : room.lobby.votes.get? uid = some (.bool b))
    (hbatch : isBot uid = false ∨ room.pending = []) : votes.get? uid = some (.bool b) := by
  cases hby with
  | user now voter vote hother hfresh hpending =>
    -- `uid` votes over a challenge only, which is refused
    have hne : uid ≠ voter := by
      rintro rfl
      have htruthy : (room.lobby.votes.get? uid).all Json.truthy = true := hG rfl
      rw [hvote] at htruthy hfresh
      have hfalsy : b = false := hfresh
      have htrue : b = true := htruthy
      rw [hfalsy] at htrue
      cases htrue
    rw [Dict.get?_set_ne _ _ hne]
    exact hvote
  | bots now i answer turn ids hpending =>
    rcases hbatch with hhuman | hnil
    · obtain ⟨hne, hids⟩ : BotTrigger.Genuine room.lobby (.watchForBotVotes turn ids) :=
        hgenuine.events _ (Or.inl (by rw [hpending]; simp))
      -- the batch is of bots, and `uid` is none
      have huid : uid ∉ ids := by
        intro hmem
        have hbot := (hids uid hmem).1
        rw [hhuman] at hbot
        cases hbot
      rw [castBotVotes_get? hne huid]
      exact hvote
    · rw [hpending] at hnil
      cases hnil

/-- **A vote that is not taken back is kept**, first in the box and then in the record. -/
theorem KeptVote.step {lobbyId : LobbyId} {k : ℕ} {uid : Uid} {b : Bool} {room : Room}
    {i : RoomInput} (h : KeptVote k uid b room) (hreach : Room.Reachable lobbyId Orderly room)
    (hG : SteadyVote uid room i) : KeptVote k uid b (room.step lobbyId i) := by
  cases h with
  | recorded t hturn hresolved hvote =>
    -- the record is history
    have hkept := historyKept_of_reaches hreach (room.reaches_step hG.1)
    exact .recorded t (hkept.records k t hturn hresolved).2 hresolved hvote
  | cast hstatus hturn hvote hbatch =>
    have hstarted : room.lobby.status ≠ .lobby := by rw [hstatus]; simp
    obtain ⟨settings, hs, htidy⟩ := (tidy_of_reachable hreach).game hstarted
    obtain ⟨_, _, hgenuine⟩ := (genuine_of_reachable hreach).game hstarted
    cases htidy.gameStep hs hG.1 (Room.step_cases lobbyId room i) with
    | idle i hrejected room' hlobby hpending =>
      refine .cast (by rw [hlobby]; exact hstatus) (by rw [hlobby]; exact hturn)
        (by rw [hlobby]; exact hvote) ?_
      rcases hpending with hsame | ⟨_, hnil⟩
      · rw [hsame]; exact hbatch
      · exact Or.inr hnil
    | exchanged now playerId random hallowed room' hok hstatus' hturns hvotes hawaiting hcharged
        hpending =>
      exact .cast (by rw [hstatus']; exact hstatus) (by rw [hturns]; exact hturn)
        (by rw [hvotes]; exact hvote) (by rw [hpending]; exact hbatch)
    | opened i word cleared hby hstatus' => rw [hstatus] at hstatus'; cases hstatus'
    | stolen i word cleared hby hstatus' => rw [hstatus] at hstatus'; cases hstatus'
    | counted i votes left hby _ hopen room' hstatus' hturns hvotes hplayers hawaiting hpending =>
      have hcast := hby.keeps hgenuine hG.2 hvote hbatch
      refine .cast hstatus' (by rw [hturns]; exact hturn) ?_ ?_
      · rw [hvotes]; exact Votes.get?_stored_bool hcast
      · rw [hpending]
        cases hby with
        | user => exact hbatch
        | bots => exact Or.inr rfl
    | tallied i votes left hby _ hquorum done t bank room' hvotes hres =>
      have hcast := hby.keeps hgenuine hG.2 hvote hbatch
      -- the ballots become the record of the `k`-th turn
      have hk : done.length = k := by
        rw [hres.turns, List.length_append, List.length_singleton] at hturn
        omega
      have hrecord : (done ++ [(t.tally votes bank).stored])[k]?
          = some (t.tally votes bank).stored := by
        rw [← hk, List.getElem?_concat_length]
      refine .recorded (t.tally votes bank).stored ?_ hres.resolved (Votes.get?_stored_bool hcast)
      cases hres.next with
      | gameOver hstatus' hturns => rw [hturns]; exact hrecord
      | nextTurn nextPlayer created hopen hnext hstatus' hturns =>
        rw [hturns, List.getElem?_append_left (by rw [List.length_append, hk]; simp)]
        exact hrecord

theorem keptVote_of_reaches {lobbyId : LobbyId} {k : ℕ} {uid : Uid} {b : Bool} {room room' : Room}
    (h : KeptVote k uid b room) (hreach : Room.Reachable lobbyId Orderly room)
    (hruns : (roomMachine lobbyId).Reaches (SteadyVote uid) room room') :
    KeptVote k uid b room' := by
  have hboth : Room.Reachable lobbyId Orderly room' ∧ KeptVote k uid b room' := by
    refine Machine.Reaches.invariant
      (I := fun room => Room.Reachable lobbyId Orderly room ∧ KeptVote k uid b room)
      ?_ ⟨hreach, h⟩ hruns
    rintro room i ⟨hreach, hkept⟩ hG
    exact ⟨hreach.trans (room.reaches_step hG.1), hkept.step hreach hG⟩
  exact hboth.2

/-- **Vote finality.**  In every state reached with boolean votes, further votes over a recorded
    one are refused exactly if it is a challenge (or its voter is on turn).  In an orderly run in
    which the voter does not vote again over a pass, the vote stays in the box and enters the
    record of the turn. -/
theorem vote_final_iff {lobbyId : LobbyId} {room : Room} {uid : Uid} {b : Bool}
    (h : Room.Reachable lobbyId BooleanVotes room) (hstatus : room.lobby.status = .voting)
    (hvote : room.lobby.votes.get? uid = some (.bool b)) :
    (room.RefusesVotes lobbyId uid ↔ b = true ∨ room.lobby.OnTurn uid) ∧
    (Room.Reachable lobbyId Orderly room → isBot uid = false ∨ room.pending = [] →
      ∀ room', (roomMachine lobbyId).Reaches (SteadyVote uid) room room' →
        KeptVote (room.lobby.turns.length - 1) uid b room') := by
  obtain ⟨settings, hs, _, hopen⟩ :=
    (openBallots_of_reachable h).game (by rw [hstatus]; simp)
  refine ⟨⟨fun hrefuses => ?_, fun hfinal => ?_⟩, ?_⟩
  · by_contra hneither
    rw [not_or, Bool.not_eq_true] at hneither
    obtain ⟨rfl, hother⟩ := hneither
    exact hopen.accepts hs hstatus hother hvote hrefuses
  · apply hs.refusesVotes
    rcases hfinal with rfl | hturn
    · right; rw [hvote]; rfl
    · exact Or.inl hturn
  · intro horderly hbatch room' hruns
    have hpos := hs.turns_pos
    exact keptVote_of_reaches (.cast hstatus (by omega) hvote hbatch) horderly hruns

/-- `ben` submits, and `ann` votes while `eve` has not voted yet. -/
def sampleBallot (challenge : Bool) : List RoomInput :=
  sampleStart ["ben", "eve"] 0 sampleSettings ++
  [.call 1 (.submitWord "ben" (.str "zebra")), .call 2 (.voteOnWord "ann" (.bool challenge))]

/-- The vote of `ann` is recorded and the ballots are open. -/
theorem sampleBallot_recorded (challenge : Bool) :
    (sampleRoom (sampleBallot challenge)).lobby.status = .voting ∧
    (sampleRoom (sampleBallot challenge)).lobby.votes.get? "ann" = some (.bool challenge) := by
  refine ⟨by cases challenge <;> decide +kernel, ?_⟩
  have hrecorded : ((sampleRoom (sampleBallot challenge)).lobby.votes.get? "ann").map
      (fun v => (v.isBool, v.truthy)) = some (true, challenge) := by
    cases challenge <;> decide +kernel
  obtain ⟨v, hget, hv⟩ := Option.map_eq_some_iff.mp hrecorded
  have htruthy : v.truthy = challenge := congrArg Prod.snd hv
  rw [hget, Json.eq_bool (congrArg Prod.fst hv), htruthy]

theorem vote_final_iff_sample : (sampleRoom (sampleBallot true)).RefusesVotes "L" "ann" := by
  have hreach : Room.Reachable "L" BooleanVotes (sampleRoom (sampleBallot true)) :=
    sampleRoom_reachable (by decide +kernel)
  obtain ⟨hstatus, hvote⟩ := sampleBallot_recorded true
  exact (vote_final_iff hreach hstatus hvote).1.mpr (Or.inl rfl)

/-- The second vote of `ann`, over her pass, is accepted. -/
theorem pass_overwritten :
    ¬ ∀ (lobbyId : LobbyId) (room : Room) (uid : Uid) (b : Bool),
      Room.Reachable lobbyId PlayersOnly room → room.lobby.status = .voting →
      uid ∈ room.lobby.players.keys → room.lobby.votes.get? uid = some (.bool b) →
      room.RefusesVotes lobbyId uid := by
  intro hrefuses
  obtain ⟨hstatus, hvote⟩ := sampleBallot_recorded false
  obtain ⟨⟨failure, herror⟩, _⟩ := hrefuses "L" (sampleRoom (sampleBallot false)) "ann" false
    (sampleRoom_reachable (by decide +kernel)) hstatus (by decide +kernel) hvote 3 (.bool true) rfl
  have hok : (updateLobby "L" (voteOnWord "L" "ann" (.bool true)) 3
      (some (sampleRoom (sampleBallot false)).lobby)).isOk = true := by
    decide +kernel
  rw [herror] at hok
  cases hok

end PasswordApp
