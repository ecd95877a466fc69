import PasswordApp.Game.Progress
import PasswordApp.Game.Redelivery

namespace PasswordApp

/-!
# Game — the public vote counter

`public.votesTallied` is kept by hand next to the ballots: a submission resets it, a vote
adds one, a batch adds one per bot.  It is right as long as no step writes over a ballot.

* `Room.miscounts` — the steps that do: a vote over a recorded pass, a batch for bots that have
  voted (or outside a vote), a word on a box that is not empty;
* `CountedMove` — what all other steps do to ballots and counter;
* `Counted` — the invariant they keep;
* `counter_agrees` — with votes of players, a vote keeps the agreement exactly if it does
  not write over a recorded pass.
-/

/-! ### Batches name a bot once -/

/-- The awaited bots are those of some submitter's electorate, or as before, or nobody. -/
theorem RoomStep.awaits {lobbyId : LobbyId} {room room' : Room} {i : RoomInput}
    (hstep : RoomStep lobbyId room i room') (hstarted : room.lobby.status ≠ .lobby) :
    room'.lobby.awaitingBotVotes = room.lobby.awaitingBotVotes ∨
    room'.lobby.awaitingBotVotes = [] ∨
    ∃ submitter, room'.lobby.awaitingBotVotes = votingBots room.lobby submitter := by
  have hword : ∀ {word : Json} {now : ℕ} {next : Lobby},
      WordPlayed word (room.lobby.stamp now) next →
      next.awaitingBotVotes = room.lobby.awaitingBotVotes ∨ next.awaitingBotVotes = [] ∨
      ∃ submitter, next.awaitingBotVotes = votingBots room.lobby submitter := by
    intro word now next hplayed
    cases hplayed with
    | awaitsVotes done t hturns hnone => exact Or.inr (Or.inr ⟨t.player, rfl⟩)
    | othersWord done t hturns otherId hother players hscored lobby' status hadvances =>
      exact Or.inl hadvances.awaitingBotVotes
  refine hstep.lobby_induction (P := fun lobby =>
    lobby.awaitingBotVotes = room.lobby.awaitingBotVotes ∨ lobby.awaitingBotVotes = [] ∨
    ∃ submitter, lobby.awaitingBotVotes = votingBots room.lobby submitter) ?_ ?_ (Or.inl rfl)
  · intro now c lobby heffect
    cases c with
    | addPlayerToLobby player playerId => exact absurd heffect.1 hstarted
    | addBot requesterId => exact absurd heffect.2.1 hstarted
    | startGame playerId gameSettings random => exact absurd heffect.2.1 hstarted
    | submitWord playerId word =>
      obtain ⟨_, _, next, hplayed, rfl⟩ := heffect
      have hids := hword hplayed
      exact hids
    | requestNewWords playerId random =>
      obtain ⟨_, next, hrolled, rfl⟩ := heffect
      obtain ⟨_, _, _, _, _, _, _, _, _⟩ := hrolled
      exact Or.inl rfl
    | voteOnWord playerId vote =>
      obtain ⟨_, _, _, k, next, _, hcast, rfl⟩ := heffect
      exact Or.inl hcast.awaitingBotVotes
  · intro now answer trigger lobby heffect
    cases trigger with
    | watchForBotVotes turn votingBotIds =>
      obtain ⟨k, next, _, _, rfl⟩ := heffect
      exact Or.inr (Or.inl rfl)
    | watchForBotTurns turn =>
      obtain ⟨next, hplayed, rfl⟩ := heffect
      have hids := hword hplayed
      exact hids

/-- No batch of the room, nor the next one, names a bot twice. -/
structure BatchesNodup (room : Room) : Prop where
  awaiting : room.lobby.awaitingBotVotes.Nodup
  events : ∀ turn ids,
    .watchForBotVotes turn ids ∈ room.pending ∨ .watchForBotVotes turn ids ∈ room.delivered →
    ids.Nodup

theorem ids_of_fired {before after : Lobby} {turn : ℕ} {ids : List Uid}
    (h : .watchForBotVotes turn ids ∈ firedTriggers before after) :
    ids = after.awaitingBotVotes := by
  rw [firedTriggers, List.mem_append] at h
  rcases h with hvotes | hturn
  · split at hvotes
    · have heq := List.mem_singleton.mp hvotes
      injection heq
    · cases hvotes
  · split at hturn
    · cases List.mem_singleton.mp hturn
    · cases hturn

namespace BatchesNodup

variable {room : Room}

theorem store (h : BatchesNodup room) {lobby : Lobby} (hids : lobby.awaitingBotVotes.Nodup) :
    BatchesNodup (room.store lobby) := by
  refine ⟨hids, ?_⟩
  rintro turn ids (hpending | hdelivered)
  · rcases List.mem_append.mp hpending with hold | hnew
    · exact h.events turn ids (Or.inl hold)
    · rw [ids_of_fired hnew]
      exact hids
  · exact h.events turn ids (Or.inr hdelivered)

theorem take (h : BatchesNodup room) {k : ℕ} {trigger : BotTrigger}
    (hget : room.pending[k]? = some trigger) : BatchesNodup (room.take k trigger) := by
  refine ⟨h.awaiting, ?_⟩
  rintro turn ids (hpending | hdelivered)
  · exact h.events turn ids (Or.inl (List.mem_of_mem_eraseIdx hpending))
  · rcases List.mem_append.mp hdelivered with hold | hnew
    · exact h.events turn ids (Or.inr hold)
    · obtain rfl := List.mem_singleton.mp hnew
      exact h.events turn ids (Or.inl (List.mem_of_getElem? hget))

theorem step {lobbyId : LobbyId} {room' : Room} {i : RoomInput} (h : BatchesNodup room)
    (hstarted : room.lobby.status ≠ .lobby) (hstep : RoomStep lobbyId room i room') :
    BatchesNodup room' := by
  have hids : room'.lobby.awaitingBotVotes.Nodup := by
    rcases hstep.awaits hstarted with hsame | hnil | ⟨submitter, hbots⟩
    · rw [hsame]; exact h.awaiting
    · rw [hnil]; exact List.nodup_nil
    · rw [hbots]; exact room.lobby.players.keys_nodup.filter _
  cases hstep with
  | rejected => exact h
  | called now c lobby hok heffect => exact h.store hids
  | failed now k answer trigger hpending => exact h.take hpending
  | delivered now k answer trigger hpending lobby heffect => exact (h.take hpending).store hids
  | redelivered now k answer trigger hdelivered lobby heffect => exact h.store hids

end BatchesNodup

/-- The deal fires no batch. -/
theorem Dealt.batchesNodup {room : Room} {settings : Settings} {now : ℕ} {next : Lobby}
    (hdealt : Dealt settings (room.lobby.stamp now) next) (h : Unstarted room) :
    BatchesNodup (room.store next.stored) := by
  have hnone : BatchesNodup room := by
    refine ⟨by rw [h.awaitingBotVotes]; exact List.nodup_nil, ?_⟩
    rintro turn ids (hpending | hdelivered)
    · rw [h.pending] at hpending; cases hpending
    · rw [h.delivered] at hdelivered; cases hdelivered
  apply hnone.store
  obtain ⟨_, _, _, _, _, _, _, _, _, _⟩ := hdealt
  exact hnone.awaiting

/-- A batch of bots without ballots adds one ballot per bot. -/
theorem size_castBotVotes_fresh {votes : Votes} {ids : List Uid} (hne : ids ≠ [])
    (hnodup : ids.Nodup) (hfresh : ∀ uid ∈ ids, uid ∉ votes.keys) (botVote : Bool)
    (random : Draw) : (castBotVotes votes ids botVote random).size = votes.size + ids.length := by
  have hall : (votes.keys ++ ids).Nodup := by
    rw [List.nodup_append']
    exact ⟨votes.keys_nodup, hnodup, fun uid hvoted huid => hfresh uid huid hvoted⟩
  rw [size_castBotVotes votes hne, List.toFinset_card_of_nodup hall, List.length_append]
  rfl

/-! ### Steps that write over a ballot -/

/-- A trigger that runs on other ballots than it was fired for. -/
def BotTrigger.miscounts (lobby : Lobby) : BotTrigger → Bool
  | .watchForBotVotes _ votingBotIds =>
      lobby.status ≠ .voting || votingBotIds.any (fun uid => uid ∈ lobby.votes.keys)
  | .watchForBotTurns _ => lobby.votes.keys ≠ []

/-- A vote over a recorded falsy one, or a trigger on other ballots than its own. -/
def Room.miscounts (room : Room) : RoomInput → Bool
  | .call _ (.voteOnWord uid _) =>
      room.lobby.status = .voting && !(decide (room.lobby.OnTurn uid)) &&
        (room.lobby.votes.get? uid).any (fun v => !v.truthy)
  | .deliver _ i _ => (room.pending[i]?).any (BotTrigger.miscounts room.lobby)
  | .redeliver _ i _ => (room.delivered[i]?).any (BotTrigger.miscounts room.lobby)
  | _ => false

/-- The guard of runs in which votes are booleans of players. -/
def SeatedVotes (room : Room) : RoomInput → Prop
  | .call _ (.voteOnWord uid vote) =>
      room.lobby.status = .voting → uid ∈ room.lobby.players.keys ∧ vote.isBool = true
  | _ => True

/-- The guard of such runs in which nothing is written over a ballot. -/
def CountsOnce (room : Room) (i : RoomInput) : Prop :=
  SeatedVotes room i ∧ room.miscounts i = false

instance (room : Room) : ∀ i, Decidable (SeatedVotes room i)
  | .call _ (.voteOnWord _ _) => inferInstanceAs (Decidable (_ → _ ∧ _))
  | .call _ (.submitWord _ _) => inferInstanceAs (Decidable True)
  | .call _ (.addPlayerToLobby _ _) => inferInstanceAs (Decidable True)
  | .call _ (.addBot _) => inferInstanceAs (Decidable True)
  | .call _ (.startGame _ _ _) => inferInstanceAs (Decidable True)
  | .call _ (.requestNewWords _ _) => inferInstanceAs (Decidable True)
  | .deliver _ _ _ => inferInstanceAs (Decidable True)
  | .redeliver _ _ _ => inferInstanceAs (Decidable True)

instance (room : Room) (i : RoomInput) : Decidable (CountsOnce room i) :=
  inferInstanceAs (Decidable (_ ∧ _))

/-! ### What the other steps do -/

/-- Every ballot is a boolean of a player. -/
def Lobby.PlayersBallots (lobby : Lobby) (votes : Votes) : Prop :=
  votes.All (fun uid v => uid ∈ lobby.players.keys ∧ v.isBool = true)

theorem Lobby.PlayersBallots.stored {lobby : Lobby} {votes : Votes}
    (h : lobby.PlayersBallots votes) : votes.stored = votes :=
  Votes.All.stored (fun uid v hget => (h uid v hget).2)

theorem Lobby.PlayersBallots.congr {lobby lobby' : Lobby} {votes : Votes}
    (h : lobby.PlayersBallots votes) (hkeys : lobby'.players.keys = lobby.players.keys) :
    lobby'.PlayersBallots votes := by
  intro uid v hget
  rw [hkeys]
  exact h uid v hget

/-- The counter counts the ballots, which are booleans of players; outside a vote there are
    none. -/
structure Counted (lobby : Lobby) : Prop where
  ballots : lobby.PlayersBallots lobby.votes
  quiet : lobby.status ≠ .voting → lobby.votes = ∅
  uncounted : lobby.votes = ∅ ∨ lobby.votes.size + 1 ≠ lobby.playerOrder.length
  agrees : lobby.status = .voting → lobby.votesTallied = some lobby.votes.size

/-- What becomes of ballots and counter: nothing, or a word is played on an empty box, or
    ballots are cast that are counted one by one. -/
inductive CountedMove (lobby lobby' : Lobby) : Prop
  | kept (hseats : SameSeats lobby lobby') (hvotes : lobby'.votes = lobby.votes)
      (hstatus : lobby'.status = lobby.status) (hcounter : lobby'.votesTallied = lobby.votesTallied)
      (hturns : lobby'.turns = lobby.turns)
  | played (now : ℕ) (word : Json) (hempty : lobby.votes = ∅) (next : Lobby)
      (hplayed : WordPlayed word (lobby.stamp now) next) (flag : Bool)
      (hlobby : lobby' = Lobby.stored { next with awaitingBotTurn := flag })
  | cast (now : ℕ) (votes : Votes) (hballots : lobby.PlayersBallots votes) (next : Lobby)
      (hcast : VotesCast votes votes.size (lobby.stamp now) next) (ids : List Uid)
      (hlobby : lobby' = Lobby.stored { next with awaitingBotVotes := ids })

namespace Counted

variable {lobbyId : LobbyId} {room room' : Room} {i : RoomInput}

/-- A trigger that runs on its own ballots is a counted move. -/
theorem trigger_move (h : Counted room.lobby) {now : ℕ} {answer : BotAnswer}
    {trigger : BotTrigger} {lobby' : Lobby} (hgenuine : trigger.Genuine room.lobby)
    (hnodup : ∀ turn ids, trigger = .watchForBotVotes turn ids → ids.Nodup)
    (hcounts : trigger.miscounts room.lobby = false)
    (heffect : TriggerEffect now answer room.lobby trigger lobby') :
    CountedMove room.lobby lobby' := by
  cases trigger with
  | watchForBotVotes turn ids =>
    obtain ⟨hne, hids⟩ := hgenuine
    have hown : room.lobby.status = .voting ∧ ∀ uid ∈ ids, uid ∉ room.lobby.votes.keys := by
      simpa [BotTrigger.miscounts] using hcounts
    obtain ⟨hstatus, hfresh⟩ := hown
    obtain ⟨k, next, hk, hcast, rfl⟩ := heffect
    have hsize := size_castBotVotes_fresh hne (hnodup turn ids rfl) hfresh answer.challenge
      answer.random
    obtain rfl : room.lobby.votes.size = k := by
      rw [h.agrees hstatus] at hk
      exact Option.some.inj hk
    rw [← hsize] at hcast
    refine .cast now _ ?_ next hcast [] rfl
    exact Votes.All.castBotVotes h.ballots hne (fun uid hu b => ⟨(hids uid hu).2, rfl⟩) _ _
  | watchForBotTurns turn =>
    have hempty : room.lobby.votes.keys = [] := by simpa [BotTrigger.miscounts] using hcounts
    obtain ⟨next, hplayed, rfl⟩ := heffect
    exact .played now _ (Dict.eq_empty_of_keys hempty) next hplayed false rfl

/-- **Inversion of the steps that write over no ballot.** -/
theorem move (h : Counted room.lobby) (hstarted : room.lobby.status ≠ .lobby)
    (hstored : room.lobby.stored = room.lobby) (hgenuine : GenuineTriggers room)
    (hbatches : BatchesNodup room) (hG : CountsOnce room i)
    (hstep : RoomStep lobbyId room i room') : CountedMove room.lobby room'.lobby := by
  obtain ⟨hseated, hcounts⟩ := hG
  have hturns := stored_turns hstored
  cases hstep with
  | rejected => exact .kept (.refl _) rfl rfl rfl rfl
  | failed => exact .kept (.refl _) rfl rfl rfl rfl
  | called now c lobby hok heffect =>
    cases c with
    | addPlayerToLobby player playerId => exact absurd heffect.1 hstarted
    | addBot requesterId => exact absurd heffect.2.1 hstarted
    | startGame playerId gameSettings random => exact absurd heffect.2.1 hstarted
    | submitWord playerId word =>
      obtain ⟨hstatus, _, next, hplayed, rfl⟩ := heffect
      have hempty := h.quiet (by rw [hstatus]; simp)
      exact .played now word hempty next hplayed next.awaitingBotTurn rfl
    | requestNewWords playerId random =>
      have hseats := heffect.seats hstarted
      obtain ⟨_, next, hrolled, rfl⟩ := heffect
      obtain ⟨_, _, _, _, _, _, _, _, _⟩ := hrolled
      exact .kept hseats h.ballots.stored rfl rfl hturns
    | voteOnWord playerId vote =>
      obtain ⟨hstatus, hother, hfalsy, k, next, hk, hcast, rfl⟩ := heffect
      obtain ⟨hplayer, hbool⟩ := hseated hstatus
      obtain rfl : room.lobby.votes.size = k := by
        rw [h.agrees hstatus] at hk
        exact Option.some.inj hk
      -- no challenge is recorded, and by the guard no pass
      have hfresh : playerId ∉ room.lobby.votes.keys := by
        rw [← Dict.get?_eq_none_iff]
        cases hget : room.lobby.votes.get? playerId with
        | none => rfl
        | some v =>
          have hpass : v.truthy = true := by
            simpa [Room.miscounts, hstatus, hother, hget] using hcounts
          rw [hget] at hfalsy
          have hfalsy : v.truthy = false := hfalsy
          rw [hpass] at hfalsy
          cases hfalsy
      have hsize : (room.lobby.votes.set playerId vote).size = room.lobby.votes.size + 1 := by
        rw [Dict.size_set, if_neg hfresh]
      rw [← hsize] at hcast
      exact .cast now _ (Votes.All.set h.ballots ⟨hplayer, hbool⟩) next hcast next.awaitingBotVotes
        rfl
  | delivered now k answer trigger hpending lobby heffect =>
    have hmem : trigger ∈ room.pending ∨ trigger ∈ room.delivered :=
      Or.inl (List.mem_of_getElem? hpending)
    have hcounts : trigger.miscounts room.lobby = false := by
      simpa [Room.miscounts, hpending] using hcounts
    exact h.trigger_move (hgenuine.events trigger hmem)
      (fun turn ids heq => hbatches.events turn ids (heq ▸ hmem)) hcounts heffect
  | redelivered now k answer trigger hdelivered lobby heffect =>
    have hmem : trigger ∈ room.pending ∨ trigger ∈ room.delivered :=
      Or.inr (List.mem_of_getElem? hdelivered)
    have hcounts : trigger.miscounts room.lobby = false := by
      simpa [Room.miscounts, hdelivered] using hcounts
    exact h.trigger_move (hgenuine.events trigger hmem)
      (fun turn ids heq => hbatches.events turn ids (heq ▸ hmem)) hcounts heffect

end Counted

/-! ### Counted moves keep the count -/

theorem WordPlayed.votes {word : Json} {lobby next : Lobby} (h : WordPlayed word lobby next) :
    next.votes = lobby.votes := by
  cases h with
  | awaitsVotes => rfl
  | othersWord done t hturns otherId hother players hscored lobby' status hadvances =>
    exact hadvances.votes

theorem votes_stored_empty : Votes.stored ∅ = ∅ := rfl

/-- **A counted move keeps the count.** -/
theorem CountedMove.counted {lobby lobby' : Lobby} (hmove : CountedMove lobby lobby')
    (h : Counted lobby) : Counted lobby' := by
  cases hmove with
  | kept hseats hvotes hstatus hcounter hturns =>
    refine ⟨?_, ?_, ?_, ?_⟩
    · rw [hvotes]; exact h.ballots.congr hseats.players
    · rw [hvotes, hstatus]; exact h.quiet
    · rw [hvotes, hseats.order]; exact h.uncounted
    · rw [hvotes, hstatus, hcounter]; exact h.agrees
  | played now word hempty next hplayed flag hlobby =>
    have hvotes : lobby'.votes = ∅ := by
      rw [hlobby]
      show next.votes.stored = ∅
      rw [hplayed.votes]
      show lobby.votes.stored = ∅
      rw [hempty, votes_stored_empty]
    refine ⟨?_, fun _ => hvotes, Or.inl hvotes, fun _ => ?_⟩
    · intro uid v hget
      rw [hvotes] at hget
      cases hget
    · rw [hvotes, hlobby]
      exact hplayed.counter
  | cast now votes hballots next hcast ids hlobby =>
    have hkeys : lobby'.players.keys = lobby.players.keys := by
      rw [hlobby]
      exact hcast.seats.players
    cases hcast with
    | stillOpen hopen =>
      have hvotes : lobby'.votes = votes := by
        rw [hlobby]
        exact hballots.stored
      refine ⟨?_, ?_, Or.inr ?_, fun _ => ?_⟩
      · rw [hvotes]; exact hballots.congr hkeys
      · rw [hlobby]
        exact fun hstatus => absurd rfl hstatus
      · rw [hvotes, hlobby]
        exact hopen
      · rw [hvotes, hlobby]
        rfl
    | tally hquorum done t hturns bank hbank hpayable players hscored mid status hadvances =>
      -- the ballots moved to the record of the turn
      have hvotes : lobby'.votes = ∅ := by
        rw [hlobby]
        show mid.votes.stored = ∅
        rw [hadvances.votes, votes_stored_empty]
      refine ⟨?_, fun _ => hvotes, Or.inl hvotes, fun hvoting => ?_⟩
      · intro uid v hget
        rw [hvotes] at hget
        cases hget
      · rw [hlobby] at hvoting
        exact absurd hvoting hadvances.not_voting

theorem counted_of_reachable {lobbyId : LobbyId} {room : Room}
    (h : Room.Reachable lobbyId CountsOnce room) :
    Phase (fun _ room => Counted room.lobby ∧ room.lobby.stored = room.lobby ∧
      GenuineTriggers room ∧ BatchesNodup room) room := by
  refine h.phase ?_ ?_
  · intro room now settings next hun hdealt
    obtain ⟨firstPlayer, created, hfresh⟩ := hdealt.fresh hun
    refine ⟨⟨?_, fun _ => hfresh.votes, Or.inl hfresh.votes, ?_⟩, hfresh.stored,
      hdealt.genuine hun, hdealt.batchesNodup hun⟩
    · intro uid v hget
      rw [hfresh.votes] at hget
      cases hget
    · simp [hfresh.status]
  · rintro settings room i room' hs ⟨hcounted, hstored, hgenuine, hbatches⟩ hG hstep
    have hmove := hcounted.move hs.started hstored hgenuine hbatches hG hstep
    exact ⟨hmove.counted hcounted, hstep.stored hstored, hgenuine.step hs.started hstep,
      hbatches.step hs.started hstep⟩

/-! ### The record of a resolved turn -/

theorem getElem?_of_stored {lobby : Lobby} {k : ℕ} {t : Turn}
    (h : lobby.stored.turns[k]? = some t) : ∃ u, lobby.turns[k]? = some u ∧ t = u.stored := by
  have h : (lobby.turns.map Turn.stored)[k]? = some t := h
  rw [List.getElem?_map, Option.map_eq_some_iff] at h
  obtain ⟨u, hu, rfl⟩ := h
  exact ⟨u, hu, rfl⟩

/-- Rewriting the last turn leaves the others where they are. -/
theorem getElem?_rewrite {done : List Turn} {t u v : Turn} {k : ℕ}
    (h : (done ++ [t])[k]? = some u) :
    (u = t ∧ (done ++ [v])[k]? = some v) ∨ (done ++ [v])[k]? = some u := by
  obtain ⟨hlt, _⟩ := List.getElem?_eq_some_iff.mp h
  rw [List.length_append, List.length_singleton] at hlt
  by_cases hk : k = done.length
  · subst hk
    rw [List.getElem?_concat_length] at h
    exact Or.inl ⟨(Option.some.inj h).symm, List.getElem?_concat_length⟩
  · right
    rw [List.getElem?_append_left (by omega)] at h ⊢
    exact h

/-- A played word resolves no turn by voting. -/
theorem WordPlayed.outcome {word : Json} {lobby next : Lobby} (h : WordPlayed word lobby next)
    {k : ℕ} {t : Turn} (hk : lobby.turns[k]? = some t) :
    ∃ u, next.turns[k]? = some u ∧ u.wasSubmittersWord = t.wasSubmittersWord := by
  cases h with
  | awaitsVotes done t₀ hturns hnone =>
    rw [hturns] at hk
    rcases getElem?_rewrite (v := t₀.submit word) hk with ⟨rfl, hsame⟩ | hsame
    · exact ⟨_, hsame, rfl⟩
    · exact ⟨t, hsame, rfl⟩
  | othersWord done t₀ hturns otherId hother players hscored lobby' status hadvances =>
    rw [hturns] at hk
    rcases getElem?_rewrite (v := (t₀.submit word).stolen otherId) hk with ⟨rfl, hsame⟩ | hsame
    · exact ⟨_, hadvances.getElem? hsame, rfl⟩
    · exact ⟨t, hadvances.getElem? hsame, rfl⟩

/-- Ballots resolve the turn that records them, and no other. -/
theorem VotesCast.outcome {votes : Votes} {tallied : ℕ} {lobby next : Lobby}
    (h : VotesCast votes tallied lobby next) {k : ℕ} {t : Turn}
    (hk : lobby.turns[k]? = some t) :
    ∃ u, next.turns[k]? = some u ∧
      (u.wasSubmittersWord = t.wasSubmittersWord ∨ u.votes = votes) := by
  cases h with
  | stillOpen => exact ⟨t, hk, Or.inl rfl⟩
  | tally hquorum done t₀ hturns bank hbank hpayable players hscored lobby' status hadvances =>
    rw [hturns] at hk
    rcases getElem?_rewrite (v := t₀.tally votes bank) hk with ⟨rfl, hsame⟩ | hsame
    · exact ⟨_, hadvances.getElem? hsame, Or.inr rfl⟩
    · exact ⟨t, hadvances.getElem? hsame, Or.inl rfl⟩

/-- **A turn that a counted move resolves by voting records as many votes as were counted.** -/
theorem CountedMove.recorded {lobby lobby' : Lobby} (hmove : CountedMove lobby lobby') {k : ℕ}
    {t t' : Turn} (hk : lobby.turns[k]? = some t) (hopen : t.wasSubmittersWord = none)
    (hk' : lobby'.turns[k]? = some t') (hvoted : t'.wasSubmittersWord ≠ none) :
    lobby'.votesTallied = some t'.votes.size := by
  cases hmove with
  | kept hseats hvotes hstatus hcounter hturns =>
    rw [hturns, hk] at hk'
    obtain rfl := Option.some.inj hk'
    exact absurd hopen hvoted
  | played now word hempty next hplayed flag hlobby =>
    obtain ⟨u, hu, hword⟩ := hplayed.outcome hk
    rw [hlobby] at hk'
    obtain ⟨u', hu', rfl⟩ := getElem?_of_stored hk'
    obtain rfl := Option.some.inj (hu.symm.trans hu')
    exact absurd (hword.trans hopen) hvoted
  | cast now votes hballots next hcast ids hlobby =>
    obtain ⟨u, hu, hword⟩ := hcast.outcome hk
    rw [hlobby] at hk'
    obtain ⟨u', hu', rfl⟩ := getElem?_of_stored hk'
    obtain rfl := Option.some.inj (hu.symm.trans hu')
    rcases hword with hsame | hrecord
    · exact absurd (hsame.trans hopen) hvoted
    · have hkept : u.stored.votes = votes := by
        show u.votes.stored = votes
        rw [hrecord]
        exact hballots.stored
      rw [hkept, hlobby]
      exact hcast.counter

/-! ### Exactness -/

/-- The counter agrees with the ballots of a vote under way. -/
def Lobby.CounterAgrees (lobby : Lobby) : Prop :=
  lobby.status = .voting → lobby.votesTallied = some lobby.votes.size ∧
    ∀ uid ∈ lobby.votes.keys, uid ∈ lobby.players.keys

theorem Counted.counterAgrees {lobby : Lobby} (h : Counted lobby) : lobby.CounterAgrees := by
  intro hstatus
  refine ⟨h.agrees hstatus, fun uid huid => ?_⟩
  obtain ⟨v, hget⟩ := Dict.mem_keys_iff.mp huid
  exact (h.ballots uid v hget).1

/-- A vote over a recorded pass is accepted, and counted although the ballots do not grow. -/
theorem Counted.revote_counts {lobbyId : LobbyId} {settings : Settings} {room : Room}
    (h : Counted room.lobby) (hs : Scheduled settings room.lobby) {now : ℕ} {uid : Uid}
    {vote : Json} (hvote : vote.isBool = true)
    (hmiscounts : room.miscounts (.call now (.voteOnWord uid vote)) = true) :
    ¬ (room.step lobbyId (.call now (.voteOnWord uid vote))).lobby.CounterAgrees := by
  have hpass : (room.lobby.status = .voting ∧ ¬ room.lobby.OnTurn uid) ∧
      (room.lobby.votes.get? uid).any (fun v => !v.truthy) = true := by
    simpa [Room.miscounts] using hmiscounts
  obtain ⟨⟨hstatus, hother⟩, hpass⟩ := hpass
  obtain ⟨v, hget, hfalsy⟩ := (Option.any_eq_true _ _).mp hpass
  obtain ⟨done, t, hturns⟩ := hs.turns_eq
  have hmem : uid ∈ room.lobby.votes.keys := Dict.mem_keys_of_get? hget
  have hsize : (room.lobby.votes.set uid vote).size = room.lobby.votes.size := by
    rw [Dict.size_set, if_pos hmem]
  -- the box is not empty, so its size is not the quorum's
  have hopen : room.lobby.votes.size + 1 ≠ room.lobby.playerOrder.length := by
    rcases h.uncounted with hempty | hopen
    · rw [hempty] at hmem
      cases hmem
    · exact hopen
  obtain ⟨lobby', hok⟩ := hs.voteOnWord_commits lobbyId now hstatus hturns
    (fun heq => hother ⟨done, t, hturns, heq⟩) (Json.storable_of_isBool hvote)
    (by rw [hget]; simpa [truthy?] using hfalsy) (h.agrees hstatus)
    (fun hquorum => absurd (hsize ▸ hquorum) hopen)
  have hstep : (room.step lobbyId (.call now (.voteOnWord uid vote))).lobby = lobby' := by
    show (room.commit lobbyId (voteOnWord lobbyId uid vote) now).lobby = lobby'
    rw [Room.commit, hok]
  rw [hstep]
  obtain ⟨_, _, _, k, next, hk, hcast, rfl⟩ := call_ok (c := .voteOnWord uid vote) hok
  obtain rfl : room.lobby.votes.size = k := by
    rw [h.agrees hstatus] at hk
    exact Option.some.inj hk
  cases hcast with
  | tally hquorum => exact absurd (hsize ▸ hquorum) hopen
  | stillOpen =>
    intro hagrees
    have hbools : Votes.All (fun _ v => v.isBool = true) (room.lobby.votes.set uid vote) :=
      Votes.All.set (fun u v hget => (h.ballots u v hget).2) hvote
    have hcounter : some (room.lobby.votes.size + 1)
        = some (Votes.stored (room.lobby.votes.set uid vote)).size := (hagrees rfl).1
    rw [hbools.stored, hsize, Option.some.injEq] at hcounter
    omega

/-- **Public vote counter.**  In every run in which nothing is written over a ballot, the
    counter is the number of players whose ballot is in the box, and right after a vote resolves
    a turn the number of votes on its record.  There a player's vote keeps the agreement exactly
    if it is not cast over a recorded pass. -/
theorem counter_agrees {lobbyId : LobbyId} {room : Room}
    (h : Room.Reachable lobbyId CountsOnce room) :
    room.lobby.CounterAgrees ∧
    (∀ i, CountsOnce room i → ∀ (k : ℕ) (t t' : Turn), room.lobby.turns[k]? = some t →
      t.wasSubmittersWord = none → (room.step lobbyId i).lobby.turns[k]? = some t' →
      t'.wasSubmittersWord ≠ none →
      (room.step lobbyId i).lobby.votesTallied = some t'.votes.size) ∧
    (∀ now uid vote, SeatedVotes room (.call now (.voteOnWord uid vote)) → vote.isBool = true →
      ((room.step lobbyId (.call now (.voteOnWord uid vote))).lobby.CounterAgrees ↔
        room.miscounts (.call now (.voteOnWord uid vote)) = false)) := by
  have hnext : ∀ i, CountsOnce room i → (room.step lobbyId i).lobby.CounterAgrees := by
    intro i hG
    have hreach : Room.Reachable lobbyId CountsOnce (room.step lobbyId i) :=
      h.trans (room.reaches_step hG)
    intro hstatus
    obtain ⟨_, _, hcounted, _⟩ := (counted_of_reachable hreach).game (by rw [hstatus]; simp)
    exact hcounted.counterAgrees hstatus
  refine ⟨?_, ?_, ?_⟩
  · intro hstatus
    obtain ⟨_, _, hcounted, _⟩ := (counted_of_reachable h).game (by rw [hstatus]; simp)
    exact hcounted.counterAgrees hstatus
  · intro i hG k t t' hk hopen hk' hvoted
    cases counted_of_reachable h with
    | unstarted hun => rw [hun.turns] at hk; cases hk
    | started settings hs hrest =>
      obtain ⟨hcounted, hstored, hgenuine, hbatches⟩ := hrest
      have hmove := hcounted.move hs.started hstored hgenuine hbatches hG
        (Room.step_cases lobbyId room i)
      exact hmove.recorded hk hopen hk' hvoted
  · intro now uid vote hseated hvote
    constructor
    · intro hagrees
      by_contra hmiscounts
      rw [Bool.not_eq_false] at hmiscounts
      cases counted_of_reachable h with
      | unstarted hun => simp [Room.miscounts, hun.status] at hmiscounts
      | started settings hs hrest => exact hrest.1.revote_counts hs hvote hmiscounts hagrees
    · exact fun hcounts => hnext _ ⟨hseated, hcounts⟩

theorem counter_agrees_sample : (sampleRoom (sampleBallot true)).lobby.CounterAgrees :=
  (counter_agrees (sampleRoom_reachable (by decide +kernel))).1

/-- `ann` passes on `ben`'s word and changes her mind before `eve` votes. -/
def sampleRevote : List RoomInput :=
  sampleBallot false ++ [.call 3 (.voteOnWord "ann" (.bool true))]

/-- Two votes are counted for the one ballot in the box. -/
theorem counter_drifts :
    ¬ ∀ (lobbyId : LobbyId) (room : Room), Room.Reachable lobbyId PlayersOnly room →
      room.lobby.CounterAgrees := by
  intro hagree
  have hagrees := hagree "L" (sampleRoom sampleRevote) (sampleRoom_reachable (by decide +kernel))
    (by decide +kernel)
  have hcounter := hagrees.1
  revert hcounter
  decide +kernel

end PasswordApp
