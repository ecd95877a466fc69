import Mathlib.Data.List.Forall2
import PasswordApp.Game.Handoff
import PasswordApp.Game.Redelivery

namespace PasswordApp

/-!
# Game — the order in which votes arrive

One choice per voter can reach the lobby in many ways: in any order, and the votes of the
bots one by one or as a batch.

* `Arrival`, `arrive` — a vote or a batch, and the lobby after a list of them;
* `CompleteSchedule` — every member of the electorate votes once, by its choice;
* `Balloting`, `Decided` — the lobby after some and after all of the votes, in terms of the
  choice alone;
* `votes_commute` — any two complete schedules lead to the same outcome.

The scores do not depend on the order because `turnDelta` is a sum over the ballots.
-/

/-! ### Arrivals -/

/-- A vote, or the batch of some bots, reaches the lobby. -/
inductive Arrival where
  | vote (uid : Uid) (challenge : Bool)
  | batch (votingBotIds : List Uid) (botVote : Bool) (random : Draw)

namespace Arrival

def transaction (lobbyId : LobbyId) : Arrival → LobbyTransaction
  | .vote uid challenge => voteOnWord lobbyId uid (.bool challenge)
  | .batch votingBotIds botVote random => watchForBotVotes votingBotIds botVote random

/-- Whose votes arrive. -/
def voters : Arrival → List Uid
  | .vote uid _ => [uid]
  | .batch votingBotIds _ _ => votingBotIds

/-- The ballots after the arrival. -/
def cast (votes : Votes) : Arrival → Votes
  | .vote uid challenge => votes.set uid (.bool challenge)
  | .batch votingBotIds botVote random => castBotVotes votes votingBotIds botVote random

/-- The arrival votes by the choice. -/
def Follows (choice : Uid → Bool) (a : Arrival) : Prop :=
  a.voters ≠ [] ∧ ∀ uid ∈ a.voters, (a.cast ∅).get? uid = some (.bool (choice uid))

end Arrival

/-- The lobby after the arrivals, each at its time. -/
def arrive (lobbyId : LobbyId) (lobby : Lobby) (arrivals : List (ℕ × Arrival)) :
    Except Failure Lobby :=
  arrivals.foldlM (fun lobby a => updateLobby lobbyId (a.2.transaction lobbyId) a.1 (some lobby))
    lobby

/-- Whose votes arrive on the whole. -/
def votersOf (arrivals : List (ℕ × Arrival)) : List Uid := arrivals.flatMap (fun a => a.2.voters)

/-- Everyone but the submitter votes once, by the choice. -/
structure CompleteSchedule (lobby : Lobby) (submitter : Uid) (choice : Uid → Bool)
    (arrivals : List (ℕ × Arrival)) : Prop where
  voters : (votersOf arrivals).Perm (lobby.electorate submitter)
  follows : ∀ a ∈ arrivals, a.2.Follows choice

/-! ### Ballots by a choice -/

/-- The ballots are those of `voted`, by the choice. -/
def BallotsOf (choice : Uid → Bool) (voted : List Uid) (votes : Votes) : Prop :=
  ∀ uid, votes.get? uid = if uid ∈ voted then some (.bool (choice uid)) else none

/-- What a batch records for its bots does not depend on the ballots before. -/
theorem castBotVotes_own (votes : Votes) {ids : List Uid} {uid : Uid} (huid : uid ∈ ids)
    (botVote : Bool) (random : Draw) :
    (castBotVotes votes ids botVote random).get? uid
      = (castBotVotes ∅ ids botVote random).get? uid := by
  have hfold : ∀ votes : Votes,
      (ids.foldl (fun votes botId => votes.set botId (.bool false)) votes).get? uid
        = some (.bool false) := by
    intro votes
    induction ids generalizing votes with
    | nil => cases huid
    | cons id ids ih =>
      rw [List.foldl_cons]
      by_cases hmem : uid ∈ ids
      · exact ih hmem _
      · obtain rfl := (List.mem_cons.mp huid).resolve_right hmem
        -- written first, and not again
        rw [foldl_pass_get? hmem, Dict.get?_set_self]
  unfold castBotVotes
  simp only [Dict.get?_set, hfold]

namespace BallotsOf

variable {choice : Uid → Bool} {voted : List Uid} {votes votes' : Votes}

theorem mem_keys (h : BallotsOf choice voted votes) (uid : Uid) :
    uid ∈ votes.keys ↔ uid ∈ voted := by
  rw [Dict.mem_keys_iff, h uid]
  by_cases huid : uid ∈ voted
  · simp [huid]
  · simp [huid]

theorem size (h : BallotsOf choice voted votes) (hnodup : voted.Nodup) :
    votes.size = voted.length := by
  apply List.Perm.length_eq
  rw [List.perm_ext_iff_of_nodup votes.keys_nodup hnodup]
  exact h.mem_keys

theorem bools (h : BallotsOf choice voted votes) : votes.All (fun _ v => v.isBool = true) := by
  intro uid v hget
  rw [h uid] at hget
  split at hget
  · obtain rfl := Option.some.inj hget
    rfl
  · cases hget

theorem congr (h : BallotsOf choice voted votes) {voted' : List Uid}
    (hmem : ∀ uid, uid ∈ voted' ↔ uid ∈ voted) : BallotsOf choice voted' votes := by
  intro uid
  rw [h uid]
  simp only [hmem]

/-- An arrival by the choice adds its voters. -/
theorem cast (h : BallotsOf choice voted votes) {a : Arrival} (ha : a.Follows choice) :
    BallotsOf choice (voted ++ a.voters) (a.cast votes) := by
  obtain ⟨hne, hvalues⟩ := ha
  intro uid
  by_cases huid : uid ∈ a.voters
  · rw [if_pos (List.mem_append_right _ huid), ← hvalues uid huid]
    -- what an arrival records for its voters does not depend on the other ballots
    cases a with
    | vote voter challenge =>
      obtain rfl := List.mem_singleton.mp huid
      simp only [Arrival.cast, Dict.get?_set_self]
    | batch ids botVote random => exact castBotVotes_own votes huid botVote random
  · have hkept : (a.cast votes).get? uid = votes.get? uid := by
      cases a with
      | vote voter challenge =>
        exact Dict.get?_set_ne _ _ (fun heq => huid (by simp [heq, Arrival.voters]))
      | batch ids botVote random => exact castBotVotes_get? hne huid botVote random
    rw [hkept, h uid]
    simp [huid]

/-- Two boxes with the same ballots have the same entries, up to order. -/
theorem entries_perm (h : BallotsOf choice voted votes) (h' : BallotsOf choice voted votes') :
    votes'.entries.Perm votes.entries :=
  Dict.entries_perm (fun uid => (h' uid).trans (h uid).symm)

end BallotsOf

/-! ### Scores do not depend on the order of the ballots -/

theorem turnDelta_congr {t t' : Turn} (hvotes : t'.votes.entries.Perm t.votes.entries)
    (hplayer : t'.player = t.player) (hword : t'.wasSubmittersWord = t.wasSubmittersWord)
    (hothers : t'.wasOthersWord = t.wasOthersWord) (hother : t'.otherId = t.otherId) (uid : Uid) :
    turnDelta t' uid = turnDelta t uid := by
  have hdelta : voteDelta t' uid = voteDelta t uid := by
    ext ballot
    simp only [voteDelta, challengeDelta, hplayer, hword]
  have hsum : (t'.votes.entries.map (voteDelta t' uid)).sum
      = (t.votes.entries.map (voteDelta t uid)).sum := by
    rw [hdelta]
    exact (hvotes.map _).sum_eq
  have hquiet : t'.unchallenged = t.unchallenged := by
    simp only [Turn.unchallenged, List.any_eq, hvotes.mem_iff]
  simp only [turnDelta, hsum, hquiet, hplayer, hword, hothers, hother]

/-! ### The lobby after some of the votes -/

/-- A turn that was just pushed. -/
def Turn.fresh (created : Option ℕ) (player : Uid) : Turn :=
  { player := player, created := created }

/-- What `startNextTurnOrEndGame` leads to is known before the votes. -/
theorem Advances.next {lobby mid next : Lobby} {status : Status} (h : Advances mid next status)
    (hseats : SameSeats lobby mid) (hlen : mid.turns.length = lobby.turns.length) :
    status = (if lobby.nextPlayer.isSome then .submission else .done) ∧
    next.turns = mid.turns ++ lobby.nextPlayer.toList.map (Turn.fresh mid.transactionTime) := by
  cases h with
  | gameOver settings hsettings hfull =>
    have hnone : lobby.nextPlayer = none :=
      nextPlayer_none (by rw [← hseats.settings]; exact hsettings)
        (by rw [← hlen, ← hseats.order]; exact hfull)
    simp [hnone]
  | nextTurn settings nextPlayer hsettings hopen hnext =>
    have hsome : lobby.nextPlayer = some nextPlayer :=
      nextPlayer_eq (by rw [← hseats.settings]; exact hsettings)
        (by rw [← hlen, ← hseats.order]; exact hopen)
        (by rw [← hlen, ← hseats.order]; exact hnext)
    rw [hsome]
    exact ⟨rfl, rfl⟩

/-- The lobby after the votes of `voted`, short of the quorum. -/
structure Balloting (settings : Settings) (start : Lobby) (choice : Uid → Bool) (tallied : ℕ)
    (voted : List Uid) (lobby : Lobby) : Prop where
  scheduled : Scheduled settings lobby
  seats : SameSeats start lobby
  status : lobby.status = .voting
  turns : lobby.turns = start.turns
  players : lobby.players = start.players
  banks : lobby.targetWords = start.targetWords
  counter : lobby.votesTallied = some (tallied + voted.length)
  ballots : BallotsOf choice voted lobby.votes

/-- The lobby after all votes on the word of `t`. -/
structure Decided (start : Lobby) (t : Turn) (choice : Uid → Bool) (tallied : ℕ) (lobby : Lobby) :
    Prop where
  status : lobby.status = if start.nextPlayer.isSome then .submission else .done
  counter : lobby.votesTallied = some tallied
  record : ∃ votes bank created, BallotsOf choice (start.electorate t.player) votes ∧
    start.targetWords.get? t.player = some bank ∧
    Scored (t.tally votes bank) start.players lobby.players ∧
    lobby.turns = start.turns.dropLast ++ [t.tally votes bank] ++
      start.nextPlayer.toList.map (Turn.fresh created)

/-- The lobby that a vote or a batch leaves, as one case. -/
theorem arrival_ok {lobbyId : LobbyId} {a : Arrival} {now : ℕ} {lobby lobby' : Lobby}
    (h : updateLobby lobbyId (a.transaction lobbyId) now (some lobby) = .ok lobby') :
    ∃ k next ids, lobby.votesTallied = some k ∧
      VotesCast (a.cast lobby.votes) (k + a.voters.length) (lobby.stamp now) next ∧
      lobby' = Lobby.stored { next with awaitingBotVotes := ids } := by
  cases a with
  | vote uid challenge =>
    obtain ⟨_, _, _, k, next, hk, hcast, rfl⟩ := call_ok (c := .voteOnWord uid (.bool challenge)) h
    exact ⟨k, next, next.awaitingBotVotes, hk, hcast, rfl⟩
  | batch ids botVote random =>
    have htrigger : updateLobby lobbyId
        ((BotTrigger.watchForBotVotes 0 ids).transaction ⟨botVote, "", random⟩) now (some lobby)
        = .ok lobby' := h
    obtain ⟨k, next, hk, hcast, rfl⟩ := trigger_ok htrigger
    exact ⟨k, next, [], hk, hcast, rfl⟩

namespace Balloting

variable {lobbyId : LobbyId} {settings : Settings} {start lobby lobby' : Lobby}
    {choice : Uid → Bool} {tallied now : ℕ} {voted : List Uid} {done : List Turn} {t : Turn}
    {a : Arrival}

/-- Every vote of the electorate is accepted while it lasts. -/
theorem accepts (h : Balloting settings start choice tallied voted lobby)
    (hturns : start.turns = done ++ [t]) (hword : t.wasOthersWord = false)
    (ha : a.Follows choice) (hfresh : ∀ uid ∈ a.voters, uid ∉ voted)
    (helectorate : ∀ uid ∈ voted ++ a.voters, uid ∈ start.electorate t.player) (lobbyId : LobbyId)
    (now : ℕ) : ∃ lobby', updateLobby lobbyId (a.transaction lobbyId) now (some lobby)
      = .ok lobby' := by
  have hlast : lobby.turns = done ++ [t] := h.turns.trans hturns
  -- all challengers are of the electorate, so they can be paid
  have hpayable : ∀ bank, (t.tally (a.cast lobby.votes) bank).Payable lobby.players := by
    intro bank
    rw [Turn.tally_payable hword]
    rintro ⟨uid, v⟩ hballot _
    have hvoter : uid ∈ voted ++ a.voters := by
      rw [← (h.ballots.cast ha).mem_keys uid]
      exact List.mem_map.mpr ⟨_, hballot, rfl⟩
    rw [h.players]
    exact (mem_electorate.mp (helectorate uid hvoter)).2
  cases a with
  | vote uid challenge =>
    have huid : uid ∈ start.electorate t.player :=
      helectorate uid (List.mem_append_right _ (List.mem_singleton.mpr rfl))
    refine h.scheduled.voteOnWord_commits lobbyId now h.status hlast
      (fun heq => (mem_electorate.mp huid).1 heq.symm) rfl ?_ h.counter (fun _ => hpayable)
    rw [h.ballots uid, if_neg (hfresh uid (List.mem_singleton.mpr rfl))]
    rfl
  | batch ids botVote random =>
    exact h.scheduled.watchForBotVotes_commits lobbyId now hlast h.counter ids botVote random
      (fun _ => hpayable)

/-- Votes short of the quorum keep the vote open. -/
theorem stays (h : Balloting settings start choice tallied voted lobby) (ha : a.Follows choice)
    (hnodup : (voted ++ a.voters).Nodup)
    (hopen : (voted ++ a.voters).length + 1 ≠ start.playerOrder.length)
    (hstored : start.stored = start)
    (hok : updateLobby lobbyId (a.transaction lobbyId) now (some lobby) = .ok lobby') :
    Balloting settings start choice tallied (voted ++ a.voters) lobby' := by
  have hballots := h.ballots.cast ha
  have hsize := hballots.size hnodup
  obtain ⟨k, next, ids, hk, hcast, rfl⟩ := arrival_ok hok
  obtain rfl : tallied + voted.length = k := Option.some.inj (h.counter.symm.trans hk)
  cases hcast with
  | tally hquorum =>
    have hquorum : (a.cast lobby.votes).size + 1 = lobby.playerOrder.length := hquorum
    rw [hsize, h.seats.order] at hquorum
    exact absurd hquorum hopen
  | stillOpen =>
    have hturns : lobby.turns.map Turn.stored = lobby.turns := by
      rw [h.turns]
      exact stored_turns hstored
    exact {
      scheduled := h.scheduled.of_seats ⟨rfl, rfl, rfl, rfl⟩
        (by simp [Lobby.turnPlayers, Lobby.stored, Lobby.stamp, Turn.stored])
        (by
          show ∀ u ∈ (lobby.turns.map Turn.stored).dropLast, u.Resolved
          rw [hturns]
          exact h.scheduled.resolved)
        (by simp [Lobby.stored]) (by simp [Lobby.stored])
      seats := ⟨h.seats.settings, h.seats.order, h.seats.players, h.seats.banks⟩
      status := rfl
      turns := hturns.trans h.turns
      players := h.players
      banks := h.banks
      counter := by
        rw [List.length_append, ← Nat.add_assoc]
        rfl
      ballots := by
        show BallotsOf choice _ (Votes.stored (a.cast lobby.votes))
        rw [hballots.bools.stored]
        exact hballots }

/-- The last votes decide the turn. -/
theorem decides (h : Balloting settings start choice tallied voted lobby) (ha : a.Follows choice)
    (hturns : start.turns = done ++ [t])
    (hvoters : (voted ++ a.voters).Perm (start.electorate t.player))
    (hquorum : (voted ++ a.voters).length + 1 = start.playerOrder.length)
    (hstored : start.stored = start)
    (hok : updateLobby lobbyId (a.transaction lobbyId) now (some lobby) = .ok lobby') :
    Decided start t choice (tallied + (start.electorate t.player).length) lobby' := by
  have hnodup : (voted ++ a.voters).Nodup :=
    hvoters.nodup_iff.mpr (start.players.keys_nodup.erase _)
  have hballots := h.ballots.cast ha
  have hsize := hballots.size hnodup
  obtain ⟨k, next, ids, hk, hcast, rfl⟩ := arrival_ok hok
  obtain rfl : tallied + voted.length = k := Option.some.inj (h.counter.symm.trans hk)
  cases hcast with
  | stillOpen hopen =>
    have hopen : (a.cast lobby.votes).size + 1 ≠ lobby.playerOrder.length := hopen
    rw [hsize, h.seats.order] at hopen
    exact absurd hquorum hopen
  | tally _ done' u hturns' bank hbank hpayable players hscored lobby'' status hadvances =>
    obtain ⟨rfl, rfl⟩ := List.append_singleton_inj ((h.turns.trans hturns).symm.trans hturns')
    have hlen : (done ++ [t.tally (a.cast lobby.votes) bank]).length = start.turns.length := by
      rw [hturns]
      simp
    have hplayers := hadvances.players
    have hcounter := hadvances.counter
    have hseats : SameSeats start { lobby.stamp now with
        turns := done ++ [t.tally (a.cast lobby.votes) bank]
        votesTallied := some (tallied + voted.length + a.voters.length)
        players := players
        votes := ∅ } :=
      ⟨h.seats.settings, h.seats.order, hscored.keys.trans h.seats.players, h.seats.banks⟩
    obtain ⟨hstatus, hnext⟩ := hadvances.next hseats hlen
    have hdone : done.map Turn.stored = done := by
      have hall := stored_turns hstored
      rw [hturns, List.map_append] at hall
      exact (List.append_singleton_inj hall).1
    refine ⟨hstatus, ?_, a.cast lobby.votes, bank, some now, hballots.congr ?_, ?_, ?_, ?_⟩
    · show lobby''.votesTallied = _
      rw [hcounter, ← hvoters.length_eq, List.length_append, Nat.add_assoc]
    · intro uid
      exact hvoters.mem_iff.symm
    · rw [← h.banks]
      exact hbank
    · show Scored _ start.players lobby''.players
      rw [hplayers, ← h.players]
      exact hscored
    · have hrecord :
          (t.tally (a.cast lobby.votes) bank).stored = t.tally (a.cast lobby.votes) bank := by
        rw [Turn.stored]
        show { t.tally (a.cast lobby.votes) bank with
          votes := Votes.stored (a.cast lobby.votes) } = _
        rw [hballots.bools.stored]
        rfl
      show lobby''.turns.map Turn.stored = _
      rw [hnext, List.map_append, List.map_append, hdone, List.map_singleton, hrecord, hturns,
        List.dropLast_concat, List.map_map]
      rfl

/-- **Any schedule decides the turn.** -/
theorem arrive_decides {arrivals : List (ℕ × Arrival)}
    (h : Balloting settings start choice tallied voted lobby) (hne : arrivals ≠ [])
    (hturns : start.turns = done ++ [t]) (hword : t.wasOthersWord = false)
    (hvoters : (voted ++ votersOf arrivals).Perm (start.electorate t.player))
    (hfollows : ∀ a ∈ arrivals, a.2.Follows choice)
    (hquorum : (start.electorate t.player).length + 1 = start.playerOrder.length)
    (hstored : start.stored = start) (lobbyId : LobbyId) :
    ∃ lobby', arrive lobbyId lobby arrivals = .ok lobby' ∧
      Decided start t choice (tallied + (start.electorate t.player).length) lobby' := by
  induction arrivals generalizing lobby voted with
  | nil => exact absurd rfl hne
  | cons first rest ih =>
    obtain ⟨now, a⟩ := first
    have ha : a.Follows choice := hfollows (now, a) List.mem_cons_self
    have hsplit : voted ++ votersOf ((now, a) :: rest) = voted ++ a.voters ++ votersOf rest := by
      rw [votersOf, List.flatMap_cons, List.append_assoc]
      rfl
    rw [hsplit] at hvoters
    have hnodup : (voted ++ a.voters ++ votersOf rest).Nodup :=
      hvoters.nodup_iff.mpr (start.players.keys_nodup.erase _)
    obtain ⟨hnodup', _, _⟩ := List.nodup_append'.mp hnodup
    have hfresh : ∀ uid ∈ a.voters, uid ∉ voted := fun uid huid hvoted =>
      (List.nodup_append'.mp hnodup').2.2 hvoted huid
    have helectorate : ∀ uid ∈ voted ++ a.voters, uid ∈ start.electorate t.player :=
      fun uid huid => hvoters.mem_iff.mp (List.mem_append_left _ huid)
    obtain ⟨next, hok⟩ := h.accepts hturns hword ha hfresh helectorate lobbyId now
    have hrun : arrive lobbyId lobby ((now, a) :: rest) = arrive lobbyId next rest := by
      simp only [arrive, List.foldlM_cons, hok, ok_bind]
    rw [hrun]
    have hlen := hvoters.length_eq
    rw [List.length_append] at hlen
    by_cases hrest : rest = []
    · -- the last arrival meets the quorum
      subst hrest
      have hall : (voted ++ a.voters).Perm (start.electorate t.player) := by
        simpa [votersOf] using hvoters
      exact ⟨next, rfl,
        h.decides ha hturns hall (by rw [hall.length_eq]; exact hquorum) hstored hok⟩
    · -- somebody is still to come
      have hpos : 0 < (votersOf rest).length := by
        obtain ⟨b, others, rfl⟩ := List.exists_cons_of_ne_nil hrest
        have hb := (hfollows b (by simp)).1
        rw [votersOf, List.flatMap_cons, List.length_append]
        have := List.length_pos_of_ne_nil hb
        omega
      have hopen : (voted ++ a.voters).length + 1 ≠ start.playerOrder.length := by omega
      exact ih (h.stays ha hnodup' hopen hstored hok) hrest hvoters
        (fun b hb => hfollows b (List.mem_cons_of_mem _ hb))

end Balloting

/-! ### The same outcome -/

/-- The same record, but for the time the turn was created at. -/
structure SameRecord (t t' : Turn) : Prop where
  player : t'.player = t.player
  submittedWord : t'.submittedWord = t.submittedWord
  wasSubmittersWord : t'.wasSubmittersWord = t.wasSubmittersWord
  wasOthersWord : t'.wasOthersWord = t.wasOthersWord
  otherId : t'.otherId = t.otherId
  votes : ∀ uid, t'.votes.get? uid = t.votes.get? uid

theorem SameRecord.refl (t : Turn) : SameRecord t t := ⟨rfl, rfl, rfl, rfl, rfl, fun _ => rfl⟩

/-- The same records of all turns, the next one's player among them, the same scores, status
    and counter. -/
structure SameOutcome (lobby lobby' : Lobby) : Prop where
  turns : List.Forall₂ SameRecord lobby.turns lobby'.turns
  scores : ∀ uid, scoreOf lobby'.players uid = scoreOf lobby.players uid
  status : lobby'.status = lobby.status
  votesTallied : lobby'.votesTallied = lobby.votesTallied

theorem SameOutcome.refl (lobby : Lobby) : SameOutcome lobby lobby :=
  ⟨List.forall₂_same.mpr (fun t _ => .refl t), fun _ => rfl, rfl, rfl⟩

/-- **The choice decides the outcome.** -/
theorem Decided.same {start : Lobby} {t : Turn} {choice : Uid → Bool} {tallied : ℕ}
    {lobby lobby' : Lobby} (h : Decided start t choice tallied lobby)
    (h' : Decided start t choice tallied lobby') : SameOutcome lobby lobby' := by
  obtain ⟨votes, bank, created, hballots, hbank, hscored, hturns⟩ := h.record
  obtain ⟨votes', bank', created', hballots', hbank', hscored', hturns'⟩ := h'.record
  obtain rfl : bank = bank' := Option.some.inj (hbank.symm.trans hbank')
  refine ⟨?_, ?_, h'.status.trans h.status.symm, h'.counter.trans h.counter.symm⟩
  · rw [hturns, hturns']
    apply List.rel_append
    · apply List.rel_append
      · exact List.forall₂_same.mpr (fun u _ => .refl u)
      · refine .cons ⟨rfl, rfl, rfl, rfl, rfl, fun uid => ?_⟩ .nil
        exact (hballots' uid).trans (hballots uid).symm
    · -- the next turns differ in their time only
      rw [List.forall₂_map_left_iff, List.forall₂_map_right_iff]
      exact List.forall₂_same.mpr (fun u _ => ⟨rfl, rfl, rfl, rfl, rfl, fun _ => rfl⟩)
  · intro uid
    rw [hscored.score, hscored'.score]
    congr 1
    have hperm : (t.tally votes' bank).votes.entries.Perm (t.tally votes bank).votes.entries :=
      hballots.entries_perm hballots'
    exact turnDelta_congr hperm rfl rfl rfl rfl uid

/-- A vote under way has a counter. -/
theorem counter_of_voting {lobbyId : LobbyId} {G : Room → RoomInput → Prop} {room : Room}
    (h : Room.Reachable lobbyId G room) (hstatus : room.lobby.status = .voting) :
    ∃ tallied, room.lobby.votesTallied = some tallied := by
  have hphase : Phase (fun _ room => room.lobby.status = .voting →
      room.lobby.votesTallied ≠ none) room := by
    refine h.phase ?_ ?_
    · intro room now settings next hun hdealt hvoting
      obtain ⟨firstPlayer, created, hfresh⟩ := hdealt.fresh hun
      rw [hfresh.status] at hvoting
      cases hvoting
    · intro settings room i room' hs hcounter _ hstep
      refine hstep.move_induction (P := fun lobby => lobby.status = .voting →
        lobby.votesTallied ≠ none) hs.started ?_ ?_ ?_ (fun _ => id) (fun _ => id) (fun _ => id)
        hcounter
      · intro now word next hplayed _
        rw [hplayed.counter]
        exact Option.some_ne_none 0
      · intro now votes tallied next hcast _
        rw [hcast.counter]
        exact Option.some_ne_none tallied
      · intro now playerId next hrolled
        obtain ⟨_, _, _, _, _, _, _, _, _⟩ := hrolled
        exact hcounter
  obtain ⟨_, _, hcounter⟩ := hphase.game (by rw [hstatus]; simp)
  exact Option.ne_none_iff_exists'.mp (hcounter hstatus)

/-- **Vote order and batching do not matter.**  From every state in which a vote has just begun,
    any two schedules of one choice, in whatever order and with the votes of bots single or in
    batches, are accepted throughout and lead to the same outcome. -/
theorem votes_commute {lobbyId : LobbyId} {room : Room}
    (h : Room.Reachable lobbyId PlayersOnly room) (hstatus : room.lobby.status = .voting)
    (hempty : room.lobby.votes = ∅) {done : List Turn} {t : Turn}
    (hturns : room.lobby.turns = done ++ [t]) {choice : Uid → Bool}
    {arrivals arrivals' : List (ℕ × Arrival)}
    (hcomplete : CompleteSchedule room.lobby t.player choice arrivals)
    (hcomplete' : CompleteSchedule room.lobby t.player choice arrivals') :
    ∃ lobby lobby', arrive lobbyId room.lobby arrivals = .ok lobby ∧
      arrive lobbyId room.lobby arrivals' = .ok lobby' ∧ SameOutcome lobby lobby' := by
  obtain ⟨settings, hs, hfair⟩ := (fair_of_reachable h).game (by rw [hstatus]; simp)
  obtain ⟨tallied, htallied⟩ := counter_of_voting h hstatus
  have hquorum := hs.length_electorate (t := t) (by rw [hturns]; simp)
  have hopen : ¬ t.Resolved := by
    rw [hfair.current done t hturns, hstatus]
    simp
  have hword : t.wasOthersWord = false := by
    by_contra hothers
    exact hopen (Or.inl (Bool.not_eq_false _ ▸ hothers))
  have hstart : Balloting settings room.lobby choice tallied [] room.lobby := by
    refine ⟨hs, .refl _, hstatus, rfl, rfl, rfl, htallied, fun uid => ?_⟩
    rw [hempty]
    simp
  by_cases hnobody : room.lobby.electorate t.player = []
  · -- nobody votes, so nothing arrives
    have hnone : ∀ as, CompleteSchedule room.lobby t.player choice as → as = [] := by
      intro as has
      by_contra hne
      obtain ⟨a, rest, rfl⟩ := List.exists_cons_of_ne_nil hne
      have hvoters := has.voters
      rw [hnobody, List.perm_nil, votersOf, List.flatMap_cons, List.append_eq_nil_iff] at hvoters
      exact (has.follows a List.mem_cons_self).1 hvoters.1
    rw [hnone _ hcomplete, hnone _ hcomplete']
    exact ⟨_, _, rfl, rfl, .refl _⟩
  · have hsome : ∀ as, CompleteSchedule room.lobby t.player choice as → as ≠ [] := by
      rintro _ has rfl
      exact hnobody has.voters.symm.eq_nil
    obtain ⟨lobby, hrun, hdecided⟩ := hstart.arrive_decides (hsome _ hcomplete) hturns hword
      hcomplete.voters hcomplete.follows hquorum hfair.stored lobbyId
    obtain ⟨lobby', hrun', hdecided'⟩ := hstart.arrive_decides (hsome _ hcomplete') hturns hword
      hcomplete'.voters hcomplete'.follows hquorum hfair.stored lobbyId
    exact ⟨lobby, lobby', hrun, hrun', hdecided.same hdecided'⟩

/-- The word of `ben` waits for the votes of `ann` and `bot1`. -/
def sampleOpenVote : Room :=
  sampleRoom (sampleStart ["ben"] 1 sampleSettings ++ [.call 1 (.submitWord "ben" (.str "zebra"))])

/-- The challenge of `ann`, and the pass of `bot1` in its batch. -/
def sampleArrivals : List (ℕ × Arrival) :=
  [(2, .vote "ann" true), (3, .batch ["bot1"] false Draw.zero)]

/-- The pass of `bot1` as a vote of its own, and the challenge of `ann`. -/
def sampleArrivals' : List (ℕ × Arrival) := [(4, .vote "bot1" false), (5, .vote "ann" true)]

theorem votes_commute_sample :
    ∃ lobby lobby', arrive "L" sampleOpenVote.lobby sampleArrivals = .ok lobby ∧
      arrive "L" sampleOpenVote.lobby sampleArrivals' = .ok lobby' ∧ SameOutcome lobby lobby' := by
  have hplayers : sampleOpenVote.lobby.turns.map Turn.player = ["ben"] := by decide +kernel
  obtain ⟨t, hturn, hplayer⟩ := List.map_eq_singleton_iff.mp hplayers
  have hreach : Room.Reachable "L" PlayersOnly sampleOpenVote :=
    sampleRoom_reachable (by decide +kernel)
  have hvotes : sampleOpenVote.lobby.votes.keys = [] := by decide +kernel
  have helectorate : sampleOpenVote.lobby.electorate "ben" = ["ann", "bot1"] := by decide +kernel
  have hempty : sampleOpenVote.lobby.votes = ∅ := Dict.eq_empty_of_keys hvotes
  have hturns : sampleOpenVote.lobby.turns = [] ++ [t] := by rw [hturn, List.nil_append]
  have hcomplete : CompleteSchedule sampleOpenVote.lobby t.player (fun uid => uid = "ann")
      sampleArrivals := by
    refine ⟨?_, ?_⟩
    · rw [hplayer, helectorate]
      exact List.Perm.refl _
    · intro a ha
      simp only [sampleArrivals, List.mem_cons, List.not_mem_nil, or_false] at ha
      rcases ha with rfl | rfl
      · exact ⟨by decide, by simp [Arrival.voters, Arrival.cast]⟩
      · refine ⟨by decide, fun uid huid => ?_⟩
        obtain rfl := List.mem_singleton.mp huid
        have hchosen : ["bot1"].getD (Draw.zero.index ["bot1"].length) "undefined" = "bot1" := by
          decide +kernel
        show (castBotVotes ∅ ["bot1"] false Draw.zero).get? "bot1" = some (.bool false)
        unfold castBotVotes
        rw [hchosen, Dict.get?_set_self]
  have hcomplete' : CompleteSchedule sampleOpenVote.lobby t.player (fun uid => uid = "ann")
      sampleArrivals' := by
    refine ⟨?_, ?_⟩
    · rw [hplayer, helectorate]
      exact List.Perm.swap _ _ _
    · intro a ha
      simp only [sampleArrivals', List.mem_cons, List.not_mem_nil, or_false] at ha
      rcases ha with rfl | rfl
      · exact ⟨by decide, by simp [Arrival.voters, Arrival.cast]⟩
      · exact ⟨by decide, by simp [Arrival.voters, Arrival.cast]⟩
  exact votes_commute hreach (by decide +kernel) hempty hturns hcomplete hcomplete'

end PasswordApp
