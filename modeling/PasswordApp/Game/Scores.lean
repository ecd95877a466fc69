import PasswordApp.Game.Ballots

namespace PasswordApp

/-!
# Game — scores are a replay of the turn log

`ruleDelta` states the rules on the public record of a turn.  While only players vote, the
mutations of `scoreTurn` are these deltas (`turnDelta_eq_ruleDelta`), each turn is paid when
it is resolved and never else, and so a score is the replay of the log less one point an
exchange (`scores_replay`).
-/

/-! ### The rules -/

/-- What the record of a turn is worth to `uid`: another player's word pays its owner; a
    challenge pays the challenger for the submitter's own word and costs both otherwise; an
    unchallenged word of the submitter's own pays the submitter. -/
def ruleDelta (turn : Turn) (uid : Uid) : ℤ :=
  let challengers := (turn.votes.entries.filter (fun ballot => ballot.2.isTrue)).map Prod.fst
  if turn.wasOthersWord = true then
    if turn.otherId = some uid then 2 else 0
  else if challengers = [] then
    if turn.wasSubmittersWord = some true ∧ uid = turn.player then 2 else 0
  else
    (challengers.map (fun challenger =>
      (if uid = challenger then (if turn.wasSubmittersWord = some true then 2 else -1) else 0) +
      (if uid = turn.player then -1 else 0))).sum

theorem Json.truthy_of_isBool {v : Json} (h : v.isBool = true) : v.truthy = v.isTrue := by
  obtain ⟨b, rfl⟩ := Json.isBool_iff.mp h
  cases b <;> rfl

/-- The mutations of the loop add up over the challengers. -/
theorem sum_voteDelta (turn : Turn) (uid : Uid) (ballots : List (Uid × Json)) :
    (ballots.map (voteDelta turn uid)).sum =
      (((ballots.filter (fun ballot => ballot.2.truthy)).map Prod.fst).map
        (fun challenger => challengeDelta turn challenger uid)).sum := by
  induction ballots with
  | nil => rfl
  | cons ballot ballots ih =>
    rw [List.map_cons, List.sum_cons, ih, List.filter_cons, voteDelta]
    by_cases h : ballot.2.truthy = true
    · rw [if_pos h, if_pos h, List.map_cons, List.map_cons, List.sum_cons]
    · rw [if_neg h, if_neg h, zero_add]

/-- **`scoreTurn` follows the rules** on boolean ballots. -/
theorem turnDelta_eq_ruleDelta {turn : Turn}
    (h : turn.wasOthersWord = true ∨ ∀ uid v, turn.votes.get? uid = some v → v.isBool = true)
    (uid : Uid) : turnDelta turn uid = ruleDelta turn uid := by
  unfold turnDelta ruleDelta
  by_cases hothers : turn.wasOthersWord = true
  · rw [if_pos hothers]
    simp only [hothers, if_true]
  · have hbool := h.resolve_left hothers
    -- among booleans the truthy ballots are the challenges
    have hfilter : turn.votes.entries.filter (fun ballot => ballot.2.truthy)
        = turn.votes.entries.filter (fun ballot => ballot.2.isTrue) := by
      apply List.filter_congr
      intro ballot hmem
      exact Json.truthy_of_isBool (hbool ballot.1 ballot.2 (Dict.get?_eq_some_iff.mpr hmem))
    have hnone : turn.unchallenged = true ↔
        (turn.votes.entries.filter (fun ballot => ballot.2.isTrue)).map Prod.fst = [] := by
      rw [← hfilter, List.map_eq_nil_iff, List.filter_eq_nil_iff, Turn.unchallenged]
      simp
    rw [if_neg hothers, if_neg hothers, sum_voteDelta, hfilter]
    -- unchallenged, the bonus of the submitter is all there is
    by_cases hempty : (turn.votes.entries.filter (fun ballot => ballot.2.isTrue)).map Prod.fst = []
    · rw [if_pos hempty, hempty, hnone.mpr hempty]
      simp
    · have hchallenged : turn.unchallenged = false := by
        rw [← Bool.not_eq_true, hnone]
        exact hempty
      rw [if_neg hempty, hchallenged]
      simp [challengeDelta]

/-! ### The replay -/

/-- What the log of a lobby is worth to `uid`. -/
def Lobby.replay (lobby : Lobby) (uid : Uid) : ℤ := (lobby.resolvedTurns.map (ruleDelta · uid)).sum

/-- The turns a fair step pays are recorded as they were paid. -/
theorem Fair.recorded {room : Room} {i : RoomInput} (h : Fair room) (hP : PlayersOnly room i)
    {t' : Turn} (ht' : (t'.wasOthersWord = true ∧ t'.stored = t') ∨
      ∃ votes left done t, CastsVotes room i votes left ∧ room.lobby.status = .voting ∧
        room.lobby.turns = done ++ [t] ∧ t'.votes = votes) :
    t'.stored = t' ∧ ∀ uid, turnDelta t' uid = ruleDelta t' uid := by
  rcases ht' with ⟨hothers, hstored⟩ | ⟨votes, left, done, t, hby, hstatus, hturns, hvotes⟩
  · exact ⟨hstored, turnDelta_eq_ruleDelta (Or.inl hothers)⟩
  · have hballots := hby.ballots h hP hstatus hturns
    rw [← hvotes] at hballots
    refine ⟨?_, turnDelta_eq_ruleDelta (Or.inr ?_)⟩
    · rw [Turn.stored, hballots.stored]
    · intro uid v hget
      exact (hballots uid v hget).2

/-- **One step**: the log grows by what is paid, so only exchanges open the gap between the
    replay and the score. -/
theorem replay_step {lobbyId : LobbyId} {room : Room} {i : RoomInput}
    (h : Room.Reachable lobbyId PlayersOnly room) (hP : PlayersOnly room i) (uid : Uid) :
    (room.step lobbyId i).lobby.replay uid - scoreOf (room.step lobbyId i).lobby.players uid
      = room.lobby.replay uid - scoreOf room.lobby.players uid + room.exchange lobbyId uid i := by
  have hstep := Room.step_cases lobbyId room i
  -- what the log gains is worth, by the rules, what was paid
  have hnews : ∃ news, Extends lobbyId room i (room.step lobbyId i) news ∧
      ((news.map Turn.stored).map (ruleDelta · uid)).sum = (news.map (turnDelta · uid)).sum := by
    cases fair_of_reachable h with
    | unstarted hun => exact ⟨[], hun.extends hstep, rfl⟩
    | started settings hs hfair =>
      have hgame := hfair.toTidy.gameStep hs (hfair.orderly hs hP) hstep
      obtain ⟨news, _, hext, hsource⟩ := hgame.ledger hfair.toTidy hs
      refine ⟨news, hext, ?_⟩
      rw [List.map_map]
      congr 1
      apply List.map_congr_left
      intro t' ht'
      obtain ⟨hstored, hdelta⟩ := hfair.recorded hP (hsource t' ht')
      rw [Function.comp_apply, hstored, hdelta]
  obtain ⟨news, hext, hsum⟩ := hnews
  have hpaid := hext.paid uid
  -- so the replay moves like the score, up to the charge
  have hreplay : (room.step lobbyId i).lobby.replay uid
      = room.lobby.replay uid + (news.map (turnDelta · uid)).sum := by
    rw [Lobby.replay, hext.log, List.map_append, List.sum_append, hsum]
    rfl
  rw [hreplay, hpaid]
  omega

/-- The number of exchanges of `uid` a run accepts. -/
def exchangeCount (lobbyId : LobbyId) (uid : Uid) (room : Room) (inputs : List RoomInput) : ℤ :=
  (roomMachine lobbyId).tally (fun room i => room.exchange lobbyId uid i) room inputs

/-- **Scores are a replay of the turn log.**  After every run in which only players vote, the
    score of a player is the sum of the rule deltas of the resolved turns, less the number of
    the player's accepted exchanges of words. -/
theorem scores_replay {lobbyId : LobbyId} {hostId : Uid} {inputs : List RoomInput}
    (h : (roomMachine lobbyId).Admissible PlayersOnly (Room.initial hostId) inputs) {uid : Uid}
    {player : Player}
    (hplayer : ((roomMachine lobbyId).run (Room.initial hostId) inputs).lobby.players.get? uid
      = some player) :
    player.score =
      (((roomMachine lobbyId).run (Room.initial hostId) inputs).lobby.resolvedTurns.map
        (ruleDelta · uid)).sum
      - exchangeCount lobbyId uid (Room.initial hostId) inputs := by
  have haccount := Machine.run_accounting (m := roomMachine lobbyId)
    (I := Room.Reachable lobbyId PlayersOnly)
    (f := fun room => room.lobby.replay uid - scoreOf room.lobby.players uid)
    (w := fun room i => room.exchange lobbyId uid i)
    (fun room i hreach hP => hreach.trans (room.reaches_step hP))
    (fun room i hreach hP => replay_step hreach hP uid) ⟨hostId, .refl _⟩ h
  have hscore : scoreOf ((roomMachine lobbyId).run (Room.initial hostId) inputs).lobby.players uid
      = player.score := by
    rw [scoreOf, hplayer]; rfl
  have hstart : (Room.initial hostId).lobby.replay uid
      - scoreOf (Room.initial hostId).lobby.players uid = 0 := rfl
  simp only [hscore, hstart] at haccount
  rw [exchangeCount, ← Lobby.replay]
  omega

/-- `ben` bluffs, `ann` challenges and then exchanges her words. -/
def sampleChallenge : List RoomInput :=
  sampleStart ["ben"] 0 sampleSettings ++
  [.call 1 (.submitWord "ben" (.str "zebra")),
   .call 2 (.voteOnWord "ann" (.bool true)),
   .call 3 (.requestNewWords "ann" zeroDraws)]

theorem scores_replay_sample :
    ∃ player, (sampleRoom sampleChallenge).lobby.players.get? "ann" = some player ∧
      player.score = -2 ∧
      player.score = ((sampleRoom sampleChallenge).lobby.resolvedTurns.map (ruleDelta · "ann")).sum
        - exchangeCount "L" "ann" (Room.initial "ann") sampleChallenge := by
  have hscore : ((sampleRoom sampleChallenge).lobby.players.get? "ann").map Player.score
      = some (-2) := by
    decide +kernel
  obtain ⟨player, hplayer, hscore⟩ := Option.map_eq_some_iff.mp hscore
  have hadm : (roomMachine "L").Admissible PlayersOnly (Room.initial "ann") sampleChallenge := by
    decide +kernel
  unfold sampleRoom at hplayer ⊢
  exact ⟨player, hplayer, hscore, scores_replay hadm hplayer⟩

end PasswordApp
