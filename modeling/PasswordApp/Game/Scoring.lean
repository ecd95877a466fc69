import Mathlib.Algebra.BigOperators.Group.List.Basic
import PasswordApp.Backend.GameLogic

namespace PasswordApp

/-!
# Game — what scoring a turn does

`scoreTurn` mutates scores one at a time while it walks the ballots.  `turnDelta` is the
sum of its mutations for one player, a function of the turn record alone:

* `scoreTurn_ok` — a turn that is scored moves every score by its `turnDelta` and keeps
  the roster;
* `scoreVotes_isOk`, `scoreTurn_isOk` — scoring throws exactly if a challenger is not in the roster
  (the submitter being there).
-/

/-! ### One mutation -/

/-- The score of a player, `0` outside the roster. -/
def scoreOf (players : Dict Uid Player) (uid : Uid) : ℤ :=
  ((players.get? uid).map Player.score).getD 0

theorem addScore_ok {players players' : Dict Uid Player} {uid : Uid} {points : ℤ}
    (h : addScore players uid points = .ok players') :
    uid ∈ players.keys ∧ players'.keys = players.keys ∧
      ∀ u, scoreOf players' u = scoreOf players u + if u = uid then points else 0 := by
  unfold addScore at h
  obtain ⟨player, hget, h⟩ := bind_eq_ok.mp h
  rw [orThrow_eq_ok] at hget
  obtain rfl := (Except.ok.inj h).symm
  have hmem : uid ∈ players.keys := Dict.mem_keys_of_get? hget
  refine ⟨hmem, Dict.keys_set_of_mem _ hmem, fun u => ?_⟩
  unfold scoreOf
  by_cases hu : u = uid
  · subst hu
    rw [Dict.get?_set_self, hget, if_pos rfl]; rfl
  · rw [Dict.get?_set_ne _ _ hu, if_neg hu, add_zero]

theorem addScore_isOk {players : Dict Uid Player} {uid : Uid} (points : ℤ)
    (h : uid ∈ players.keys) : ∃ players', addScore players uid points = .ok players' := by
  obtain ⟨player, hget⟩ := Dict.mem_keys_iff.mp h
  exact ⟨_, by rw [addScore, hget]; rfl⟩

/-! ### The loop over the ballots -/

/-- What a challenge of `challenger` adds to the score of `uid`. -/
def challengeDelta (turn : Turn) (challenger uid : Uid) : ℤ :=
  (if uid = challenger then (if turn.wasSubmittersWord = some true then 2 else -1) else 0) +
  (if uid = turn.player then -1 else 0)

/-- What one ballot adds to the score of `uid`. -/
def voteDelta (turn : Turn) (uid : Uid) (ballot : Uid × Json) : ℤ :=
  if ballot.2.truthy then challengeDelta turn ballot.1 uid else 0

theorem scoreVote_ok {turn : Turn} {players players' : Dict Uid Player} {ballot : Uid × Json}
    (h : scoreVote turn players ballot = .ok players') :
    (ballot.2.truthy = true → ballot.1 ∈ players.keys) ∧ players'.keys = players.keys ∧
      ∀ u, scoreOf players' u = scoreOf players u + voteDelta turn u ballot := by
  unfold scoreVote at h
  by_cases htruthy : ballot.2.truthy = true
  · simp only [htruthy, if_true] at h
    -- both branches add to the challenger, then take one from the submitter
    have hsplit : ∃ mid, addScore players ballot.1
          (if turn.wasSubmittersWord = some true then 2 else -1) = .ok mid ∧
        addScore mid turn.player (-1) = .ok players' := by
      split at h
      · rename_i hown
        rw [if_pos hown]; exact bind_eq_ok.mp h
      · rename_i hown
        rw [if_neg hown]; exact bind_eq_ok.mp h
    obtain ⟨mid, hchallenger, hplayer⟩ := hsplit
    obtain ⟨hmem, hkeys, hscore⟩ := addScore_ok hchallenger
    obtain ⟨_, hkeys', hscore'⟩ := addScore_ok hplayer
    refine ⟨fun _ => hmem, hkeys'.trans hkeys, fun u => ?_⟩
    rw [hscore', hscore, voteDelta, if_pos htruthy, challengeDelta, add_assoc]
  · simp only [htruthy] at h
    obtain rfl := (Except.ok.inj h).symm
    exact ⟨fun h => absurd h htruthy, rfl, fun u => by rw [voteDelta, if_neg htruthy, add_zero]⟩

theorem scoreVotes_ok {turn : Turn} {ballots : List (Uid × Json)}
    {players players' : Dict Uid Player}
    (h : ballots.foldlM (scoreVote turn) players = .ok players') :
    (∀ ballot ∈ ballots, ballot.2.truthy = true → ballot.1 ∈ players.keys) ∧
    players'.keys = players.keys ∧
      ∀ u, scoreOf players' u = scoreOf players u + (ballots.map (voteDelta turn u)).sum := by
  induction ballots generalizing players with
  | nil =>
    obtain rfl := (Except.ok.inj h).symm
    exact ⟨by simp, rfl, by simp⟩
  | cons ballot ballots ih =>
    rw [List.foldlM_cons] at h
    obtain ⟨mid, hfirst, hrest⟩ := bind_eq_ok.mp h
    obtain ⟨hmem, hkeys, hscore⟩ := scoreVote_ok hfirst
    obtain ⟨hmems, hkeys', hscore'⟩ := ih hrest
    refine ⟨?_, hkeys'.trans hkeys, fun u => ?_⟩
    · rw [List.forall_mem_cons]
      exact ⟨hmem, fun b hb => hkeys ▸ hmems b hb⟩
    · rw [hscore', hscore, List.map_cons, List.sum_cons, add_assoc]

theorem scoreVotes_isOk {turn : Turn} {ballots : List (Uid × Json)} {players : Dict Uid Player}
    (hplayer : turn.player ∈ players.keys)
    (h : ∀ ballot ∈ ballots, ballot.2.truthy = true → ballot.1 ∈ players.keys) :
    ∃ players', ballots.foldlM (scoreVote turn) players = .ok players' := by
  induction ballots generalizing players with
  | nil => exact ⟨players, rfl⟩
  | cons ballot ballots ih =>
    rw [List.forall_mem_cons] at h
    -- a challenge moves two scores, of the challenger and of the submitter, both seated
    have hfirst : ∃ mid, scoreVote turn players ballot = .ok mid := by
      by_cases htruthy : ballot.2.truthy = true
      · have hmem := h.1 htruthy
        obtain ⟨up, hup⟩ := addScore_isOk 2 hmem
        obtain ⟨down, hdown⟩ := addScore_isOk (-1) hmem
        obtain ⟨fin, hfin⟩ := addScore_isOk (-1)
          (show turn.player ∈ up.keys by rw [(addScore_ok hup).2.1]; exact hplayer)
        obtain ⟨fin', hfin'⟩ := addScore_isOk (-1)
          (show turn.player ∈ down.keys by rw [(addScore_ok hdown).2.1]; exact hplayer)
        by_cases hown : turn.wasSubmittersWord = some true
        · exact ⟨fin, by simp [scoreVote, htruthy, hown, hup, hfin]⟩
        · exact ⟨fin', by simp [scoreVote, htruthy, hown, hdown, hfin']⟩
      · exact ⟨players, by simp [scoreVote, htruthy]⟩
    obtain ⟨mid, hmid⟩ := hfirst
    have hkeys := (scoreVote_ok hmid).2.1
    -- scoring keeps the roster, so the rest of the loop works as well
    have hplayer' : turn.player ∈ mid.keys := by rw [hkeys]; exact hplayer
    obtain ⟨players', hrest⟩ := ih hplayer' (fun b hb => by rw [hkeys]; exact h.2 b hb)
    exact ⟨players', by rw [List.foldlM_cons, hmid]; exact hrest⟩

/-! ### A whole turn -/

/-- Did nobody challenge the turn? -/
def Turn.unchallenged (turn : Turn) : Bool :=
  !turn.votes.entries.any (fun ballot => ballot.2.truthy)

/-- What scoring `turn` adds to the score of `uid`. -/
def turnDelta (turn : Turn) (uid : Uid) : ℤ :=
  if turn.wasOthersWord then
    if turn.otherId = some uid then 2 else 0
  else
    (turn.votes.entries.map (voteDelta turn uid)).sum +
      if turn.unchallenged && turn.wasSubmittersWord = some true && uid = turn.player then 2 else 0

/-- `players'` is `players` after scoring `turn`: the same roster, every score moved by the
    turn's delta. -/
structure Scored (turn : Turn) (players players' : Dict Uid Player) : Prop where
  keys : players'.keys = players.keys
  score : ∀ uid, scoreOf players' uid = scoreOf players uid + turnDelta turn uid

/-- Scoring throws unless everyone it pays is seated. -/
def Turn.Payable (turn : Turn) (players : Dict Uid Player) : Prop :=
  if turn.wasOthersWord then ∃ otherId ∈ players.keys, turn.otherId = some otherId
  else ∀ ballot ∈ turn.votes.entries, ballot.2.truthy = true → ballot.1 ∈ players.keys

/-- **Scoring.**  A turn that is scored moves every score by its delta; only the players
    change. -/
theorem scoreTurn_ok {lobby lobby' : Lobby} {turn : Turn} (hturn : lobby.currTurn = .ok turn)
    (h : scoreTurn lobby = .ok lobby') :
    turn.Payable lobby.players ∧
    ∃ players', Scored turn lobby.players players' ∧
      lobby' = { lobby with players := players' } := by
  unfold scoreTurn at h
  rw [hturn, ok_bind] at h
  by_cases hothers : turn.wasOthersWord = true
  · simp only [hothers, if_true] at h
    obtain ⟨otherId, hother, h⟩ := bind_eq_ok.mp h
    obtain ⟨players', hadd, h⟩ := bind_eq_ok.mp h
    obtain rfl := (Except.ok.inj h).symm
    rw [orThrow_eq_ok] at hother
    obtain ⟨hmem, hkeys, hscore⟩ := addScore_ok hadd
    refine ⟨by rw [Turn.Payable, if_pos hothers]; exact ⟨otherId, hmem, hother⟩,
      players', ⟨hkeys, fun u => ?_⟩, rfl⟩
    rw [hscore, turnDelta, if_pos hothers, hother]
    simp only [Option.some.injEq, eq_comm]
  · simp only [hothers] at h
    obtain ⟨mid, hloop, h⟩ := bind_eq_ok.mp h
    obtain ⟨hmems, hkeys, hscore⟩ := scoreVotes_ok hloop
    refine ⟨by rw [Turn.Payable, if_neg hothers]; exact hmems, ?_⟩
    split at h
    · rename_i hbonus
      obtain ⟨players', hadd, h⟩ := bind_eq_ok.mp h
      obtain rfl := (Except.ok.inj h).symm
      obtain ⟨_, hkeys', hscore'⟩ := addScore_ok hadd
      refine ⟨players', ⟨hkeys'.trans hkeys, fun u => ?_⟩, rfl⟩
      -- the submitter's own word stood unchallenged
      have hbonus : turn.unchallenged = true ∧ turn.wasSubmittersWord = some true := by
        simpa [Turn.unchallenged] using hbonus
      rw [hscore', hscore, turnDelta, if_neg hothers, add_assoc]
      simp only [hbonus, Bool.true_and, decide_true, decide_eq_true_eq]
    · rename_i hbonus
      obtain rfl := (Except.ok.inj h).symm
      refine ⟨mid, ⟨hkeys, fun u => ?_⟩, rfl⟩
      have hbonus : (turn.unchallenged && decide (turn.wasSubmittersWord = some true)) = false := by
        simpa [Turn.unchallenged] using hbonus
      rw [hscore, turnDelta, if_neg hothers]
      simp only [hbonus, Bool.false_and, Bool.false_eq_true, if_false, add_zero]

theorem scoreTurn_isOk {lobby : Lobby} {turn : Turn} (hturn : lobby.currTurn = .ok turn)
    (hplayer : turn.player ∈ lobby.players.keys) (h : turn.Payable lobby.players) :
    ∃ lobby', scoreTurn lobby = .ok lobby' := by
  unfold scoreTurn
  rw [hturn, ok_bind]
  unfold Turn.Payable at h
  by_cases hothers : turn.wasOthersWord = true
  · rw [if_pos hothers] at h
    obtain ⟨otherId, hmem, hother⟩ := h
    obtain ⟨players', hadd⟩ := addScore_isOk 2 hmem
    exact ⟨{ lobby with players := players' }, by simp [hothers, hother, hadd]⟩
  · rw [if_neg hothers] at h
    obtain ⟨mid, hloop⟩ := scoreVotes_isOk hplayer h
    obtain ⟨players', hadd⟩ := addScore_isOk 2
      (show turn.player ∈ mid.keys by rw [(scoreVotes_ok hloop).2.1]; exact hplayer)
    simp only [hothers, hloop, ok_bind, Bool.false_eq_true, if_false]
    split
    · exact ⟨{ lobby with players := players' }, by rw [hadd]; rfl⟩
    · exact ⟨_, rfl⟩

end PasswordApp
