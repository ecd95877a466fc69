import PasswordApp.Game.Rulebook
import PasswordApp.Game.Scores

namespace PasswordApp

/-!
# Game — what a player can win and lose

A turn pays anyone at most two points.  It costs the player on turn at most a point for each of
the others, and everyone else at most one.

* `ruleDelta_le`, `Fair.le_ruleDelta` — the bounds for a turn of a fair game;
* `score_bounds` — and for a whole game, in which everyone is on turn once a round.
-/

open Rulebook

/-- The users who challenged the word of a turn. -/
def Turn.challengers (t : Turn) : List Uid :=
  (t.votes.entries.filter (fun ballot => ballot.2.isTrue)).map Prod.fst

theorem Turn.challengers_nodup (t : Turn) : t.challengers.Nodup :=
  t.votes.nodup.sublist (List.filter_sublist.map Prod.fst)

theorem Turn.challengers_subset (t : Turn) : t.challengers ⊆ t.votes.keys := by
  intro uid huid
  obtain ⟨ballot, hmem, rfl⟩ := List.mem_map.mp huid
  exact List.mem_map.mpr ⟨ballot, (List.mem_filter.mp hmem).1, rfl⟩

theorem ruleDelta_of_unchallenged {t : Turn} (hothers : t.wasOthersWord ≠ true)
    (hnone : t.challengers = []) (uid : Uid) :
    ruleDelta t uid = if t.wasSubmittersWord = some true ∧ uid = t.player then 2 else 0 := by
  have hnone : (t.votes.entries.filter (fun ballot => ballot.2.isTrue)).map Prod.fst = [] := hnone
  unfold ruleDelta
  rw [if_neg hothers, if_pos hnone]

/-- The rules, with the challenges added up. -/
theorem ruleDelta_of_challenged {t : Turn} (hothers : t.wasOthersWord ≠ true)
    (hsome : t.challengers ≠ []) (uid : Uid) :
    ruleDelta t uid =
      (if uid ∈ t.challengers then (if t.wasSubmittersWord = some true then 2 else -1) else 0) -
      (if uid = t.player then (t.challengers.length : ℤ) else 0) := by
  have hsome : (t.votes.entries.filter (fun ballot => ballot.2.isTrue)).map Prod.fst ≠ [] := hsome
  have hsum := sum_challenges (if t.wasSubmittersWord = some true then 2 else -1)
    t.challengers_nodup t.player uid
  unfold ruleDelta
  rw [if_neg hothers, if_neg hsome]
  exact hsum

/-- **A turn brings at most two points.** -/
theorem ruleDelta_le (t : Turn) (uid : Uid) : ruleDelta t uid ≤ 2 := by
  by_cases hothers : t.wasOthersWord = true
  · simp only [ruleDelta, hothers, if_true]
    split <;> omega
  · by_cases hnone : t.challengers = []
    · rw [ruleDelta_of_unchallenged hothers hnone]
      split <;> omega
    · rw [ruleDelta_of_challenged hothers hnone]
      have hlen : (0 : ℤ) ≤ t.challengers.length := Int.natCast_nonneg _
      split <;> split <;> (try split) <;> omega

/-- What a turn of a fair game can cost. -/
theorem Fair.le_ruleDelta {settings : Settings} {room : Room} (h : Fair room)
    (hs : Scheduled settings room.lobby) {t : Turn} (ht : t ∈ room.lobby.resolvedTurns)
    (uid : Uid) :
    (if uid = t.player then -((room.lobby.playerOrder.length : ℤ) - 1) else -1)
      ≤ ruleDelta t uid := by
  obtain ⟨hturn, hresolved⟩ := List.mem_filter.mp ht
  have helectorate := hs.length_electorate hturn
  by_cases hothers : t.wasOthersWord = true
  · simp only [ruleDelta, hothers, if_true]
    split <;> split <;> omega
  · by_cases hnone : t.challengers = []
    · rw [ruleDelta_of_unchallenged hothers hnone]
      split <;> split <;> omega
    · rw [ruleDelta_of_challenged hothers hnone]
      -- the challengers are of the electorate
      have hword : t.wasSubmittersWord ≠ none := by
        rcases (by simpa using hresolved : t.Resolved) with hstolen | hword
        · exact absurd hstolen hothers
        · exact hword
      have hsub : t.challengers ⊆ room.lobby.electorate t.player :=
        fun u hu => (h.tallied t hturn hword u).mp (t.challengers_subset hu)
      have hle := (List.subperm_of_subset t.challengers_nodup hsub).length_le
      by_cases huid : uid = t.player
      · have hout : uid ∉ t.challengers :=
          fun hin => (mem_electorate.mp (hsub hin)).1 huid
        rw [if_pos huid, if_pos huid, if_neg hout]
        omega
      · rw [if_neg huid, if_neg huid]
        split <;> (try split) <;> omega

/-! ### A whole game -/

/-- The turns `uid` was on turn cost more than the others. -/
theorem sum_stakes (turns : List Turn) (uid : Uid) (stake : ℤ) :
    (turns.map (fun t => if uid = t.player then -stake else -1)).sum
      = -(stake - 1) * ((turns.map Turn.player).count uid) - turns.length := by
  induction turns with
  | nil => simp
  | cons t turns ih =>
    rw [List.map_cons, List.sum_cons, ih, List.map_cons, List.count_cons, List.length_cons]
    by_cases h : uid = t.player
    · rw [if_pos h, h, beq_self_eq_true, if_pos rfl]
      push_cast
      ring
    · rw [if_neg h, if_neg (by simpa using Ne.symm h)]
      push_cast
      ring

/-- The log of a fair game is worth at most two points a turn, and costs a player at most a point
    for each of the others twice a round. -/
theorem Fair.replay_bounds {settings : Settings} {room : Room} (h : Fair room)
    (hs : Scheduled settings room.lobby) {uid : Uid} (huid : uid ∈ room.lobby.players.keys) :
    -(2 * settings.numRounds * ((room.lobby.players.size : ℤ) - 1)) ≤ room.lobby.replay uid ∧
      room.lobby.replay uid ≤ 2 * room.lobby.resolvedTurns.length := by
  have hsize : room.lobby.playerOrder.length = room.lobby.players.size := hs.order_perm.length_eq
  have hsub : List.Sublist room.lobby.resolvedTurns room.lobby.turns := List.filter_sublist
  refine ⟨?_, ?_⟩
  · have hcount : (room.lobby.resolvedTurns.map Turn.player).count uid ≤ settings.numRounds :=
      le_trans ((hsub.map Turn.player).count_le uid) (hs.roundRobin.count_le
        (by rw [Scheduled.length_turnPlayers]; exact hs.turns_le) hs.order_nodup uid)
    have hlen : room.lobby.resolvedTurns.length ≤ settings.numRounds * room.lobby.players.size := by
      rw [← hsize]
      exact le_trans hsub.length_le hs.turns_le
    have hle := List.sum_le_sum (fun t ht => h.le_ruleDelta hs ht uid)
    rw [sum_stakes, hsize] at hle
    have hreplay : -((room.lobby.players.size : ℤ) - 1 - 1)
        * ((room.lobby.resolvedTurns.map Turn.player).count uid)
        - room.lobby.resolvedTurns.length ≤ room.lobby.replay uid := hle
    rcases Nat.lt_or_ge room.lobby.players.size 2 with hone | htwo
    · -- alone, one is on turn all the time
      obtain ⟨only, honly⟩ : ∃ only, room.lobby.players.keys = [only] :=
        List.length_eq_one_iff.mp (Nat.le_antisymm (Nat.le_of_lt_succ hone)
          (List.length_pos_of_mem huid))
      have hsizeone : room.lobby.players.size = 1 := by rw [Dict.size, honly]; rfl
      have hall : (room.lobby.resolvedTurns.map Turn.player).count uid
          = room.lobby.resolvedTurns.length := by
        rw [List.count_eq_length.mpr, List.length_map]
        intro player hplayer
        obtain ⟨t, ht, rfl⟩ := List.mem_map.mp hplayer
        have hmem := hs.player_mem (hsub.subset ht)
        rw [honly, List.mem_singleton] at huid hmem
        rw [huid, hmem]
      rw [hsizeone, hall] at hreplay
      rw [hsizeone]
      push_cast at hreplay ⊢
      linarith
    · have hgap : (0 : ℤ) ≤ ((room.lobby.players.size : ℤ) - 2) * ((settings.numRounds : ℤ)
          - ((room.lobby.resolvedTurns.map Turn.player).count uid : ℤ)) :=
        mul_nonneg (by omega) (by omega)
      have hturns : (room.lobby.resolvedTurns.length : ℤ)
          ≤ settings.numRounds * room.lobby.players.size := by exact_mod_cast hlen
      linarith
  · have hle := List.sum_le_card_nsmul (room.lobby.resolvedTurns.map (ruleDelta · uid)) 2 (by
      intro x hx
      obtain ⟨t, _, rfl⟩ := List.mem_map.mp hx
      exact ruleDelta_le t uid)
    rw [List.length_map, nsmul_eq_mul] at hle
    rw [Lobby.replay]
    linarith

/-- Scores are what the log is worth, less the exchanges. -/
theorem replay_eq_score {lobbyId : LobbyId} {hostId : Uid} {inputs : List RoomInput}
    (h : (roomMachine lobbyId).Admissible PlayersOnly (Room.initial hostId) inputs) (uid : Uid) :
    ((roomMachine lobbyId).run (Room.initial hostId) inputs).lobby.replay uid
      - scoreOf ((roomMachine lobbyId).run (Room.initial hostId) inputs).lobby.players uid
      = exchangeCount lobbyId uid (Room.initial hostId) inputs := by
  have haccount := Machine.run_accounting (m := roomMachine lobbyId)
    (I := Room.Reachable lobbyId PlayersOnly)
    (f := fun room => room.lobby.replay uid - scoreOf room.lobby.players uid)
    (w := fun room i => room.exchange lobbyId uid i)
    (fun room i hreach hP => hreach.trans (room.reaches_step hP))
    (fun room i hreach hP => replay_step hreach hP uid) ⟨hostId, .refl _⟩ h
  have hstart : (Room.initial hostId).lobby.replay uid
      - scoreOf (Room.initial hostId).lobby.players uid = 0 := rfl
  rw [haccount, hstart, zero_add]
  rfl

/-- **Score bounds.**  After every run in which only players vote, the score of each of `n` players
    and the exchanges it has paid for are together at most two points a finished turn, and at least
    `-2 * numRounds * (n - 1)`. -/
theorem score_bounds {lobbyId : LobbyId} {hostId : Uid} {inputs : List RoomInput}
    (h : (roomMachine lobbyId).Admissible PlayersOnly (Room.initial hostId) inputs)
    {settings : Settings}
    (hsettings : ((roomMachine lobbyId).run (Room.initial hostId) inputs).lobby.settings
      = some settings) {uid : Uid} {player : Player}
    (hplayer : ((roomMachine lobbyId).run (Room.initial hostId) inputs).lobby.players.get? uid
      = some player) :
    -(2 * settings.numRounds
        * ((((roomMachine lobbyId).run (Room.initial hostId) inputs).lobby.players.size : ℤ) - 1))
      ≤ player.score + exchangeCount lobbyId uid (Room.initial hostId) inputs ∧
    player.score + exchangeCount lobbyId uid (Room.initial hostId) inputs
      ≤ 2 * ((roomMachine lobbyId).run (Room.initial hostId) inputs).lobby.resolvedTurns.length := by
  have hreplay := replay_eq_score h uid
  have hscore : scoreOf ((roomMachine lobbyId).run (Room.initial hostId) inputs).lobby.players uid
      = player.score := by
    rw [scoreOf, hplayer]; rfl
  rw [hscore] at hreplay
  have hsum : player.score + exchangeCount lobbyId uid (Room.initial hostId) inputs
      = ((roomMachine lobbyId).run (Room.initial hostId) inputs).lobby.replay uid := by omega
  rw [hsum]
  have hreach : Room.Reachable lobbyId PlayersOnly
      ((roomMachine lobbyId).run (Room.initial hostId) inputs) := ⟨hostId, inputs, h, rfl⟩
  cases fair_of_reachable hreach with
  | started settings' hs hfair =>
    obtain rfl := Option.some.inj (hsettings.symm.trans hs.settings_eq)
    exact hfair.replay_bounds hs (Dict.mem_keys_of_get? hplayer)
  | unstarted hun =>
    have hempty := resolvedTurns_nil hun.turns
    have hpos : 0 < ((roomMachine lobbyId).run (Room.initial hostId) inputs).lobby.players.size :=
      List.length_pos_of_mem (Dict.mem_keys_of_get? hplayer)
    rw [Lobby.replay, hempty]
    refine ⟨?_, le_refl 0⟩
    have hnonneg : (0 : ℤ) ≤ 2 * settings.numRounds
        * ((((roomMachine lobbyId).run (Room.initial hostId) inputs).lobby.players.size : ℤ) - 1) :=
      mul_nonneg (by omega) (by omega)
    rw [List.map_nil, List.sum_nil]
    omega

/-- `ann` is at `-2`: a lost challenge, and an exchange. -/
theorem score_bounds_sample :
    ∃ settings player, (sampleRoom sampleChallenge).lobby.settings = some settings ∧
      (sampleRoom sampleChallenge).lobby.players.get? "ann" = some player ∧
      -(2 * settings.numRounds * (((sampleRoom sampleChallenge).lobby.players.size : ℤ) - 1))
        ≤ player.score + exchangeCount "L" "ann" (Room.initial "ann") sampleChallenge := by
  have hsome : (sampleRoom sampleChallenge).lobby.settings.isSome = true ∧
      ((sampleRoom sampleChallenge).lobby.players.get? "ann").isSome = true := by
    decide +kernel
  obtain ⟨settings, hsettings⟩ := Option.isSome_iff_exists.mp hsome.1
  obtain ⟨player, hplayer⟩ := Option.isSome_iff_exists.mp hsome.2
  have hadm : (roomMachine "L").Admissible PlayersOnly (Room.initial "ann") sampleChallenge := by
    decide +kernel
  unfold sampleRoom at hsettings hplayer ⊢
  exact ⟨settings, player, hsettings, hplayer, (score_bounds hadm hsettings hplayer).1⟩

end PasswordApp
