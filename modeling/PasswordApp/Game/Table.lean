import PasswordApp.Game.Phases
import PasswordApp.Game.Rulebook
import PasswordApp.Game.Scores
import PasswordApp.Game.Verdict
import PasswordApp.Library.Refinement

namespace PasswordApp

/-!
# Game — the lobby plays by the rules

What a lobby shows of its game is a table of the rulebook.

* `Lobby.table` — the table of a lobby;
* `turnDelta_eq_payoff` — `scoreTurn` pays what the rules say;
* `WordPlayed.advance`, `VotesCast.advance`, `Rerolled.move` — the moves of the callables and
  triggers;
* `refines_rulebook` — while only players vote, the room of a started game refines the rules;
* `plays_by_the_rules` — so its table is one a play of the rules leads to.
-/

open Rulebook

/-- The vote of a player, as the database keeps it. -/
def Votes.ballots (votes : Votes) (uid : Uid) : Option Bool :=
  (votes.stored.get? uid).map Json.truthy

/-- How a resolved turn ended. -/
def Turn.outcome (t : Turn) : Outcome Uid :=
  if t.wasOthersWord then .stolen (t.otherId.getD t.player)
  else .judged (t.wasSubmittersWord = some true) t.votes.ballots

/-- The table of a lobby. -/
def Lobby.table (lobby : Lobby) : Table Uid Json where
  log := lobby.resolvedTurns.map Turn.outcome
  play :=
    if lobby.status = .voting then lobby.currWord.map (fun word => (word, lobby.votes.ballots))
    else none
  hands uid := {word | HasWord lobby.targetWords uid word}
  scores := scoreOf lobby.players

/-! ### The database keeps the table -/

theorem ballots_stored (votes : Votes) : votes.stored.ballots = votes.ballots := by
  funext uid
  rw [Votes.ballots, Votes.ballots, Votes.stored_stored]

theorem ballots_of_bool {votes : Votes} (h : votes.All (fun _ v => v.isBool = true)) (uid : Uid) :
    votes.ballots uid = (votes.get? uid).map Json.truthy := by
  rw [Votes.ballots, h.stored]

theorem ballots_empty : (∅ : Votes).ballots = fun _ => none := rfl

@[simp] theorem outcome_stored (t : Turn) : t.stored.outcome = t.outcome := by
  unfold Turn.outcome
  rw [show t.stored.votes.ballots = t.votes.ballots from ballots_stored _]
  rfl

theorem table_stored (lobby : Lobby) : lobby.stored.table = lobby.table := by
  have hlog : lobby.stored.resolvedTurns.map Turn.outcome
      = lobby.resolvedTurns.map Turn.outcome := by
    rw [Lobby.resolvedTurns, Lobby.resolvedTurns, Lobby.stored, List.filter_map, List.map_map]
    exact List.map_congr_left (fun t _ => outcome_stored t)
  have hword : lobby.stored.currWord = lobby.currWord := by
    rw [Lobby.currWord, Lobby.currWord, Lobby.stored, List.getLast?_map]
    cases lobby.turns.getLast? <;> rfl
  simp only [Lobby.table, hlog, hword]
  congr 1
  show (if lobby.status = .voting then lobby.currWord.map (fun word =>
    (word, lobby.votes.stored.ballots)) else none) = _
  rw [ballots_stored]

/-! ### Scoring -/

/-- **`scoreTurn` pays what the rules say** for an outcome that can come about. -/
theorem turnDelta_eq_payoff {order : List Uid} (hnodup : order.Nodup) {t : Turn}
    (hstolen : t.wasOthersWord = true → t.otherId ≠ none)
    (hvotes : t.wasOthersWord = false → t.votes.All (fun uid v => uid ∈ order ∧ v.isBool = true))
    (uid : Uid) : turnDelta t uid = payoff order t.player t.outcome uid := by
  unfold turnDelta Turn.outcome
  by_cases hothers : t.wasOthersWord = true
  · obtain ⟨other, hother⟩ := Option.ne_none_iff_exists'.mp (hstolen hothers)
    rw [if_pos hothers, if_pos hothers, hother]
    simp only [payoff, Option.some.injEq, Option.getD_some, eq_comm]
  · have hcast := hvotes (by simpa using hothers)
    have hbool : t.votes.All (fun _ v => v.isBool = true) := fun u v hget => (hcast u v hget).2
    rw [if_neg hothers, if_neg hothers]
    -- the challenges in the ballot box are those of the order
    have hperm : ((t.votes.entries.filter (fun ballot => ballot.2.truthy)).map Prod.fst).Perm
        (challengers order t.votes.ballots) := by
      refine (List.perm_ext_iff_of_nodup ?_ (hnodup.filter _)).mpr (fun u => ?_)
      · exact (t.votes.nodup.sublist (List.filter_sublist.map Prod.fst))
      · rw [List.mem_filter, decide_eq_true_eq, ballots_of_bool hbool, Option.map_eq_some_iff,
          List.mem_map]
        constructor
        · rintro ⟨⟨u, v⟩, hmem, rfl⟩
          rw [List.mem_filter] at hmem
          have hget := Dict.get?_eq_some_iff.mpr hmem.1
          exact ⟨(hcast u v hget).1, v, hget, hmem.2⟩
        · rintro ⟨_, v, hget, htruthy⟩
          exact ⟨(u, v), List.mem_filter.mpr ⟨Dict.get?_eq_some_iff.mp hget, htruthy⟩, rfl⟩
    have hsum : (t.votes.entries.map (voteDelta t uid)).sum
        = (if uid ∈ challengers order t.votes.ballots then
            (if t.wasSubmittersWord = some true then 2 else -1) else 0) -
          (if uid = t.player then ((challengers order t.votes.ballots).length : ℤ) else 0) := by
      rw [sum_voteDelta, (hperm.map _).sum_eq]
      exact sum_challenges _ (hnodup.filter _) t.player uid
    have hnone : t.unchallenged = true ↔ challengers order t.votes.ballots = [] := by
      rw [← List.length_eq_zero_iff, ← hperm.length_eq, List.length_eq_zero_iff,
        List.map_eq_nil_iff, List.filter_eq_nil_iff, Turn.unchallenged]
      simp
    rw [hsum]
    simp only [payoff, decide_eq_true_eq]
    by_cases hempty : challengers order t.votes.ballots = []
    · rw [if_pos hempty, hempty, hnone.mpr hempty]
      simp
    · have hchallenged : t.unchallenged = false := by
        rw [← Bool.not_eq_true, hnone]
        exact hempty
      rw [if_neg hempty, hchallenged]
      simp

/-! ### The moves of the lobby -/

section Moves

variable {settings : Settings} {lobby next : Lobby} {done : List Turn} {t : Turn}

/-- The turn of a game in progress is due. -/
theorem Scheduled.due (h : Scheduled settings lobby) (hturns : lobby.turns = done ++ [t])
    (hopen : ¬ t.Resolved) :
    Due lobby.playerOrder settings.numRounds lobby.table t.player := by
  have hlog : lobby.table.log.length = done.length := by
    rw [Lobby.table, h.resolvedTurns_current hturns hopen, List.length_map]
  have hlen : lobby.turns.length = done.length + 1 := by rw [hturns]; simp
  refine ⟨?_, ?_⟩
  · have hle := h.turns_le
    omega
  · rw [hlog]
    refine h.roundRobin done.length t.player ?_
    rw [Lobby.turnPlayers, hturns]
    simp

/-- Advancing leaves the vote, and keeps the log, the hands and the scores. -/
theorem Advances.table {mid : Lobby} {status : Status} (h : Advances mid lobby status)
    (hresolved : ∀ u ∈ mid.turns, u.Resolved) :
    Lobby.table { lobby with status := status } =
      { log := mid.turns.map Turn.outcome
        play := none
        hands := mid.table.hands
        scores := scoreOf mid.players } := by
  have hall : mid.turns.filter (fun u => u.Resolved) = mid.turns := filter_resolved hresolved
  cases h with
  | gameOver settings hsettings hlen =>
    simp only [Lobby.table, Lobby.resolvedTurns, hall]
    rfl
  | nextTurn settings nextPlayer hsettings hlen hnext =>
    have hpushed : (mid.pushTurn nextPlayer).turns.filter (fun u => u.Resolved) = mid.turns := by
      rw [Lobby.pushTurn, List.filter_append, hall]
      simp [not_resolved_fresh]
    simp only [Lobby.table, Lobby.resolvedTurns, hpushed]
    rfl

/-- A turn that gets its outcome is settled. -/
theorem Scheduled.settled (h : Scheduled settings lobby) (hturns : lobby.turns = done ++ [t])
    (hopen : ¬ t.Resolved) (t' : Turn) (hplayer : t'.player = t.player) (hres : t'.Resolved)
    {mid : Lobby} {status : Status} (hadvances : Advances mid next status)
    (hmid : mid.turns = done ++ [t']) (hbanks : mid.targetWords = lobby.targetWords)
    (hscored : Scored t' lobby.players mid.players)
    (hstolen : t'.wasOthersWord = true → t'.otherId ≠ none)
    (hvotes : t'.wasOthersWord = false →
      t'.votes.All (fun uid v => uid ∈ lobby.playerOrder ∧ v.isBool = true)) :
    Lobby.table { next with status := status }
      = lobby.table.settle lobby.playerOrder t.player t'.outcome := by
  have hresolved : ∀ u ∈ mid.turns, u.Resolved := by
    rw [hmid]
    intro u hu
    rcases List.mem_append.mp hu with hu | hu
    · exact h.resolved_of_turns hturns u hu
    · rw [List.mem_singleton.mp hu]; exact hres
  have hlog : lobby.table.log = done.map Turn.outcome := by
    rw [Lobby.table, h.resolvedTurns_current hturns hopen]
  have hscores : scoreOf mid.players
      = fun uid => scoreOf lobby.players uid + payoff lobby.playerOrder t.player t'.outcome uid := by
    funext uid
    rw [hscored.score, turnDelta_eq_payoff h.order_nodup hstolen hvotes, hplayer]
  rw [hadvances.table hresolved, Table.settle, hlog, hmid, List.map_append, hscores]
  simp only [Lobby.table, hbanks]
  rfl

/-- **A played word** opens the vote on it or is stolen goods. -/
theorem WordPlayed.advance {word : Json} (h : WordPlayed word lobby next)
    (hs : Scheduled settings lobby) (hwords : WordsShared lobby) (hvotes : lobby.votes = ∅)
    (hstatus : lobby.status = .submission) (hopen : lobby.TurnOpen) :
    Advance lobby.playerOrder settings.numRounds lobby.table next.table := by
  have hplay : lobby.table.play = none := by
    simp [Lobby.table, hstatus]
  cases h with
  | awaitsVotes done t hturns hnone =>
    have hfresh := hopen hstatus done t hturns
    have htable : Lobby.table { lobby with
        turns := done ++ [t.submit word]
        votesTallied := some 0
        awaitingBotVotes := votingBots lobby t.player
        status := .voting } = { lobby.table with play := some (word, fun _ => none) } := by
      have hlog : (done ++ [t.submit word]).filter (fun u => u.Resolved) = done := by
        have hsubmit : ¬ (t.submit word).Resolved := hfresh
        rw [List.filter_append, filter_resolved (hs.resolved_of_turns hturns)]
        simp [hsubmit]
      simp only [Lobby.table]
      rw [hs.resolvedTurns_current hturns hfresh]
      simp only [Lobby.resolvedTurns, hlog, Lobby.currWord, List.getLast?_concat, hvotes,
        ballots_empty]
      rfl
    rw [htable]
    refine .play t.player word (hs.due hturns hfresh) hplay (fun q hq hword => ?_)
    -- the scan would have stopped at the bank of `q`
    rw [hwords.findOther_eq_some_iff.mpr ⟨hq, hword⟩] at hnone
    cases hnone
  | othersWord done t hturns otherId hother players hscored lobby' status hadvances =>
    have hfresh := hopen hstatus done t hturns
    obtain ⟨hne, hword⟩ := hasWord_of_findOther hother
    have houtcome : ((t.submit word).stolen otherId).outcome = .stolen otherId := rfl
    have hmem : otherId ∈ lobby.playerOrder := by
      obtain ⟨bank, hbank, _⟩ := hword
      rw [hs.order_perm.mem_iff, ← hs.banks_keys]
      exact Dict.mem_keys_of_get? hbank
    rw [hs.settled hturns hfresh ((t.submit word).stolen otherId) rfl (Or.inl rfl) hadvances
      rfl rfl hscored (fun _ => Option.some_ne_none _) (by rintro ⟨⟩), houtcome]
    exact .steal t.player otherId word (hs.due hturns hfresh) hplay ⟨hmem, hne⟩ hword

theorem ballots_ne_none {votes : Votes} (h : ElectorateBallots lobby t.player votes) {uid : Uid} :
    votes.ballots uid ≠ none ↔ uid ∈ votes.keys := by
  rw [ballots_of_bool (fun u v hget => (h u v hget).2), ne_eq, Option.map_eq_none_iff,
    Dict.get?_eq_none_iff, not_not]

/-- **Cast votes** are added to those on the word, or decide on it. -/
theorem VotesCast.advance {votes : Votes} {tallied : ℕ} {word : Json}
    (h : VotesCast votes tallied lobby next) (hs : Scheduled settings lobby)
    (hstatus : lobby.status = .voting) (hturns : lobby.turns = done ++ [t]) (hopen : ¬ t.Resolved)
    (hword : t.submittedWord = some word) (hballots : ElectorateBallots lobby t.player votes)
    (hraises : Raises lobby.votes.ballots votes.ballots) :
    (next.table = lobby.table ∧ votes.ballots = lobby.votes.ballots) ∨
      Advance lobby.playerOrder settings.numRounds lobby.table next.table := by
  have hplay : lobby.table.play = some (word, lobby.votes.ballots) := by
    simp [Lobby.table, hstatus, currWord_of_turns hturns, hword]
  have hvoters : ∀ uid, votes.ballots uid ≠ none → uid ∈ lobby.playerOrder ∧ uid ≠ t.player := by
    intro uid hvoted
    obtain ⟨v, hget⟩ := Dict.mem_keys_iff.mp ((ballots_ne_none hballots).mp hvoted)
    obtain ⟨hne, hmem⟩ := mem_electorate.mp (hballots uid v hget).1
    exact ⟨hs.order_perm.mem_iff.mpr hmem, hne⟩
  have helectorate := hs.length_electorate (t := t) (by rw [hturns]; simp)
  have hsub : votes.keys ⊆ lobby.electorate t.player := by
    intro uid hu
    obtain ⟨v, hget⟩ := Dict.mem_keys_iff.mp hu
    exact (hballots uid v hget).1
  cases h with
  | stillOpen hsize =>
    have htable : Lobby.table { lobby with
        votes := votes
        votesTallied := some tallied
        status := .voting } = { lobby.table with play := some (word, votes.ballots) } := by
      have hcurr : Lobby.currWord { lobby with
          votes := votes
          votesTallied := some tallied
          status := .voting } = some word := (currWord_of_turns hturns).trans hword
      simp only [Lobby.table, hcurr]
      rfl
    rw [htable]
    by_cases hsame : votes.ballots = lobby.votes.ballots
    · exact Or.inl ⟨by rw [hsame, ← hplay], hsame⟩
    · refine Or.inr (.vote t.player word _ _ (hs.due hturns hopen) hplay hraises hsame hvoters ?_)
      -- if everyone had voted, there would be as many ballots as voters
      by_contra hall
      push Not at hall
      have hsuper : lobby.electorate t.player ⊆ votes.keys := by
        intro uid hu
        obtain ⟨hne, hmem⟩ := mem_electorate.mp hu
        exact (ballots_ne_none hballots).mp (hall uid (hs.order_perm.mem_iff.mpr hmem) hne)
      have hle := (List.subperm_of_subset votes.keys_nodup hsub).length_le
      have hge := (List.subperm_of_subset (lobby.players.keys_nodup.erase _) hsuper).length_le
      have hkeys : votes.keys.length = votes.size := rfl
      rw [hkeys] at hle hge
      have hge : (lobby.electorate t.player).length ≤ votes.size := hge
      omega
  | tally hquorum done' t' hturns' bank hbank hpayable players hscored lobby' status hadvances =>
    obtain ⟨rfl, rfl⟩ := List.append_singleton_inj (hturns.symm.trans hturns')
    have hothers : t.wasOthersWord = false := wasOthersWord_of_unresolved hopen
    have houtcome : (t.tally votes bank).outcome
        = .judged (includes bank (some word)) votes.ballots := by
      simp [Turn.outcome, Turn.tally, hothers, hword]
    have hrecord : ∀ uid v, votes.get? uid = some v →
        uid ∈ lobby.playerOrder ∧ v.isBool = true := by
      intro uid v hget
      have hvoted := (ballots_ne_none hballots).mpr (Dict.mem_keys_of_get? hget)
      exact ⟨(hvoters uid hvoted).1, (hballots uid v hget).2⟩
    refine Or.inr ?_
    rw [hs.settled hturns hopen (t.tally votes bank) rfl
      (Or.inr (by simp [Turn.tally])) hadvances rfl rfl hscored ?_ (fun _ => hrecord), houtcome]
    · refine .judge t.player word _ _ _ (hs.due hturns hopen) hplay hraises ⟨?_, hvoters⟩ ?_
      · -- as many ballots as voters: everyone has voted
        intro uid hmem hne
        have hsize : votes.size = (lobby.electorate t.player).length := by omega
        refine (ballots_ne_none hballots).mpr ((hballots.voters hsize uid).mpr ?_)
        exact mem_electorate.mpr ⟨hne, hs.order_perm.mem_iff.mp hmem⟩
      · constructor
        · exact fun hown => ⟨bank, hbank, hown⟩
        · rintro ⟨bank', hbank', hown⟩
          rw [hbank] at hbank'
          rwa [Option.some.inj hbank']
    · intro htrue
      have htrue : t.wasOthersWord = true := htrue
      rw [hothers] at htrue
      cases htrue

/-- **An exchange** brings words that nobody holds, and costs a point. -/
theorem Rerolled.move {playerId : Uid} (h : Rerolled playerId lobby next)
    (hs : Scheduled settings lobby) (hwords : WordsShared lobby)
    (hturns : lobby.turns = done ++ [t]) (hopen : ¬ t.Resolved)
    (hallowed : lobby.status = .submission ∨ lobby.status = .voting ∧ ¬ lobby.OnTurn playerId) :
    Move lobby.playerOrder settings.numRounds lobby.table next.table := by
  cases h with
  | intro settings' hsettings ditched hbank hpool players hcharged pool hperm =>
    obtain ⟨hmem, _, hscore⟩ := addScore_ok hcharged
    have hdisjoint : ∀ uid bank, lobby.targetWords.get? uid = some bank →
        ∀ w ∈ lobby.availableWords.take settings'.wordBankSize, w ∉ bank := by
      intro uid bank hget w hw hin
      exact (hwords.bank_disjoint_pool hget).2 hin (List.mem_of_mem_take hw)
    have htable : Lobby.table { lobby with
        targetWords := lobby.targetWords.set playerId
          (lobby.availableWords.take settings'.wordBankSize)
        availableWords := pool
        players := players } = { lobby.table with
          hands := Function.update lobby.table.hands playerId
            {word | includes (lobby.availableWords.take settings'.wordBankSize) (some word) = true}
          scores := fun uid => lobby.table.scores uid - if uid = playerId then 1 else 0 } := by
      have hhands : ∀ uid, {word | HasWord (lobby.targetWords.set playerId
            (lobby.availableWords.take settings'.wordBankSize)) uid word}
          = Function.update lobby.table.hands playerId {word | includes
              (lobby.availableWords.take settings'.wordBankSize) (some word) = true} uid := by
        intro uid
        rw [Function.update_apply]
        by_cases hu : uid = playerId
        · rw [if_pos hu, hu]
          ext word
          simp [HasWord]
        · rw [if_neg hu]
          ext word
          show HasWord _ uid word ↔ HasWord lobby.targetWords uid word
          rw [HasWord, HasWord, Dict.get?_set_ne _ _ hu]
      have hscores : scoreOf players
          = fun uid => scoreOf lobby.players uid - if uid = playerId then 1 else 0 := by
        funext uid
        rw [hscore]
        split <;> omega
      simp only [Lobby.table, Lobby.resolvedTurns, hscores]
      congr 1
      exact funext hhands
    rw [htable]
    refine .exchange t.player playerId _ (hs.due hturns hopen)
      (hs.order_perm.mem_iff.mpr hmem) ?_ ?_
    · rcases hallowed with hsubmission | ⟨_, hother⟩
      · exact Or.inl (by simp [Lobby.table, hsubmission])
      · exact Or.inr (fun heq => hother ⟨done, t, hturns, heq.symm⟩)
    · rintro uid word hin ⟨bank, hget, hhas⟩
      obtain ⟨w, hw, hnew⟩ := includes_eq_true.mp hin
      obtain ⟨w', hw', hold⟩ := includes_eq_true.mp hhas
      obtain rfl : w = w' := by simpa using hw.symm.trans hw'
      exact hdisjoint uid bank hget w hnew hold

end Moves

/-! ### The steps of the room -/

/-- A challenge stands, and no vote is taken back. -/
theorem Raises.of_ballots {b b' : Uid → Option Bool}
    (h : ∀ uid, b' uid = b uid ∨ b uid ≠ some true ∧ b' uid ≠ none) : Raises b b' := by
  intro uid
  rcases h uid with hsame | ⟨hweak, hvoted⟩
  · rw [hsame]
  · generalize b uid = v, b' uid = v' at hweak hvoted
    rcases v with _ | _ | _ <;> rcases v' with _ | _ | _ <;> simp_all [firmness]

/-- Ballots cast in a fair game raise those in the box. -/
theorem CastsVotes.raises {room : Room} {i : RoomInput} {votes : Votes} {left : List BotTrigger}
    (hby : CastsVotes room i votes left) (h : Fair room) (hP : PlayersOnly room i)
    (hstatus : room.lobby.status = .voting) {done : List Turn} {t : Turn}
    (hturns : room.lobby.turns = done ++ [t]) : Raises room.lobby.votes.ballots votes.ballots := by
  have hold : room.lobby.votes.All (fun _ v => v.isBool = true) :=
    fun u v hget => (h.ballots hstatus done t hturns u v hget).2
  have hnew : votes.All (fun _ v => v.isBool = true) :=
    fun u v hget => (hby.ballots h hP hstatus hturns u v hget).2
  refine Raises.of_ballots (fun p => ?_)
  rw [ballots_of_bool hold, ballots_of_bool hnew]
  cases hby with
  | user now uid vote hother hfresh hquorum =>
    by_cases hp : p = uid
    · -- what may be overwritten is not a challenge
      subst hp
      refine Or.inr ⟨?_, by simp⟩
      cases hget : room.lobby.votes.get? p with
      | none => simp
      | some v =>
        rw [hget] at hfresh
        have hpass : v.truthy = false := hfresh
        simp [hpass]
    · exact Or.inl (by rw [Dict.get?_set_ne _ _ hp])
  | bots now i answer turn ids hpending =>
    rcases h.batch hstatus done t hturns with hnil | ⟨hne, hnobot, turn', hbatch⟩
    · rw [hpending] at hnil
      cases hnil
    · rw [hpending] at hbatch
      obtain ⟨_, rfl⟩ : turn = turn' ∧ ids = votingBots room.lobby t.player := by simpa using hbatch
      by_cases hp : p ∈ votingBots room.lobby t.player
      · -- no bot has voted yet
        have hnone : room.lobby.votes.get? p = none := by
          rw [Dict.get?_eq_none_iff]
          intro hvoted
          have hhuman := hnobot p hvoted
          rw [(mem_votingBots.mp hp).2] at hhuman
          cases hhuman
        have hvoted : p ∈ (castBotVotes room.lobby.votes (votingBots room.lobby t.player)
            answer.challenge answer.random).keys :=
          (mem_keys_castBotVotes hne _ _).mpr (Or.inr hp)
        obtain ⟨v, hget⟩ := Dict.mem_keys_iff.mp hvoted
        exact Or.inr ⟨by simp [hnone], by simp [hget]⟩
      · exact Or.inl (by rw [castBotVotes_get? hne hp])

/-- The current turn of a running game has no outcome. -/
theorem Tidy.current_open {room : Room} (h : Tidy room) (hrunning : room.lobby.status ≠ .done)
    {done : List Turn} {t : Turn} (hturns : room.lobby.turns = done ++ [t]) : ¬ t.Resolved :=
  fun hresolved => hrunning ((h.current done t hturns).mp hresolved)

theorem Fair.advance_word {settings : Settings} {room : Room} (h : Fair room)
    (hs : Scheduled settings room.lobby) (hwords : WordsShared room.lobby) {word : Json} {now : ℕ}
    {next : Lobby} (hplayed : WordPlayed word (room.lobby.stamp now) next)
    (hstatus : room.lobby.status = .submission) :
    Advance room.lobby.playerOrder settings.numRounds room.lobby.table next.table :=
  hplayed.advance (hs.stamp now) (hwords.congr ⟨rfl, rfl, rfl⟩) (h.quiet (by rw [hstatus]; simp))
    hstatus (fun _ _ _ hturns => h.current_open (by rw [hstatus]; simp) hturns)

theorem Fair.advance_votes {settings : Settings} {room : Room} {i : RoomInput} (h : Fair room)
    (hs : Scheduled settings room.lobby) (hP : PlayersOnly room i) {votes : Votes}
    {left : List BotTrigger} (hby : CastsVotes room i votes left) {now tallied : ℕ} {next : Lobby}
    (hcast : VotesCast votes tallied (room.lobby.stamp now) next)
    (hstatus : room.lobby.status = .voting) :
    (next.table = room.lobby.table ∧ votes.ballots = room.lobby.votes.ballots) ∨
      Advance room.lobby.playerOrder settings.numRounds room.lobby.table next.table := by
  obtain ⟨done, t, hturns⟩ := hs.turns_eq
  obtain ⟨word, hsubmitted⟩ := Option.ne_none_iff_exists'.mp (h.voting hstatus done t hturns)
  exact hcast.advance (hs.stamp now) hstatus hturns
    (h.current_open (by rw [hstatus]; simp) hturns) hsubmitted (hby.ballots h hP hstatus hturns)
    (hby.raises h hP hstatus hturns)

/-- **Step lemma.**  What a step of a fair game does to the table is a move. -/
theorem Fair.move {lobbyId : LobbyId} {settings : Settings} {room room' : Room} {i : RoomInput}
    (h : Fair room) (hs : Scheduled settings room.lobby) (hwords : WordsShared room.lobby)
    (hP : PlayersOnly room i) (hstep : RoomStep lobbyId room i room') :
    room'.lobby.table = room.lobby.table ∨
      Move room.lobby.playerOrder settings.numRounds room.lobby.table room'.lobby.table := by
  have hword : ∀ word now next, WordPlayed word (room.lobby.stamp now) next →
      room.lobby.status = .submission →
      Move room.lobby.playerOrder settings.numRounds room.lobby.table next.table := by
    intro word now next hplayed hstatus
    exact .advance _ (h.advance_word hs hwords hplayed hstatus)
  have hvotes : ∀ votes left now tallied next, CastsVotes room i votes left →
      VotesCast votes tallied (room.lobby.stamp now) next → room.lobby.status = .voting →
      next.table = room.lobby.table ∨
        Move room.lobby.playerOrder settings.numRounds room.lobby.table next.table := by
    intro votes left now tallied next hby hcast hstatus
    exact (h.advance_votes hs hP hby hcast hstatus).imp And.left (.advance _)
  cases hstep with
  | rejected => exact Or.inl rfl
  | failed => exact Or.inl rfl
  | redelivered => exact hP.elim
  | called now c lobby hok heffect =>
    cases c with
    | addPlayerToLobby player playerId => exact absurd heffect.1 hs.started
    | addBot requesterId => exact absurd heffect.2.1 hs.started
    | startGame playerId gameSettings random => exact absurd heffect.2.1 hs.started
    | submitWord playerId word =>
      obtain ⟨hstatus, _, next, hplayed, rfl⟩ := heffect
      refine Or.inr ?_
      show Move _ _ _ next.stored.table
      rw [table_stored]
      exact hword word now next hplayed hstatus
    | requestNewWords playerId random =>
      obtain ⟨hallowed, next, hrolled, rfl⟩ := heffect
      obtain ⟨done, t, hturns⟩ := hs.turns_eq
      have hunresolved : ¬ t.Resolved := by
        rcases hallowed with hstatus | ⟨hstatus, _⟩
        · exact h.current_open (by rw [hstatus]; simp) hturns
        · exact h.current_open (by rw [hstatus]; simp) hturns
      refine Or.inr ?_
      show Move _ _ _ next.stored.table
      rw [table_stored]
      exact hrolled.move (hs.stamp now) (hwords.congr ⟨rfl, rfl, rfl⟩) hturns hunresolved hallowed
    | voteOnWord playerId vote =>
      obtain ⟨hstatus, hother, hfresh, k, next, _, hcast, rfl⟩ := heffect
      have hquorum := h.orderly hs hP hstatus hother
      show next.stored.table = _ ∨ Move _ _ _ next.stored.table
      rw [table_stored]
      exact hvotes _ _ now _ next (.user now playerId vote hother hfresh hquorum) hcast hstatus
  | delivered now i answer trigger hpending lobby heffect =>
    obtain ⟨hsingle, _⟩ := h.pending.take hpending
    cases trigger with
    | watchForBotVotes turn votingBotIds =>
      obtain ⟨k, next, _, hcast, rfl⟩ := heffect
      show (Lobby.stored { next with awaitingBotVotes := [] }).table = _ ∨
        Move _ _ _ (Lobby.stored { next with awaitingBotVotes := [] }).table
      rw [table_stored]
      exact hvotes _ _ now _ next (.bots now i answer turn votingBotIds hsingle) hcast
        (h.voting_of_votes hsingle)
    | watchForBotTurns turn =>
      obtain ⟨next, hplayed, rfl⟩ := heffect
      refine Or.inr ?_
      show Move _ _ _ (Lobby.stored { next with awaitingBotTurn := false }).table
      rw [table_stored]
      exact hword _ now next hplayed (h.submission_of_turns hsingle)

/-! ### The games of a room -/

/-- The rooms of one game: who plays, in which order, for how many rounds. -/
structure Room.InGame (lobbyId : LobbyId) (order : List Uid) (settings : Settings) (room : Room) :
    Prop where
  reachable : Room.Reachable lobbyId PlayersOnly room
  scheduled : Scheduled settings room.lobby
  order_eq : room.lobby.playerOrder = order

theorem Room.InGame.fair {lobbyId : LobbyId} {order : List Uid} {settings : Settings} {room : Room}
    (h : Room.InGame lobbyId order settings room) : Fair room := by
  obtain ⟨_, _, hfair⟩ := (fair_of_reachable h.reachable).game h.scheduled.started
  exact hfair

/-- **The room of a started game refines the rules**, while only players vote. -/
theorem refines_rulebook (lobbyId : LobbyId) (order : List Uid) (settings : Settings) :
    (roomMachine lobbyId).Refines PlayersOnly (Room.InGame lobbyId order settings)
      (fun room => room.lobby.table) (Move order settings.numRounds) where
  keeps room i h hP := by
    have hseats := (Room.step_cases lobbyId room i).seats h.scheduled.started
    exact ⟨h.reachable.trans (room.reaches_step hP), h.scheduled.step i,
      hseats.order.trans h.order_eq⟩
  moves room i h hP := by
    have hwords := wordsShared_of_reachable h.reachable h.scheduled.started
    have hmove := h.fair.move h.scheduled hwords hP (Room.step_cases lobbyId room i)
    rw [h.order_eq] at hmove
    exact hmove

theorem WordsShared.separate {lobby : Lobby} (h : WordsShared lobby) : lobby.table.Separate :=
  fun _ _ hne _ hword hword' => hne (h.hasWord_unique hword hword')

/-- **A deal is a start of the rules.** -/
theorem FreshGame.table {room : Room} {firstPlayer : Uid} {created : Option ℕ}
    (h : FreshGame room firstPlayer created) :
    room.lobby.table = Table.start room.lobby.table.hands := by
  have hlog : room.lobby.resolvedTurns = [] := by
    rw [Lobby.resolvedTurns, h.turns]
    simp [not_resolved_fresh]
  have hscores : scoreOf room.lobby.players = fun _ => 0 := funext h.scores
  simp [Lobby.table, Table.start, hlog, h.status, hscores]

/-- **The lobby plays by the rules.**  While only players vote, the table of a started lobby is
    one that a play of the rules leads to, from hands that share no word; every run goes on with
    such a play, and the game is over when all turns of all rounds are. -/
theorem plays_by_the_rules {lobbyId : LobbyId} {room : Room}
    (h : Room.Reachable lobbyId PlayersOnly room) (hstarted : room.lobby.status ≠ .lobby) :
    ∃ settings hands, room.lobby.settings = some settings ∧
      (Table.start hands : Table Uid Json).Separate ∧
      Relation.ReflTransGen (Move room.lobby.playerOrder settings.numRounds) (Table.start hands)
        room.lobby.table ∧
      (∀ room', (roomMachine lobbyId).Reaches PlayersOnly room room' →
        Relation.ReflTransGen (Move room.lobby.playerOrder settings.numRounds) room.lobby.table
          room'.lobby.table) ∧
      (room.lobby.status = .done ↔ room.lobby.table.log.length
        = settings.numRounds * room.lobby.playerOrder.length) := by
  -- before the deal there is no game, and after it the room refines the rules
  have hplay : room.lobby.status ≠ .lobby → ∃ settings hands,
      Room.InGame lobbyId room.lobby.playerOrder settings room ∧
      (Table.start hands : Table Uid Json).Separate ∧
      Relation.ReflTransGen (Move room.lobby.playerOrder settings.numRounds) (Table.start hands)
        room.lobby.table := by
    refine (Room.Reachable.invariant (I := fun room => Room.Reachable lobbyId PlayersOnly room ∧
      (room.lobby.status ≠ .lobby → ∃ settings hands,
        Room.InGame lobbyId room.lobby.playerOrder settings room ∧
        (Table.start hands : Table Uid Json).Separate ∧
        Relation.ReflTransGen (Move room.lobby.playerOrder settings.numRounds)
          (Table.start hands) room.lobby.table))
      (fun hostId => ⟨⟨hostId, .refl _⟩, fun hne => absurd rfl hne⟩) ?_ h).2
    rintro room i ⟨hreach, hplay⟩ hP
    have hreach' := hreach.trans (room.reaches_step hP)
    refine ⟨hreach', fun hstarted' => ?_⟩
    have hstep := Room.step_cases lobbyId room i
    cases fair_of_reachable hreach with
    | unstarted hun =>
      rcases hun.step hstep with hun' | ⟨now, settings, next, hdealt, hroom⟩
      · exact absurd hun'.status hstarted'
      · obtain ⟨firstPlayer, created, hfresh⟩ := hdealt.fresh hun
        rw [hroom] at hreach' hstarted' ⊢
        have htable := hfresh.table
        refine ⟨settings, _, ⟨hreach', (Scheduled.dealt hdealt).stored, rfl⟩,
          htable ▸ (wordsShared_of_reachable hreach' hstarted').separate, ?_⟩
        rw [← htable]
    | started settings' hs hfair =>
      obtain ⟨settings, hands, hgame, hsep, hplayed⟩ := hplay hs.started
      have hrefines := refines_rulebook lobbyId room.lobby.playerOrder settings
      have hgame' := hrefines.keeps room i hgame hP
      have hnext := hrefines.reaches hgame (room.reaches_step hP)
      have horder := hgame'.order_eq
      have horder : (room.step lobbyId i).lobby.playerOrder = room.lobby.playerOrder := horder
      rw [horder]
      exact ⟨settings, hands, hgame', hsep, hplayed.trans hnext⟩
  obtain ⟨settings, hands, hgame, hsep, hplayed⟩ := hplay hstarted
  refine ⟨settings, hands, hgame.scheduled.settings_eq, hsep, hplayed,
    fun room' => (refines_rulebook lobbyId _ settings).reaches hgame, ?_⟩
  have hs := hgame.scheduled
  obtain ⟨done, t, hturns⟩ := hs.turns_eq
  have hcurrent := hgame.fair.current done t hturns
  have hlen : room.lobby.turns.length = done.length + 1 := by rw [hturns]; simp
  have hlog : room.lobby.table.log.length = room.lobby.resolvedTurns.length := by
    rw [Lobby.table, List.length_map]
  constructor
  · intro hdone
    have hall : ∀ u ∈ room.lobby.turns, u.Resolved := by
      rw [hturns]
      intro u hu
      rcases List.mem_append.mp hu with hu | hu
      · exact hs.resolved_of_turns hturns u hu
      · rw [List.mem_singleton.mp hu]
        exact hcurrent.mpr hdone
    rw [hlog, Lobby.resolvedTurns, filter_resolved hall, hs.done hdone]
  · intro hfull
    by_contra hne
    -- the turn that goes on is not in the log
    have hopen : ¬ t.Resolved := fun hres => hne (hcurrent.mp hres)
    rw [hlog, hs.resolvedTurns_current hturns hopen] at hfull
    have hle := hs.turns_le
    omega

theorem plays_by_the_rules_sample :
    ∃ settings hands,
      (sampleRoom sampleChallenge).lobby.settings = some settings ∧
      Relation.ReflTransGen
        (Move (sampleRoom sampleChallenge).lobby.playerOrder settings.numRounds)
        (Table.start hands) (sampleRoom sampleChallenge).lobby.table := by
  have hreach : Room.Reachable "L" PlayersOnly (sampleRoom sampleChallenge) :=
    sampleRoom_reachable (by decide +kernel)
  obtain ⟨settings, hands, hsettings, _, hplayed, _⟩ :=
    plays_by_the_rules hreach (by decide +kernel)
  exact ⟨settings, hands, hsettings, hplayed⟩

/-! ### Every game runs out -/

/-- The log of a lobby and the vote on the word: what a game is played for. -/
noncomputable def Lobby.position (lobby : Lobby) :
    List (Outcome Uid) × Option (Json × (Uid → Option Bool)) :=
  (lobby.table.log, lobby.table.play)

theorem Unstarted.position {room : Room} (h : Unstarted room) : room.lobby.position = ([], none) := by
  simp [Lobby.position, Lobby.table, Lobby.resolvedTurns, h.turns, h.status]

/-- What is left of a started game bounds its changes. -/
theorem Room.InGame.changes_le {lobbyId : LobbyId} {order : List Uid} {settings : Settings}
    {room : Room} (h : Room.InGame lobbyId order settings room) {inputs : List RoomInput}
    (hadm : (roomMachine lobbyId).Admissible PlayersOnly room inputs) :
    (roomMachine lobbyId).changes (fun room => room.lobby.position) room inputs
      ≤ room.lobby.table.rank order settings.numRounds := by
  have hle := (refines_rulebook lobbyId order settings).changes_le
    (f := fun table => (table.log, table.play)) (fun _ _ hmove => hmove.rank) h hadm
  exact le_trans (Nat.le_add_right _ _) hle

theorem Unstarted.changes_le {lobbyId : LobbyId} {room : Room} (hun : Unstarted room)
    (hreach : Room.Reachable lobbyId PlayersOnly room) {inputs : List RoomInput}
    (hadm : (roomMachine lobbyId).Admissible PlayersOnly room inputs) :
    (roomMachine lobbyId).changes (fun room => room.lobby.position) room inputs = 0 ∨
      ∃ settings, ((roomMachine lobbyId).run room inputs).lobby.settings = some settings ∧
        (roomMachine lobbyId).changes (fun room => room.lobby.position) room inputs
          ≤ 2 * settings.numRounds
            * ((roomMachine lobbyId).run room inputs).lobby.playerOrder.length ^ 2 := by
  induction inputs generalizing room with
  | nil => exact Or.inl rfl
  | cons i inputs ih =>
    have hreach' := hreach.trans (room.reaches_step hadm.1)
    have hstep := Room.step_cases lobbyId room i
    simp only [Machine.changes, Machine.run]
    rcases hun.step hstep with hun' | ⟨now, settings, next, hdealt, hroom⟩
    · -- still nothing to play for
      have hsame : (((roomMachine lobbyId).step room i).lobby.position) = room.lobby.position :=
        hun'.position.trans hun.position.symm
      rw [if_pos hsame, Nat.zero_add]
      exact ih hun' hreach' hadm.2
    · obtain ⟨firstPlayer, created, hfresh⟩ := hdealt.fresh hun
      have hs : Scheduled settings (room.step lobbyId i).lobby := by
        rw [hroom]
        exact (Scheduled.dealt hdealt).stored
      have hgame : Room.InGame lobbyId (room.step lobbyId i).lobby.playerOrder settings
          (room.step lobbyId i) := ⟨hreach', hs, rfl⟩
      have htable : (room.step lobbyId i).lobby.table
          = Table.start (room.step lobbyId i).lobby.table.hands := by
        rw [hroom]
        exact hfresh.table
      have hsame : (((roomMachine lobbyId).step room i).lobby.position) = room.lobby.position := by
        rw [hun.position]
        show ((room.step lobbyId i).lobby.table.log, (room.step lobbyId i).lobby.table.play) = _
        rw [htable]
        rfl
      rw [if_pos hsame, Nat.zero_add]
      have hend := (refines_rulebook lobbyId _ settings).run_invariant hgame hadm.2
      refine Or.inr ⟨settings, hend.scheduled.settings_eq, ?_⟩
      have hle := hgame.changes_le hadm.2
      have horder : ((roomMachine lobbyId).run ((roomMachine lobbyId).step room i)
          inputs).lobby.playerOrder = (room.step lobbyId i).lobby.playerOrder := hend.order_eq
      rw [horder]
      exact le_trans hle (Table.rank_le _ _ _)

/-- **Every game runs out.**  While only players vote, at most `2 * numRounds * n * n` steps of a
    run bring the game of `n` players forward: a word, a vote, an outcome.  All others are refused,
    repeat a vote, or exchange words. -/
theorem game_runs_out {lobbyId : LobbyId} {hostId : Uid} {inputs : List RoomInput}
    (h : (roomMachine lobbyId).Admissible PlayersOnly (Room.initial hostId) inputs)
    {settings : Settings}
    (hsettings : ((roomMachine lobbyId).run (Room.initial hostId) inputs).lobby.settings
      = some settings) :
    (roomMachine lobbyId).changes (fun room => room.lobby.position) (Room.initial hostId) inputs
      ≤ 2 * settings.numRounds
        * ((roomMachine lobbyId).run (Room.initial hostId) inputs).lobby.playerOrder.length ^ 2 := by
  rcases (unstarted_initial hostId).changes_le ⟨hostId, .refl _⟩ h with hzero | ⟨settings', heq, hle⟩
  · omega
  · rw [hsettings] at heq
    obtain rfl := Option.some.inj heq
    exact hle

theorem game_runs_out_sample :
    ∃ settings, (sampleRoom sampleChallenge).lobby.settings = some settings ∧
      (roomMachine "L").changes (fun room => room.lobby.position) (Room.initial "ann")
        sampleChallenge ≤ 2 * settings.numRounds
          * (sampleRoom sampleChallenge).lobby.playerOrder.length ^ 2 := by
  have hsome : (sampleRoom sampleChallenge).lobby.settings.isSome = true := by decide +kernel
  obtain ⟨settings, hsettings⟩ := Option.isSome_iff_exists.mp hsome
  have hadm : (roomMachine "L").Admissible PlayersOnly (Room.initial "ann") sampleChallenge := by
    decide +kernel
  unfold sampleRoom at hsettings ⊢
  exact ⟨settings, hsettings, game_runs_out hadm hsettings⟩

end PasswordApp
