import PasswordApp.Game.Redelivery
import PasswordApp.Game.Secrecy
import PasswordApp.Game.Verdict

namespace PasswordApp

/-!
# Game — which votes can be completed

A word is tallied when the ballots, with the one just cast, are exactly one fewer than the
players.  Ballots may be in the box before the word is voted on, and some of them nobody can
take out again: votes of the submitter, and challenges of anyone but a waiting bot.

* `Votes.settled` — the ballots that no vote can change;
* `VoteCanClose` — there is room for a ballot next to them, and every challenger plays;
* `OpenVote` — the lobbies from the submission to the tally;
* `OpenVote.stuck` — a vote that cannot be completed stays open under all votes;
* `VoteCanClose.plays` — one that can is completed by some votes, the same for every word;
* `Submitting.completable_iff` — the two together.
-/

/-! ### Ballots that stay -/

/-- The votes on a word: of any user, and the batch of the bots it waits for. -/
def IsVote (votingBotIds : List Uid) : Play → Prop
  | .call (.voteOnWord _ _) => True
  | .call _ => False
  | .batch ids _ _ => ids = votingBotIds ∧ ids ≠ []

/-- Whose ballots are settled: the submitter is never let through, a challenge is only
    overwritten by a batch. -/
def Votes.settled (votes : Votes) (submitter : Uid) (votingBotIds : List Uid) : List Uid :=
  votes.keys.filter (fun uid => uid = submitter ||
    truthy? (votes.get? uid) && uid ∉ votingBotIds)

/-- Every challenger plays. -/
def Votes.Payable (votes : Votes) (players : Dict Uid Player) : Prop :=
  ∀ ballot ∈ votes.entries, ballot.2.truthy = true → ballot.1 ∈ players.keys

instance (votes : Votes) (players : Dict Uid Player) : Decidable (votes.Payable players) :=
  inferInstanceAs (Decidable (∀ _ ∈ _, _))

/-- The vote on a word of `submitter` can be completed with the ballots in the box. -/
def VoteCanClose (lobby : Lobby) (submitter : Uid) : Prop :=
  lobby.votes.Payable lobby.players ∧
  (lobby.votes.settled submitter (votingBots lobby submitter)).length + 2
    ≤ lobby.playerOrder.length

instance (lobby : Lobby) (submitter : Uid) : Decidable (VoteCanClose lobby submitter) :=
  inferInstanceAs (Decidable (_ ∧ _))

/-- With an empty box it takes a second player. -/
theorem voteCanClose_of_empty {lobby : Lobby} (hvotes : lobby.votes = ∅) (submitter : Uid) :
    VoteCanClose lobby submitter ↔ 2 ≤ lobby.playerOrder.length := by
  have hempty : ∀ ids, (∅ : Votes).settled submitter ids = [] := fun _ => rfl
  rw [VoteCanClose, hvotes, hempty, List.length_nil, Nat.zero_add]
  refine and_iff_right ?_
  rintro ballot ⟨⟩

namespace Votes

variable {votes votes' : Votes} {submitter uid : Uid} {ids ids' : List Uid}

theorem mem_settled : uid ∈ votes.settled submitter ids ↔ uid ∈ votes.keys ∧
    (uid = submitter ∨ truthy? (votes.get? uid) = true ∧ uid ∉ ids) := by
  rw [settled, List.mem_filter]
  simp only [Bool.or_eq_true, Bool.and_eq_true, decide_eq_true_eq]

theorem settled_nodup (votes : Votes) (submitter : Uid) (ids : List Uid) :
    (votes.settled submitter ids).Nodup :=
  votes.keys_nodup.filter _

/-- Fewer settled ballots are fewer in number. -/
theorem length_settled_le
    (h : ∀ uid ∈ votes.settled submitter ids, uid ∈ votes'.settled submitter ids') :
    (votes.settled submitter ids).length ≤ (votes'.settled submitter ids').length :=
  (List.subperm_of_subset (settled_nodup votes submitter ids) h).length_le

/-- A ballot that is not settled leaves room in the box. -/
theorem length_settled_lt (huid : uid ∈ votes.keys) (hfree : uid ∉ votes'.settled submitter ids)
    (h : ∀ u ∈ votes'.settled submitter ids, u ∈ votes.keys) :
    (votes'.settled submitter ids).length + 1 ≤ votes.size := by
  have hnd : (uid :: votes'.settled submitter ids).Nodup :=
    List.nodup_cons.mpr ⟨hfree, settled_nodup votes' submitter ids⟩
  have hsub : uid :: votes'.settled submitter ids ⊆ votes.keys := by
    intro u hu
    rcases List.mem_cons.mp hu with rfl | hu
    · exact huid
    · exact h u hu
  exact (List.subperm_of_subset hnd hsub).length_le

theorem payable_iff {players : Dict Uid Player} : votes.Payable players ↔
    ∀ uid, truthy? (votes.get? uid) = true → uid ∈ players.keys := by
  constructor
  · intro h uid htruthy
    cases hget : votes.get? uid with
    | none =>
      rw [hget] at htruthy
      cases htruthy
    | some v =>
      rw [hget] at htruthy
      exact h (uid, v) (Dict.get?_eq_some_iff.mp hget) htruthy
  · rintro h ⟨uid, v⟩ hmem hv
    refine h uid ?_
    rw [Dict.get?_eq_some_iff.mpr hmem]
    exact hv

end Votes

/-! ### What a vote does -/

/-- What a vote makes of the ballots: those of `voters` are new, and were not settled. -/
structure NewBallots (submitter : Uid) (ids voters : List Uid) (votes votes' : Votes) : Prop where
  voters_ne_nil : voters ≠ []
  voted : ∀ uid ∈ voters, uid ∈ votes'.keys
  kept : ∀ uid, uid ∉ voters → votes'.get? uid = votes.get? uid
  free : ∀ uid ∈ voters, uid ∉ votes.settled submitter ids

theorem NewBallots.vote {submitter uid : Uid} {votes : Votes} (ids : List Uid) (vote : Json)
    (hother : uid ≠ submitter) (hfresh : truthy? (votes.get? uid) = false) :
    NewBallots submitter ids [uid] votes (votes.set uid vote) where
  voters_ne_nil := List.cons_ne_nil uid []
  voted := by
    intro u hu
    rw [List.mem_singleton.mp hu]
    exact Dict.mem_keys_of_get? (Dict.get?_set_self votes uid vote)
  kept u hu := Dict.get?_set_ne _ _ (fun heq => hu (List.mem_singleton.mpr heq))
  free := by
    intro u hu hsettled
    rw [List.mem_singleton.mp hu, Votes.mem_settled, hfresh] at hsettled
    rcases hsettled.2 with heq | ⟨htruthy, _⟩
    · exact hother heq
    · cases htruthy

theorem NewBallots.batch {submitter : Uid} {ids : List Uid} (votes : Votes) (hne : ids ≠ [])
    (hsubmitter : submitter ∉ ids) (botVote : Bool) (random : Draw) :
    NewBallots submitter ids ids votes (castBotVotes votes ids botVote random) where
  voters_ne_nil := hne
  voted u hu := (mem_keys_castBotVotes hne botVote random).mpr (Or.inr hu)
  kept u hu := castBotVotes_get? hne hu botVote random
  free := by
    intro u hu hsettled
    rcases (Votes.mem_settled.mp hsettled).2 with rfl | ⟨_, hnot⟩
    · exact hsubmitter hu
    · exact hnot hu

theorem submitter_not_voting (lobby : Lobby) (submitter : Uid) :
    submitter ∉ votingBots lobby submitter := by
  intro hmem
  exact (mem_electorate.mp (mem_votingBots.mp hmem).1).1 rfl

/-- A vote is refused, or its ballots are cast. -/
theorem after_vote {lobbyId : LobbyId} {lobby : Lobby} {submitter : Uid} {ids : List Uid}
    {play : ℕ × Play} (hvote : IsVote ids play.2) (hturn : lobby.OnTurn submitter)
    (hsubmitter : submitter ∉ ids) :
    lobby.after lobbyId play = lobby ∨
    ∃ voters votes k next awaiting, NewBallots submitter ids voters lobby.votes votes ∧
      VotesCast votes k (lobby.stamp play.1) next ∧
      lobby.after lobbyId play = Lobby.stored { next with awaitingBotVotes := awaiting } := by
  obtain ⟨now, play⟩ := play
  unfold Lobby.after
  cases hresult : updateLobby lobbyId (play.transaction lobbyId) now (some lobby) with
  | error e => exact Or.inl rfl
  | ok lobby' =>
    refine Or.inr ?_
    cases play with
    | batch ids' botVote random =>
      obtain ⟨rfl, hne⟩ := hvote
      have hok : updateLobby lobbyId ((BotTrigger.watchForBotVotes 0 ids').transaction
          ⟨botVote, "", random⟩) now (some lobby) = .ok lobby' := hresult
      obtain ⟨k, next, _, hcast, rfl⟩ := trigger_ok hok
      exact ⟨ids', _, _, next, [], .batch lobby.votes hne hsubmitter botVote random, hcast, rfl⟩
    | call c =>
      cases c with
      | voteOnWord uid vote =>
        have hok : updateLobby lobbyId ((Call.voteOnWord uid vote).transaction lobbyId) now
            (some lobby) = .ok lobby' := hresult
        obtain ⟨_, hother, hfresh, k, next, _, hcast, rfl⟩ := call_ok hok
        have hne : uid ≠ submitter := by
          rintro rfl
          exact hother hturn
        exact ⟨[uid], _, _, next, next.awaitingBotVotes, .vote ids vote hne hfresh, hcast, rfl⟩
      | addPlayerToLobby player uid => exact absurd hvote id
      | addBot uid => exact absurd hvote id
      | startGame uid gameSettings random => exact absurd hvote id
      | submitWord uid word => exact absurd hvote id
      | requestNewWords uid random => exact absurd hvote id

/-! ### While the vote is on -/

/-- A lobby as stored, in which the player of `t` has yet to submit. -/
structure Submitting (settings : Settings) (start : Lobby) (done : List Turn) (t : Turn) :
    Prop where
  scheduled : Scheduled settings start
  status : start.status = .submission
  turns : start.turns = done ++ [t]
  unresolved : ¬ t.Resolved
  stored : start.stored = start

/-- `word`, submitted at `start`, is voted on. -/
structure OpenVote (settings : Settings) (start : Lobby) (done : List Turn) (t : Turn)
    (word : Json) (lobby : Lobby) : Prop where
  scheduled : Scheduled settings lobby
  status : lobby.status = .voting
  turns : lobby.turns = done ++ [t.submit word]
  players : lobby.players = start.players
  order : lobby.playerOrder = start.playerOrder
  banks : lobby.targetWords = start.targetWords
  counter : ∃ k, lobby.votesTallied = some k
  stored : lobby.stored = lobby
  unresolved : ¬ t.Resolved

/-- The votes on `word` were counted, against the submitter's bank at `start`. -/
def Tallied (start : Lobby) (done : List Turn) (t : Turn) (word : Json) (lobby : Lobby) : Prop :=
  ∃ u bank, lobby.turns[done.length]? = some u ∧ start.targetWords.get? t.player = some bank ∧
    u.wasOthersWord = false ∧ u.wasSubmittersWord = some (includes bank (some word))

/-- The lobby after `word`, submitted in the turn `t`, awaits votes. -/
def Lobby.votingOn (lobby : Lobby) (now : ℕ) (done : List Turn) (t : Turn) (word : Json) : Lobby :=
  { lobby.stamp now with
    turns := done ++ [t.submit word]
    votesTallied := some 0
    awaitingBotVotes := votingBots lobby t.player
    status := .voting }

theorem Lobby.stored_eq {lobby : Lobby} (hturns : lobby.turns.map Turn.stored = lobby.turns)
    (hvotes : lobby.votes.stored = lobby.votes) : lobby.stored = lobby := by
  rw [Lobby.stored, hturns, hvotes]

section

variable {lobbyId : LobbyId} {settings : Settings} {start : Lobby} {done : List Turn} {t : Turn}

namespace Submitting

/-- The lobby that awaits the votes is stored as it is. -/
theorem votingOn_stored (h : Submitting settings start done t) (now : ℕ) (word : Json) :
    (start.votingOn now done t word).stored = start.votingOn now done t word := by
  have hall : (done ++ [t]).map Turn.stored = done ++ [t] := h.turns ▸ stored_turns h.stored
  have hturns : (done ++ [t.submit word]).map Turn.stored = done ++ [t.submit word] := by
    rw [List.map_append, List.map_singleton] at hall ⊢
    obtain ⟨hdone, ht⟩ := List.append_inj' hall rfl
    have ht : t.stored = t := List.singleton_inj.mp ht
    have hword : (t.submit word).stored = t.stored.submit word := rfl
    rw [hdone, hword, ht]
  have hvotes : start.votes.stored = start.votes := stored_votes h.stored
  exact Lobby.stored_eq hturns hvotes

theorem openVote (h : Submitting settings start done t) (now : ℕ) (word : Json) :
    OpenVote settings start done t word (start.votingOn now done t word) where
  scheduled := h.scheduled.rewriteTurn h.turns rfl rfl ⟨rfl, rfl, rfl, rfl⟩ rfl
  status := rfl
  turns := rfl
  players := rfl
  order := rfl
  banks := rfl
  counter := ⟨0, rfl⟩
  stored := h.votingOn_stored now word
  unresolved := h.unresolved

/-- A submission nobody else has the word of opens the vote, if the database takes it. -/
theorem after (h : Submitting settings start done t) {word : Json}
    (hstorable : word.storable = true) (hnone : findOther start t.player (some word) = none)
    (lobbyId : LobbyId) (now : ℕ) :
    start.after lobbyId (now, .call (.submitWord t.player word))
      = start.votingOn now done t word := by
  have hok : updateLobby lobbyId (submitWord lobbyId t.player word) now (some start)
      = .ok (start.votingOn now done t word) :=
    (submitWord_accepted lobbyId now hstorable h.status h.turns hnone).trans
      (congrArg _ (h.votingOn_stored now word))
  simp only [Lobby.after, Play.transaction, Call.transaction, hok]

end Submitting

namespace OpenVote

variable {word : Json} {lobby : Lobby}

theorem onTurn (h : OpenVote settings start done t word lobby) : lobby.OnTurn t.player :=
  ⟨done, t.submit word, h.turns, rfl⟩

theorem votingBots_eq (h : OpenVote settings start done t word lobby) (submitter : Uid) :
    votingBots lobby submitter = votingBots start submitter :=
  votingBots_congr (by rw [h.players]) submitter

/-- Ballots that are not complete leave the vote open. -/
theorem stillOpen (h : OpenVote settings start done t word lobby) {votes : Votes} {k now : ℕ}
    {next : Lobby} (hcast : VotesCast votes k (lobby.stamp now) next)
    (hopen : votes.size + 1 ≠ start.playerOrder.length) (awaiting : List Uid) :
    OpenVote settings start done t word
        (Lobby.stored { next with awaitingBotVotes := awaiting }) ∧
      (Lobby.stored { next with awaitingBotVotes := awaiting }).votes = votes.stored := by
  cases hcast with
  | tally hquorum => exact absurd (h.order ▸ hquorum) hopen
  | stillOpen hsize =>
    have hturns : lobby.turns.map Turn.stored = lobby.turns := by
      conv_rhs => rw [← h.stored]
      rfl
    refine ⟨?_, rfl⟩
    exact {
      scheduled := Scheduled.stored
        (h.scheduled.rewriteTurn h.turns h.turns rfl ⟨rfl, rfl, rfl, rfl⟩ rfl)
      status := rfl
      turns := hturns.trans h.turns
      players := h.players
      order := h.order
      banks := h.banks
      counter := ⟨k, rfl⟩
      stored := Lobby.stored_stored _
      unresolved := h.unresolved }

/-- Complete ballots are counted. -/
theorem tallied (h : OpenVote settings start done t word lobby)
    {votes : Votes} {k now : ℕ} {next : Lobby}
    (hcast : VotesCast votes k (lobby.stamp now) next)
    (hquorum : votes.size + 1 = start.playerOrder.length) (awaiting : List Uid) :
    Tallied start done t word (Lobby.stored { next with awaitingBotVotes := awaiting }) := by
  cases hcast with
  | stillOpen hsize => exact absurd (h.order ▸ hquorum) hsize
  | tally _ done' u hturns bank hbank hpayable players hscored lobby' status hadvances =>
    obtain ⟨rfl, rfl⟩ := List.append_singleton_inj (h.turns.symm.trans hturns)
    obtain ⟨_, hrecord⟩ := hadvances.keeps_turn rfl
    refine ⟨((t.submit word).tally votes bank).stored, bank, ?_, ?_, ?_, rfl⟩
    · show (lobby'.turns.map Turn.stored)[done.length]? = _
      rw [List.getElem?_map, hrecord]
      rfl
    · rw [← h.banks]
      exact hbank
    · have hvoted : t.wasOthersWord = false := wasOthersWord_of_unresolved h.unresolved
      exact hvoted

/-- The challengers among complete ballots play. -/
theorem payable (h : OpenVote settings start done t word lobby)
    {votes : Votes} {k now : ℕ} {next : Lobby}
    (hcast : VotesCast votes k (lobby.stamp now) next)
    (hquorum : votes.size + 1 = start.playerOrder.length) : votes.Payable lobby.players := by
  cases hcast with
  | stillOpen hsize => exact absurd (h.order ▸ hquorum) hsize
  | tally _ done' u hturns bank hbank hpayable =>
    obtain ⟨_, rfl⟩ := List.append_singleton_inj (h.turns.symm.trans hturns)
    exact (Turn.tally_payable (wasOthersWord_of_unresolved h.unresolved) votes bank _).mp hpayable

end OpenVote

/-! ### A vote that cannot be completed -/

/-- New ballots keep the challenges of everyone but the waiting bots. -/
theorem NewBallots.payable {submitter : Uid} {ids voters : List Uid} {votes votes' votes'' : Votes}
    (h : NewBallots submitter ids voters votes votes') {players : Dict Uid Player}
    (hids : ∀ uid ∈ ids, uid ∈ players.keys)
    (hkept : ∀ uid, uid ∉ voters → votes''.get? uid = votes.get? uid)
    (hpayable : votes''.Payable players) : votes.Payable players := by
  rw [Votes.payable_iff] at hpayable ⊢
  intro uid htruthy
  by_cases hvoter : uid ∈ voters
  · -- a challenge that was overwritten was a bot's
    refine hids uid ?_
    by_contra hnot
    refine h.free uid hvoter (Votes.mem_settled.mpr ⟨?_, Or.inr ⟨htruthy, hnot⟩⟩)
    rw [Dict.mem_keys_iff]
    cases hget : votes.get? uid with
    | none =>
      rw [hget] at htruthy
      cases htruthy
    | some v => exact ⟨v, rfl⟩
  · exact hpayable uid (by rw [hkept uid hvoter]; exact htruthy)

/-- New ballots keep the settled ones. -/
theorem NewBallots.settled {submitter : Uid} {ids voters : List Uid} {votes votes' votes'' : Votes}
    (h : NewBallots submitter ids voters votes votes')
    (hkept : ∀ uid, uid ∉ voters → votes''.get? uid = votes.get? uid) :
    ∀ uid ∈ votes.settled submitter ids, uid ∈ votes''.settled submitter ids := by
  intro uid hsettled
  have hvoter : uid ∉ voters := fun hmem => h.free uid hmem hsettled
  rw [Votes.mem_settled] at hsettled ⊢
  rw [Dict.mem_keys_iff, hkept uid hvoter, ← Dict.mem_keys_iff]
  exact hsettled

/-- What the database keeps of new ballots, apart from the voters'. -/
theorem NewBallots.kept_stored {submitter : Uid} {ids voters : List Uid} {votes votes' : Votes}
    (h : NewBallots submitter ids voters votes votes') (hstored : votes.stored = votes) (uid : Uid)
    (huid : uid ∉ voters) : votes'.stored.get? uid = votes.get? uid := by
  calc votes'.stored.get? uid
      = (votes'.get? uid).bind Json.stored := Dict.get?_filterMap votes' Json.stored uid
    _ = (votes.get? uid).bind Json.stored := by rw [h.kept uid huid]
    _ = votes.stored.get? uid := (Dict.get?_filterMap votes Json.stored uid).symm
    _ = votes.get? uid := by rw [hstored]

theorem votingBots_subset (lobby : Lobby) (submitter : Uid) :
    ∀ uid ∈ votingBots lobby submitter, uid ∈ lobby.players.keys :=
  fun _ huid => (mem_electorate.mp (mem_votingBots.mp huid).1).2

/-- **Step lemma.** A vote that cannot be completed stays open, and cannot be completed. -/
theorem OpenVote.stuck {word : Json} {lobby : Lobby}
    (h : OpenVote settings start done t word lobby)
    (hstuck : ¬ VoteCanClose lobby t.player) {play : ℕ × Play}
    (hvote : IsVote (votingBots start t.player) play.2) :
    OpenVote settings start done t word (lobby.after lobbyId play) ∧
      ¬ VoteCanClose (lobby.after lobbyId play) t.player := by
  have hids : ∀ uid ∈ votingBots start t.player, uid ∈ lobby.players.keys := by
    rw [h.players]
    exact votingBots_subset start t.player
  rcases after_vote hvote h.onTurn (submitter_not_voting start t.player) with
    hrefused | ⟨voters, votes, k, next, awaiting, hnew, hcast, hafter⟩
  · rw [hrefused]
    exact ⟨h, hstuck⟩
  · have hsettled := hnew.settled hnew.kept
    -- complete ballots would have had room for the voters next to the settled ones
    have hopen : votes.size + 1 ≠ start.playerOrder.length := by
      intro hquorum
      refine hstuck ⟨hnew.payable hids hnew.kept (h.payable hcast hquorum), ?_⟩
      rw [h.votingBots_eq, h.order, ← hquorum]
      obtain ⟨uid, rest, hcons⟩ := List.exists_cons_of_ne_nil hnew.voters_ne_nil
      have huid : uid ∈ voters := by rw [hcons]; exact List.mem_cons_self
      have hlt := Votes.length_settled_lt (hnew.voted uid huid) (hnew.free uid huid)
        (fun u hu => (Votes.mem_settled.mp (hsettled u hu)).1)
      omega
    obtain ⟨hnext, hvotes⟩ := h.stillOpen hcast hopen awaiting
    rw [hafter]
    refine ⟨hnext, ?_⟩
    rintro ⟨hpayable, hroom⟩
    -- what is settled now was settled before
    have hkept := hnew.kept_stored (stored_votes h.stored)
    rw [hvotes, hnext.players, ← h.players] at hpayable
    refine hstuck ⟨hnew.payable hids hkept hpayable, ?_⟩
    have hle := Votes.length_settled_le (hnew.settled hkept)
    rw [hvotes, hnext.votingBots_eq, hnext.order] at hroom
    rw [h.votingBots_eq, h.order]
    omega

/-- **Run lemma.** Neither does any number of votes complete it. -/
theorem OpenVote.stuck_run {word : Json} {lobby : Lobby}
    (h : OpenVote settings start done t word lobby) (hstuck : ¬ VoteCanClose lobby t.player)
    {votes : List (ℕ × Play)} (hvotes : ∀ vote ∈ votes, IsVote (votingBots start t.player) vote.2) :
    OpenVote settings start done t word ((lobbyMachine lobbyId).run lobby votes) := by
  have hreach : (lobbyMachine lobbyId).Reaches
      (fun _ vote => IsVote (votingBots start t.player) vote.2) lobby
      ((lobbyMachine lobbyId).run lobby votes) :=
    ⟨votes, Machine.admissible_of_forall lobby (fun vote hmem _ => hvotes vote hmem), rfl⟩
  exact (hreach.invariant
    (I := fun lobby => OpenVote settings start done t word lobby ∧ ¬ VoteCanClose lobby t.player)
    (fun _ _ hI hvote => hI.1.stuck hI.2 hvote) ⟨h, hstuck⟩).1

/-! ### A vote that can be completed -/

/-- `play` casts `votes'` when the box holds `votes`, on whatever word. -/
structure Casts (lobbyId : LobbyId) (settings : Settings) (start : Lobby) (done : List Turn)
    (t : Turn) (votes votes' : Votes) (play : ℕ × Play) : Prop where
  isVote : IsVote (votingBots start t.player) play.2
  cast : ∀ word lobby, OpenVote settings start done t word lobby → lobby.votes = votes →
    ∃ k next awaiting, VotesCast votes' k (lobby.stamp play.1) next ∧
      lobby.after lobbyId play = Lobby.stored { next with awaitingBotVotes := awaiting }

/-- A vote of somebody who may vote. -/
theorem Casts.vote (lobbyId : LobbyId) {votes : Votes} {uid : Uid}
    {vote : Json} (hstorable : vote.storable = true) (hother : uid ≠ t.player)
    (hfresh : truthy? (votes.get? uid) = false)
    (hpayable : Votes.Payable (votes.set uid vote) start.players) :
    Casts lobbyId settings start done t votes (votes.set uid vote)
      (0, .call (.voteOnWord uid vote)) := by
  refine ⟨trivial, ?_⟩
  rintro word lobby h rfl
  obtain ⟨k, hk⟩ := h.counter
  obtain ⟨lobby', hok⟩ := h.scheduled.voteOnWord_commits lobbyId 0 h.status h.turns
    (Ne.symm hother) hstorable hfresh hk (fun _ bank =>
      (Turn.tally_payable (wasOthersWord_of_unresolved h.unresolved) _ bank _).mpr
        (h.players ▸ hpayable))
  have hafter : lobby.after lobbyId (0, .call (.voteOnWord uid vote)) = lobby' := by
    simp only [Lobby.after, Play.transaction, Call.transaction, hok]
  have heffect : CallEffect 0 lobby (.voteOnWord uid vote) lobby' := call_ok hok
  obtain ⟨_, _, _, _, next, _, hcast, rfl⟩ := heffect
  exact ⟨_, next, next.awaitingBotVotes, hcast, hafter⟩

/-- The batch of the waiting bots. -/
theorem Casts.batch (lobbyId : LobbyId) {votes : Votes}
    (hids : votingBots start t.player ≠ []) {botVote : Bool} {random : Draw}
    (hpayable : (castBotVotes votes (votingBots start t.player) botVote random).Payable
      start.players) :
    Casts lobbyId settings start done t votes
      (castBotVotes votes (votingBots start t.player) botVote random)
      (0, .batch (votingBots start t.player) botVote random) := by
  generalize hbots : votingBots start t.player = ids at hids hpayable
  refine ⟨⟨hbots.symm, hids⟩, ?_⟩
  rintro word lobby h rfl
  obtain ⟨k, hk⟩ := h.counter
  obtain ⟨lobby', hok⟩ := h.scheduled.watchForBotVotes_commits lobbyId 0 h.turns hk ids botVote
    random (fun _ bank =>
      (Turn.tally_payable (wasOthersWord_of_unresolved h.unresolved) _ bank _).mpr
        (h.players ▸ hpayable))
  have hafter : lobby.after lobbyId (0, .batch ids botVote random) = lobby' := by
    simp only [Lobby.after, Play.transaction, hok]
  have hok : updateLobby lobbyId ((BotTrigger.watchForBotVotes 0 ids).transaction
      ⟨botVote, "", random⟩) 0 (some lobby) = .ok lobby' := hok
  have heffect : TriggerEffect 0 ⟨botVote, "", random⟩ lobby (.watchForBotVotes 0 ids) lobby' :=
    trigger_ok hok
  obtain ⟨_, next, _, hcast, rfl⟩ := heffect
  exact ⟨_, next, [], hcast, hafter⟩

/-- Under `plays` the vote on any word is completed, with the ballots `votes` in the box. -/
def Completes (lobbyId : LobbyId) (settings : Settings) (start : Lobby) (done : List Turn)
    (t : Turn) (votes : Votes) (plays : List (ℕ × Play)) : Prop :=
  (∀ play ∈ plays, IsVote (votingBots start t.player) play.2) ∧
  ∀ word lobby, OpenVote settings start done t word lobby → lobby.votes = votes →
    Tallied start done t word ((lobbyMachine lobbyId).run lobby plays)

/-- The play that completes the ballots. -/
theorem Casts.last {votes votes' : Votes} {play : ℕ × Play}
    (h : Casts lobbyId settings start done t votes votes' play)
    (hquorum : votes'.size + 1 = start.playerOrder.length) :
    Completes lobbyId settings start done t votes [play] := by
  refine ⟨?_, ?_⟩
  · intro play' hplay
    rw [List.mem_singleton.mp hplay]
    exact h.isVote
  · intro word lobby hlobby hvotes
    obtain ⟨k, next, awaiting, hcast, hafter⟩ := h.cast word lobby hlobby hvotes
    show Tallied start done t word (lobby.after lobbyId play)
    rw [hafter]
    exact hlobby.tallied hcast hquorum awaiting

/-- A play after which others complete the ballots. -/
theorem Casts.cons {votes votes' : Votes} {play : ℕ × Play}
    (h : Casts lobbyId settings start done t votes votes' play)
    (hopen : votes'.size + 1 ≠ start.playerOrder.length) {plays : List (ℕ × Play)}
    (hrest : Completes lobbyId settings start done t votes'.stored plays) :
    Completes lobbyId settings start done t votes (play :: plays) := by
  refine ⟨?_, ?_⟩
  · intro play' hplay
    rcases List.mem_cons.mp hplay with rfl | hplay
    · exact h.isVote
    · exact hrest.1 play' hplay
  · intro word lobby hlobby hvotes
    obtain ⟨k, next, awaiting, hcast, hafter⟩ := h.cast word lobby hlobby hvotes
    obtain ⟨hnext, hnextVotes⟩ := hlobby.stillOpen hcast hopen awaiting
    show Tallied start done t word ((lobbyMachine lobbyId).run (lobby.after lobbyId play) plays)
    rw [hafter]
    exact hrest.2 word _ hnext hnextVotes

/-- The ballots as stored are those that the database keeps. -/
theorem Votes.stored_iff {votes : Votes} :
    votes.stored = votes ↔ votes.All (fun _ v => v.stored = some v) := by
  constructor
  · intro h uid v hget
    rw [← h, Votes.stored, Dict.get?_filterMap, Option.bind_eq_some_iff] at hget
    obtain ⟨_, _, hv⟩ := hget
    exact (Json.stored_eq_some hv).2
  · intro h
    exact Dict.filterMap_eq_self (fun e he => h e.1 e.2 (Dict.get?_eq_some_iff.mpr he))

theorem Votes.truthy_set {votes : Votes} {uid : Uid} {vote : Json} (hvote : vote.truthy = false)
    (u : Uid) : truthy? ((votes.set uid vote).get? u) = true → truthy? (votes.get? u) = true := by
  intro htruthy
  by_cases hu : u = uid
  · rw [hu, Dict.get?_set_self] at htruthy
    have htruthy : vote.truthy = true := htruthy
    rw [hvote] at htruthy
    cases htruthy
  · rwa [Dict.get?_set_ne _ _ hu] at htruthy

theorem Votes.payable_set {votes : Votes} {players : Dict Uid Player} (h : votes.Payable players)
    (uid : Uid) {vote : Json} (hvote : vote.truthy = false) :
    Votes.Payable (votes.set uid vote) players := by
  rw [Votes.payable_iff] at h ⊢
  exact fun u htruthy => h u (Votes.truthy_set hvote u htruthy)

/-- While two ballots are missing, another player than the submitter has not voted. -/
theorem Submitting.exists_fresh (h : Submitting settings start done t) {votes : Votes}
    (hsize : votes.size + 2 ≤ start.playerOrder.length) :
    ∃ uid ∈ start.playerOrder, uid ≠ t.player ∧ uid ∉ votes.keys := by
  by_contra hall
  have hsub : start.playerOrder ⊆ t.player :: votes.keys := by
    intro uid huid
    by_contra hnot
    rw [List.mem_cons, not_or] at hnot
    exact hall ⟨uid, huid, hnot⟩
  have hle := (List.subperm_of_subset h.scheduled.order_nodup hsub).length_le
  rw [List.length_cons] at hle
  have hkeys : votes.keys.length = votes.size := rfl
  omega

/-- **Filling the box.** Players who have not voted let the word pass, until the last of them
    completes the ballots. -/
theorem Submitting.fill (h : Submitting settings start done t) (lobbyId : LobbyId) (missing : ℕ)
    {votes : Votes} (hsize : votes.size + 2 + missing = start.playerOrder.length)
    (hstored : votes.stored = votes) (hpayable : votes.Payable start.players) :
    ∃ plays, Completes lobbyId settings start done t votes plays := by
  induction missing generalizing votes with
  | zero =>
    obtain ⟨uid, _, hother, hfresh⟩ := h.exists_fresh (le_of_eq hsize)
    have hnone : votes.get? uid = none := Dict.get?_eq_none_iff.mpr hfresh
    have hlast : (votes.set uid (.bool false)).size = votes.size + 1 := by
      rw [Dict.size_set, if_neg hfresh]
    have hpass : Votes.Payable (votes.set uid (.bool false)) start.players :=
      Votes.payable_set hpayable uid rfl
    have hcasts : Casts lobbyId settings start done t votes (votes.set uid (.bool false)) _ :=
      .vote lobbyId rfl hother (by rw [hnone]; rfl) hpass
    exact ⟨_, hcasts.last (by omega)⟩
  | succ missing ih =>
    obtain ⟨uid, _, hother, hfresh⟩ := h.exists_fresh (show votes.size + 2 ≤ _ by omega)
    have hnone : votes.get? uid = none := Dict.get?_eq_none_iff.mpr hfresh
    have hnext : (votes.set uid (.bool false)).size = votes.size + 1 := by
      rw [Dict.size_set, if_neg hfresh]
    have hkept : Votes.stored (votes.set uid (.bool false)) = votes.set uid (.bool false) :=
      Votes.stored_iff.mpr ((Votes.stored_iff.mp hstored).set rfl)
    have hpass : Votes.Payable (votes.set uid (.bool false)) start.players :=
      Votes.payable_set hpayable uid rfl
    have hcasts : Casts lobbyId settings start done t votes (votes.set uid (.bool false)) _ :=
      .vote lobbyId rfl hother (by rw [hnone]; rfl) hpass
    obtain ⟨plays, hplays⟩ := ih (by omega) hkept hpass
    rw [← hkept] at hplays
    exact ⟨_, hcasts.cons (by omega) hplays⟩

/-- A vote that the database does not keep takes the ballot out of the box. -/
theorem Votes.get?_withdrawn {votes : Votes} (hstored : votes.stored = votes) (uid u : Uid) :
    (Votes.stored (votes.set uid .null)).get? u = if u = uid then none else votes.get? u := by
  rw [Votes.stored, Dict.get?_filterMap]
  by_cases hu : u = uid
  · rw [hu, Dict.get?_set_self, if_pos rfl]
    rfl
  · rw [Dict.get?_set_ne _ _ hu, if_neg hu, ← Dict.get?_filterMap]
    exact congrArg (fun d : Votes => d.get? u) hstored

theorem Votes.size_withdrawn {votes : Votes} (hstored : votes.stored = votes) {uid : Uid}
    (huid : uid ∈ votes.keys) : (Votes.stored (votes.set uid .null)).size + 1 = votes.size := by
  have hmem : ∀ u, u ∈ (Votes.stored (votes.set uid .null)).keys ↔ u ∈ votes.keys.erase uid := by
    intro u
    rw [votes.keys_nodup.mem_erase_iff, Dict.mem_keys_iff, Votes.get?_withdrawn hstored]
    by_cases hu : u = uid
    · simp [hu]
    · rw [if_neg hu, ← Dict.mem_keys_iff]
      simp [hu]
  have hperm := (List.perm_ext_iff_of_nodup (Dict.keys_nodup _) (votes.keys_nodup.erase uid)).mpr
    hmem
  have hpos := List.length_pos_of_mem huid
  have hlen : votes.keys.length = votes.size := rfl
  show (Votes.stored (votes.set uid .null)).keys.length + 1 = votes.size
  rw [hperm.length_eq, List.length_erase_of_mem huid]
  omega

/-- In a box with more ballots than settled ones, somebody may vote again. -/
theorem Votes.exists_free {votes : Votes} {submitter : Uid}
    (hroom : (votes.settled submitter []).length < votes.size) :
    ∃ uid ∈ votes.keys, uid ≠ submitter ∧ truthy? (votes.get? uid) = false := by
  by_contra hall
  have hsub : votes.keys ⊆ votes.settled submitter [] := by
    intro uid huid
    rw [Votes.mem_settled]
    by_contra hnot
    rw [not_and_or, not_or, not_and_or] at hnot
    rcases hnot with hout | ⟨hother, hfresh | hin⟩
    · exact hout huid
    · exact hall ⟨uid, huid, hother, by simpa using hfresh⟩
    · exact hin List.not_mem_nil
  have hle := (List.subperm_of_subset votes.keys_nodup hsub).length_le
  have hkeys : votes.keys.length = votes.size := rfl
  omega

/-- **Emptying the box.** Ballots that are not settled are withdrawn, until there are as many as
    complete the vote. -/
theorem Completes.drain (lobbyId : LobbyId) (excess : ℕ) {votes : Votes}
    (hsize : votes.size + 1 = start.playerOrder.length + excess)
    (hroom : (votes.settled t.player []).length + 2 ≤ start.playerOrder.length)
    (hstored : votes.stored = votes) (hpayable : votes.Payable start.players) :
    ∃ plays, Completes lobbyId settings start done t votes plays := by
  induction excess generalizing votes with
  | zero =>
    have hfree : (votes.settled t.player []).length < votes.size := by omega
    obtain ⟨uid, huid, hother, hfresh⟩ := Votes.exists_free hfree
    have hsame : (votes.set uid .null).size = votes.size := by rw [Dict.size_set, if_pos huid]
    have hpass : Votes.Payable (votes.set uid .null) start.players :=
      Votes.payable_set hpayable uid rfl
    have hcasts : Casts lobbyId settings start done t votes (votes.set uid .null) _ :=
      .vote lobbyId rfl hother hfresh hpass
    exact ⟨_, hcasts.last (by omega)⟩
  | succ excess ih =>
    have hfree : (votes.settled t.player []).length < votes.size := by omega
    obtain ⟨uid, huid, hother, hfresh⟩ := Votes.exists_free hfree
    have hsame : (votes.set uid .null).size = votes.size := by rw [Dict.size_set, if_pos huid]
    have hpass : Votes.Payable (votes.set uid .null) start.players :=
      Votes.payable_set hpayable uid rfl
    have hless := Votes.size_withdrawn hstored huid
    -- the withdrawn ballot was no challenge, and not settled
    have hget : ∀ u, truthy? ((Votes.stored (votes.set uid .null)).get? u) = true →
        truthy? (votes.get? u) = true := by
      intro u htruthy
      rw [Votes.get?_withdrawn hstored] at htruthy
      split at htruthy
      · cases htruthy
      · exact htruthy
    have hpayable' : Votes.Payable (Votes.stored (votes.set uid .null)) start.players := by
      rw [Votes.payable_iff] at hpayable ⊢
      exact fun u htruthy => hpayable u (hget u htruthy)
    have hle : ((Votes.stored (votes.set uid .null)).settled t.player []).length
        ≤ (votes.settled t.player []).length := by
      refine Votes.length_settled_le (fun u hu => ?_)
      rw [Votes.mem_settled] at hu ⊢
      obtain ⟨hkey, hsettled⟩ := hu
      rw [Dict.mem_keys_iff, Votes.get?_withdrawn hstored] at hkey
      refine ⟨?_, hsettled.imp_right (fun hchallenge => ⟨hget u hchallenge.1, hchallenge.2⟩)⟩
      split at hkey
      · obtain ⟨_, hnone⟩ := hkey
        cases hnone
      · exact Dict.mem_keys_iff.mpr hkey
    obtain ⟨plays, hplays⟩ := ih (by omega) (by omega) (Votes.stored_stored _) hpayable'
    have hcasts : Casts lobbyId settings start done t votes (votes.set uid .null) _ :=
      .vote lobbyId rfl hother hfresh hpass
    exact ⟨_, hcasts.cons (by omega) hplays⟩

/-- With no waiting bot's challenge in the box, it is filled or emptied. -/
theorem Submitting.complete (h : Submitting settings start done t) (lobbyId : LobbyId)
    {votes : Votes} (hroom : (votes.settled t.player []).length + 2 ≤ start.playerOrder.length)
    (hstored : votes.stored = votes) (hpayable : votes.Payable start.players) :
    ∃ plays, Completes lobbyId settings start done t votes plays := by
  rcases Nat.lt_or_ge (votes.size + 1) start.playerOrder.length with hless | hmore
  · obtain ⟨missing, hmissing⟩ := Nat.exists_eq_add_of_le (show votes.size + 2 ≤ _ from hless)
    exact h.fill lobbyId missing hmissing.symm hstored hpayable
  · obtain ⟨excess, hexcess⟩ := Nat.exists_eq_add_of_le hmore
    exact Completes.drain lobbyId excess hexcess hroom hstored hpayable

/-- A batch in which all bots let the word pass. -/
theorem castBotVotes_pass {votes : Votes} {ids : List Uid} {uid : Uid} (huid : uid ∈ ids)
    (random : Draw) :
    (castBotVotes votes ids false random).get? uid = some (.bool false) := by
  have hfold : ∀ votes : Votes, uid ∈ ids →
      (ids.foldl (fun votes botId => votes.set botId (.bool false)) votes).get? uid
        = some (.bool false) := by
    clear huid
    induction ids with
    | nil => exact fun votes hmem => absurd hmem List.not_mem_nil
    | cons id ids ih =>
      intro votes hmem
      rw [List.foldl_cons]
      by_cases hlater : uid ∈ ids
      · exact ih _ hlater
      · obtain rfl : uid = id := (List.mem_cons.mp hmem).resolve_right hlater
        rw [foldl_pass_get? hlater, Dict.get?_set_self]
  unfold castBotVotes
  rw [Dict.get?_set]
  split
  · rfl
  · exact hfold votes huid

/-- **A vote that can be completed is completed by some votes**, the same for every word. -/
theorem VoteCanClose.plays (hclose : VoteCanClose start t.player)
    (h : Submitting settings start done t) (lobbyId : LobbyId) :
    ∃ plays, Completes lobbyId settings start done t start.votes plays := by
  obtain ⟨hpayable, hroom⟩ := hclose
  have hstored : start.votes.stored = start.votes := stored_votes h.stored
  by_cases hids : votingBots start t.player = []
  · -- no bot waits, so all challenges are settled
    rw [hids] at hroom
    exact h.complete lobbyId hroom hstored hpayable
  · -- first all bots let the word pass
    have hsubmitter := submitter_not_voting start t.player
    have hget : ∀ u, truthy? ((castBotVotes start.votes (votingBots start t.player) false
        Draw.zero).get? u) = true →
        u ∉ votingBots start t.player ∧ truthy? (start.votes.get? u) = true := by
      intro u htruthy
      by_cases hbot : u ∈ votingBots start t.player
      · rw [castBotVotes_pass hbot] at htruthy
        cases htruthy
      · rw [castBotVotes_get? hids hbot] at htruthy
        exact ⟨hbot, htruthy⟩
    have hpass : (castBotVotes start.votes (votingBots start t.player) false Draw.zero).Payable
        start.players := by
      rw [Votes.payable_iff] at hpayable ⊢
      exact fun u htruthy => hpayable u (hget u htruthy).2
    have hcasts : Casts lobbyId settings start done t start.votes _ _ :=
      .batch lobbyId hids hpass
    by_cases hquorum : (castBotVotes start.votes (votingBots start t.player) false
        Draw.zero).size + 1 = start.playerOrder.length
    · exact ⟨_, hcasts.last hquorum⟩
    · have hkept : (castBotVotes start.votes (votingBots start t.player) false Draw.zero).stored
          = castBotVotes start.votes (votingBots start t.player) false Draw.zero :=
        Votes.stored_iff.mpr
          (Votes.All.castBotVotes (Votes.stored_iff.mp hstored) hids (fun _ _ _ => rfl) _ _)
      have hle : ((castBotVotes start.votes (votingBots start t.player) false
          Draw.zero).settled t.player []).length
          ≤ (start.votes.settled t.player (votingBots start t.player)).length := by
        refine Votes.length_settled_le (fun u hu => ?_)
        rw [Votes.mem_settled, mem_keys_castBotVotes hids] at hu
        rw [Votes.mem_settled]
        obtain ⟨hkey, rfl | ⟨htruthy, _⟩⟩ := hu
        · exact ⟨hkey.resolve_right hsubmitter, Or.inl rfl⟩
        · obtain ⟨hbot, htruthy⟩ := hget u htruthy
          exact ⟨hkey.resolve_right hbot, Or.inr ⟨htruthy, hbot⟩⟩
      obtain ⟨plays, hplays⟩ := h.complete lobbyId (by omega) hkept hpass
      rw [← hkept] at hplays
      exact ⟨_, hcasts.cons hquorum hplays⟩

/-- **The votes that can be completed.**  Once a word is up that nobody else has, some votes
    complete the ballots exactly if `VoteCanClose` held when it was submitted. -/
theorem Submitting.completable_iff (h : Submitting settings start done t) (lobbyId : LobbyId)
    (now : ℕ) {word : Json} (hstorable : word.storable = true)
    (hnone : findOther start t.player (some word) = none) :
    (∃ votes, (∀ vote ∈ votes, IsVote (votingBots start t.player) vote.2) ∧
      Tallied start done t word ((lobbyMachine lobbyId).run
        (start.after lobbyId (now, .call (.submitWord t.player word))) votes)) ↔
      VoteCanClose start t.player := by
  rw [h.after hstorable hnone]
  constructor
  · rintro ⟨votes, hvotes, htallied⟩
    by_contra hstuck
    have hopen : OpenVote settings start done t word
        ((lobbyMachine lobbyId).run (start.votingOn now done t word) votes) :=
      (h.openVote now word).stuck_run hstuck hvotes
    -- the turn is still unresolved
    obtain ⟨u, bank, hget, _, _, hown⟩ := htallied
    rw [hopen.turns, List.getElem?_concat_length] at hget
    obtain rfl := Option.some.inj hget
    have hown : t.wasSubmittersWord = _ := hown
    exact h.unresolved (Or.inr (by rw [hown]; exact Option.some_ne_none _))
  · intro hclose
    obtain ⟨votes, hvotes, hcomplete⟩ := hclose.plays h lobbyId
    exact ⟨votes, hvotes, hcomplete word _ (h.openVote now word) rfl⟩

end

end PasswordApp
