import PasswordApp.Game.Redelivery
import PasswordApp.Library.Lockstep

namespace PasswordApp

/-!
# Game — what the players cannot see

The word banks and the pool are hidden.  Two lobbies that differ in them only, and in the
bank of the submitter only, look the same until the votes are tallied.

* `PublicView`, `observe` — the public subtree, and what a request shows: the rejection, if
  any, and the public subtree after it;
* `HiddenApart`, `SameButWords` — lobbies that differ in one bank and in the pool, or in
  hidden words of the same number;
* `BothIn.update` — what each transaction makes of such a pair;
* `hidden_until_tally` — until the ballots are complete both lobbies show the same.
-/

/-! ### What is shown -/

/-- The subtree `public`. -/
structure PublicView where
  status : Status
  players : Dict Uid Player
  playerOrder : List Uid
  turns : List Turn
  settings : Option Settings
  startWord : Option String
  votesTallied : Option ℕ

def Lobby.publicView (lobby : Lobby) : PublicView where
  status := lobby.status
  players := lobby.players
  playerOrder := lobby.playerOrder
  turns := lobby.turns
  settings := lobby.settings
  startWord := lobby.startWord
  votesTallied := lobby.votesTallied

/-- A request reaches the lobby, or the batch of some bots. -/
inductive Play where
  | call (c : Call)
  | batch (votingBotIds : List Uid) (botVote : Bool) (random : Draw)

namespace Play

def transaction (lobbyId : LobbyId) : Play → LobbyTransaction
  | .call c => c.transaction lobbyId
  | .batch votingBotIds botVote random => watchForBotVotes votingBotIds botVote random

/-- Is it a submission? -/
def isSubmission : Play → Bool
  | .call (.submitWord _ _) => true
  | _ => false

/-- The ballots after a vote or a batch. -/
def ballots (votes : Votes) : Play → Option Votes
  | .call (.voteOnWord playerId vote) => some (votes.set playerId vote)
  | .call _ => none
  | .batch votingBotIds botVote random => some (castBotVotes votes votingBotIds botVote random)

end Play

/-- The votes are let through and complete the ballots. -/
def CompletesQuorum (lobbyId : LobbyId) (lobby : Lobby) (play : Play) : Prop :=
  (play.transaction lobbyId).validateLobbyFn lobby = .ok none ∧
  ∃ votes ∈ play.ballots lobby.votes, votes.size + 1 = lobby.playerOrder.length

instance (lobbyId : LobbyId) (lobby : Lobby) (play : Play) :
    Decidable (CompletesQuorum lobbyId lobby play) :=
  inferInstanceAs (Decidable (_ ∧ ∃ votes ∈ play.ballots lobby.votes, _))

/-- The lobby after a play, at its time; a rejected one changes nothing. -/
def Lobby.after (lobbyId : LobbyId) (lobby : Lobby) (play : ℕ × Play) : Lobby :=
  match updateLobby lobbyId (play.2.transaction lobbyId) play.1 (some lobby) with
  | .error _ => lobby
  | .ok lobby' => lobby'

/-- The lobby under a list of plays. -/
def lobbyMachine (lobbyId : LobbyId) : Machine Lobby (ℕ × Play) := ⟨Lobby.after lobbyId⟩

/-- The guard of plays that leave the ballots open. -/
def LeavesOpen (lobbyId : LobbyId) (lobby : Lobby) (play : ℕ × Play) : Prop :=
  ¬ CompletesQuorum lobbyId lobby play.2

instance (lobbyId : LobbyId) (lobby : Lobby) (play : ℕ × Play) :
    Decidable (LeavesOpen lobbyId lobby play) :=
  inferInstanceAs (Decidable (¬ _))

/-- What a play shows: why it was rejected, and the public subtree after it. -/
def observe (lobbyId : LobbyId) (lobby : Lobby) (play : ℕ × Play) : Option Failure × PublicView :=
  match updateLobby lobbyId (play.2.transaction lobbyId) play.1 (some lobby) with
  | .error failure => (some failure, lobby.publicView)
  | .ok lobby' => (none, lobby'.publicView)

/-! ### What is hidden -/

/-- The lobby with other banks and another pool. -/
def Lobby.withWords (lobby : Lobby) (banks : Dict Uid (List String)) (pool : List String) : Lobby :=
  { lobby with targetWords := banks, availableWords := pool }

/-- The same people have banks, of the same sizes. -/
def SameSizes (banks banks' : Dict Uid (List String)) : Prop :=
  ∀ uid, (banks'.get? uid).map List.length = (banks.get? uid).map List.length

/-- Equal but for hidden words of the same number. -/
inductive SameButWords (lobby : Lobby) : Lobby → Prop
  | intro (banks : Dict Uid (List String)) (pool : List String)
      (hbanks : SameSizes lobby.targetWords banks)
      (hpool : pool.length = lobby.availableWords.length) :
      SameButWords lobby (lobby.withWords banks pool)

/-- Equal but for the contents of the bank of `playerId` and of the pool. -/
inductive HiddenApart (playerId : Uid) (lobby : Lobby) : Lobby → Prop
  | intro (banks : Dict Uid (List String)) (pool : List String)
      (hothers : ∀ uid, uid ≠ playerId → banks.get? uid = lobby.targetWords.get? uid)
      (hown : (banks.get? playerId).map List.length
        = (lobby.targetWords.get? playerId).map List.length)
      (hpool : pool.length = lobby.availableWords.length) :
      HiddenApart playerId lobby (lobby.withWords banks pool)

theorem HiddenApart.same {playerId : Uid} {lobby lobby' : Lobby}
    (h : HiddenApart playerId lobby lobby') : SameButWords lobby lobby' := by
  obtain ⟨banks, pool, hothers, hown, hpool⟩ := h
  refine .intro banks pool (fun uid => ?_) hpool
  by_cases huid : uid = playerId
  · rw [huid, hown]
  · rw [hothers uid huid]

/-- One bank exchanged for another of its size, and the pool for another. -/
theorem hiddenApart_set {playerId : Uid} {lobby : Lobby} {bank bank' pool : List String}
    (hbank : lobby.targetWords.get? playerId = some bank) (hlen : bank'.length = bank.length)
    (hpool : pool.length = lobby.availableWords.length) :
    HiddenApart playerId lobby (lobby.withWords (lobby.targetWords.set playerId bank') pool) := by
  refine .intro _ pool (fun uid huid => Dict.get?_set_ne _ _ huid) ?_ hpool
  rw [Dict.get?_set_self, hbank, Option.map_some, Option.map_some, hlen]

namespace SameButWords

variable {lobby lobby' : Lobby}

theorem publicView (h : SameButWords lobby lobby') : lobby'.publicView = lobby.publicView := by
  obtain ⟨_, _, _, _⟩ := h
  rfl

theorem stamp (h : SameButWords lobby lobby') (now : ℕ) :
    SameButWords (lobby.stamp now) (lobby'.stamp now) := by
  obtain ⟨banks, pool, hbanks, hpool⟩ := h
  show SameButWords (lobby.stamp now) ((lobby.stamp now).withWords banks pool)
  exact .intro banks pool hbanks hpool

theorem stored (h : SameButWords lobby lobby') : SameButWords lobby.stored lobby'.stored := by
  obtain ⟨banks, pool, hbanks, hpool⟩ := h
  show SameButWords lobby.stored (lobby.stored.withWords banks pool)
  exact .intro banks pool hbanks hpool

theorem unflag (h : SameButWords lobby lobby') :
    SameButWords { lobby with awaitingBotVotes := [] } { lobby' with awaitingBotVotes := [] } := by
  obtain ⟨banks, pool, hbanks, hpool⟩ := h
  show SameButWords { lobby with awaitingBotVotes := [] }
    (Lobby.withWords { lobby with awaitingBotVotes := [] } banks pool)
  exact .intro banks pool hbanks hpool

/-- No validation function reads a hidden word. -/
theorem validate (h : SameButWords lobby lobby') (lobbyId : LobbyId) (play : Play) :
    (play.transaction lobbyId).validateLobbyFn lobby'
      = (play.transaction lobbyId).validateLobbyFn lobby := by
  obtain ⟨_, _, _, _⟩ := h
  cases play with
  | batch votingBotIds botVote random => rfl
  | call c => cases c <;> rfl

end SameButWords

/-! ### What the plays make of such lobbies -/

/-- The relation kept until the votes are tallied: equal but for hidden words, in one of the
    statuses `S`. -/
def BothIn (S : Status → Prop) (lobby lobby' : Lobby) : Prop :=
  SameButWords lobby lobby' ∧ S lobby.status

theorem setStatus_voting {lobby lobby' : Lobby} (h : SameButWords lobby lobby') :
    BothIn (fun status => status = .voting) (setStatus (lobby, .voting))
      (setStatus (lobby', .voting)) := by
  obtain ⟨banks, pool, hbanks, hpool⟩ := h
  refine ⟨?_, rfl⟩
  show SameButWords (setStatus (lobby, .voting)) ((setStatus (lobby, .voting)).withWords banks pool)
  exact .intro banks pool hbanks hpool

/-- Ballots that are not complete are counted, and nothing else. -/
theorem castVotes_open {lobby : Lobby} {votes : Votes} (n : ℕ)
    (hopen : votes.size + 1 ≠ lobby.playerOrder.length) :
    castVotes lobby votes n = (orThrow .unstorable lobby.votesTallied).map
      (fun k => ({ lobby with votes := votes, votesTallied := some (k + n) }, .voting)) := by
  unfold castVotes handleVote
  simp only [if_neg hopen, ok_bind]
  cases lobby.votesTallied with
  | none => rfl
  | some k => rfl

theorem SameButWords.castVotes {lobby lobby' : Lobby} (h : SameButWords lobby lobby')
    {votes : Votes} (n : ℕ) (hopen : votes.size + 1 ≠ lobby.playerOrder.length) :
    Alike (fun r r' => BothIn (fun status => status = .voting) (setStatus r) (setStatus r'))
      (PasswordApp.castVotes lobby votes n) (PasswordApp.castVotes lobby' votes n) := by
  obtain ⟨banks, pool, hbanks, hpool⟩ := h
  have hopen' : votes.size + 1 ≠ (lobby.withWords banks pool).playerOrder.length := hopen
  rw [castVotes_open n hopen, castVotes_open n hopen']
  show Alike _ _ ((orThrow .unstorable lobby.votesTallied).map _)
  cases lobby.votesTallied with
  | none => exact .error _
  | some k =>
    -- the counter moves the same way, the words stay apart
    refine .ok (setStatus_voting ?_)
    show SameButWords { lobby with votes := votes, votesTallied := some (k + n) }
      (Lobby.withWords { lobby with votes := votes, votesTallied := some (k + n) } banks pool)
    exact .intro banks pool hbanks hpool

theorem SameSizes.set {banks banks' : Dict Uid (List String)} (h : SameSizes banks banks')
    (uid : Uid) {bank bank' : List String} (hlen : bank'.length = bank.length) :
    SameSizes (banks.set uid bank) (banks'.set uid bank') := by
  intro u
  by_cases hu : u = uid
  · rw [hu, Dict.get?_set_self, Dict.get?_set_self, Option.map_some, Option.map_some, hlen]
  · rw [Dict.get?_set_ne _ _ hu, Dict.get?_set_ne _ _ hu, h u]

/-- An exchange reads from the hidden words only how many there are. -/
theorem SameButWords.assignNewWords {lobby lobby' : Lobby} (h : SameButWords lobby lobby')
    (playerId : Uid) (random : ℕ → Draw) :
    Alike (fun next next' => SameButWords next next' ∧ next.status = lobby.status)
      (PasswordApp.assignNewWords lobby playerId random)
      (PasswordApp.assignNewWords lobby' playerId random) := by
  obtain ⟨banks, pool, hbanks, hpool⟩ := h
  unfold PasswordApp.assignNewWords
  refine Alike.bind_same _ (fun settings _ => ?_)
  have hsize := hbanks playerId
  show Alike _ _ (orThrow .typeError (banks.get? playerId) >>= _)
  cases hbank : lobby.targetWords.get? playerId with
  | none =>
    rw [hbank, Option.map_none, Option.map_eq_none_iff] at hsize
    rw [hsize]
    exact .error _
  | some ditched =>
    rw [hbank, Option.map_some, Option.map_eq_some_iff] at hsize
    obtain ⟨ditched', hbank', hditched⟩ := hsize
    rw [hbank', orThrow_some, ok_bind, orThrow_some, ok_bind]
    by_cases hempty : lobby.availableWords = []
    · have hempty' : pool = [] := by
        rw [hempty] at hpool
        exact List.eq_nil_of_length_eq_zero hpool
      subst hempty'
      rw [if_pos hempty]
      exact .error _
    · have hempty' : pool ≠ [] := by
        rintro rfl
        exact hempty (List.eq_nil_of_length_eq_zero hpool.symm)
      rw [if_neg hempty]
      show Alike _ _ (if pool = [] then _ else _)
      rw [if_neg hempty']
      -- the charge is on the public players
      refine Alike.bind_same _ (fun players _ => .ok ⟨?_, rfl⟩)
      have hfresh : (pool.take settings.wordBankSize).length
          = (lobby.availableWords.take settings.wordBankSize).length := by
        rw [List.length_take, List.length_take, hpool]
      have hrest : (shuffleArray (pool.drop settings.wordBankSize ++ ditched') random).length
          = (shuffleArray (lobby.availableWords.drop settings.wordBankSize ++ ditched)
              random).length := by
        rw [(shuffleArray_perm _ random).length_eq, (shuffleArray_perm _ random).length_eq,
          List.length_append, List.length_append, List.length_drop, List.length_drop, hpool,
          hditched]
      exact .intro (banks.set playerId (pool.take settings.wordBankSize)) _
        (hbanks.set playerId hfresh) hrest

/-- A vote is under way, or a word is awaited and the play does not bring one. -/
def Lobby.Takes (lobby : Lobby) (play : Play) : Prop :=
  lobby.status = .voting ∨ lobby.status = .submission ∧ play.isSubmission = false

theorem Lobby.Takes.started {lobby : Lobby} {play : Play} (h : lobby.Takes play) :
    lobby.status ≠ .lobby := by
  rcases h with hstatus | ⟨hstatus, _⟩ <;> rw [hstatus] <;> exact Status.noConfusion

/-- Ballots stay open in both lobbies or in neither. -/
theorem BothIn.update {S : Status → Prop} {lobby lobby' : Lobby} (h : BothIn S lobby lobby')
    (hvoting : S .voting) {lobbyId : LobbyId} {play : Play} (now : ℕ) (htakes : lobby.Takes play)
    (hvalid : (play.transaction lobbyId).validateLobbyFn lobby = .ok none)
    (hopen : ¬ CompletesQuorum lobbyId lobby play) :
    Alike (BothIn S) ((play.transaction lobbyId).updateLobbyFn (lobby.stamp now))
      ((play.transaction lobbyId).updateLobbyFn (lobby'.stamp now)) := by
  obtain ⟨hsame, hS⟩ := h
  have hstamped := hsame.stamp now
  have hstarted := htakes.started
  cases play with
  | call c =>
    cases c with
    | addPlayerToLobby player playerId =>
      simp [Play.transaction, Call.transaction, addPlayerToLobby, hstarted, preconditionError]
        at hvalid
    | addBot requesterId =>
      simp [Play.transaction, Call.transaction, addBot, hstarted, preconditionError, hostError]
        at hvalid
      split at hvalid <;> cases hvalid
    | startGame playerId gameSettings random =>
      simp [Play.transaction, Call.transaction, startGame, hstarted, preconditionError, hostError]
        at hvalid
      split at hvalid <;> cases hvalid
    | submitWord playerId word =>
      rcases htakes with hstatus | ⟨_, hnone⟩
      · simp [Play.transaction, Call.transaction, submitWord, hstatus, preconditionError] at hvalid
      · cases hnone
    | requestNewWords playerId random =>
      have halike := hstamped.assignNewWords playerId random
      show Alike (BothIn S) (assignNewWords _ playerId random) (assignNewWords _ playerId random)
      exact halike.mono (fun _ _ hnext => ⟨hnext.1, hnext.2 ▸ hS⟩)
    | voteOnWord playerId vote =>
      have hvotes : (lobby.votes.set playerId vote).size + 1 ≠ lobby.playerOrder.length :=
        fun hquorum => hopen ⟨hvalid, _, rfl, hquorum⟩
      have hvotes' : lobby'.votes = lobby.votes := by
        obtain ⟨_, _, _, _⟩ := hsame
        rfl
      show Alike (BothIn S) (castVotes _ (lobby.votes.set playerId vote) 1 >>= _)
        (castVotes _ (lobby'.votes.set playerId vote) 1 >>= _)
      rw [hvotes']
      refine (hstamped.castVotes 1 hvotes).bind (fun _ _ hnext => ?_)
      exact Alike.bind_same _ (fun _ _ => .ok ⟨hnext.1, hnext.2 ▸ hvoting⟩)
  | batch votingBotIds botVote random =>
    have hvotes : (castBotVotes lobby.votes votingBotIds botVote random).size + 1
        ≠ lobby.playerOrder.length :=
      fun hquorum => hopen ⟨hvalid, _, rfl, hquorum⟩
    have hvotes' : lobby'.votes = lobby.votes := by
      obtain ⟨_, _, _, _⟩ := hsame
      rfl
    show Alike (BothIn S)
      (castVotes _ (castBotVotes lobby.votes votingBotIds botVote random) votingBotIds.length >>= _)
      (castVotes _ (castBotVotes lobby'.votes votingBotIds botVote random)
        votingBotIds.length >>= _)
    rw [hvotes']
    refine (hstamped.castVotes votingBotIds.length hvotes).bind (fun r r' hnext => .ok ?_)
    exact ⟨hnext.1.unflag, hnext.2 ▸ hvoting⟩

/-- A transaction that treats two lobbies alike is accepted or rejected on both. -/
theorem updateLobby_alike {R : Lobby → Lobby → Prop} {lobby lobby' : Lobby} {t : LobbyTransaction}
    {now : ℕ} (lobbyId : LobbyId) (hvalid : t.validateLobbyFn lobby' = t.validateLobbyFn lobby)
    (hupdate : t.validateLobbyFn lobby = .ok none →
      Alike R (t.updateLobbyFn (lobby.stamp now)) (t.updateLobbyFn (lobby'.stamp now)))
    (hstored : ∀ next next', R next next' → R next.stored next'.stored) :
    Alike R (updateLobby lobbyId t now (some lobby)) (updateLobby lobbyId t now (some lobby')) := by
  unfold Lobby.stamp at hupdate
  unfold updateLobby
  simp only [hvalid]
  cases hresult : t.validateLobbyFn lobby with
  | error e => exact .error _
  | ok verdict =>
    cases verdict with
    | some transactionError => exact .error _
    | none =>
      simp only []
      generalize t.updateLobbyFn { lobby with transactionTime := some now } = x,
        t.updateLobbyFn { lobby' with transactionTime := some now } = y at hupdate
      cases hupdate hresult with
      | error e => exact .error _
      | ok hnext => exact .ok (hstored _ _ hnext)

/-- **Step lemma.** While the ballots stay open, a play shows the same on both lobbies and
    keeps them apart in hidden words only. -/
theorem BothIn.step {S : Status → Prop} {lobby lobby' : Lobby} (h : BothIn S lobby lobby')
    (hvoting : S .voting) {lobbyId : LobbyId} {play : ℕ × Play} (htakes : lobby.Takes play.2)
    (hopen : LeavesOpen lobbyId lobby play) :
    observe lobbyId lobby play = observe lobbyId lobby' play ∧
      BothIn S (lobby.after lobbyId play) (lobby'.after lobbyId play) := by
  have halike : Alike (BothIn S)
      (updateLobby lobbyId (play.2.transaction lobbyId) play.1 (some lobby))
      (updateLobby lobbyId (play.2.transaction lobbyId) play.1 (some lobby')) :=
    updateLobby_alike lobbyId (h.1.validate lobbyId play.2)
      (fun hvalid => h.update hvoting play.1 htakes hvalid hopen)
      (fun _ _ hnext => ⟨hnext.1.stored, hnext.2⟩)
  unfold observe Lobby.after
  generalize updateLobby lobbyId (play.2.transaction lobbyId) play.1 (some lobby) = x,
    updateLobby lobbyId (play.2.transaction lobbyId) play.1 (some lobby') = y at halike
  cases halike with
  | error failure => exact ⟨congrArg _ h.1.publicView.symm, h⟩
  | ok hnext => exact ⟨congrArg _ hnext.1.publicView.symm, hnext⟩

/-! ### The submission -/

theorem findOther_eq_none {lobby : Lobby} {submitterId : Uid} {word : Option Json}
    (h : ∀ uid bank, uid ≠ submitterId → lobby.targetWords.get? uid = some bank →
      includes bank word = false) : findOther lobby submitterId word = none := by
  unfold findOther
  rw [Option.map_eq_none_iff, List.find?_eq_none]
  rintro ⟨uid, bank⟩ hmem
  by_cases huid : uid = submitterId
  · simp [huid]
  · simp [h uid bank huid (Dict.get?_eq_some_iff.mpr hmem)]

theorem handleWordSubmission_awaits {lobby : Lobby} {done : List Turn} {t : Turn}
    (hturns : lobby.turns = done ++ [t])
    (hnone : findOther lobby t.player t.submittedWord = none) :
    handleWordSubmission lobby
      = .ok ({ lobby with awaitingBotVotes := votingBots lobby t.player }, .voting) := by
  unfold handleWordSubmission
  rw [currTurn_eq_ok.mpr ⟨done, hturns⟩, ok_bind]
  simp only [hnone]

/-- A word that nobody else has awaits the votes. -/
theorem playWord_awaits {lobby : Lobby} {done : List Turn} {t : Turn} {word : Json}
    (hturns : lobby.turns = done ++ [t]) (hnone : findOther lobby t.player (some word) = none) :
    playWord lobby word = .ok
      ({ lobby with
        turns := done ++ [t.submit word]
        votesTallied := some 0
        awaitingBotVotes := votingBots lobby t.player }, .voting) := by
  unfold playWord
  rw [currTurn_eq_ok.mpr ⟨done, hturns⟩, ok_bind, setCurrTurn_of_turns hturns]
  exact handleWordSubmission_awaits (t := t.submit word) rfl hnone

/-- The submission of a word the database takes is accepted, and what it stores. -/
theorem submitWord_accepted {lobby : Lobby} {done : List Turn} {t : Turn} {word : Json}
    (lobbyId : LobbyId) (now : ℕ) (hstorable : word.storable = true)
    (hstatus : lobby.status = .submission) (hturns : lobby.turns = done ++ [t])
    (hnone : findOther lobby t.player (some word) = none) :
    updateLobby lobbyId (submitWord lobbyId t.player word) now (some lobby)
      = .ok (Lobby.stored { lobby.stamp now with
          turns := done ++ [t.submit word]
          votesTallied := some 0
          awaitingBotVotes := votingBots lobby t.player
          status := .voting }) := by
  apply updateLobby_commits lobbyId (submitWord_valid lobbyId word hstatus hturns)
  have hturns' : (lobby.stamp now).turns = done ++ [t] := hturns
  show (playWord (lobby.stamp now) word >>= _) = _
  rw [playWord_awaits hturns' hnone, ok_bind, hstorable]
  rfl

/-- Any other submission throws in the end. -/
theorem submitWord_unstorable {lobby : Lobby} {done : List Turn} {t : Turn} {word : Json}
    (lobbyId : LobbyId) (now : ℕ) (hstorable : word.storable = false)
    (hstatus : lobby.status = .submission) (hturns : lobby.turns = done ++ [t])
    (hnone : findOther lobby t.player (some word) = none) :
    updateLobby lobbyId (submitWord lobbyId t.player word) now (some lobby)
      = .error (.exception .unstorable) := by
  apply updateLobby_throws lobbyId (submitWord_valid lobbyId word hstatus hturns)
  have hturns' : (lobby.stamp now).turns = done ++ [t] := hturns
  show (playWord (lobby.stamp now) word >>= _) = _
  rw [playWord_awaits hturns' hnone, ok_bind, hstorable]
  rfl

/-- A word of the player on turn that is in nobody else's bank opens the same vote, or is refused
    by the database. -/
theorem HiddenApart.submitted {playerId : Uid} {lobby lobby' : Lobby} {word : Json}
    (h : HiddenApart playerId lobby lobby') (lobbyId : LobbyId) (now : ℕ)
    (hstatus : lobby.status = .submission) (hturn : lobby.OnTurn playerId)
    (hword : ∀ uid bank, uid ≠ playerId → lobby.targetWords.get? uid = some bank →
      includes bank (some word) = false) :
    Alike (BothIn (fun status => status = .voting))
      (updateLobby lobbyId (submitWord lobbyId playerId word) now (some lobby))
      (updateLobby lobbyId (submitWord lobbyId playerId word) now (some lobby')) ∧
    ((∃ next, updateLobby lobbyId (submitWord lobbyId playerId word) now (some lobby) = .ok next) ↔
      word.storable = true) := by
  obtain ⟨done, t, hturns, rfl⟩ := hturn
  have hnone : findOther lobby t.player (some word) = none := findOther_eq_none hword
  have hsame := h.same
  obtain ⟨banks, pool, hothers, hown, hpool⟩ := h
  -- the scan leaves out the one bank that differs
  have hnone' : findOther (lobby.withWords banks pool) t.player (some word) = none := by
    apply findOther_eq_none
    intro uid bank huid hget
    have hget : banks.get? uid = some bank := hget
    exact hword uid bank huid (hothers uid huid ▸ hget)
  have hstatus' : (lobby.withWords banks pool).status = .submission := hstatus
  have hturns' : (lobby.withWords banks pool).turns = done ++ [t] := hturns
  cases hstorable : word.storable with
  | true =>
    rw [submitWord_accepted lobbyId now hstorable hstatus hturns hnone,
      submitWord_accepted lobbyId now hstorable hstatus' hturns' hnone']
    refine ⟨.ok ⟨?_, rfl⟩, iff_of_true ⟨_, rfl⟩ rfl⟩
    apply SameButWords.stored
    exact .intro banks pool (fun uid => by
      by_cases huid : uid = t.player
      · rw [huid, hown]; rfl
      · rw [hothers uid huid]; rfl) hpool
  | false =>
    rw [submitWord_unstorable lobbyId now hstorable hstatus hturns hnone,
      submitWord_unstorable lobbyId now hstorable hstatus' hturns' hnone']
    exact ⟨.error _, iff_of_false (by simp) (by simp)⟩

/-! ### Until the tally -/

/-- **Hidden until the tally.** Two lobbies awaiting a word, equal but for the bank of the
    player on turn and the pool, show the same after every play: a word that is in nobody
    else's bank, and then any calls and batches that leave the ballots open, or, after a word
    the database refuses, any but further submissions. -/
theorem hidden_until_tally {lobbyId : LobbyId} {playerId : Uid} {lobby lobby' : Lobby}
    {word : Json} {now : ℕ} {plays : List (ℕ × Play)} (happart : HiddenApart playerId lobby lobby')
    (hstatus : lobby.status = .submission) (hturn : lobby.OnTurn playerId)
    (hword : ∀ uid bank, uid ≠ playerId → lobby.targetWords.get? uid = some bank →
      includes bank (some word) = false)
    (hplays : word.storable = true ∨ ∀ play ∈ plays, play.2.isSubmission = false)
    (hopen : (lobbyMachine lobbyId).Admissible (LeavesOpen lobbyId) lobby
      ((now, .call (.submitWord playerId word)) :: plays)) :
    (lobbyMachine lobbyId).outputs (observe lobbyId) lobby
        ((now, .call (.submitWord playerId word)) :: plays)
      = (lobbyMachine lobbyId).outputs (observe lobbyId) lobby'
        ((now, .call (.submitWord playerId word)) :: plays) := by
  obtain ⟨halike, haccepted⟩ := happart.submitted lobbyId now hstatus hturn hword
  have hrest := hopen.2
  show observe lobbyId lobby _ :: (lobbyMachine lobbyId).outputs _ (lobby.after lobbyId _) plays
    = observe lobbyId lobby' _ :: (lobbyMachine lobbyId).outputs _ (lobby'.after lobbyId _) plays
  change (lobbyMachine lobbyId).Admissible _ (lobby.after lobbyId _) plays at hrest
  unfold observe Lobby.after at *
  simp only [Play.transaction, Call.transaction] at hrest ⊢
  generalize updateLobby lobbyId (submitWord lobbyId playerId word) now (some lobby) = x,
    updateLobby lobbyId (submitWord lobbyId playerId word) now (some lobby') = y
    at halike haccepted hrest ⊢
  cases halike with
  | ok hboth =>
    -- every further play meets a vote under way
    have hshown := Machine.lockstep (o := observe lobbyId)
      (fun _ _ _ hR hG => hR.step rfl (Or.inl hR.2) hG) hboth hrest
    exact congrArg₂ List.cons (congrArg _ hboth.1.publicView.symm) hshown
  | error failure =>
    have hrefused : ¬ word.storable = true := fun hstorable => by
      obtain ⟨_, hnext⟩ := haccepted.mpr hstorable
      cases hnext
    have hboth : BothIn (fun status => status = .voting ∨ status = .submission) lobby lobby' :=
      ⟨happart.same, Or.inr hstatus⟩
    have hshown := Machine.lockstep (o := observe lobbyId)
      (fun _ _ _ hR hG => hR.step (Or.inl rfl) (hR.2.imp_right (fun hs => ⟨hs, hG.2⟩)) hG.1)
      hboth (hrest.and_forall (hplays.resolve_left hrefused))
    exact congrArg₂ List.cons (congrArg _ hboth.1.publicView.symm) hshown

/-- `ben` is on turn; `bot1` and `ann` play too. -/
def sampleHidden : Lobby := (sampleRoom (sampleStart ["ben"] 1 sampleSettings)).lobby

/-- The same with other words in the bank of `ben` and in the pool. -/
def sampleHidden' : Lobby :=
  sampleHidden.withWords
    (sampleHidden.targetWords.set "ben" ["work", "world", "water", "video", "time", "stone"])
    sampleHidden.availableWords.reverse

/-- `ben` submits, `ann` exchanges her bank and tries to submit, `ben` exchanges in vain, the
    batch of `bot1` arrives. -/
def samplePlays : List (ℕ × Play) :=
  [(2, .call (.requestNewWords "ann" zeroDraws)), (3, .call (.submitWord "ann" (.str "zebra"))),
   (4, .call (.requestNewWords "ben" zeroDraws)), (5, .batch ["bot1"] true Draw.zero)]

theorem hidden_until_tally_sample :
    (lobbyMachine "L").outputs (observe "L") sampleHidden
        ((1, .call (.submitWord "ben" (.str "zebra"))) :: samplePlays)
      = (lobbyMachine "L").outputs (observe "L") sampleHidden'
        ((1, .call (.submitWord "ben" (.str "zebra"))) :: samplePlays) := by
  have hbank : ∃ bank, sampleHidden.targetWords.get? "ben" = some bank ∧ bank.length = 6 := by
    decide +kernel
  obtain ⟨bank, hbank, hlen⟩ := hbank
  have hplayers : sampleHidden.turns.map Turn.player = ["ben"] := by decide +kernel
  obtain ⟨t, hturn, hplayer⟩ := List.map_eq_singleton_iff.mp hplayers
  have hfree : ∀ e ∈ sampleHidden.targetWords.entries, "zebra" ∉ e.2 := by decide +kernel
  refine hidden_until_tally (hiddenApart_set hbank (by rw [hlen]; rfl) (List.length_reverse))
    (by decide +kernel) ⟨[], t, by rw [hturn, List.nil_append], hplayer⟩ ?_ (Or.inl rfl)
    (by decide +kernel)
  intro uid bank' _ hget
  have hnot := hfree _ (Dict.get?_eq_some_iff.mp hget)
  simpa [includes] using hnot

end PasswordApp
