import Mathlib.Data.List.Forall2
import PasswordApp.Game.Closing

namespace PasswordApp

/-!
# Game — the letter case of a word

`getWord` accepts capital letters, the word list has none, and the banks are searched for the
exact string.  A capitalized word of a bank is nobody's word.

* `Json.lowerCase` — the word in lower case;
* `SameButSubmitted` — lobbies that differ in submitted words which no bank tells apart; all
  that is ever made of them is such a pair (`SameButSubmitted.after`);
* `CaseBlind`, `CaseSafe` — the case of a word makes no difference; no bank has the lower-case
  form, or only a bank that is never looked at;
* `caseBlind_iff` — the latter is exactly when the former holds.
-/

/-! ### Lower case -/

/-- `word.toLowerCase()` of a string of letters; other values have no case. -/
def Json.lowerCase : Json → Json
  | .str s => .str (String.ofList (s.toList.map Char.toLower))
  | word => word

/-- Only strings have a case, and the database takes them. -/
theorem Json.storable_of_lowerCase_ne {word : Json} (h : word.lowerCase ≠ word) :
    word.storable = true ∧ word.lowerCase.storable = true := by
  cases word with
  | str s => exact ⟨rfl, rfl⟩
  | _ => exact absurd rfl h

/-- The word list has no capital letters. -/
theorem wordList_lowerCase {w : String} (h : w ∈ wordList) :
    String.ofList (w.toList.map Char.toLower) = w := by
  have hall : wordList.all (fun w => String.ofList (w.toList.map Char.toLower) = w) = true := by
    decide +kernel
  simpa using List.all_eq_true.mp hall w h

/-- So a word with capital letters is in no bank. -/
theorem WordsShared.not_hasWord {lobby : Lobby} (h : WordsShared lobby) {word : Json}
    (hword : word.lowerCase ≠ word) (uid : Uid) : ¬ HasWord lobby.targetWords uid word := by
  rintro ⟨bank, hbank, hin⟩
  obtain ⟨s, hs, hmem⟩ := includes_eq_true.mp hin
  obtain rfl := Option.some.inj hs
  have hgame : s ∈ lobby.gameWords := by
    refine List.mem_append_right _ (List.mem_append_left _ ?_)
    exact List.mem_flatten.mpr ⟨bank, Dict.mem_values_iff.mpr ⟨uid, hbank⟩, hmem⟩
  exact hword (congrArg Json.str (wordList_lowerCase (h.perm.mem_iff.mp hgame)))

/-! ### Words that no bank tells apart -/

/-- The turn with another submitted word, which is in the same banks. -/
inductive Reworded (banks : Dict Uid (List String)) (t : Turn) : Turn → Prop
  | intro (word : Option Json)
      (h : ∀ uid bank, banks.get? uid = some bank →
        includes bank word = includes bank t.submittedWord) :
      Reworded banks t { t with submittedWord := word }

theorem Reworded.refl (banks : Dict Uid (List String)) (t : Turn) : Reworded banks t t :=
  .intro t.submittedWord (fun _ _ _ => rfl)

theorem forall₂_reworded_refl (banks : Dict Uid (List String)) (turns : List Turn) :
    List.Forall₂ (Reworded banks) turns turns :=
  List.forall₂_same.mpr (fun t _ => .refl banks t)

/-- Equal but for submitted words that no bank tells apart. -/
inductive SameButSubmitted (lobby : Lobby) : Lobby → Prop
  | intro (turns : List Turn) (h : List.Forall₂ (Reworded lobby.targetWords) lobby.turns turns) :
      SameButSubmitted lobby { lobby with turns := turns }

/-- The last elements of related lists. -/
theorem forall₂_concat_left {α : Type} {R : α → α → Prop} {as bs : List α} {a : α}
    (h : List.Forall₂ R (as ++ [a]) bs) :
    ∃ bs' b, bs = bs' ++ [b] ∧ List.Forall₂ R as bs' ∧ R a b := by
  induction as generalizing bs with
  | nil =>
    obtain ⟨b, rest, hab, hrest, rfl⟩ := List.forall₂_cons_left_iff.mp h
    obtain rfl := List.forall₂_nil_left_iff.mp hrest
    exact ⟨[], b, rfl, .nil, hab⟩
  | cons a' as ih =>
    obtain ⟨b, rest, hab, hrest, rfl⟩ := List.forall₂_cons_left_iff.mp h
    obtain ⟨bs', b', rfl, has, hlast⟩ := ih hrest
    exact ⟨b :: bs', b', rfl, .cons hab has, hlast⟩

theorem forall₂_concat {α : Type} {R : α → α → Prop} {as bs : List α} {a b : α}
    (h : List.Forall₂ R as bs) (hab : R a b) : List.Forall₂ R (as ++ [a]) (bs ++ [b]) :=
  List.rel_append h (.cons hab .nil)

/-- The current turns of such lobbies: there are none, or they are such turns. -/
theorem SameButSubmitted.turns_cases {lobby lobby' : Lobby} (h : SameButSubmitted lobby lobby') :
    (lobby.currTurn = .error .typeError ∧ lobby'.currTurn = .error .typeError) ∨
    ∃ done done' t t', lobby.turns = done ++ [t] ∧ lobby'.turns = done' ++ [t'] ∧
      List.Forall₂ (Reworded lobby.targetWords) done done' ∧ Reworded lobby.targetWords t t' := by
  obtain ⟨turns, h⟩ := h
  rcases List.eq_nil_or_concat lobby.turns with hnil | ⟨done, t, hturns⟩
  · rw [hnil] at h
    have hnil' := List.forall₂_nil_left_iff.mp h
    refine Or.inl ⟨?_, ?_⟩
    · rw [Lobby.currTurn, hnil]
      rfl
    · rw [hnil']
      rfl
  · rw [List.concat_eq_append] at hturns
    rw [hturns] at h
    obtain ⟨done', t', hturns', hdone, ht⟩ := forall₂_concat_left h
    exact Or.inr ⟨done, done', t, t', hturns, hturns', hdone, ht⟩

namespace SameButSubmitted

variable {lobby lobby' : Lobby}

theorem of_turns (lobby : Lobby) {turns turns' : List Turn}
    (h : List.Forall₂ (Reworded lobby.targetWords) turns turns') :
    SameButSubmitted { lobby with turns := turns } { lobby with turns := turns' } := by
  show SameButSubmitted { lobby with turns := turns }
    { { lobby with turns := turns } with turns := turns' }
  exact .intro turns' h

theorem stamp (h : SameButSubmitted lobby lobby') (now : ℕ) :
    SameButSubmitted (lobby.stamp now) (lobby'.stamp now) := by
  obtain ⟨turns, hturns⟩ := h
  exact of_turns (lobby.stamp now) hturns

theorem stored (h : SameButSubmitted lobby lobby') :
    SameButSubmitted lobby.stored lobby'.stored := by
  obtain ⟨turns, hturns⟩ := h
  refine of_turns lobby.stored ?_
  rw [List.forall₂_map_left_iff, List.forall₂_map_right_iff]
  refine hturns.imp ?_
  rintro t _ ⟨word, hword⟩
  exact .intro word hword

theorem clearVotes (h : SameButSubmitted lobby lobby') :
    SameButSubmitted { lobby with votes := ∅ } { lobby' with votes := ∅ } := by
  obtain ⟨turns, hturns⟩ := h
  exact of_turns { lobby with votes := ∅ } hturns

theorem withStatus {r r' : Lobby × Status} (h : SameButSubmitted r.1 r'.1) (hstatus : r'.2 = r.2) :
    SameButSubmitted (setStatus r) (setStatus r') := by
  obtain ⟨lobby, status⟩ := r
  obtain ⟨lobby', status'⟩ := r'
  obtain rfl : status' = status := hstatus
  obtain ⟨turns, hturns⟩ := h
  exact of_turns { lobby with status := status' } hturns

/-- Scores do not depend on words. -/
theorem scoreTurn (h : SameButSubmitted lobby lobby') :
    Alike SameButSubmitted (PasswordApp.scoreTurn lobby) (PasswordApp.scoreTurn lobby') := by
  have hcases := h.turns_cases
  obtain ⟨turns, hturns⟩ := h
  unfold PasswordApp.scoreTurn
  rcases hcases with ⟨hnone, hnone'⟩ | ⟨done, done', t, t', hlast, hlast', hdone, ht⟩
  · rw [hnone, hnone']
    exact .error _
  · rw [currTurn_eq_ok.mpr ⟨done, hlast⟩, currTurn_eq_ok.mpr ⟨done', hlast'⟩, ok_bind, ok_bind]
    obtain ⟨word, hword⟩ := ht
    by_cases hothers : t.wasOthersWord = true
    · simp only [hothers, if_true]
      refine Alike.bind_same _ (fun otherId _ => Alike.bind_same _ (fun players _ => .ok ?_))
      exact of_turns { lobby with players := players } hturns
    · simp only [hothers]
      refine Alike.bind_same (t.votes.entries.foldlM (scoreVote t) lobby.players)
        (fun players _ => ?_)
      by_cases hbonus : (!t.votes.entries.any (fun ballot => ballot.2.truthy) &&
          decide (t.wasSubmittersWord = some true)) = true
      · simp only [hbonus, if_true]
        refine Alike.bind_same _ (fun players _ => .ok ?_)
        exact of_turns { lobby with players := players } hturns
      · simp only [hbonus]
        exact .ok (of_turns { lobby with players := players } hturns)

/-- Neither does whose turn is next. -/
theorem startNextTurnOrEndGame (h : SameButSubmitted lobby lobby') :
    Alike (fun r r' => SameButSubmitted r.1 r'.1 ∧ r'.2 = r.2)
      (PasswordApp.startNextTurnOrEndGame lobby) (PasswordApp.startNextTurnOrEndGame lobby') := by
  obtain ⟨turns, hturns⟩ := h
  unfold PasswordApp.startNextTurnOrEndGame
  simp only [← hturns.length_eq]
  refine Alike.bind_same _ (fun settings _ => ?_)
  split
  · exact .ok ⟨.intro turns hturns, rfl⟩
  · refine Alike.bind_same _ (fun nextPlayer _ => .ok ⟨?_, rfl⟩)
    exact of_turns { lobby with
      awaitingBotTurn := lobby.awaitingBotTurn || isBot nextPlayer }
      (forall₂_concat hturns (.refl _ _))

/-- The tally looks the submitted word up in a bank, which does not tell the two apart. -/
theorem handleVote (h : SameButSubmitted lobby lobby') :
    Alike (fun r r' => SameButSubmitted (setStatus r) (setStatus r'))
      (PasswordApp.handleVote lobby) (PasswordApp.handleVote lobby') := by
  have hcases := h.turns_cases
  obtain ⟨turns, hturns⟩ := h
  unfold PasswordApp.handleVote
  by_cases hquorum : lobby.votes.size + 1 = lobby.playerOrder.length
  · simp only [hquorum, if_true]
    rcases hcases with ⟨hnone, hnone'⟩ | ⟨done, done', t, t', hlast, hlast', hdone, ht⟩
    · rw [hnone, hnone']
      exact .error _
    · rw [currTurn_eq_ok.mpr ⟨done, hlast⟩, currTurn_eq_ok.mpr ⟨done', hlast'⟩, ok_bind, ok_bind]
      obtain ⟨word, hword⟩ := ht
      refine Alike.bind_same (orThrow .typeError (lobby.targetWords.get? t.player))
        (fun bank hbank => ?_)
      rw [orThrow_eq_ok] at hbank
      rw [setCurrTurn_of_turns hlast, setCurrTurn_of_turns hlast']
      have hsame : SameButSubmitted
          { lobby with turns := done ++ [{ t with
              votes := lobby.votes
              wasSubmittersWord := some (includes bank t.submittedWord) }] }
          { lobby with turns := done' ++ [{ t with
              submittedWord := word
              votes := lobby.votes
              wasSubmittersWord := some (includes bank word) }] } := by
        rw [hword _ bank hbank]
        exact of_turns lobby (forall₂_concat hdone (.intro word hword))
      refine hsame.scoreTurn.bind (fun scored scored' hscored => ?_)
      exact hscored.clearVotes.startNextTurnOrEndGame.mono
        (fun _ _ hnext => hnext.1.withStatus hnext.2)
  · simp only [hquorum, if_false]
    refine .ok ?_
    exact of_turns { lobby with status := .voting } hturns

theorem castVotes (h : SameButSubmitted lobby lobby') (votes : Votes) (n : ℕ) :
    Alike (fun r r' => SameButSubmitted (setStatus r) (setStatus r'))
      (PasswordApp.castVotes lobby votes n) (PasswordApp.castVotes lobby' votes n) := by
  obtain ⟨turns, hturns⟩ := h
  unfold PasswordApp.castVotes
  have hcast := of_turns
    { lobby with votes := votes, votesTallied := lobby.votesTallied.map (· + n) } hturns
  exact hcast.handleVote.bind (fun _ _ hnext => Alike.bind_same _ (fun _ _ => .ok hnext))

theorem unflag (h : SameButSubmitted lobby lobby') :
    SameButSubmitted { lobby with awaitingBotVotes := [] }
      { lobby' with awaitingBotVotes := [] } := by
  obtain ⟨turns, hturns⟩ := h
  exact of_turns { lobby with awaitingBotVotes := [] } hturns

/-- Who may vote does not depend on words. -/
theorem validate (h : SameButSubmitted lobby lobby') (lobbyId : LobbyId) (uid : Uid)
    (vote : Json) : (voteOnWord lobbyId uid vote).validateLobbyFn lobby'
      = (voteOnWord lobbyId uid vote).validateLobbyFn lobby := by
  have hcases := h.turns_cases
  obtain ⟨turns, hturns⟩ := h
  simp only [voteOnWord]
  rcases hcases with ⟨hnone, hnone'⟩ | ⟨done, done', t, t', hlast, hlast', hdone, ht⟩
  · rw [hnone, hnone']
  · rw [currTurn_eq_ok.mpr ⟨done, hlast⟩, currTurn_eq_ok.mpr ⟨done', hlast'⟩, ok_bind, ok_bind]
    obtain ⟨word, hword⟩ := ht
    rfl

/-- **Step lemma.** A vote makes such a pair of such a pair. -/
theorem after (h : SameButSubmitted lobby lobby') (lobbyId : LobbyId) {ids : List Uid}
    {play : ℕ × Play} (hvote : IsVote ids play.2) :
    SameButSubmitted (lobby.after lobbyId play) (lobby'.after lobbyId play) := by
  obtain ⟨now, play⟩ := play
  have hvotes : lobby'.votes = lobby.votes := by
    obtain ⟨turns, hturns⟩ := h
    rfl
  have halike : Alike SameButSubmitted
      (updateLobby lobbyId (play.transaction lobbyId) now (some lobby))
      (updateLobby lobbyId (play.transaction lobbyId) now (some lobby')) := by
    cases play with
    | batch ids' botVote random =>
      refine updateLobby_alike lobbyId rfl (fun _ => ?_) (fun _ _ => stored)
      show Alike _ (PasswordApp.castVotes _ (castBotVotes lobby.votes ids' botVote random) _ >>= _)
        (PasswordApp.castVotes _ (castBotVotes lobby'.votes ids' botVote random) _ >>= _)
      rw [hvotes]
      exact ((h.stamp now).castVotes _ _).bind (fun _ _ hnext => .ok hnext.unflag)
    | call c =>
      cases c with
      | voteOnWord uid vote =>
        refine updateLobby_alike lobbyId (h.validate lobbyId uid vote) (fun _ => ?_)
          (fun _ _ => stored)
        show Alike _ (PasswordApp.castVotes _ (lobby.votes.set uid vote) 1 >>= _)
          (PasswordApp.castVotes _ (lobby'.votes.set uid vote) 1 >>= _)
        rw [hvotes]
        exact ((h.stamp now).castVotes _ 1).bind
          (fun _ _ hnext => Alike.bind_same _ (fun _ _ => .ok hnext))
      | addPlayerToLobby player uid => exact absurd hvote id
      | addBot uid => exact absurd hvote id
      | startGame uid gameSettings random => exact absurd hvote id
      | submitWord uid word => exact absurd hvote id
      | requestNewWords uid random => exact absurd hvote id
  unfold Lobby.after
  generalize updateLobby lobbyId (play.transaction lobbyId) now (some lobby) = x,
    updateLobby lobbyId (play.transaction lobbyId) now (some lobby') = y at halike
  cases halike with
  | error failure => exact h
  | ok hnext => exact hnext

end SameButSubmitted

/-! ### How a word is resolved -/

/-- What a submission led to: the record of its turn, the scores and the status. -/
structure Resolution where
  wasOthersWord : Bool
  otherId : Option Uid
  wasSubmittersWord : Option Bool
  scores : List (Uid × ℤ)
  status : Status
  deriving DecidableEq

def Turn.resolution (turn : Turn) (players : Dict Uid Player) (status : Status) : Resolution where
  wasOthersWord := turn.wasOthersWord
  otherId := turn.otherId
  wasSubmittersWord := turn.wasSubmittersWord
  scores := players.entries.map (fun e => (e.1, e.2.score))
  status := status

/-- The resolution of the turn `k`. -/
def Lobby.resolution (lobby : Lobby) (k : ℕ) : Option Resolution :=
  lobby.turns[k]?.map (fun turn => turn.resolution lobby.players lobby.status)

/-- The submitted words themselves are not part of it. -/
theorem SameButSubmitted.resolution {lobby lobby' : Lobby} (h : SameButSubmitted lobby lobby')
    (k : ℕ) : lobby'.resolution k = lobby.resolution k := by
  obtain ⟨turns, hturns⟩ := h
  have hmap : turns.map (fun turn => turn.resolution lobby.players lobby.status)
      = lobby.turns.map (fun turn => turn.resolution lobby.players lobby.status) := by
    generalize lobby.turns = log at hturns
    induction hturns with
    | nil => rfl
    | cons ht _ ih =>
      obtain ⟨word, hword⟩ := ht
      rw [List.map_cons, List.map_cons, ih]
      rfl
  show turns[k]?.map (fun turn => turn.resolution lobby.players lobby.status) = _
  rw [← List.getElem?_map, hmap, List.getElem?_map]
  rfl

/-- The word and its lower-case form lead to the same resolution, whatever votes follow. -/
def CaseBlind (lobbyId : LobbyId) (lobby : Lobby) (submitter : Uid) (word : Json) : Prop :=
  ∀ (now : ℕ) (votes : List (ℕ × Play)),
    (∀ vote ∈ votes, IsVote (votingBots lobby submitter) vote.2) →
    ((lobbyMachine lobbyId).run
        (lobby.after lobbyId (now, .call (.submitWord submitter word))) votes).resolution
          (lobby.turns.length - 1)
      = ((lobbyMachine lobbyId).run
        (lobby.after lobbyId (now, .call (.submitWord submitter word.lowerCase))) votes).resolution
          (lobby.turns.length - 1)

/-- The word has no capital letters, or its lower-case form is in no bank, or only in the
    submitter's, which is never looked at because the vote cannot be completed. -/
def CaseSafe (lobby : Lobby) (submitter : Uid) (word : Json) : Prop :=
  word.lowerCase = word ∨
  ∀ uid, HasWord lobby.targetWords uid word.lowerCase →
    uid = submitter ∧ ¬ VoteCanClose lobby submitter

section

variable {lobbyId : LobbyId} {settings : Settings} {start : Lobby} {done : List Turn} {t : Turn}
  {word : Json}

/-- An open vote shows nothing of the word. -/
theorem OpenVote.resolution {lobby : Lobby} (h : OpenVote settings start done t word lobby) :
    lobby.resolution done.length = some (t.resolution start.players .voting) := by
  rw [Lobby.resolution, h.turns, h.players, h.status, List.getElem?_concat_length]
  rfl

/-- The tally shows whether the word is in the submitter's bank. -/
theorem Tallied.resolution {lobby : Lobby} (h : Tallied start done t word lobby) :
    ∃ r, lobby.resolution done.length = some r ∧
      (r.wasSubmittersWord = some true ↔ HasWord start.targetWords t.player word) := by
  obtain ⟨u, bank, hget, hbank, _, hown⟩ := h
  refine ⟨u.resolution lobby.players lobby.status, by rw [Lobby.resolution, hget]; rfl, ?_⟩
  show u.wasSubmittersWord = some true ↔ _
  rw [hown, Option.some_inj]
  constructor
  · exact fun hin => ⟨bank, hbank, hin⟩
  · rintro ⟨bank', hbank', hin⟩
    rw [hbank] at hbank'
    rwa [Option.some.inj hbank']

/-- The search leaves out the submitter's bank. -/
theorem findOther_eq_none_of_own (h : ∀ uid, HasWord start.targetWords uid word → uid = t.player) :
    findOther start t.player (some word) = none := by
  cases hfind : findOther start t.player (some word) with
  | none => rfl
  | some uid =>
    obtain ⟨hne, hword⟩ := hasWord_of_findOther hfind
    exact absurd (h uid hword) hne

/-- A word of another player ends the turn at once. -/
theorem Submitting.othersWord (h : Submitting settings start done t) (lobbyId : LobbyId) (now : ℕ)
    {otherId : Uid} (hne : otherId ≠ t.player) (hword : HasWord start.targetWords otherId word) :
    ∃ r, (start.after lobbyId (now, .call (.submitWord t.player word))).resolution done.length
      = some r ∧ r.wasOthersWord = true := by
  have hstorable : word.storable = true := by
    obtain ⟨bank, _, hin⟩ := hword
    obtain ⟨s, hs, _⟩ := includes_eq_true.mp hin
    obtain rfl := Option.some.inj hs
    rfl
  obtain ⟨next, hok⟩ := h.scheduled.submitWord_commits lobbyId now h.status h.turns hstorable
  have hafter : start.after lobbyId (now, .call (.submitWord t.player word)) = next := by
    simp only [Lobby.after, Play.transaction, Call.transaction, hok]
  have heffect : CallEffect now start (.submitWord t.player word) next := call_ok hok
  obtain ⟨_, _, played, hplayed, rfl⟩ := heffect
  rw [hafter]
  cases hplayed with
  | awaitsVotes done' u hturns hnone =>
    obtain ⟨_, rfl⟩ := List.append_singleton_inj (h.turns.symm.trans hturns)
    obtain ⟨uid, hfind⟩ := findOther_isSome hne hword
    have hnone : findOther start t.player (some word) = none := hnone
    rw [hfind] at hnone
    cases hnone
  | othersWord done' u hturns uid hother players hscored lobby' status hadvances =>
    obtain ⟨rfl, rfl⟩ := List.append_singleton_inj (h.turns.symm.trans hturns)
    obtain ⟨_, hrecord⟩ := hadvances.keeps_turn rfl
    refine ⟨((t.submit word).stolen uid).stored.resolution lobby'.players status, ?_, rfl⟩
    show (lobby'.turns.map Turn.stored)[done.length]?.map _ = _
    rw [List.getElem?_map, hrecord]
    rfl

/-- Where case is safe, it makes no difference. -/
theorem Submitting.caseBlind (h : Submitting settings start done t) (hwords : WordsShared start)
    (hsafe : CaseSafe start t.player word) : CaseBlind lobbyId start t.player word := by
  intro now votes hvotes
  have hk : start.turns.length - 1 = done.length := by rw [h.turns]; simp
  by_cases hsame : word.lowerCase = word
  · rw [hsame]
  · have hbanks := hsafe.resolve_left hsame
    have hnobody := hwords.not_hasWord hsame
    -- nobody else has the word in either case, so both submissions open a vote
    obtain ⟨hstorable, hstorable'⟩ := Json.storable_of_lowerCase_ne hsame
    rw [h.after hstorable
        (findOther_eq_none_of_own (fun uid hword => absurd hword (hnobody uid))),
      h.after hstorable' (findOther_eq_none_of_own (fun uid hword => (hbanks uid hword).1)), hk]
    by_cases hown : HasWord start.targetWords t.player word.lowerCase
    · -- the submitter's bank tells the two apart, but is never looked at
      have hstuck := (hbanks t.player hown).2
      have hrun : OpenVote settings start done t word ((lobbyMachine lobbyId).run _ votes) :=
        (h.openVote now word).stuck_run hstuck hvotes
      have hrun' : OpenVote settings start done t word.lowerCase
          ((lobbyMachine lobbyId).run _ votes) :=
        (h.openVote now word.lowerCase).stuck_run hstuck hvotes
      rw [hrun.resolution, hrun'.resolution]
    · -- no bank tells the two apart
      have hpair : SameButSubmitted (start.votingOn now done t word)
          (start.votingOn now done t word.lowerCase) := by
        refine SameButSubmitted.of_turns (start.votingOn now done t word)
          (forall₂_concat (forall₂_reworded_refl _ done) (.intro (some word.lowerCase) ?_))
        intro uid bank hbank
        have hbank : start.targetWords.get? uid = some bank := hbank
        have hlower : includes bank (some word.lowerCase) = false := by
          by_contra hin
          have hword : HasWord start.targetWords uid word.lowerCase :=
            ⟨bank, hbank, by simpa using hin⟩
          obtain rfl := (hbanks uid hword).1
          exact hown hword
        have hupper : includes bank (some word) = false := by
          by_contra hin
          exact hnobody uid ⟨bank, hbank, by simpa using hin⟩
        rw [hlower]
        exact hupper.symm
      have hrun := Machine.run_related (m := lobbyMachine lobbyId)
        (G := fun _ vote => IsVote (votingBots start t.player) vote.2)
        (fun _ _ _ hR hvote => hR.after lobbyId hvote) hpair
        (Machine.admissible_of_forall _ (fun vote hmem _ => hvotes vote hmem))
      exact (hrun.resolution done.length).symm

/-- Where it makes no difference, case is safe. -/
theorem Submitting.caseSafe (h : Submitting settings start done t) (hwords : WordsShared start)
    (hblind : CaseBlind lobbyId start t.player word) : CaseSafe start t.player word := by
  have hk : start.turns.length - 1 = done.length := by rw [h.turns]; simp
  by_cases hsame : word.lowerCase = word
  · exact Or.inl hsame
  · have hnobody := hwords.not_hasWord hsame
    obtain ⟨hstorable, hstorable'⟩ := Json.storable_of_lowerCase_ne hsame
    have hafter := h.after hstorable
      (findOther_eq_none_of_own (fun uid hword => absurd hword (hnobody uid))) lobbyId 0
    refine Or.inr (fun uid hlower => ?_)
    by_cases huid : uid = t.player
    · subst huid
      refine ⟨rfl, fun hclose => ?_⟩
      -- the tally of the lower-case word finds it, the other tally does not
      have hafter' := h.after hstorable' (findOther_eq_none_of_own
        (fun uid' hword => hwords.hasWord_unique hword hlower)) lobbyId 0
      obtain ⟨votes, hvotes, hcomplete⟩ := hclose.plays h lobbyId
      have heq := hblind 0 votes hvotes
      obtain ⟨r, hr, hown⟩ := (hcomplete word _ (h.openVote 0 word) rfl).resolution
      obtain ⟨r', hr', hown'⟩ :=
        (hcomplete word.lowerCase _ (h.openVote 0 word.lowerCase) rfl).resolution
      rw [hafter, hafter', hk, hr, hr'] at heq
      obtain rfl := Option.some.inj heq
      exact hnobody t.player (hown.mp (hown'.mpr hlower))
    · exfalso
      -- the lower-case word is another's at once, the other one is put to the vote
      obtain ⟨r, hr, hothers⟩ := h.othersWord lobbyId 0 huid hlower
      have heq : (start.after lobbyId (0, .call (.submitWord t.player word))).resolution
            (start.turns.length - 1)
          = (start.after lobbyId (0, .call (.submitWord t.player word.lowerCase))).resolution
            (start.turns.length - 1) :=
        hblind 0 [] (fun _ hmem => absurd hmem List.not_mem_nil)
      rw [hk, hafter, (h.openVote 0 word).resolution, hr] at heq
      obtain rfl := Option.some.inj heq
      have hvoted : t.wasOthersWord = true := hothers
      rw [wasOthersWord_of_unresolved h.unresolved] at hvoted
      cases hvoted

end

/-- **Letter case is blind exactly where it is safe**: a submission and its lower-case form
    lead to the same resolution under all votes if the word is in lower case already, or its
    lower-case form is in no bank but, at most, that of a submitter on whose word the vote
    cannot be completed. -/
theorem caseBlind_iff {lobbyId : LobbyId} {room : Room} {submitter : Uid}
    (h : Room.Reachable lobbyId anyInput room) (hstatus : room.lobby.status = .submission)
    (hturn : room.lobby.OnTurn submitter) (word : Json) :
    CaseBlind lobbyId room.lobby submitter word ↔ CaseSafe room.lobby submitter word := by
  have hstarted : room.lobby.status ≠ .lobby := by
    rw [hstatus]
    exact Status.noConfusion
  obtain ⟨settings, hs⟩ := scheduled_of_reachable h hstarted
  obtain ⟨_, _, _, _, hstored⟩ := (accounted_of_reachable h).game hstarted
  have hwords := wordsShared_of_reachable h hstarted
  obtain ⟨done, t, hturns, rfl⟩ := hturn
  have hsubmitting : Submitting settings room.lobby done t :=
    ⟨hs, hstatus, hturns, turnOpen_of_reachable h hstatus done t hturns, hstored⟩
  exact ⟨hsubmitting.caseSafe hwords, hsubmitting.caseBlind hwords⟩

/-- No bank has a zebra. -/
theorem caseBlind_iff_duel : CaseBlind "L" sampleDuel.lobby "ben" (.str "Zebra") := by
  have hreach : Room.Reachable "L" anyInput sampleDuel :=
    sampleRoom_reachable (admissible_anyInput _ (sampleStart ["ben"] 0 defaultSettings))
  refine (caseBlind_iff hreach (by decide +kernel) (by decide +kernel) (.str "Zebra")).mpr ?_
  have hfree : ∀ e ∈ sampleDuel.lobby.targetWords.entries, "zebra" ∉ e.2 := by decide +kernel
  refine Or.inr ?_
  rintro uid ⟨bank, hbank, hin⟩
  have hlower : (Json.str "Zebra").lowerCase = .str "zebra" := rfl
  rw [hlower] at hin
  exact absurd (by simpa [includes] using hin) (hfree _ (Dict.get?_eq_some_iff.mp hbank))

/-- `ann` has the word "audio" and `ben` has "bird": `ben` gives no points for "Audio", and
    gets none for "Bird" when `ann` lets it pass. -/
theorem capitals_escape_banks :
    Room.Reachable "L" anyInput sampleDuel ∧ sampleDuel.lobby.status = .submission ∧
      sampleDuel.lobby.OnTurn "ben" ∧
      getWord (.obj [("word", .str "Audio")]) = .ok (.str "Audio") ∧
      getWord (.obj [("word", .str "Bird")]) = .ok (.str "Bird") ∧
      ¬ CaseBlind "L" sampleDuel.lobby "ben" (.str "Audio") ∧
      ¬ CaseBlind "L" sampleDuel.lobby "ben" (.str "Bird") := by
  refine ⟨sampleRoom_reachable (admissible_anyInput _ (sampleStart ["ben"] 0 defaultSettings)),
    by decide +kernel, by decide +kernel, rfl, rfl, ?_, ?_⟩
  · intro hblind
    have heq := hblind 1 [] (fun _ hmem => absurd hmem List.not_mem_nil)
    revert heq
    decide +kernel
  · intro hblind
    have hvotes : ∀ vote ∈ [((2 : ℕ), Play.call (.voteOnWord "ann" (.bool false)))],
        IsVote (votingBots sampleDuel.lobby "ben") vote.2 := by
      intro vote hmem
      rw [List.mem_singleton.mp hmem]
      trivial
    have heq := hblind 1 _ hvotes
    revert heq
    decide +kernel

end PasswordApp
