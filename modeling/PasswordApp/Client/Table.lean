import PasswordApp.Client.Mirror
import PasswordApp.Client.Standings
import PasswordApp.Game.Handoff
import PasswordApp.Game.Phases
import PasswordApp.Bot.LegalWords
import PasswordApp.Library.Past

namespace PasswordApp

/-!
# Client — the table of words (`GameScreenVC.swift`, `SubmittedWordCell.swift`)

A row of the table shows a turn: its player's icon and score, its word, and the voting buttons.
The cells are used again and again, so each is set up anew from whatever it showed before.

* `cellForRowAt` — the cell of a row;
* `scoreboard` — the rows with a score label are the list of users with their scores;
* `can_vote_iff` — when a vote can be cast with the buttons.
-/

/-! ### Cells -/

/-- What a `SubmittedWordCell` shows. -/
structure SubmittedWordCell where
  /-- The user of the icon and of `nameLabel`. -/
  user : User
  userIcon : String × String
  wordLabel : String
  /-- `acceptButton` and `challengeButton` are treated alike. -/
  votingButtonsHidden : Bool
  votingButtonsEnabled : Bool
  progressBarHidden : Bool
  /-- The number of votes, of how many. -/
  progress : ℤ × ℤ
  scoreLabelHidden : Bool
  scoreLabel : String

namespace SubmittedWordCell

def hideScoreLabel (cell : SubmittedWordCell) : SubmittedWordCell :=
  { cell with scoreLabelHidden := true }

def showScoreLabel (cell : SubmittedWordCell) : SubmittedWordCell :=
  { cell with scoreLabelHidden := false }

def showVotingButtons (cell : SubmittedWordCell) : SubmittedWordCell :=
  { cell with votingButtonsHidden := false }

def hideVotingButtons (cell : SubmittedWordCell) : SubmittedWordCell :=
  { cell with votingButtonsHidden := true, progressBarHidden := true }

def updateWord (cell : SubmittedWordCell) (word : String) : SubmittedWordCell :=
  if 0 < word.length then { cell with wordLabel := word, votingButtonsEnabled := true }
  else { cell with wordLabel := "...", votingButtonsEnabled := false }

/-- `modifyIcon(user:row:)`; without users there is no score to show, and the app stops. -/
def modifyIcon (device : Device) (users : List User) (cell : SubmittedWordCell) (user : User)
    (row : ℕ) : Option SubmittedWordCell := do
  let icon ← setUserIcon user
  let cell := { cell with user := user, userIcon := icon }
  let cell := if row = 0 then { cell with scoreLabelHidden := true }.hideVotingButtons
    else cell.showScoreLabel
  let cell := if sameProfile device.canonical user device.user then cell.hideVotingButtons else cell
  let index := retrieveUserIndex users user.userID
  let listed ← users[index]?
  some { cell with scoreLabel := toString listed.score }

def updateProgressBar (cell : SubmittedWordCell) (numberOfVotes usersCount : ℤ) :
    SubmittedWordCell :=
  { cell with progressBarHidden := false, progress := (numberOfVotes, usersCount - 1) }

def hideProgressBar (cell : SubmittedWordCell) : SubmittedWordCell :=
  { cell with progressBarHidden := true }

def showProgressBar (cell : SubmittedWordCell) : SubmittedWordCell :=
  { cell with progressBarHidden := false }

/-- A tap on one of the buttons does something. -/
def canVote (cell : SubmittedWordCell) : Bool :=
  !cell.votingButtonsHidden && cell.votingButtonsEnabled

attribute [grind =] hideScoreLabel showScoreLabel hideVotingButtons showVotingButtons updateWord
  updateProgressBar hideProgressBar showProgressBar

end SubmittedWordCell

/-- A cell of the game's table. -/
inductive TableCell where
  | seedWord (startingWord : String)
  | submittedWord (cell : SubmittedWordCell)

/-- `tableView(_:cellForRowAt:)` with the game toggle on; `dequeued` is the cell that is used
    again. -/
def cellForRowAt (device : Device) (app : App) (dequeued : SubmittedWordCell) (row : ℕ) :
    Option TableCell :=
  if row = 0 then some (.seedWord app.startingWord)
  else do
    let cell := if row = app.words.length ∧ app.flags.hasVoted = false
      then dequeued.showVotingButtons else dequeued.hideVotingButtons
    let word ← app.words[row - 1]?
    let player ← word.player
    let cell ← cell.modifyIcon device app.users player row
    let cell := cell.updateWord (word.word.getD "")
    let cell := cell.updateProgressBar app.numberOfVotes app.users.length
    let cell := if row < app.words.length then cell.hideProgressBar else cell.showProgressBar
    let cell := if (row : ℤ) > (app.words.length : ℤ) - app.users.length
      then cell.showScoreLabel else cell.hideScoreLabel
    some (.submittedWord cell)

/-- The rows of the table, from the top; row `k` uses the cell `dequeued k` again. -/
def wordsTable (device : Device) (app : App) (dequeued : ℕ → SubmittedWordCell) :
    Option (List TableCell) :=
  (List.range (app.words.length + 1)).mapM (fun row => cellForRowAt device app (dequeued row) row)

variable {device : Device} {app : App} {dequeued cell : SubmittedWordCell} {row : ℕ}

/-- What the cell of a row shows, whatever it showed before. -/
structure ShowsRow (device : Device) (app : App) (row : ℕ) (cell : SubmittedWordCell) : Prop where
  pos : 0 < row
  word : ∃ word, app.words[row - 1]? = some word ∧ word.player = some cell.user ∧
    (cell.votingButtonsEnabled = true ↔ word.word.getD "" ≠ "")
  buttons : cell.votingButtonsHidden = false ↔ row = app.words.length ∧
    app.flags.hasVoted = false ∧ sameProfile device.canonical cell.user device.user = false
  labelled : cell.scoreLabelHidden = false ↔ app.words.length < row + app.users.length
  label : ∃ listed, app.users[retrieveUserIndex app.users cell.user.userID]? = some listed ∧
    cell.scoreLabel = toString listed.score

theorem cellForRowAt_shows (h : cellForRowAt device app dequeued row = some (.submittedWord cell)) :
    ShowsRow device app row cell := by
  unfold cellForRowAt at h
  by_cases hrow : row = 0
  · rw [if_pos hrow] at h
    cases h
  simp only [if_neg hrow, SubmittedWordCell.modifyIcon, Option.bind_eq_bind,
    Option.bind_eq_some_iff, Option.some.injEq, TableCell.submittedWord.injEq] at h
  obtain ⟨word, hword, player, hplayer, _, ⟨icon, _, listed, hlisted, rfl⟩, rfl⟩ := h
  refine ⟨Nat.pos_of_ne_zero hrow, ⟨word, hword, ?_, ?_⟩, ?_, ?_, ⟨listed, ?_, ?_⟩⟩
  · grind
  · grind [String.length_eq_zero_iff]
  · grind
  · grind
  · grind
  · grind

/-! ### The score labels -/

/-- The users whose score a row shows, and what it shows. -/
def scoreLabels (cells : List TableCell) : List (Uid × String) :=
  cells.filterMap (fun cell =>
    match cell with
    | .seedWord _ => none
    | .submittedWord cell =>
      if cell.scoreLabelHidden then none else some (cell.user.userID, cell.scoreLabel))

theorem forall₂_mem_right {α β : Type} {R : α → β → Prop} {l : List α} {r : List β}
    (h : List.Forall₂ R l r) {b : β} (hb : b ∈ r) : ∃ a ∈ l, R a b := by
  obtain ⟨k, hk, rfl⟩ := List.mem_iff_getElem.mp hb
  obtain ⟨hlen, hall⟩ := List.forall₂_iff_get.mp h
  exact ⟨l[k], List.getElem_mem _, hall k (by omega) hk⟩

theorem filterMap_forall₂ {α β γ : Type} {R : α → β → Prop} {f : α → Option γ} {g : β → Option γ}
    (hfg : ∀ a b, R a b → f a = g b) {l : List α} {r : List β} (h : List.Forall₂ R l r) :
    l.filterMap f = r.filterMap g := by
  induction h with
  | nil => rfl
  | cons hhead _ ih => rw [List.filterMap_cons, List.filterMap_cons, hfg _ _ hhead, ih]

/-- The places from `d` on. -/
theorem filterMap_range_drop {α : Type} (l : List α) (d : ℕ) :
    (List.range l.length).filterMap (fun k => if d ≤ k then l[k]? else none) = l.drop d := by
  induction l generalizing d with
  | nil => simp
  | cons a l ih =>
    rw [List.length_cons, List.range_succ_eq_map, List.filterMap_cons, List.filterMap_map]
    cases d with
    | zero => simpa using ih 0
    | succ d => simpa using ih d

/-- The cells, row by row. -/
theorem wordsTable_rows {dequeued : ℕ → SubmittedWordCell} {cells : List TableCell}
    (h : wordsTable device app dequeued = some cells) :
    List.Forall₂ (fun row cell => cellForRowAt device app (dequeued row) row = some cell)
      (List.range (app.words.length + 1)) cells :=
  forall₂_of_mapM h

/-- The player whose score a row shows. -/
def TableCell.labelledPlayer : TableCell → Option Uid
  | .seedWord _ => none
  | .submittedWord cell => if cell.scoreLabelHidden then none else some cell.user.userID

theorem scoreLabels_fst (cells : List TableCell) :
    (scoreLabels cells).map Prod.fst = cells.filterMap TableCell.labelledPlayer := by
  rw [scoreLabels, List.map_filterMap]
  congr 1
  ext cell : 1
  cases cell with
  | seedWord => rfl
  | submittedWord cell =>
    cases hhidden : cell.scoreLabelHidden <;> simp [TableCell.labelledPlayer, hhidden]

/-- A row has a label if it is one of the last, of as many as there are users. -/
theorem cellForRowAt_labelledPlayer {reused : SubmittedWordCell} {row : ℕ} {cell : TableCell}
    (hcell : cellForRowAt device app reused row = some cell) {turns : List Turn}
    (hwords : List.Forall₂ Word.ShowsTurn app.words turns) :
    (if 0 < row ∧ turns.length - app.users.length ≤ row - 1 then
      (turns.map Turn.player)[row - 1]? else none) = cell.labelledPlayer := by
  have hlen := hwords.length_eq
  cases cell with
  | seedWord startingWord =>
    have hzero : row = 0 := by
      by_contra hne
      simp only [cellForRowAt, if_neg hne, Option.bind_eq_bind, Option.bind_eq_some_iff] at hcell
      obtain ⟨_, _, _, _, _, _, habsurd⟩ := hcell
      cases habsurd
    rw [if_neg (by omega)]
    rfl
  | submittedWord cell =>
    have hshows := cellForRowAt_shows hcell
    have hpos := hshows.pos
    have hlabelled := hshows.labelled
    obtain ⟨word, hword, hplayer, _⟩ := hshows.word
    obtain ⟨hlt, hget⟩ := List.getElem?_eq_some_iff.mp hword
    obtain ⟨_, hturn⟩ := List.forall₂_iff_get.mp hwords
    obtain ⟨_, _, huid⟩ := hturn (row - 1) hlt (by omega)
    simp only [List.get_eq_getElem, hget, hplayer, Option.map_some, Option.some.injEq] at huid
    show _ = if cell.scoreLabelHidden = true then none else some cell.user.userID
    by_cases hhidden : cell.scoreLabelHidden = false
    · have hrow := hlabelled.mp hhidden
      rw [if_pos (by omega), if_neg (by simp [hhidden]), List.getElem?_map,
        List.getElem?_eq_getElem (by omega), Option.map_some, huid]
    · have hrow := mt hlabelled.mpr hhidden
      rw [if_neg (by omega), if_pos (by simpa using hhidden)]

/-- The players with a label are those of the last turns. -/
theorem scoreLabels_players {dequeued : ℕ → SubmittedWordCell} {cells : List TableCell}
    (htable : wordsTable device app dequeued = some cells) {turns : List Turn}
    (hwords : List.Forall₂ Word.ShowsTurn app.words turns) :
    (scoreLabels cells).map Prod.fst =
      (turns.map Turn.player).drop (turns.length - app.users.length) := by
  have hlen := hwords.length_eq
  have hrow : ∀ row cell, cellForRowAt device app (dequeued row) row = some cell →
      (if 0 < row ∧ turns.length - app.users.length ≤ row - 1 then
        (turns.map Turn.player)[row - 1]? else none) = cell.labelledPlayer :=
    fun row cell hcell => cellForRowAt_labelledPlayer hcell hwords
  have hall := filterMap_forall₂ hrow (wordsTable_rows htable)
  rw [scoreLabels_fst, ← hall, hlen, List.range_succ_eq_map, List.filterMap_cons,
    List.filterMap_map]
  have hdrop := filterMap_range_drop (turns.map Turn.player) (turns.length - app.users.length)
  rw [List.length_map] at hdrop
  rw [← hdrop]
  simp

/-- What a label shows is the score the list has for the player. -/
theorem scoreLabels_listed {dequeued : ℕ → SubmittedWordCell} {cells : List TableCell}
    (htable : wordsTable device app dequeued = some cells) {e : Uid × String}
    (he : e ∈ scoreLabels cells) (hlisted : e.1 ∈ app.users.map User.userID) :
    e ∈ app.users.map (fun user => (user.userID, toString user.score)) := by
  obtain ⟨cell, hcell, hlabel⟩ := List.mem_filterMap.mp he
  cases cell with
  | seedWord => cases hlabel
  | submittedWord cell =>
    have hlabel : (if cell.scoreLabelHidden = true then none
      else some (cell.user.userID, cell.scoreLabel)) = some e := hlabel
    split at hlabel
    · cases hlabel
    · obtain rfl := Option.some.inj hlabel
      obtain ⟨row, _, hrow⟩ := forall₂_mem_right (wordsTable_rows htable) hcell
      obtain ⟨listed, hindex, hscore⟩ := (cellForRowAt_shows hrow).label
      obtain ⟨user, hindex', huser, hmem⟩ := retrieveUserIndex_spec hlisted
      obtain rfl := Option.some.inj (hindex.symm.trans hindex')
      exact List.mem_map.mpr ⟨listed, hmem, by rw [huser, hscore]⟩

variable {lobbyId : LobbyId}

/-- **The scoreboard.**  The rows with a score label are the last rows, one for each player who has
    had a turn by then, and they show the scores the list has: once everybody has had a turn, the
    labels are the list of users. -/
theorem scoreboard {hostId : Uid} {s : Session}
    (h : (session device lobbyId).machine.Reaches (Follower.Guard (Readable lobbyId))
      (Session.start hostId) s) {app : App} (happ : s.view = some app) (hgame : app.screen = .game)
    {dequeued : ℕ → SubmittedWordCell} {cells : List TableCell}
    (htable : wordsTable device app dequeued = some cells) :
    (scoreLabels cells).map Prod.fst =
      s.seen.lobby.turnPlayers.drop (s.seen.lobby.turns.length - s.seen.lobby.players.size) ∧
    (scoreLabels cells).Subperm (app.users.map (fun user => (user.userID, toString user.score))) ∧
    (s.seen.lobby.players.size ≤ s.seen.lobby.turns.length →
      (scoreLabels cells).Perm
        (app.users.map (fun user => (user.userID, toString user.score)))) := by
  obtain ⟨app', happ', hsynced⟩ := synced_of_reaches h
  obtain rfl := Option.some.inj (happ.symm.trans happ')
  have hreach : Room.Reachable lobbyId (Readable lobbyId) s.seen :=
    ⟨hostId, (inOrder_of_readable h).start⟩
  obtain ⟨hlists, hstarted, hwords⟩ := hsynced.onGame hreach hgame
  obtain ⟨settings, hs⟩ := scheduled_of_reachable hreach hstarted
  have husers : app.users.length = s.seen.lobby.players.size := by
    rw [Dict.size, ← hlists.length_eq, List.length_map]
  have horder : s.seen.lobby.playerOrder.length = app.users.length :=
    hs.order_perm.length_eq.trans husers.symm
  have hplayers := scoreLabels_players htable hwords
  have hnodup : ((scoreLabels cells).map Prod.fst).Nodup := by
    have hlast := hs.roundRobin.nodup_drop hs.order_nodup
    rw [Scheduled.length_turnPlayers, horder] at hlast
    rw [hplayers]
    exact hlast
  have hsub : scoreLabels cells ⊆
      app.users.map (fun user => (user.userID, toString user.score)) := by
    intro e he
    refine scoreLabels_listed htable he ?_
    have hmem : e.1 ∈ s.seen.lobby.turnPlayers := by
      have hlast : e.1 ∈ (scoreLabels cells).map Prod.fst := List.mem_map_of_mem he
      rw [hplayers] at hlast
      exact List.mem_of_mem_drop hlast
    rw [hlists.mem_iff, ← hs.order_perm.mem_iff]
    exact hs.roundRobin.subset hmem
  have hsubperm := List.subperm_of_subset (List.Nodup.of_map _ hnodup) hsub
  refine ⟨by rw [hplayers, husers]; rfl, hsubperm, fun hround => ?_⟩
  refine hsubperm.perm_of_length_le ?_
  have hlen := congrArg List.length hplayers
  rw [List.length_map, List.length_drop, List.length_map] at hlen
  rw [List.length_map, hlen]
  omega

/-- A cell nothing has been shown in. -/
def sampleCell : SubmittedWordCell where
  user := sampleDevice.user
  userIcon := ("", "")
  wordLabel := ""
  votingButtonsHidden := false
  votingButtonsEnabled := true
  progressBarHidden := false
  progress := (0, 0)
  scoreLabelHidden := false
  scoreLabel := ""

theorem samplePlay_readable :
    (session sampleDevice "L").machine.Reaches (Follower.Guard (Readable "L"))
      (Session.start "ann") (sampleSession (sampleLoading ++ samplePlay)) :=
  ⟨_, by decide +kernel, rfl⟩

theorem scoreboard_sample :
    ∃ app cells lobby, (sampleSession (sampleLoading ++ samplePlay)).view = some app ∧
      wordsTable sampleDevice app (fun _ => sampleCell) = some cells ∧
      lobby = (sampleSession (sampleLoading ++ samplePlay)).seen.lobby ∧
      (scoreLabels cells).map Prod.fst =
        lobby.turnPlayers.drop (lobby.turns.length - lobby.players.size) ∧
      (scoreLabels cells).Subperm (app.users.map (fun user => (user.userID, toString user.score))) ∧
      (lobby.players.size ≤ lobby.turns.length →
        (scoreLabels cells).Perm
          (app.users.map (fun user => (user.userID, toString user.score)))) := by
  have htable : ((sampleSession (sampleLoading ++ samplePlay)).view.bind (fun app =>
      (wordsTable sampleDevice app (fun _ => sampleCell)).map (fun _ => app.screen)))
        = some .game := by
    decide +kernel
  obtain ⟨app, happ, htable⟩ := Option.bind_eq_some_iff.mp htable
  obtain ⟨cells, hcells, hgame⟩ := Option.map_eq_some_iff.mp htable
  exact ⟨app, cells, _, happ, hcells, rfl, scoreboard samplePlay_readable happ hgame hcells⟩

/-! ### The word of the last row -/

/-- The word can be read on a label. -/
def Json.Spelled (word : Json) : Prop := ∃ s, word = .str s ∧ s ≠ ""

instance (word : Json) : Decidable word.Spelled :=
  decidable_of_iff (∃ s ∈ word.asString, s ≠ "") (by
    cases word <;> simp [Json.Spelled, Json.asString])

/-- The words that are played can be read. -/
def SpellsWords (room : Room) : RoomInput → Prop
  | .call _ (.submitWord _ word) => word.Spelled
  | .deliver _ i answer => ∀ trigger ∈ room.pending[i]?, trigger.playsTurn = true → answer.word ≠ ""
  | .redeliver _ i answer =>
      ∀ trigger ∈ room.delivered[i]?, trigger.playsTurn = true → answer.word ≠ ""
  | _ => True

instance (room : Room) : ∀ i, Decidable (SpellsWords room i)
  | .call _ (.submitWord _ word) => inferInstanceAs (Decidable word.Spelled)
  | .deliver _ i _ => inferInstanceAs (Decidable (∀ trigger ∈ room.pending[i]?, _ → _))
  | .redeliver _ i _ => inferInstanceAs (Decidable (∀ trigger ∈ room.delivered[i]?, _ → _))
  | .call _ (.addPlayerToLobby _ _) => inferInstanceAs (Decidable True)
  | .call _ (.addBot _) => inferInstanceAs (Decidable True)
  | .call _ (.startGame _ _ _) => inferInstanceAs (Decidable True)
  | .call _ (.requestNewWords _ _) => inferInstanceAs (Decidable True)
  | .call _ (.voteOnWord _ _) => inferInstanceAs (Decidable True)

/-- The app can read the lobby and its words, and only players vote. -/
structure Playable (lobbyId : LobbyId) (room : Room) (i : RoomInput) : Prop where
  readable : Readable lobbyId room i
  players : PlayersOnly room i
  spells : SpellsWords room i

instance (room : Room) (i : RoomInput) : Decidable (Playable lobbyId room i) :=
  decidable_of_iff (Readable lobbyId room i ∧ PlayersOnly room i ∧ SpellsWords room i)
    ⟨fun h => ⟨h.1, h.2.1, h.2.2⟩, fun h => ⟨h.readable, h.players, h.spells⟩⟩

theorem spelled_of_reachable {room : Room} (h : Room.Reachable lobbyId SpellsWords room) :
    room.lobby.Submitted Json.Spelled := by
  refine h.invariant (I := fun room => room.lobby.Submitted Json.Spelled) ?_ ?_
  · intro hostId t ht
    cases ht
  · intro room i hI hG
    have hstep := Room.step_cases lobbyId room i
    generalize room.step lobbyId i = room' at hstep
    cases hstep with
    | rejected => exact hI
    | called now c lobby hok heffect =>
      refine hI.call (fun uid word hc => ?_) heffect
      subst hc
      exact hG
    | failed => exact hI
    | delivered now k answer trigger hpending lobby heffect =>
      refine hI.trigger (fun turn hturn => ?_) heffect
      exact ⟨_, rfl, hG trigger hpending (by rw [hturn]; rfl)⟩
    | redelivered now k answer trigger hdelivered lobby heffect =>
      refine hI.trigger (fun turn hturn => ?_) heffect
      exact ⟨_, rfl, hG trigger hdelivered (by rw [hturn]; rfl)⟩

/-- The current turn has a word to show, but for the time of its submission. -/
theorem currWord_spelled {room : Room} (h : Room.Reachable lobbyId (Playable lobbyId) room)
    {done : List Turn} {t : Turn} (hturns : room.lobby.turns = done ++ [t]) :
    (t.submittedWord.bind Json.asString).getD "" ≠ "" ↔ room.lobby.status ≠ .submission := by
  obtain ⟨hostId, h⟩ := h
  have hspelled := spelled_of_reachable ⟨hostId, h.mono (fun _ _ hG => hG.spells)⟩
  have hphase := phased_of_reachable ⟨hostId, h.mono (fun _ _ hG => hG.players)⟩
  cases hphase with
  | unstarted hun => rw [hun.turns] at hturns; simp at hturns
  | started settings hs hphased =>
    constructor
    · intro hword hstatus
      rw [(hphased.inSubmission hstatus hturns).word] at hword
      exact hword rfl
    · intro hstatus
      have ht : t ∈ room.lobby.turns := by rw [hturns]; simp
      have hsubmitted : t.submittedWord ≠ none := by
        cases hopen : room.lobby.status with
        | lobby => exact absurd hopen hs.started
        | submission => exact absurd hopen hstatus
        | voting => exact hphased.voting hopen done t hturns
        | done => exact hphased.submitted t ht ((hphased.current done t hturns).mpr hopen)
      obtain ⟨word, hword⟩ := Option.ne_none_iff_exists'.mp hsubmitted
      obtain ⟨s, rfl, hs⟩ := hspelled t ht word hword
      rw [hword]
      exact hs

/-! ### Who has voted -/

theorem Status.text_injective : Function.Injective Status.text := by
  intro a b
  cases a <;> cases b <;> decide

/-- The observers are told of a submission exactly when there was none before. -/
theorem told_submission_iff {old new : Lobby} (hword : new.startWord = old.startWord) :
    (∃ e ∈ childrenChanged old.publicChildren new.publicChildren,
      e.2.asString = some "SUBMISSION") ↔ new.status = .submission ∧ old.status ≠ .submission := by
  have hget : ∀ lobby : Lobby, assocGet "status" lobby.publicChildren =
      some (.str lobby.status.text) ∧ assocGet "startWord" lobby.publicChildren =
        lobby.startWord.map .str := by
    intro lobby
    simp (disch := simp) only [Lobby.publicChildren, assocGet_presentFields]
    simp [assocGet]
  have hmem : ("status", Json.str new.status.text) ∈ new.publicChildren := by
    simp [Lobby.publicChildren, presentFields]
  constructor
  · rintro ⟨e, he, htext⟩
    obtain ⟨hnew, _, hdiffers⟩ := mem_childrenChanged.mp he
    have hvalue : e.2 = .str "SUBMISSION" := by
      cases hv : e.2 <;> rw [hv] at htext <;> cases htext
      rfl
    rcases publicChildren_text hnew htext with ⟨hkey, hstart⟩ | ⟨hkey, hstatus⟩
    · rw [hkey, (hget old).2, ← hword, hstart, hvalue] at hdiffers
      exact absurd rfl hdiffers
    · refine ⟨Status.text_injective hstatus, fun hold => hdiffers ?_⟩
      rw [hkey, (hget old).1, hold, hvalue]
      rfl
  · rintro ⟨hnew, hold⟩
    refine ⟨_, mem_childrenChanged.mpr ⟨hmem, ?_, ?_⟩, by rw [hnew]; rfl⟩
    · rw [(hget old).1]
      exact Option.some_ne_none _
    · rw [(hget old).1, hnew]
      intro hsame
      exact hold (Status.text_injective (Json.str.inj (Option.some.inj hsame)))

/-- A submission that is told of gives the voting buttons back. -/
theorem foldl_statusChanged (children : Children) (flags : Flags) :
    (children.foldl statusChanged flags).hasVoted = true ↔
      flags.hasVoted = true ∧ ¬ ∃ e ∈ children, e.2.asString = some "SUBMISSION" := by
  induction children generalizing flags with
  | nil => simp
  | cons e children ih =>
    have hfirst : (statusChanged flags e).hasVoted = true ↔
        flags.hasVoted = true ∧ e.2.asString ≠ some "SUBMISSION" := by
      unfold statusChanged
      cases hsnap : e.2.asString with
      | none => simp
      | some snap => grind
    rw [List.foldl_cons, ih, hfirst]
    simp only [List.mem_cons, exists_eq_or_imp]
    rw [not_or, and_assoc]

/-- A tap on one of the voting buttons. -/
def Taps (s : Session) (i : SessionInput) : Prop :=
  i = .act .vote ∧ ∃ app, s.view = some app ∧ app.screen = .game

/-- The version told of last is not one of a submission. -/
def PastSubmission (s : Session) : Prop := s.seen.lobby.status ≠ .submission

/-- Only enabled buttons of the last row are tapped. -/
def TapsEnabled (device : Device) (s : Session) (i : SessionInput) : Prop :=
  i = .act .vote → ∀ app, s.view = some app → app.screen = .game →
    ∃ dequeued cell, cellForRowAt device app dequeued app.words.length =
      some (.submittedWord cell) ∧ cell.votingButtonsEnabled = true

/-- A playable lobby on a device whose buttons are tapped. -/
def Plays (device : Device) (lobbyId : LobbyId) (s : Session) (i : SessionInput) : Prop :=
  Follower.Guard (Playable lobbyId) s i ∧ TapsEnabled device s i

/-- The user voted, and the device has not been told of a submission since. -/
def VotedSince (device : Device) (lobbyId : LobbyId) (s : Session) (inputs : List SessionInput) :
    Prop :=
  (session device lobbyId).machine.Since s inputs Taps PastSubmission

theorem Follower.Guard.mono {G G' : Room → RoomInput → Prop}
    (hG : ∀ room i, G room i → G' room i) (s : Session) (i : SessionInput)
    (h : Follower.Guard G s i) : Follower.Guard G' s i := by
  cases i with
  | source i => exact hG s.source i h
  | hear skipped => trivial
  | act a => trivial

/-- The last row has enabled buttons exactly if its turn has a word. -/
theorem lastRow_enabled {room : Room} (h : Room.Reachable lobbyId (Playable lobbyId) room)
    (hwords : List.Forall₂ Word.ShowsTurn app.words room.lobby.turns) {cell : SubmittedWordCell}
    (hshows : ShowsRow device app app.words.length cell) :
    cell.votingButtonsEnabled = true ↔ room.lobby.status ≠ .submission := by
  obtain ⟨word, hword, _, henabled⟩ := hshows.word
  obtain ⟨hlen, hturn⟩ := List.forall₂_iff_get.mp hwords
  obtain ⟨hlt, hget⟩ := List.getElem?_eq_some_iff.mp hword
  have hturns := List.dropLast_append_getLast (l := room.lobby.turns)
    (List.ne_nil_of_length_pos (by omega))
  obtain ⟨_, hsubmitted, _⟩ := hturn _ hlt (by omega)
  rw [henabled, ← currWord_spelled h hturns.symm]
  simp only [List.get_eq_getElem, hget] at hsubmitted
  rw [hsubmitted, List.getLast_eq_getElem]
  simp only [hlen]

/-- The record of the vote, when the app has not stopped. -/
structure Recorded (s : Session) (app : App) : Prop where
  view : s.view = some app
  synced : Synced app s.seen
  /-- Only players of a game have voted, and a submission makes them vote again. -/
  game : app.flags.hasVoted = true → app.screen = .game ∧ PastSubmission s

namespace Recorded

variable {s : Session} {hostId : Uid}

theorem hear (h : Recorded s app) {next : Room}
    (hold : Room.Reachable lobbyId (Readable lobbyId) s.seen)
    (hreach : (roomMachine lobbyId).Reaches (Readable lobbyId) s.seen next) {app' : App}
    (hhear : app.hear device s.seen.lobby next.lobby = some app') :
    app'.flags.hasVoted = true ↔ next.lobby.status ≠ .submission ∧ app.flags.hasVoted = true := by
  by_cases hgame : app.screen = .game
  · have htracks := h.synced.tracks
    rw [App.Tracks, hgame] at htracks
    obtain ⟨_, _, _, _, hword, _⟩ := later_version hold hreach htracks.2
    rw [App.hear, hgame] at hhear
    simp only [App.hearGame, Option.bind_eq_bind, Option.bind_eq_some_iff, Option.some.injEq]
      at hhear
    obtain ⟨_, _, _, _, _, _, _, _, _, _, _, _, rfl⟩ := hhear
    simp only [foldl_statusChanged, (device.arrange_perm _).mem_iff, told_submission_iff hword]
    constructor
    · rintro ⟨hvoted, htold⟩
      exact ⟨fun hnew => htold ⟨hnew, (h.game hvoted).2⟩, hvoted⟩
    · rintro ⟨hnew, hvoted⟩
      exact ⟨hvoted, fun htold => hnew htold.1⟩
  · have hflags : app'.flags = app.flags := by
      unfold App.hear at hhear
      split at hhear
      · rw [← Option.some.inj hhear]
      · simp only [App.hearLobby, Option.bind_eq_bind, Option.bind_eq_some_iff,
          Option.some.injEq] at hhear
        obtain ⟨_, _, rfl⟩ := hhear
        rfl
      · rw [← Option.some.inj hhear]
      · rename_i hscreen
        exact absurd hscreen hgame
    have hnone : app.flags.hasVoted ≠ true := fun hvoted => hgame (h.game hvoted).1
    rw [hflags]
    exact ⟨fun hvoted => absurd hvoted hnone, fun hvoted => absurd hvoted.2 hnone⟩

/-- The game screen stays. -/
theorem screen_step (happ : s.view = some app) (hgame : app.screen = .game) {i : SessionInput}
    {app' : App} (happ' : ((session device lobbyId).step s i).view = some app') :
    app'.screen = .game := by
  cases i with
  | source i =>
    obtain rfl := Option.some.inj (happ.symm.trans happ')
    exact hgame
  | hear skipped =>
    cases hdrop : s.pending.drop skipped with
    | nil =>
      rw [Follower.step_hear_nil hdrop] at happ'
      obtain rfl := Option.some.inj (happ.symm.trans happ')
      exact hgame
    | cons next rest =>
      rw [Follower.step_hear_cons hdrop] at happ'
      simp only [happ, session_hear, App.hear, hgame] at happ'
      exact (App.Tracks.hearGame_users happ').2.trans hgame
  | act action =>
    have hact : (session device lobbyId).act s.view s.seen action = some app' := happ'
    rw [happ, session_act] at hact
    exact (OnScreen.act hgame hact).1

/-- Only a tap changes the record. -/
theorem act_hasVoted {old : Lobby} {action : AppAction} {app' : App}
    (hact : app.act device old action = some app')
    (hother : ¬ (action = .vote ∧ app.screen = .game)) :
    app'.flags.hasVoted = app.flags.hasVoted := by
  cases action with
  | loadLobby =>
    simp only [App.act] at hact
    split at hact
    · simp only [App.loadLobby, Option.bind_eq_bind, Option.bind_eq_some_iff,
        Option.some.injEq] at hact
      obtain ⟨_, _, rfl⟩ := hact
      rfl
    · rw [← Option.some.inj hact]
  | loadGame =>
    simp only [App.act] at hact
    split at hact
    · simp only [App.loadGame, Option.bind_eq_bind, Option.bind_eq_some_iff,
        Option.some.injEq] at hact
      obtain ⟨_, _, _, _, _, _, rfl⟩ := hact
      rfl
    · rw [← Option.some.inj hact]
  | vote =>
    have hgame : app.screen ≠ .game := fun hgame => hother ⟨rfl, hgame⟩
    simp only [App.act, if_neg hgame] at hact
    rw [← Option.some.inj hact]
  | chatChanged =>
    simp only [App.act] at hact
    rw [← Option.some.inj hact]
    split <;> rfl

/-- What the user does to the record. -/
theorem act (h : Recorded s app) {action : AppAction} {app' : App}
    (hact : app.act device s.seen.lobby action = some app')
    (henabled : action = .vote → app.screen = .game → PastSubmission s) :
    app'.flags.hasVoted = true ↔ PastSubmission s ∧
      (action = .vote ∧ app.screen = .game ∨ app.flags.hasVoted = true) := by
  by_cases htap : action = .vote ∧ app.screen = .game
  · obtain ⟨rfl, hgame⟩ := htap
    simp only [App.act, if_pos hgame] at hact
    rw [← Option.some.inj hact]
    simp [hgame, henabled rfl hgame]
  · rw [act_hasVoted hact htap]
    constructor
    · intro hvoted
      exact ⟨(h.game hvoted).2, Or.inr hvoted⟩
    · rintro ⟨_, htapped | hvoted⟩
      · exact absurd htapped htap
      · exact hvoted

/-- **Step lemma.**  A tap is recorded, and a submission that is told of clears the record. -/
theorem step (h : Recorded s app)
    (hsession : (session device lobbyId).machine.Reaches (Follower.Guard (Playable lobbyId))
      (Session.start hostId) s) {i : SessionInput} (hG : Plays device lobbyId s i) :
    ∃ app', Recorded ((session device lobbyId).step s i) app' ∧
      (app'.flags.hasVoted = true ↔ PastSubmission ((session device lobbyId).step s i) ∧
        (Taps s i ∨ app.flags.hasVoted = true)) := by
  have hread : (session device lobbyId).machine.Reaches (Follower.Guard (Readable lobbyId))
      (Session.start hostId) s := hsession.mono (Follower.Guard.mono fun _ _ hP => hP.readable)
  have hnext : (session device lobbyId).machine.Reaches (Follower.Guard (Readable lobbyId))
      (Session.start hostId) ((session device lobbyId).step s i) :=
    hread.trans (.step (Follower.Guard.mono (fun _ _ hP => hP.readable) s i hG.1))
  obtain ⟨app', happ', hsynced'⟩ := synced_of_reaches hnext
  have horder := inOrder_of_readable hread
  have hplayed : Room.Reachable lobbyId (Playable lobbyId) s.seen :=
    ⟨hostId, (Follower.inOrder_of_reaches (f := session device lobbyId)
      (Follower.inOrder_start _ _) hsession).start⟩
  have htaps : Taps s i ↔ i = .act .vote ∧ app.screen = .game := by
    simp [Taps, h.view]
  have hrecord : app'.flags.hasVoted = true ↔
      PastSubmission ((session device lobbyId).step s i) ∧
        (Taps s i ∨ app.flags.hasVoted = true) := by
    rw [htaps]
    cases i with
    | source i =>
      obtain rfl := Option.some.inj (h.view.symm.trans happ')
      simp only [reduceCtorEq, false_and, false_or]
      exact ⟨fun hvoted => ⟨(h.game hvoted).2, hvoted⟩, fun hvoted => hvoted.2⟩
    | hear skipped =>
      simp only [reduceCtorEq, false_and, false_or]
      cases hdrop : s.pending.drop skipped with
      | nil =>
        rw [Follower.step_hear_nil hdrop] at happ' ⊢
        obtain rfl := Option.some.inj (h.view.symm.trans happ')
        exact ⟨fun hvoted => ⟨(h.game hvoted).2, hvoted⟩, fun hvoted => hvoted.2⟩
      | cons next rest =>
        rw [Follower.step_hear_cons hdrop] at happ' ⊢
        simp only [h.view, session_hear] at happ'
        have hmem : next ∈ s.pending := List.mem_of_mem_drop (hdrop ▸ List.mem_cons_self)
        exact h.hear ⟨hostId, horder.start⟩ ((List.pairwise_cons.mp horder.ordered).1 next hmem)
          happ'
    | act action =>
      have hact : (session device lobbyId).act s.view s.seen action = some app' := happ'
      rw [h.view, session_act] at hact
      rw [h.act hact]
      · simp only [FollowerInput.act.injEq]
        rfl
      · rintro rfl hgame
        obtain ⟨_, _, hwords⟩ := h.synced.onGame ⟨hostId, horder.start⟩ hgame
        obtain ⟨_, cell, hcell, henabled⟩ := hG.2 rfl app h.view hgame
        exact (lastRow_enabled hplayed hwords (cellForRowAt_shows hcell)).mp henabled
  refine ⟨app', ⟨happ', hsynced', fun hvoted => ?_⟩, hrecord⟩
  obtain ⟨hpast, htap | hbefore⟩ := hrecord.mp hvoted
  · exact ⟨screen_step h.view (htaps.mp htap).2 happ', hpast⟩
  · exact ⟨screen_step h.view (h.game hbefore).1 happ', hpast⟩

end Recorded

/-- **Run lemma.**  The record says whether the user voted since the last submission. -/
theorem hasVoted_iff {hostId : Uid} {inputs : List SessionInput}
    (hadm : (session device lobbyId).machine.Admissible (Plays device lobbyId)
      (Session.start hostId) inputs) :
    ∃ app, Recorded ((session device lobbyId).machine.run (Session.start hostId) inputs) app ∧
      (app.flags.hasVoted = true ↔ VotedSince device lobbyId (Session.start hostId) inputs) := by
  refine Machine.run_history (m := (session device lobbyId).machine)
    (I := fun past s => (session device lobbyId).machine.Admissible (Plays device lobbyId)
      (Session.start hostId) past → ∃ app, Recorded s app ∧
        (app.flags.hasVoted = true ↔ VotedSince device lobbyId (Session.start hostId) past))
    ?_ ?_ inputs hadm
  · intro _
    refine ⟨{}, ⟨rfl, Synced.start hostId, fun hvoted => by cases hvoted⟩, ?_⟩
    exact iff_of_false (by simp) Machine.Since.not_nil
  · intro past i ih hpast
    rw [Machine.admissible_append] at hpast
    obtain ⟨hbefore, hG, _⟩ := hpast
    obtain ⟨app, hrecorded, hvoted⟩ := ih hbefore
    have hsession : (session device lobbyId).machine.Reaches (Follower.Guard (Playable lobbyId))
        (Session.start hostId)
        ((session device lobbyId).machine.run (Session.start hostId) past) :=
      Machine.Reaches.mono (fun _ _ hP => hP.1) ⟨past, hbefore, rfl⟩
    obtain ⟨app', hrecorded', hvoted'⟩ := hrecorded.step hsession hG
    refine ⟨app', hrecorded', ?_⟩
    have hrun : (session device lobbyId).machine.run (Session.start hostId) (past ++ [i]) =
        (session device lobbyId).step
          ((session device lobbyId).machine.run (Session.start hostId) past) i :=
      Machine.run_append _ past [i]
    rw [hvoted', hvoted, VotedSince, VotedSince, Machine.Since.append_iff, hrun]

/-- **When a vote can be cast with the buttons.**  They can be tapped on the last row only, when
    its turn has a word, which is not of a player who looks like the device's user, and when the
    user has not voted since the last submission the device was told of. -/
theorem can_vote_iff {hostId : Uid} {inputs : List SessionInput}
    (hadm : (session device lobbyId).machine.Admissible (Plays device lobbyId)
      (Session.start hostId) inputs) {s : Session}
    (hs : (session device lobbyId).machine.run (Session.start hostId) inputs = s)
    (happ : s.view = some app) (hgame : app.screen = .game)
    (hcell : cellForRowAt device app dequeued row = some (.submittedWord cell)) :
    cell.canVote = true ↔ row = s.seen.lobby.turns.length ∧ s.seen.lobby.status ≠ .submission ∧
      sameProfile device.canonical cell.user device.user = false ∧
      ¬ VotedSince device lobbyId (Session.start hostId) inputs := by
  obtain ⟨app', hrecorded, hvoted⟩ := hasVoted_iff hadm
  rw [hs] at hrecorded
  obtain rfl := Option.some.inj (happ.symm.trans hrecorded.view)
  have hsession : (session device lobbyId).machine.Reaches (Follower.Guard (Playable lobbyId))
      (Session.start hostId) s := Machine.Reaches.mono (fun _ _ hP => hP.1) ⟨inputs, hadm, hs⟩
  have hplayed : Room.Reachable lobbyId (Playable lobbyId) s.seen :=
    ⟨hostId, (Follower.inOrder_of_reaches (f := session device lobbyId)
      (Follower.inOrder_start _ _) hsession).start⟩
  obtain ⟨hostId', hreach⟩ := hplayed
  obtain ⟨_, _, hwords⟩ :=
    hrecorded.synced.onGame ⟨hostId', hreach.mono (fun _ _ hP => hP.readable)⟩ hgame
  have hshows := cellForRowAt_shows hcell
  have hlen := hwords.length_eq
  have hflag : app.flags.hasVoted = false ↔
      ¬ VotedSince device lobbyId (Session.start hostId) inputs := by
    rw [← hvoted, Bool.not_eq_true]
  rw [SubmittedWordCell.canVote, Bool.and_eq_true, Bool.not_eq_true', hshows.buttons, hflag]
  constructor
  · rintro ⟨⟨hrow, hunvoted, hother⟩, henabled⟩
    subst hrow
    exact ⟨hlen, (lastRow_enabled ⟨hostId', hreach⟩ hwords hshows).mp henabled, hother, hunvoted⟩
  · rintro ⟨hrow, hstatus, hother, hunvoted⟩
    obtain rfl : row = app.words.length := hrow.trans hlen.symm
    exact ⟨⟨rfl, hunvoted, hother⟩,
      (lastRow_enabled ⟨hostId', hreach⟩ hwords hshows).mpr hstatus⟩

/-- The bot plays a word, and the device is told of it. -/
def sampleVoting : List SessionInput :=
  sampleLoading ++ [.source (.deliver 4 0 (sampleAnswer false "zebra")), .hear 0]

theorem can_vote_iff_sample :
    ∃ app cell, (sampleSession sampleVoting).view = some app ∧
      cellForRowAt sampleDevice app sampleCell 1 = some (.submittedWord cell) ∧
      (cell.canVote = true ↔ 1 = (sampleSession sampleVoting).seen.lobby.turns.length ∧
        (sampleSession sampleVoting).seen.lobby.status ≠ .submission ∧
        sameProfile sampleDevice.canonical cell.user sampleDevice.user = false ∧
        ¬ VotedSince sampleDevice "L" (Session.start "ann") sampleVoting) := by
  have hcell : (sampleSession sampleVoting).view.bind (fun app =>
      (cellForRowAt sampleDevice app sampleCell 1).bind (fun cell =>
        match cell with
        | .seedWord _ => none
        | .submittedWord _ => some app.screen)) = some .game := by
    decide +kernel
  obtain ⟨app, happ, hcell⟩ := Option.bind_eq_some_iff.mp hcell
  obtain ⟨cell, hrow, hgame⟩ := Option.bind_eq_some_iff.mp hcell
  have hadm : (session sampleDevice "L").machine.Admissible (Plays sampleDevice "L")
      (Session.start "ann") sampleVoting := by
    have hplayed : (session sampleDevice "L").machine.Admissible
        (Follower.Guard (Playable "L")) (Session.start "ann") sampleVoting := by
      decide +kernel
    refine hplayed.imp (fun i hi s hG => ⟨hG, ?_⟩)
    rintro rfl
    simp [sampleVoting, sampleLoading] at hi
  cases cell with
  | seedWord => cases hgame
  | submittedWord cell =>
    exact ⟨app, cell, happ, hrow, can_vote_iff hadm rfl happ (Option.some.inj hgame) hrow⟩

end PasswordApp
