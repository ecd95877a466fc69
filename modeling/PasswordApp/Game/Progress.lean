import PasswordApp.Backend.Requests
import PasswordApp.Game.Finality

namespace PasswordApp

/-!
# Game — who can move a game without bots

Without bots no trigger ever fires, so every run is orderly.  The ballots then stay short of
the quorum and a player without a vote is always left, but that vote need not be accepted:
`scoreTurn` throws on a challenge by a user who does not play.

* `HumanGame` — the invariant of games without bots;
* `Server.CanAdvance` — some player has a request that is accepted and moves the turn on;
* `Server.MoveDue` — the player on turn, or a player without a vote, is there to send it, and
  the vote can be counted;
* `can_advance_iff` — the two agree in every state reached.
-/

/-! ### Games without bots -/

/-- Nobody in the lobby is a bot. -/
def Lobby.NoBots (lobby : Lobby) : Prop := ∀ uid ∈ lobby.players.keys, isBot uid = false

theorem Lobby.NoBots.congr {lobby lobby' : Lobby} (h : lobby.NoBots)
    (hkeys : lobby'.players.keys = lobby.players.keys) : lobby'.NoBots := by
  intro uid huid
  exact h uid (hkeys ▸ huid)

theorem Lobby.NoBots.votingBots {lobby : Lobby} (h : lobby.NoBots) (submitter : Uid) :
    votingBots lobby submitter = [] := by
  rw [PasswordApp.votingBots, List.filter_eq_nil_iff]
  intro uid huid
  rw [h uid huid]
  simp

/-- A game of humans: no event ever fires, and the ballots do not reach the quorum. -/
structure HumanGame (room : Room) : Prop extends Tidy room where
  silent : room.pending = []
  undelivered : room.delivered = []
  quiet : room.lobby.status ≠ .voting → room.lobby.votes = ∅
  few : room.lobby.status = .voting → 2 ≤ room.lobby.playerOrder.length →
    room.lobby.votes.size + 1 < room.lobby.playerOrder.length
  blank : room.lobby.status = .submission → ∀ done t, room.lobby.turns = done ++ [t] →
    t.submittedWord = none

namespace HumanGame

variable {lobbyId : LobbyId} {settings : Settings} {room room' : Room} {i : RoomInput}

/-- Every step is orderly or no step. -/
theorem orderly_or_same (h : HumanGame room) (hstep : RoomStep lobbyId room i room') :
    Orderly room i ∨ room' = room := by
  cases hstep with
  | rejected => exact Or.inr rfl
  | failed now i answer trigger hpending => rw [h.silent] at hpending; cases hpending
  | delivered now i answer trigger hpending => rw [h.silent] at hpending; cases hpending
  | redelivered now i answer trigger hdelivered =>
    rw [h.undelivered] at hdelivered; cases hdelivered
  | called now c lobby hok heffect =>
    left
    cases c with
    | submitWord uid word => exact fun _ _ => h.silent
    | voteOnWord uid vote => exact fun _ _ _ => h.silent
    | addPlayerToLobby player playerId => trivial
    | addBot requesterId => trivial
    | startGame playerId gameSettings random => trivial
    | requestNewWords playerId random => trivial

theorem undelivered_step (h : HumanGame room) (hstep : RoomStep lobbyId room i room') :
    room'.delivered = [] := by
  cases hstep with
  | rejected => exact h.undelivered
  | called => exact h.undelivered
  | failed now i answer trigger hpending => rw [h.silent] at hpending; cases hpending
  | delivered now i answer trigger hpending => rw [h.silent] at hpending; cases hpending
  | redelivered now i answer trigger hdelivered =>
    rw [h.undelivered] at hdelivered; cases hdelivered

/-- The next turn of a game of humans. -/
theorem resolved {done : List Turn} {t t' : Turn} {cleared : Bool}
    (hs : Scheduled settings room.lobby)
    (hres : Resolves room done t t' cleared room') (htidy : Tidy room')
    (hundelivered : room'.delivered = []) (hbots : room.lobby.NoBots)
    (hvotes : room'.lobby.votes = ∅) : HumanGame room' := by
  cases hres.next with
  | gameOver hstatus hturns hawaiting hpending =>
    refine ⟨htidy, hpending, hundelivered, fun _ => hvotes, ?_, ?_⟩
    · simp [hstatus]
    · simp [hstatus]
  | nextTurn nextPlayer created hopen hnext hstatus hturns hawaiting hpending =>
    -- the next player is of the roster, hence human, and no flag is raised
    have hhuman : isBot nextPlayer = false :=
      hbots nextPlayer (hs.order_perm.mem_iff.mp (List.mem_of_getElem? hnext))
    refine ⟨htidy, ?_, hundelivered, fun _ => hvotes, ?_, ?_⟩
    · rw [hpending, if_neg]
      rintro ⟨hbefore, hafter⟩
      rw [hawaiting, hbefore, hhuman, Bool.or_false, Bool.and_false] at hafter
      cases hafter
    · simp [hstatus]
    · intro _ done' u hu
      rw [hturns] at hu
      obtain ⟨_, rfl⟩ := List.append_singleton_inj hu
      rfl

/-- **A game of humans stays one.** -/
theorem step (h : HumanGame room) (hs : Scheduled settings room.lobby) (hbots : room.lobby.NoBots)
    (hstep : RoomStep lobbyId room i room') : HumanGame room' := by
  rcases h.orderly_or_same hstep with hG | rfl
  swap
  · exact h
  have htidy := h.toTidy.step hs hG hstep
  have hundelivered := h.undelivered_step hstep
  have horder := (hstep.seats hs.started).order
  cases h.toTidy.gameStep hs hG hstep with
  | idle i hrejected room' hlobby hpending =>
    refine ⟨htidy, ?_, hundelivered, ?_, ?_, ?_⟩
    · rcases hpending with hsame | ⟨_, hnil⟩
      · rw [hsame]; exact h.silent
      · exact hnil
    · rw [hlobby]; exact h.quiet
    · rw [hlobby]; exact h.few
    · rw [hlobby]; exact h.blank
  | exchanged now playerId random hallowed room' hok hstatus hturns hvotes hawaiting hcharged
      hpending =>
    refine ⟨htidy, hpending.trans h.silent, hundelivered, ?_, ?_, ?_⟩
    · rw [hstatus, hvotes]; exact h.quiet
    · rw [hstatus, hvotes, horder]; exact h.few
    · rw [hstatus, hturns]; exact h.blank
  | opened i word cleared hby hstatus done t hturns room' hstatus' hturns' hvotes hplayers hawaiting
      hpending =>
    have hempty : room'.lobby.votes = ∅ := by
      rw [hvotes]
      exact h.quiet (by rw [hstatus]; simp)
    refine ⟨htidy, ?_, hundelivered, fun _ => hempty, ?_, ?_⟩
    · rw [hpending, if_neg]
      rw [hbots.votingBots]
      simp
    · intro _ hlen
      rw [hempty]
      exact hlen
    · simp [hstatus']
  | stolen i word cleared hby hstatus done t otherId hother room' hvotes hres =>
    refine resolved hs hres htidy hundelivered hbots ?_
    rw [hvotes]
    exact h.quiet (by rw [hstatus]; simp)
  | counted i votes left hby hstatus hopen room' hstatus' hturns hvotes hplayers hawaiting hpending
      =>
    cases hby with
    | bots now i answer turn ids hbatch => rw [h.silent] at hbatch; cases hbatch
    | user now uid vote hother hfresh hnone =>
      refine ⟨htidy, hpending.trans h.silent, hundelivered, ?_, ?_, ?_⟩
      · intro hst; exact absurd hstatus' hst
      · intro _ hlen
        rw [horder] at hlen ⊢
        -- one ballot more at most, and not the quorum: still short of it
        have hfew := h.few hstatus hlen
        have hset : (room.lobby.votes.set uid vote).size ≤ room.lobby.votes.size + 1 := by
          rw [Dict.size_set]
          split <;> omega
        have hstored : room'.lobby.votes.size ≤ (room.lobby.votes.set uid vote).size := by
          rw [hvotes]
          exact Dict.size_filterMap_le _ _
        omega
      · simp [hstatus']
  | tallied i votes left hby hstatus hquorum done t bank room' hvotes hres =>
    exact resolved hs hres htidy hundelivered hbots hvotes

end HumanGame

theorem FreshGame.human {room : Room} {firstPlayer : Uid} {created : Option ℕ}
    (h : FreshGame room firstPlayer created) (hundelivered : room.delivered = [])
    (hhuman : isBot firstPlayer = false) : HumanGame room := by
  refine ⟨h.tidy, ?_, hundelivered, fun _ => h.votes, ?_, ?_⟩
  · rw [h.pending, hhuman]; rfl
  · simp [h.status]
  · intro _ done t hturns
    rw [h.turns] at hturns
    obtain ⟨_, rfl⟩ := List.append_singleton_inj (l := []) hturns
    rfl

/-- So is the game of a deal without bots. -/
theorem Dealt.human {room : Room} {settings : Settings} {now : ℕ} {next : Lobby}
    (hdealt : Dealt settings (room.lobby.stamp now) next) (hun : Unstarted room)
    (hbots : next.NoBots) : HumanGame (room.store next.stored) := by
  have hs : Scheduled settings next.stored := (Scheduled.dealt hdealt).stored
  obtain ⟨firstPlayer, created, hfresh⟩ := hdealt.fresh hun
  refine hfresh.human hun.delivered (hbots firstPlayer ?_)
  exact hs.player_mem (t := { player := firstPlayer, created := created })
    (by rw [show next.stored.turns = _ from hfresh.turns]; simp)

/-- Every started game without bots is one of humans, whatever the requests. -/
theorem human_of_reachable {lobbyId : LobbyId} {G : Room → RoomInput → Prop} {room : Room}
    (h : Room.Reachable lobbyId G room) :
    Phase (fun _ room => room.lobby.NoBots → HumanGame room) room := by
  refine h.phase ?_ ?_
  · intro room now settings next hun hdealt hbots
    exact hdealt.human hun hbots
  · intro settings room i room' hs hhuman _ hstep hbots
    have hbots' : room.lobby.NoBots := hbots.congr (hstep.seats hs.started).players.symm
    exact (hhuman hbots').step hs hbots' hstep

/-! ### Moving the turn on -/

/-- What `uid` did moved the current turn on: its word was submitted, a vote of someone who
    had none was recorded, or it was resolved. -/
inductive TurnMoved (uid : Uid) (lobby lobby' : Lobby) : Prop
  | submitted (done : List Turn) (t t' : Turn) (hturns : lobby.turns = done ++ [t])
      (hblank : t.submittedWord = none) (hturns' : lobby'.turns[done.length]? = some t')
      (hword : t'.submittedWord ≠ none)
  | voted (hnone : lobby.votes.get? uid = none) (hvoted : lobby'.votes.get? uid ≠ none)
  | resolved (done : List Turn) (t t' : Turn) (hturns : lobby.turns = done ++ [t])
      (hopen : ¬ t.Resolved) (hturns' : lobby'.turns[done.length]? = some t')
      (hresolved : t'.Resolved)

namespace Server

/-- Some player has a request that this lobby accepts at any time, and that moves the turn on. -/
def CanAdvance (server : Server) (lobbyId : LobbyId) (lobby : Lobby) : Prop :=
  ∃ uid ∈ lobby.players.keys, ∃ request c, PlayRequest uid request ∧
    server.issue request = .ok [.call lobbyId c] ∧
    ∀ now, ∃ lobby', updateLobby lobbyId (c.transaction lobbyId) now (some lobby) = .ok lobby' ∧
      TurnMoved uid lobby lobby'

/-- The player on turn is still there to submit; or a player without a vote is there to cast
    it, and if it completes the ballots, all recorded challenges are of players. -/
inductive MoveDue (server : Server) (lobbyId : LobbyId) (lobby : Lobby) : Prop
  | word (uid : Uid) (hhere : server.playerLobbyMap.get? uid = some lobbyId)
      (hstatus : lobby.status = .submission) (hturn : lobby.OnTurn uid)
  | vote (uid : Uid) (hhere : server.playerLobbyMap.get? uid = some lobbyId)
      (hstatus : lobby.status = .voting) (hplayer : uid ∈ lobby.players.keys)
      (hother : ¬ lobby.OnTurn uid) (hnone : lobby.votes.get? uid = none)
      (hseated : lobby.votes.size + 2 = lobby.playerOrder.length →
        ∀ voter, lobby.votes.get? voter = some (.bool true) → voter ∈ lobby.players.keys)

end Server

/-! ### What a commit does to the current turn -/

theorem stored_getElem? {lobby : Lobby} {k : ℕ} {t : Turn} (h : lobby.turns[k]? = some t) :
    lobby.stored.turns[k]? = some t.stored := by
  show (lobby.turns.map Turn.stored)[k]? = _
  rw [List.getElem?_map, h]
  rfl

theorem Advances.getElem? {lobby lobby' : Lobby} {status : Status}
    (h : Advances lobby lobby' status) {k : ℕ} {t : Turn} (hk : lobby.turns[k]? = some t) :
    lobby'.turns[k]? = some t := by
  cases h with
  | gameOver => exact hk
  | nextTurn settings nextPlayer =>
    obtain ⟨hlt, _⟩ := List.getElem?_eq_some_iff.mp hk
    show (lobby.turns ++ [_])[k]? = some t
    rw [List.getElem?_append_left hlt]
    exact hk

/-- A played word is the word of the turn it was played on. -/
theorem WordPlayed.getElem? {word : Json} {lobby next : Lobby} (h : WordPlayed word lobby next)
    {done : List Turn} {t : Turn} (hturns : lobby.turns = done ++ [t]) :
    ∃ t', next.turns[done.length]? = some t' ∧ t'.submittedWord = some word := by
  cases h with
  | awaitsVotes done' u hturns' hnone =>
    obtain ⟨rfl, rfl⟩ := List.append_singleton_inj (hturns.symm.trans hturns')
    exact ⟨t.submit word, List.getElem?_concat_length, rfl⟩
  | othersWord done' u hturns' otherId hother players hscored lobby' status hadvances =>
    obtain ⟨rfl, rfl⟩ := List.append_singleton_inj (hturns.symm.trans hturns')
    exact ⟨(t.submit word).stolen otherId, hadvances.getElem? List.getElem?_concat_length, rfl⟩

/-- Ballots short of the quorum are kept; complete ones resolve the turn they were cast on. -/
theorem VotesCast.getElem? {votes : Votes} {tallied : ℕ} {lobby next : Lobby}
    (h : VotesCast votes tallied lobby next) {done : List Turn} {t : Turn}
    (hturns : lobby.turns = done ++ [t]) :
    (votes.size + 1 ≠ lobby.playerOrder.length ∧ next.votes = votes ∧ next.turns = lobby.turns) ∨
    (votes.size + 1 = lobby.playerOrder.length ∧
      ∃ bank, (t.tally votes bank).Payable lobby.players ∧
        next.turns[done.length]? = some (t.tally votes bank)) := by
  cases h with
  | stillOpen hopen => exact Or.inl ⟨hopen, rfl, rfl⟩
  | tally hquorum done' u hturns' bank hbank hpayable players hscored lobby' status hadvances =>
    obtain ⟨rfl, rfl⟩ := List.append_singleton_inj (hturns.symm.trans hturns')
    exact Or.inr ⟨hquorum, bank, hpayable, hadvances.getElem? List.getElem?_concat_length⟩

/-! ### Due moves are accepted, and only they -/

namespace HumanGame

variable {lobbyId : LobbyId} {settings : Settings} {room : Room} {server : Server}

/-- The current turn of a running game has no outcome. -/
theorem current_open (h : HumanGame room) (hrunning : room.lobby.status ≠ .done) {done : List Turn}
    {t : Turn} (hturns : room.lobby.turns = done ++ [t]) :
    ¬ t.Resolved ∧ t.wasOthersWord = false := by
  have hopen : ¬ t.Resolved := fun hresolved => hrunning ((h.current done t hturns).mp hresolved)
  exact ⟨hopen, Bool.eq_false_iff.mpr (fun hothers => hopen (Or.inl hothers))⟩

/-- An accepted vote that moves the turn on is the first of its voter, and is counted. -/
theorem vote_due (h : HumanGame room) (hs : Scheduled settings room.lobby) {uid : Uid} {vote : Json}
    (hplayer : uid ∈ room.lobby.players.keys) {now : ℕ} {lobby' : Lobby}
    (heffect : CallEffect now room.lobby (.voteOnWord uid vote) lobby')
    (hmoved : TurnMoved uid room.lobby lobby') :
    room.lobby.votes.get? uid = none ∧
    (room.lobby.votes.size + 2 = room.lobby.playerOrder.length →
      ∀ voter, room.lobby.votes.get? voter = some (.bool true) →
        voter ∈ room.lobby.players.keys) := by
  obtain ⟨hstatus, hother, _, k, next, _, hcast, rfl⟩ := heffect
  obtain ⟨done, t, hturns⟩ := hs.turns_eq
  obtain ⟨hopen, hvoted⟩ := h.current_open (by rw [hstatus]; simp) hturns
  have hlast : (room.lobby.stamp now).turns = done ++ [t] := hturns
  have hcases := hcast.getElem? hlast
  -- the voter is of the electorate, so it is not empty and the ballots are short of it
  have hseats : uid ∈ room.lobby.electorate t.player :=
    mem_electorate.mpr ⟨fun heq => hother ⟨done, t, hturns, heq.symm⟩, hplayer⟩
  have hlen := hs.length_electorate (t := t) (by rw [hturns]; simp)
  have hpos := List.length_pos_of_mem hseats
  have hfew := h.few hstatus (by omega)
  have hnone : room.lobby.votes.get? uid = none := by
    cases hmoved with
    | voted hnone _ => exact hnone
    | submitted done' u u' hturns' hblank =>
      obtain ⟨_, rfl⟩ := List.append_singleton_inj (hturns.symm.trans hturns')
      exact absurd hblank (h.voting hstatus done t hturns)
    | resolved done' u u' hturns' _ hlater hresolved =>
      obtain ⟨rfl, rfl⟩ := List.append_singleton_inj (hturns.symm.trans hturns')
      rcases hcases with ⟨_, _, hsame⟩ | ⟨hquorum, _⟩
      · -- the ballots were short, and the turn is as it was
        have hsame : next.turns[done.length]? = some t := by
          rw [hsame]
          exact hturns ▸ List.getElem?_concat_length
        have hstored := stored_getElem? hsame
        rw [hlater] at hstored
        obtain rfl := Option.some.inj hstored
        exact absurd ((Turn.stored_resolved t).mp hresolved) hopen
      · -- only a fresh ballot can complete them
        rw [Dict.get?_eq_none_iff]
        intro hmem
        rw [Dict.size_set, if_pos hmem] at hquorum
        have hquorum : room.lobby.votes.size + 1 = room.lobby.playerOrder.length := hquorum
        omega
  refine ⟨hnone, fun hlast voter hvoter => ?_⟩
  have hsize : (room.lobby.votes.set uid vote).size = room.lobby.votes.size + 1 := by
    rw [Dict.size_set, if_neg (Dict.get?_eq_none_iff.mp hnone)]
  rcases hcases with ⟨hshort, _, _⟩ | ⟨_, bank, hpayable, _⟩
  · rw [hsize] at hshort
    exact absurd hlast hshort
  · -- the ballots were complete and the tally was paid, so all challengers are seated
    have hne : voter ≠ uid := by
      rintro rfl
      rw [hnone] at hvoter
      cases hvoter
    refine (Turn.tally_payable hvoted _ bank _).mp hpayable (voter, .bool true) ?_ rfl
    rw [← Dict.get?_eq_some_iff, Dict.get?_set_ne _ _ hne]
    exact hvoter

theorem moveDue (h : HumanGame room) (hs : Scheduled settings room.lobby)
    (hcan : server.CanAdvance lobbyId room.lobby) : server.MoveDue lobbyId room.lobby := by
  obtain ⟨uid, hplayer, request, c, hplay, hissue, haccepted⟩ := hcan
  obtain ⟨hhere, hcall⟩ := Server.issue_play hplay hissue
  obtain ⟨lobby', hok, hmoved⟩ := haccepted 0
  have heffect := call_ok hok
  rcases hcall with ⟨word, rfl⟩ | ⟨vote, rfl⟩
  · exact .word uid hhere heffect.1 heffect.2.1
  · obtain ⟨hnone, hseated⟩ := h.vote_due hs hplayer heffect hmoved
    exact .vote uid hhere heffect.1 hplayer heffect.2.1 hnone hseated

/-- The player on turn can submit a word the database takes. -/
theorem word_accepted (h : HumanGame room) (hs : Scheduled settings room.lobby)
    (hstatus : room.lobby.status = .submission) {uid : Uid} (hturn : room.lobby.OnTurn uid)
    {word : Json} (hstorable : word.storable = true) (now : ℕ) :
    ∃ lobby', updateLobby lobbyId (submitWord lobbyId uid word) now (some room.lobby) = .ok lobby' ∧
      TurnMoved uid room.lobby lobby' := by
  obtain ⟨done, t, hturns, rfl⟩ := hturn
  obtain ⟨lobby', hok⟩ := hs.submitWord_commits lobbyId now hstatus hturns hstorable
  refine ⟨lobby', hok, ?_⟩
  have heffect : CallEffect now room.lobby (.submitWord t.player word) lobby' := call_ok hok
  obtain ⟨_, _, next, hplayed, rfl⟩ := heffect
  have hlast : (room.lobby.stamp now).turns = done ++ [t] := hturns
  obtain ⟨t', hlater, hword⟩ := hplayed.getElem? hlast
  refine .submitted done t t'.stored hturns (h.blank hstatus done t hturns)
    (stored_getElem? hlater) ?_
  rw [show t'.stored.submittedWord = t'.submittedWord from rfl, hword]
  exact Option.some_ne_none word

/-- A player without a vote can pass, if the ballots can then be counted. -/
theorem pass_accepted (h : HumanGame room) (hbox : OpenBallots room.lobby)
    (hs : Scheduled settings room.lobby) (hstatus : room.lobby.status = .voting) {uid : Uid}
    (hother : ¬ room.lobby.OnTurn uid) (hnone : room.lobby.votes.get? uid = none)
    (hseated : room.lobby.votes.size + 2 = room.lobby.playerOrder.length →
      ∀ voter, room.lobby.votes.get? voter = some (.bool true) → voter ∈ room.lobby.players.keys)
    (now : ℕ) :
    ∃ lobby', updateLobby lobbyId (voteOnWord lobbyId uid (.bool false)) now (some room.lobby)
        = .ok lobby' ∧ TurnMoved uid room.lobby lobby' := by
  obtain ⟨done, t, hturns⟩ := hs.turns_eq
  obtain ⟨k, hk⟩ := Option.ne_none_iff_exists'.mp (hbox.counter hstatus)
  obtain ⟨hopen, hvoted⟩ := h.current_open (by rw [hstatus]; simp) hturns
  have hsize : (room.lobby.votes.set uid (.bool false)).size = room.lobby.votes.size + 1 := by
    rw [Dict.size_set, if_neg (Dict.get?_eq_none_iff.mp hnone)]
  -- the pass itself challenges nobody, and the recorded challenges can be paid
  have hpayable :
      (room.lobby.votes.set uid (.bool false)).size + 1 = room.lobby.playerOrder.length →
      ∀ bank,
        (t.tally (room.lobby.votes.set uid (.bool false)) bank).Payable room.lobby.players := by
    intro hquorum bank
    rw [Turn.tally_payable hvoted]
    rintro ⟨voter, v⟩ hballot htruthy
    rw [← Dict.get?_eq_some_iff] at hballot
    by_cases hvoter : voter = uid
    · subst hvoter
      rw [Dict.get?_set_self] at hballot
      obtain rfl := Option.some.inj hballot
      cases htruthy
    · rw [Dict.get?_set_ne _ _ hvoter] at hballot
      obtain ⟨b, rfl⟩ := Json.isBool_iff.mp (hbox.bools voter v hballot)
      obtain rfl : b = true := htruthy
      exact hseated (by omega) voter hballot
  obtain ⟨lobby', hok⟩ := hs.voteOnWord_commits lobbyId now hstatus hturns
    (fun heq => hother ⟨done, t, hturns, heq⟩) rfl (by rw [hnone]; rfl) hk hpayable
  refine ⟨lobby', hok, ?_⟩
  have heffect : CallEffect now room.lobby (.voteOnWord uid (.bool false)) lobby' := call_ok hok
  obtain ⟨_, _, _, k', next, _, hcast, rfl⟩ := heffect
  have hlast : (room.lobby.stamp now).turns = done ++ [t] := hturns
  rcases hcast.getElem? hlast with ⟨_, hvotes, _⟩ | ⟨_, bank, _, hlater⟩
  · refine .voted hnone ?_
    have hvoted : next.votes.get? uid = some (.bool false) := by rw [hvotes, Dict.get?_set_self]
    rw [show next.stored.votes = next.votes.stored from rfl, Votes.get?_stored_bool hvoted]
    simp
  · refine .resolved done t _ hturns hopen (stored_getElem? hlater) ?_
    exact Or.inr (by simp [Turn.tally, Turn.stored])

theorem canAdvance (h : HumanGame room) (hbox : OpenBallots room.lobby)
    (hs : Scheduled settings room.lobby)
    (hname : ∀ uid, server.playerLobbyMap.get? uid = some lobbyId → uid ≠ "")
    (hdue : server.MoveDue lobbyId room.lobby) : server.CanAdvance lobbyId room.lobby := by
  cases hdue with
  | word uid hhere hstatus hturn =>
    have hplayer : uid ∈ room.lobby.players.keys := by
      obtain ⟨done, t, hturns, rfl⟩ := hturn
      exact hs.player_mem (by rw [hturns]; simp)
    exact ⟨uid, hplayer, _, _, .submitWord _, Server.issue_submitWord (hname uid hhere) hhere,
      h.word_accepted hs hstatus hturn rfl⟩
  | vote uid hhere hstatus hplayer hother hnone hseated =>
    exact ⟨uid, hplayer, _, _, .voteOnWord _, Server.issue_pass (hname uid hhere) hhere,
      h.pass_accepted hbox hs hstatus hother hnone hseated⟩

end HumanGame

/-! ### Runs in which only players challenge -/

/-- The guard of runs with boolean votes in which only players challenge. -/
def SeatedChallenges (room : Room) : RoomInput → Prop
  | .call _ (.voteOnWord uid vote) => vote.isBool = true ∧
      (room.lobby.status = .voting → vote.truthy = true → uid ∈ room.lobby.players.keys)
  | _ => True

instance (room : Room) : ∀ i, Decidable (SeatedChallenges room i)
  | .call _ (.voteOnWord _ _) => inferInstanceAs (Decidable (_ ∧ (_ → _ → _)))
  | .call _ (.submitWord _ _) => inferInstanceAs (Decidable True)
  | .call _ (.addPlayerToLobby _ _) => inferInstanceAs (Decidable True)
  | .call _ (.addBot _) => inferInstanceAs (Decidable True)
  | .call _ (.startGame _ _ _) => inferInstanceAs (Decidable True)
  | .call _ (.requestNewWords _ _) => inferInstanceAs (Decidable True)
  | .deliver _ _ _ => inferInstanceAs (Decidable True)
  | .redeliver _ _ _ => inferInstanceAs (Decidable True)

/-- The recorded challenges are of players. -/
def Lobby.ChallengesSeated (lobby : Lobby) : Prop :=
  lobby.votes.All (fun voter v => v.truthy = true → voter ∈ lobby.players.keys)

theorem Votes.All.of_stored {P : Uid → Json → Prop} {votes : Votes} (h : votes.All P) :
    votes.stored.All P := by
  intro uid v hget
  rw [Votes.stored, Dict.get?_filterMap, Option.bind_eq_some_iff] at hget
  obtain ⟨w, hw, hv⟩ := hget
  obtain rfl := (Json.stored_eq_some hv).1
  exact h uid v hw

theorem Lobby.ChallengesSeated.congr {lobby lobby' : Lobby} (h : lobby.ChallengesSeated)
    (hvotes : lobby'.votes = lobby.votes ∨ lobby'.votes = ∅)
    (hkeys : lobby'.players.keys = lobby.players.keys) : lobby'.ChallengesSeated := by
  intro uid v hget htruthy
  rw [hkeys]
  rcases hvotes with hsame | hempty
  · rw [hsame] at hget
    exact h uid v hget htruthy
  · rw [hempty] at hget
    cases hget

theorem HumanGame.challengesSeated_step {lobbyId : LobbyId} {settings : Settings}
    {room room' : Room} {i : RoomInput} (h : HumanGame room) (hs : Scheduled settings room.lobby)
    (hseated : room.lobby.ChallengesSeated) (hG : SeatedChallenges room i)
    (hstep : RoomStep lobbyId room i room') : room'.lobby.ChallengesSeated := by
  rcases h.orderly_or_same hstep with horderly | rfl
  swap
  · exact hseated
  have hkeys := (hstep.seats hs.started).players
  cases h.toTidy.gameStep hs horderly hstep with
  | idle i hrejected room' hlobby hpending => exact hseated.congr (Or.inl (by rw [hlobby])) hkeys
  | exchanged now playerId random hallowed room' hok hstatus hturns hvotes =>
    exact hseated.congr (Or.inl hvotes) hkeys
  | opened i word cleared hby hstatus done t hturns room' hstatus' hturns' hvotes =>
    exact hseated.congr (Or.inl hvotes) hkeys
  | stolen i word cleared hby hstatus done t otherId hother room' hvotes hres =>
    exact hseated.congr (Or.inl hvotes) hkeys
  | tallied i votes left hby hstatus hquorum done t bank room' hvotes hres =>
    exact hseated.congr (Or.inr hvotes) hkeys
  | counted i votes left hby hstatus hopen room' hstatus' hturns hvotes =>
    cases hby with
    | bots now i answer turn ids hbatch => rw [h.silent] at hbatch; cases hbatch
    | user now uid vote hother hfresh hnone =>
      -- the new vote is no challenge, or a player's
      have hballots : Votes.All (fun voter v => v.truthy = true → voter ∈ room.lobby.players.keys)
          (room.lobby.votes.set uid vote) := Votes.All.set hseated (hG.2 hstatus)
      intro voter v hget
      rw [hkeys]
      rw [hvotes] at hget
      exact hballots.of_stored voter v hget

theorem challengesSeated_of_reachable {lobbyId : LobbyId} {room : Room}
    (h : Room.Reachable lobbyId SeatedChallenges room) :
    Phase (fun _ room => room.lobby.NoBots →
      HumanGame room ∧ room.lobby.ChallengesSeated) room := by
  refine h.phase ?_ ?_
  · intro room now settings next hun hdealt hbots
    obtain ⟨firstPlayer, created, hfresh⟩ := hdealt.fresh hun
    refine ⟨hdealt.human hun hbots, ?_⟩
    intro uid v hget
    rw [hfresh.votes] at hget
    cases hget
  · intro settings room i room' hs hplay hG hstep hbots
    have hbots' : room.lobby.NoBots := hbots.congr (hstep.seats hs.started).players.symm
    obtain ⟨hhuman, hseated⟩ := hplay hbots'
    exact ⟨hhuman.step hs hbots' hstep, hhuman.challengesSeated_step hs hseated hG hstep⟩

/-- Short of the quorum, a player other than the submitter has no vote yet. -/
theorem HumanGame.voter_left {settings : Settings} {room : Room} (h : HumanGame room)
    (hs : Scheduled settings room.lobby) (hstatus : room.lobby.status = .voting)
    (hplayers : 2 ≤ room.lobby.players.size) :
    ∃ uid ∈ room.lobby.players.keys,
      ¬ room.lobby.OnTurn uid ∧ room.lobby.votes.get? uid = none := by
  obtain ⟨done, t, hturns⟩ := hs.turns_eq
  have hsize : room.lobby.playerOrder.length = room.lobby.players.size := hs.order_perm.length_eq
  have hlen := hs.length_electorate (t := t) (by rw [hturns]; simp)
  have hfew := h.few hstatus (by omega)
  obtain ⟨uid, huid, hfree⟩ :
      ∃ uid ∈ room.lobby.electorate t.player, uid ∉ room.lobby.votes.keys := by
    by_contra hall
    push Not at hall
    -- otherwise the box would hold a ballot of everyone who votes
    have hnodup : (room.lobby.electorate t.player).Nodup := room.lobby.players.keys_nodup.erase _
    have hle := (List.subperm_of_subset hnodup hall).length_le
    have hvotes : room.lobby.votes.size = room.lobby.votes.keys.length := rfl
    omega
  obtain ⟨hne, hplayer⟩ := mem_electorate.mp huid
  exact ⟨uid, hplayer, not_onTurn_of_turns hturns hne.symm, Dict.get?_eq_none_iff.mpr hfree⟩

/-- **Progress.**  In every state of a running game without bots, reached with boolean votes, a
    player can move the turn on exactly if a move is due.  In a run in which only players
    challenge, one is always due as long as the players stay and there are at least two. -/
theorem can_advance_iff {server : Server} (h : Server.Reachable (Server.lift BooleanVotes) server)
    {lobbyId : LobbyId} {room : Room} (hroom : server.rooms.get? lobbyId = some room)
    (hbots : room.lobby.NoBots)
    (hrunning : room.lobby.status = .submission ∨ room.lobby.status = .voting) :
    (server.CanAdvance lobbyId room.lobby ↔ server.MoveDue lobbyId room.lobby) ∧
    (Server.Reachable (Server.lift SeatedChallenges) server →
      (∀ uid ∈ room.lobby.players.keys, server.playerLobbyMap.get? uid = some lobbyId) →
      room.lobby.status = .submission ∨ 2 ≤ room.lobby.players.size →
      server.CanAdvance lobbyId room.lobby) := by
  have hreach := Server.room_reachable h hroom
  have hstarted : room.lobby.status ≠ .lobby :=
      by rcases hrunning with hst | hst <;> rw [hst] <;> simp
  obtain ⟨settings, hs, hhuman⟩ := (human_of_reachable hreach).game hstarted
  obtain ⟨_, _, _, hbox⟩ := (openBallots_of_reachable hreach).game hstarted
  have hname : ∀ uid, server.playerLobbyMap.get? uid = some lobbyId → uid ≠ "" :=
    fun uid hhere => Server.uid_ne_of_reachable h hhere
  have hgame := hhuman hbots
  have hcan : server.MoveDue lobbyId room.lobby → server.CanAdvance lobbyId room.lobby :=
    hgame.canAdvance hbox hs hname
  refine ⟨⟨hgame.moveDue hs, hcan⟩, fun hseats hhere hplayers => hcan ?_⟩
  rcases hrunning with hstatus | hstatus
  · obtain ⟨done, t, hturns⟩ := hs.turns_eq
    have hplayer : t.player ∈ room.lobby.players.keys := hs.player_mem (by rw [hturns]; simp)
    exact .word t.player (hhere _ hplayer) hstatus ⟨done, t, hturns, rfl⟩
  · have hplayers : 2 ≤ room.lobby.players.size := by
      rcases hplayers with hst | hplayers
      · rw [hstatus] at hst; cases hst
      · exact hplayers
    obtain ⟨uid, hplayer, hother, hnone⟩ := hgame.voter_left hs hstatus hplayers
    obtain ⟨_, _, hboth⟩ :=
      (challengesSeated_of_reachable (Server.room_reachable hseats hroom)).game hstarted
    refine .vote uid (hhere uid hplayer) hstatus hplayer hother hnone ?_
    intro _ voter hvoter
    exact (hboth hbots).2 voter _ hvoter rfl

/-- `ben` has submitted in a game of two. -/
def sampleAwaiting : List ServerInput := sampleServerStart ["ben"] ++ sampleSubmission

theorem can_advance_iff_sample :
    ∃ room, (sampleServer sampleAwaiting).rooms.get? "L" = some room ∧
      (sampleServer sampleAwaiting).CanAdvance "L" room.lobby := by
  have hstate : ((sampleServer sampleAwaiting).rooms.get? "L").map
      (fun room => (room.lobby.status, room.lobby.players.keys))
      = some (.voting, ["ann", "ben"]) := by
    decide +kernel
  obtain ⟨room, hroom, hstate⟩ := Option.map_eq_some_iff.mp hstate
  have hstatus : room.lobby.status = .voting := congrArg Prod.fst hstate
  have hkeys : room.lobby.players.keys = ["ann", "ben"] := congrArg Prod.snd hstate
  have hbots : room.lobby.NoBots := by
    intro uid huid
    rw [hkeys] at huid
    revert uid
    decide
  have hhere : ∀ uid ∈ room.lobby.players.keys,
      (sampleServer sampleAwaiting).playerLobbyMap.get? uid = some "L" := by
    rw [hkeys]
    decide +kernel
  have hplayers : 2 ≤ room.lobby.players.size := by rw [Dict.size, hkeys]; decide
  exact ⟨room, hroom, (can_advance_iff (sampleServer_reachable (by decide +kernel)) hroom hbots
    (Or.inr hstatus)).2 (sampleServer_reachable (by decide +kernel)) hhere (Or.inr hplayers)⟩

/-- `eve`, who could not join, challenges `ben`'s word in a game of three. -/
def sampleBlocked : List ServerInput :=
  sampleServerStart ["ben", "carol"] ++ [sampleJoin "eve", .perform 8 0, .perform 9 0] ++
    sampleSubmission ++ sampleVote "eve" true

/-- From then on the vote that completes the ballots throws. -/
theorem game_stuck :
    ¬ ∀ (server : Server), Server.Reachable (Server.lift BooleanVotes) server →
      ∀ lobbyId room, server.rooms.get? lobbyId = some room → room.lobby.NoBots →
      room.lobby.status = .submission ∨ room.lobby.status = .voting →
      server.CanAdvance lobbyId room.lobby := by
  intro hadvances
  have hreach : Server.Reachable (Server.lift BooleanVotes) (sampleServer sampleBlocked) :=
    sampleServer_reachable (by decide +kernel)
  have hstate : ((sampleServer sampleBlocked).rooms.get? "L").map
      (fun room => (room.lobby.status, room.lobby.players.keys))
      = some (.voting, ["ann", "ben", "carol"]) := by
    decide +kernel
  have hballots : ((sampleServer sampleBlocked).rooms.get? "L").map
      (fun room => (room.lobby.votes.size, room.lobby.playerOrder.length)) = some (1, 3) := by
    decide +kernel
  have hvote : ((sampleServer sampleBlocked).rooms.get? "L").map
      (fun room => (room.lobby.votes.get? "eve").map (fun v => (v.isBool, v.truthy)))
      = some (some (true, true)) := by
    decide +kernel
  obtain ⟨room, hroom, hstate⟩ := Option.map_eq_some_iff.mp hstate
  rw [hroom] at hballots hvote
  have hstatus : room.lobby.status = .voting := congrArg Prod.fst hstate
  have hkeys : room.lobby.players.keys = ["ann", "ben", "carol"] := congrArg Prod.snd hstate
  have hsize : room.lobby.votes.size = 1 := congrArg Prod.fst (Option.some.inj hballots)
  have horder : room.lobby.playerOrder.length = 3 := congrArg Prod.snd (Option.some.inj hballots)
  have hvote := Option.some.inj hvote
  obtain ⟨v, hget, hv⟩ := Option.map_eq_some_iff.mp hvote
  have htruthy : v.truthy = true := congrArg Prod.snd hv
  rw [Json.eq_bool (congrArg Prod.fst hv), htruthy] at hget
  have hbots : room.lobby.NoBots := by
    intro uid huid
    rw [hkeys] at huid
    revert uid
    decide
  have hcan := hadvances _ hreach "L" room hroom hbots (Or.inr hstatus)
  have hroomReach := Server.room_reachable hreach hroom
  obtain ⟨settings, hs, hhuman⟩ := (human_of_reachable hroomReach).game (by rw [hstatus]; simp)
  cases (hhuman hbots).moveDue hs hcan with
  | word uid hhere hsubmission => rw [hstatus] at hsubmission; cases hsubmission
  | vote uid hhere hvoting hplayer hother hnone hseated =>
    have heve := hseated (by rw [hsize, horder]) "eve" hget
    rw [hkeys] at heve
    revert heve
    decide

end PasswordApp
