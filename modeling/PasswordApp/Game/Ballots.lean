import Mathlib.Data.List.GetD
import Mathlib.Data.List.Perm.Subperm
import PasswordApp.Game.History

namespace PasswordApp

/-!
# Game — who votes

`voteOnWord` never asks whether the caller plays in the lobby.  When all votes come from
players (`PlayersOnly`), the ballots of a turn are cast by its electorate, the players
other than the submitter:

* `Fair` — the invariant of such runs: ballots are booleans of the electorate, and as long as
  the batch of the bots is pending none of the bots has voted;
* `Fair.orderly`, `Room.Reachable.orderly` — so no trigger ever comes late;
* `Fair.voters` — and a turn resolved by voting has a ballot of exactly its electorate.
-/

/-- Is the value a boolean? -/
def Json.isBool : Json → Bool
  | .bool _ => true
  | _ => false

theorem Json.isBool_iff {v : Json} : v.isBool = true ↔ ∃ b, v = .bool b := by
  cases v <;> simp [Json.isBool]

theorem Json.storable_of_isBool {v : Json} (h : v.isBool = true) : v.storable = true := by
  obtain ⟨b, rfl⟩ := Json.isBool_iff.mp h
  rfl

theorem Json.eq_bool {v : Json} (h : v.isBool = true) : v = .bool v.truthy := by
  obtain ⟨b, rfl⟩ := Json.isBool_iff.mp h
  rfl

/-- The guard of runs in which votes are booleans. -/
def BooleanVotes (_ : Room) : RoomInput → Prop
  | .call _ (.voteOnWord _ vote) => vote.isBool = true
  | _ => True

instance (room : Room) : ∀ i, Decidable (BooleanVotes room i)
  | .call _ (.voteOnWord _ _) => inferInstanceAs (Decidable (_ = _))
  | .call _ (.submitWord _ _) => inferInstanceAs (Decidable True)
  | .call _ (.addPlayerToLobby _ _) => inferInstanceAs (Decidable True)
  | .call _ (.addBot _) => inferInstanceAs (Decidable True)
  | .call _ (.startGame _ _ _) => inferInstanceAs (Decidable True)
  | .call _ (.requestNewWords _ _) => inferInstanceAs (Decidable True)
  | .deliver _ _ _ => inferInstanceAs (Decidable True)
  | .redeliver _ _ _ => inferInstanceAs (Decidable True)

/-- The guard of runs in which only players vote: votes come from players whose uid is not
    taken for a bot's and are booleans, no human uid plays a bot's turn, and no event runs
    twice. -/
def PlayersOnly (room : Room) : RoomInput → Prop
  | .call _ (.submitWord uid _) =>
      room.lobby.status = .submission → room.lobby.OnTurn uid → isBot uid = false
  | .call _ (.voteOnWord uid vote) =>
      room.lobby.status = .voting →
        uid ∈ room.lobby.players.keys ∧ isBot uid = false ∧ vote.isBool = true
  | .redeliver _ _ _ => False
  | _ => True

instance (room : Room) : ∀ i, Decidable (PlayersOnly room i)
  | .call _ (.submitWord uid _) => inferInstanceAs (Decidable (_ → room.lobby.OnTurn uid → _))
  | .call _ (.voteOnWord _ _) => inferInstanceAs (Decidable (_ → _ ∧ _ ∧ _))
  | .redeliver _ _ _ => inferInstanceAs (Decidable False)
  | .call _ (.addPlayerToLobby _ _) => inferInstanceAs (Decidable True)
  | .call _ (.addBot _) => inferInstanceAs (Decidable True)
  | .call _ (.startGame _ _ _) => inferInstanceAs (Decidable True)
  | .call _ (.requestNewWords _ _) => inferInstanceAs (Decidable True)
  | .deliver _ _ _ => inferInstanceAs (Decidable True)

/-! ### The electorate -/

/-- The players who vote on a word of `submitter`. -/
def Lobby.electorate (lobby : Lobby) (submitter : Uid) : List Uid :=
  lobby.players.keys.erase submitter

theorem mem_electorate {lobby : Lobby} {submitter uid : Uid} :
    uid ∈ lobby.electorate submitter ↔ uid ≠ submitter ∧ uid ∈ lobby.players.keys :=
  lobby.players.keys_nodup.mem_erase_iff

theorem mem_votingBots {lobby : Lobby} {submitter uid : Uid} :
    uid ∈ votingBots lobby submitter ↔ uid ∈ lobby.electorate submitter ∧ isBot uid = true := by
  rw [mem_electorate, votingBots, List.mem_filter]
  simp only [Bool.and_eq_true, decide_eq_true_eq]
  tauto

theorem electorate_congr {lobby lobby' : Lobby} (h : lobby'.players.keys = lobby.players.keys)
    (submitter : Uid) : lobby'.electorate submitter = lobby.electorate submitter := by
  rw [Lobby.electorate, Lobby.electorate, h]

theorem votingBots_congr {lobby lobby' : Lobby} (h : lobby'.players.keys = lobby.players.keys)
    (submitter : Uid) : votingBots lobby' submitter = votingBots lobby submitter := by
  rw [votingBots, votingBots, h]

namespace Scheduled

variable {settings : Settings} {lobby : Lobby}

/-- The quorum of `handleVote` is the size of the electorate. -/
theorem length_electorate (h : Scheduled settings lobby) {t : Turn} (ht : t ∈ lobby.turns) :
    (lobby.electorate t.player).length + 1 = lobby.playerOrder.length := by
  have hmem := h.player_mem ht
  have hpos := List.length_pos_of_mem hmem
  rw [h.order_perm.length_eq, Lobby.electorate, List.length_erase_of_mem hmem]
  omega

end Scheduled

/-! ### Ballots -/

/-- The bot that gets the algorithm's vote is one of the batch. -/
theorem chosen_mem {ids : List Uid} (hne : ids ≠ []) (random : Draw) :
    ids.getD (random.index ids.length) "undefined" ∈ ids := by
  have hlt := random.index_lt (List.length_pos_of_ne_nil hne)
  rw [List.getD_eq_getElem _ _ hlt]
  exact List.getElem_mem hlt

/-- The passes of a batch leave the votes of everyone else alone. -/
theorem foldl_pass_get? {votes : Votes} {ids : List Uid} {uid : Uid} (huid : uid ∉ ids) :
    (ids.foldl (fun votes botId => votes.set botId (.bool false)) votes).get? uid
      = votes.get? uid := by
  induction ids generalizing votes with
  | nil => rfl
  | cons id ids ih =>
    rw [List.mem_cons, not_or] at huid
    rw [List.foldl_cons, ih huid.2, Dict.get?_set_ne _ _ huid.1]

/-- A batch leaves the votes of everyone else alone. -/
theorem castBotVotes_get? {votes : Votes} {ids : List Uid} (hne : ids ≠ []) {uid : Uid}
    (huid : uid ∉ ids) (botVote : Bool) (random : Draw) :
    (castBotVotes votes ids botVote random).get? uid = votes.get? uid := by
  -- the drawn bot is one of the batch, so its vote is not `uid`'s
  have hother : uid ≠ ids.getD (random.index ids.length) "undefined" := by
    intro heq
    exact huid (heq ▸ chosen_mem hne random)
  unfold castBotVotes
  rw [Dict.get?_set_ne _ _ hother, foldl_pass_get? huid]

/-- A batch adds its bots to the voters. -/
theorem mem_keys_castBotVotes {votes : Votes} {ids : List Uid} (hne : ids ≠ []) {uid : Uid}
    (botVote : Bool) (random : Draw) :
    uid ∈ (castBotVotes votes ids botVote random).keys ↔ uid ∈ votes.keys ∨ uid ∈ ids := by
  have hfold : uid ∈ (ids.foldl (fun votes botId => votes.set botId (.bool false)) votes).keys ↔
      uid ∈ votes.keys ∨ uid ∈ ids := by
    clear hne
    induction ids generalizing votes with
    | nil => simp
    | cons id ids ih => rw [List.foldl_cons, ih, Dict.mem_keys_set, List.mem_cons]; tauto
  have hchosen := chosen_mem hne random
  unfold castBotVotes
  rw [Dict.mem_keys_set, hfold]
  constructor
  · rintro (rfl | h)
    · exact Or.inr hchosen
    · exact h
  · exact Or.inr

/-- Every ballot satisfies `P`. -/
def Votes.All (P : Uid → Json → Prop) (votes : Votes) : Prop :=
  ∀ uid v, votes.get? uid = some v → P uid v

namespace Votes.All

variable {P : Uid → Json → Prop} {votes : Votes}

theorem set {uid : Uid} {vote : Json} (h : votes.All P) (hvote : P uid vote) :
    Votes.All P (votes.set uid vote) := by
  intro u v hget
  by_cases hu : u = uid
  · subst hu
    rw [Dict.get?_set_self] at hget
    obtain rfl := Option.some.inj hget
    exact hvote
  · rw [Dict.get?_set_ne _ _ hu] at hget
    exact h u v hget

/-- The batch of the bots casts booleans for them. -/
theorem castBotVotes (h : votes.All P) {ids : List Uid} (hne : ids ≠ [])
    (hids : ∀ uid ∈ ids, ∀ b, P uid (.bool b)) (botVote : Bool) (random : Draw) :
    Votes.All P (PasswordApp.castBotVotes votes ids botVote random) := by
  have hfold :
      Votes.All P (ids.foldl (fun votes botId => votes.set botId (.bool false)) votes) := by
    clear hne
    induction ids generalizing votes with
    | nil => exact h
    | cons id ids ih =>
      exact ih (h.set (hids id (by simp) false)) (fun uid hu => hids uid (by simp [hu]))
  exact hfold.set (hids _ (chosen_mem hne random) botVote)

theorem stored (h : votes.All (fun _ v => v.isBool = true)) : votes.stored = votes :=
  Votes.stored_of_bool (fun uid v hget => Json.isBool_iff.mp (h uid v hget))

end Votes.All

/-- Every ballot is a boolean of the electorate. -/
def ElectorateBallots (lobby : Lobby) (submitter : Uid) (votes : Votes) : Prop :=
  votes.All (fun uid v => uid ∈ lobby.electorate submitter ∧ v.isBool = true)

theorem ElectorateBallots.stored {lobby : Lobby} {submitter : Uid} {votes : Votes}
    (h : ElectorateBallots lobby submitter votes) : votes.stored = votes :=
  Votes.All.stored (fun uid v hget => (h uid v hget).2)

/-- As many ballots as the electorate has members are those of the electorate. -/
theorem ElectorateBallots.voters {lobby : Lobby} {submitter : Uid} {votes : Votes}
    (h : ElectorateBallots lobby submitter votes)
    (hquorum : votes.size = (lobby.electorate submitter).length) (uid : Uid) :
    uid ∈ votes.keys ↔ uid ∈ lobby.electorate submitter := by
  -- distinct voters of the electorate, and as many as it has: all of it
  have hmem : votes.keys ⊆ lobby.electorate submitter := by
    intro u hu
    obtain ⟨v, hget⟩ := Dict.mem_keys_iff.mp hu
    exact (h u v hget).1
  have hsub := List.subperm_of_subset votes.keys_nodup hmem
  exact (hsub.perm_of_length_le (le_of_eq hquorum.symm)).mem_iff

/-! ### Fair games -/

/-- A game in which only players vote. -/
structure Fair (room : Room) : Prop extends Tidy room where
  /-- No ballot outlives its turn. -/
  quiet : room.lobby.status ≠ .voting → room.lobby.votes = ∅
  /-- The ballots are the electorate's. -/
  ballots : room.lobby.status = .voting → ∀ done t, room.lobby.turns = done ++ [t] →
    ElectorateBallots room.lobby t.player room.lobby.votes
  /-- While the batch is pending, no bot has voted. -/
  batch : room.lobby.status = .voting → ∀ done t, room.lobby.turns = done ++ [t] →
    room.pending = [] ∨
      votingBots room.lobby t.player ≠ [] ∧ (∀ uid ∈ room.lobby.votes.keys, isBot uid = false) ∧
      ∃ turn, room.pending = [.watchForBotVotes turn (votingBots room.lobby t.player)]
  /-- A turn trigger is pending for a bot's turn only. -/
  botTurn : room.lobby.status = .submission → ∀ done t, room.lobby.turns = done ++ [t] →
    room.pending = [] ∨ isBot t.player = true
  /-- The turns resolved by voting have a ballot of everyone who votes. -/
  tallied : ∀ t ∈ room.lobby.turns, t.wasSubmittersWord ≠ none →
    ∀ uid, uid ∈ t.votes.keys ↔ uid ∈ room.lobby.electorate t.player

/-- **In a fair game no trigger comes late.** -/
theorem Fair.orderly {settings : Settings} {room : Room} {i : RoomInput} (h : Fair room)
    (hs : Scheduled settings room.lobby) (hP : PlayersOnly room i) : Orderly room i := by
  cases i with
  | deliver now i answer => trivial
  | redeliver now i answer => exact hP
  | call now c =>
    cases c with
    | addPlayerToLobby player playerId => trivial
    | addBot requesterId => trivial
    | startGame playerId gameSettings random => trivial
    | requestNewWords playerId random => trivial
    | submitWord playerId word =>
      rintro hstatus ⟨done, t, hturns, rfl⟩
      rcases h.botTurn hstatus done t hturns with hnil | hbot
      · exact hnil
      · -- an event is pending on a bot's turn only, but the submitter is human
        have hhuman : isBot t.player = false := hP hstatus ⟨done, t, hturns, rfl⟩
        rw [hhuman] at hbot
        cases hbot
    | voteOnWord playerId vote =>
      intro hstatus hother hquorum
      obtain ⟨hplayer, hhuman, hbool⟩ := hP hstatus
      obtain ⟨done, t, hturns⟩ := hs.turns_eq
      have ht : t ∈ room.lobby.turns := by rw [hturns]; simp
      -- the vote is of the electorate, like the ones in the box
      have hvoter : playerId ∈ room.lobby.electorate t.player :=
        mem_electorate.mpr ⟨fun heq => hother ⟨done, t, hturns, heq.symm⟩, hplayer⟩
      have hballots : ElectorateBallots room.lobby t.player (room.lobby.votes.set playerId vote) :=
        Votes.All.set (h.ballots hstatus done t hturns) ⟨hvoter, hbool⟩
      have hlen := hs.length_electorate ht
      rcases h.batch hstatus done t hturns with hnil | ⟨hbots, hnobot, _⟩
      · exact hnil
      · -- with one of the waiting bots the electorate would have voted already
        exfalso
        obtain ⟨bot, rest, hcons⟩ := List.exists_cons_of_ne_nil hbots
        obtain ⟨hbotmem, hbot⟩ : bot ∈ room.lobby.electorate t.player ∧ isBot bot = true :=
          mem_votingBots.mp (by rw [hcons]; exact List.mem_cons_self)
        have hvoted := (hballots.voters (by omega) bot).mpr hbotmem
        rcases Dict.mem_keys_set.mp hvoted with rfl | hvoted
        · rw [hhuman] at hbot
          cases hbot
        · rw [hnobot bot hvoted] at hbot
          cases hbot

/-- Before the game there is nothing to submit or to vote on. -/
theorem Unstarted.orderly {room : Room} {i : RoomInput} (h : Unstarted room)
    (hP : PlayersOnly room i) : Orderly room i := by
  cases i with
  | deliver now i answer => trivial
  | redeliver now i answer => exact hP
  | call now c =>
    cases c with
    | addPlayerToLobby player playerId => trivial
    | addBot requesterId => trivial
    | startGame playerId gameSettings random => trivial
    | requestNewWords playerId random => trivial
    | submitWord playerId word => exact fun _ _ => h.pending
    | voteOnWord playerId vote => exact fun _ _ _ => h.pending

/-! ### Fairness is kept -/

/-- Ballots cast in a fair game are the electorate's. -/
theorem CastsVotes.ballots {room : Room} {i : RoomInput} {votes : Votes}
    {left : List BotTrigger} (hby : CastsVotes room i votes left) (h : Fair room)
    (hP : PlayersOnly room i) (hstatus : room.lobby.status = .voting) {done : List Turn} {t : Turn}
    (hturns : room.lobby.turns = done ++ [t]) :
    ElectorateBallots room.lobby t.player votes := by
  have hballots := h.ballots hstatus done t hturns
  cases hby with
  | user now uid vote hother hfresh hpending =>
    obtain ⟨hplayer, _, hbool⟩ := hP hstatus
    refine Votes.All.set hballots ⟨mem_electorate.mpr ⟨fun heq => ?_, hplayer⟩, hbool⟩
    exact hother ⟨done, t, hturns, heq.symm⟩
  | bots now i answer turn ids hpending =>
    -- the event in flight is the batch of this turn
    rcases h.batch hstatus done t hturns with hnil | ⟨hne, _, turn', hbatch⟩
    · rw [hpending] at hnil
      cases hnil
    · rw [hpending] at hbatch
      obtain ⟨_, rfl⟩ : turn = turn' ∧ ids = votingBots room.lobby t.player := by simpa using hbatch
      exact Votes.All.castBotVotes hballots hne
        (fun uid hu b => ⟨(mem_votingBots.mp hu).1, rfl⟩) _ _

/-- The next turn of a fair game starts without ballots. -/
theorem Resolves.fair {room room' : Room} {done : List Turn} {t t' : Turn} {cleared : Bool}
    (hres : Resolves room done t t' cleared room') (h : Fair room) (htidy : Tidy room')
    (hseats : SameSeats room.lobby room'.lobby)
    (hvotes : room'.lobby.votes = ∅)
    (htallied : t'.wasSubmittersWord ≠ none →
      ∀ uid, uid ∈ t'.stored.votes.keys ↔ uid ∈ room.lobby.electorate t'.player) : Fair room' := by
  have hkeys := hseats.players
  -- the earlier turns were fair, and so is the one that is resolved
  have hlog : ∀ u ∈ done ++ [t'.stored], u.wasSubmittersWord ≠ none →
      ∀ uid, uid ∈ u.votes.keys ↔ uid ∈ room'.lobby.electorate u.player := by
    intro u hu hword uid
    rw [electorate_congr hkeys]
    rcases List.mem_append.mp hu with hu | hu
    · exact h.tallied u (by rw [hres.turns]; exact List.mem_append_left _ hu) hword uid
    · rw [List.mem_singleton.mp hu] at hword ⊢
      exact htallied hword uid
  cases hres.next with
  | gameOver hstatus hturns hawaiting hpending =>
    refine ⟨htidy, fun _ => hvotes, ?_, ?_, ?_, ?_⟩
    · simp [hstatus]
    · simp [hstatus]
    · simp [hstatus]
    · rw [hturns]; exact hlog
  | nextTurn nextPlayer created hopen hnext hstatus hturns hawaiting hpending =>
    refine ⟨htidy, fun _ => hvotes, ?_, ?_, ?_, ?_⟩
    · simp [hstatus]
    · simp [hstatus]
    · intro _ done' u hu
      rw [hturns] at hu
      obtain ⟨_, rfl⟩ := List.append_singleton_inj hu
      rw [hpending]
      split
      · -- the flag was raised for this turn
        rename_i hraised
        right
        have hflag := hraised.2
        rw [hawaiting, hraised.1, Bool.false_or, Bool.and_eq_true] at hflag
        exact hflag.2
      · exact Or.inl rfl
    · rw [hturns]
      intro u hu
      rcases List.mem_append.mp hu with hu | hu
      · exact hlog u hu
      · rw [List.mem_singleton.mp hu]
        intro hword
        exact absurd rfl hword

/-- A freshly dealt game is fair. -/
theorem FreshGame.fair {room : Room} {firstPlayer : Uid} {created : Option ℕ}
    (h : FreshGame room firstPlayer created) : Fair room := by
  refine ⟨h.tidy, fun _ => h.votes, ?_, ?_, ?_, ?_⟩
  · simp [h.status]
  · simp [h.status]
  · intro _ done t hturns
    rw [h.turns] at hturns
    obtain ⟨_, rfl⟩ := List.append_singleton_inj (l := []) hturns
    rw [h.pending]
    split
    · rename_i hbot
      exact Or.inr hbot
    · exact Or.inl rfl
  · rw [h.turns]
    intro t ht hword
    rw [List.mem_singleton.mp ht] at hword
    exact absurd rfl hword

/-- **A game in which only players vote stays fair.** -/
theorem Fair.step {lobbyId : LobbyId} {settings : Settings} {room room' : Room} {i : RoomInput}
    (h : Fair room) (hs : Scheduled settings room.lobby) (hP : PlayersOnly room i)
    (hstep : RoomStep lobbyId room i room') : Fair room' := by
  have hG := h.orderly hs hP
  have htidy := h.toTidy.step hs hG hstep
  have hseats := hstep.seats hs.started
  have hkeys := hseats.players
  cases h.toTidy.gameStep hs hG hstep with
  | idle i hrejected room' hlobby hpending =>
    refine ⟨htidy, ?_, ?_, ?_, ?_, ?_⟩
    · rw [hlobby]; exact h.quiet
    · rw [hlobby]; exact h.ballots
    · rw [hlobby]
      rcases hpending with hsame | ⟨_, hnil⟩
      · rw [hsame]; exact h.batch
      · exact fun _ _ _ _ => Or.inl hnil
    · rw [hlobby]
      rcases hpending with hsame | ⟨_, hnil⟩
      · rw [hsame]; exact h.botTurn
      · exact fun _ _ _ _ => Or.inl hnil
    · rw [hlobby]; exact h.tallied
  | exchanged now playerId random hallowed room' hok hstatus hturns hvotes hawaiting hcharged
      hpending =>
    refine ⟨htidy, ?_, ?_, ?_, ?_, ?_⟩
    · rw [hstatus, hvotes]; exact h.quiet
    · rw [hstatus, hvotes, hturns]
      intro hst done t ht uid v hget
      rw [electorate_congr hkeys]
      exact h.ballots hst done t ht uid v hget
    · rw [hstatus, hvotes, hturns, hpending]
      intro hst done t ht
      rw [votingBots_congr hkeys]
      exact h.batch hst done t ht
    · rw [hstatus, hturns, hpending]; exact h.botTurn
    · rw [hturns]
      intro t ht hword uid
      rw [electorate_congr hkeys]
      exact h.tallied t ht hword uid
  | opened i word cleared hby hstatus done t hturns room' hstatus' hturns' hvotes hplayers hawaiting
      hpending =>
    -- no vote outlives its turn, so the new ballot box is empty
    have hempty : room'.lobby.votes = ∅ := by
      rw [hvotes]
      exact h.quiet (by rw [hstatus]; simp)
    refine ⟨htidy, fun _ => hempty, ?_, ?_, ?_, ?_⟩
    · intro _ done' u _ uid v hget
      rw [hempty] at hget
      cases hget
    · intro _ done' u hu
      rw [hturns'] at hu
      obtain ⟨_, rfl⟩ := List.append_singleton_inj hu
      rw [hpending, votingBots_congr hkeys]
      split
      · rename_i hfired
        refine Or.inr ⟨hfired.2, ?_, _, rfl⟩
        rw [hempty]
        simp
      · exact Or.inl rfl
    · simp [hstatus']
    · rw [hturns']
      intro u hu hword uid
      rw [electorate_congr hkeys]
      rcases List.mem_append.mp hu with hu | hu
      · exact h.tallied u (by rw [hturns]; exact List.mem_append_left _ hu) hword uid
      · rw [List.mem_singleton.mp hu] at hword ⊢
        exact h.tallied t (by rw [hturns]; simp) hword uid
  | stolen i word cleared hby hstatus done t otherId hother room' hvotes hres =>
    have hempty : room'.lobby.votes = ∅ := by
      rw [hvotes]
      exact h.quiet (by rw [hstatus]; simp)
    refine hres.fair h htidy hseats hempty ?_
    -- the turn was open, so it was not resolved by voting either
    intro hword
    have hover := (h.current done t hres.turns).mp (Or.inr hword)
    rw [hstatus] at hover
    cases hover
  | counted i votes left hby hstatus hopen room' hstatus' hturns hvotes hplayers hawaiting hpending
      =>
    obtain ⟨done, t, hlast⟩ := hs.turns_eq
    have hballots := hby.ballots h hP hstatus hlast
    rw [hballots.stored] at hvotes
    refine ⟨htidy, ?_, ?_, ?_, ?_, ?_⟩
    · intro hst; exact absurd hstatus' hst
    · intro _ done' u hu uid v hget
      rw [hturns, hlast] at hu
      obtain ⟨_, rfl⟩ := List.append_singleton_inj hu
      rw [hvotes] at hget
      rw [electorate_congr hkeys]
      exact hballots uid v hget
    · intro _ done' u hu
      rw [hturns, hlast] at hu
      obtain ⟨_, rfl⟩ := List.append_singleton_inj hu
      rw [hpending, hvotes, votingBots_congr hkeys]
      cases hby with
      | bots => exact Or.inl rfl
      | user now uid vote hother hfresh hquorum =>
        -- a human's vote leaves the batch in flight, and is no bot's
        refine (h.batch hstatus done t hlast).imp_right ?_
        rintro ⟨hne, hnobot, hbatch⟩
        refine ⟨hne, ?_, hbatch⟩
        intro u hu
        rcases Dict.mem_keys_set.mp hu with rfl | hu
        · exact (hP hstatus).2.1
        · exact hnobot u hu
    · simp [hstatus']
    · rw [hturns]
      intro u hu hword uid
      rw [electorate_congr hkeys]
      exact h.tallied u hu hword uid
  | tallied i votes left hby hstatus hquorum done t bank room' hvotes hres =>
    have hballots := hby.ballots h hP hstatus hres.turns
    -- the quorum is the size of the electorate, so everyone has voted
    have hlen := hs.length_electorate (t := t) (by rw [hres.turns]; simp)
    refine hres.fair h htidy hseats hvotes ?_
    intro _ uid
    show uid ∈ votes.stored.keys ↔ uid ∈ room.lobby.electorate t.player
    rw [hballots.stored]
    exact hballots.voters (by omega) uid

theorem fair_of_reachable {lobbyId : LobbyId} {room : Room}
    (h : Room.Reachable lobbyId PlayersOnly room) : Phase (fun _ room => Fair room) room := by
  refine h.phase ?_ ?_
  · intro room now settings next hun hdealt
    obtain ⟨firstPlayer, created, hfresh⟩ := hdealt.fresh hun
    exact hfresh.fair
  · intro settings room i room' hs hfair hP hstep
    exact hfair.step hs hP hstep

/-- **Runs in which only players vote are orderly.** -/
theorem Room.Reachable.orderly {lobbyId : LobbyId} {room : Room}
    (h : Room.Reachable lobbyId PlayersOnly room) : Room.Reachable lobbyId Orderly room := by
  obtain ⟨hostId, hreach⟩ := h
  refine ⟨hostId,
    hreach.strengthen (I := Room.Reachable lobbyId PlayersOnly) ?_ ?_ ⟨hostId, .refl _⟩⟩
  · intro room i hroom hP
    exact hroom.trans (room.reaches_step hP)
  · intro room i hroom hP
    cases fair_of_reachable hroom with
    | unstarted hun => exact hun.orderly hP
    | started settings hs hfair => exact hfair.orderly hs hP

/-! ### Quorum integrity -/

/-- The turns resolved by voting were voted on by exactly the players other than the submitter. -/
def Lobby.QuorumsKept (lobby : Lobby) : Prop :=
  ∀ t ∈ lobby.turns, t.wasSubmittersWord ≠ none →
    ∀ uid, uid ∈ t.votes.keys ↔ uid ∈ lobby.players.keys ∧ uid ≠ t.player

theorem quorumsKept_of_reachable {lobbyId : LobbyId} {room : Room}
    (h : Room.Reachable lobbyId PlayersOnly room) : room.lobby.QuorumsKept := by
  intro t ht hvoted uid
  cases fair_of_reachable h with
  | unstarted hun => rw [hun.turns] at ht; cases ht
  | started settings hs hfair =>
    rw [hfair.tallied t ht hvoted uid, mem_electorate, and_comm]

/-- **Quorum integrity.**  If the votes that reach a lobby come from its players, every turn
    resolved by voting was voted on by exactly the players other than its submitter, whatever
    else the requests and triggers do on the server. -/
theorem quorum_integrity {server : Server}
    (h : Server.Reachable (Server.lift PlayersOnly) server) {lobbyId : LobbyId} {room : Room}
    (hroom : server.rooms.get? lobbyId = some room) : room.lobby.QuorumsKept :=
  quorumsKept_of_reachable (Server.room_reachable h hroom)

/-- `ann` creates a lobby, the guests join, and the game starts. -/
def sampleServerStart (guests : List Uid) : List ServerInput :=
  sampleCreation ++
  guests.flatMap (fun uid => [sampleJoin uid, .perform 5 0, .perform 6 0]) ++
  [.request (.startGame (some "ann") .null ⟨zeroDraws, zeroDraws⟩), .perform 7 0]

/-- `ben` submits a word of nobody's. -/
def sampleSubmission : List ServerInput := sampleSubmit "ben" "zebra"

/-- The voters of each turn of a room. -/
def Room.voters (room : Room) : List (Uid × List Uid) :=
  room.lobby.turns.map (fun t => (t.player, t.votes.keys))

/-- `ann` passes on `ben`'s word. -/
def samplePass : List ServerInput :=
  sampleServerStart ["ben"] ++ sampleSubmission ++ sampleVote "ann" false

theorem quorum_integrity_sample :
    ∃ room, (sampleServer samplePass).rooms.get? "L" = some room ∧ room.lobby.QuorumsKept := by
  have hvoters : ((sampleServer samplePass).rooms.get? "L").map Room.voters
      = some [("ben", ["ann"]), ("ann", [])] := by
    decide +kernel
  obtain ⟨room, hroom, _⟩ := Option.map_eq_some_iff.mp hvoters
  exact ⟨room, hroom, quorum_integrity (sampleServer_reachable (by decide +kernel)) hroom⟩

/-- The guard of runs in which votes are booleans and no event runs twice. -/
def BooleanOnce (room : Room) (i : RoomInput) : Prop :=
  DeliveredOnce room i ∧ BooleanVotes room i

instance (room : Room) (i : RoomInput) : Decidable (BooleanOnce room i) :=
  inferInstanceAs (Decidable (_ ∧ _))

/-- `eve` asks to join after the start: the join is refused, but her current lobby is set in
    parallel.  Her pass then resolves `ben`'s turn. -/
def sampleOutsider : List ServerInput :=
  sampleServerStart ["ben"] ++ [sampleJoin "eve", .perform 8 0, .perform 9 0] ++
    sampleSubmission ++ sampleVote "eve" false

theorem outsider_counted :
    ¬ ∀ (server : Server), Server.Reachable (Server.lift BooleanOnce) server →
      ∀ lobbyId room, server.rooms.get? lobbyId = some room → room.lobby.QuorumsKept := by
  intro hmembers
  have hreach : Server.Reachable (Server.lift BooleanOnce) (sampleServer sampleOutsider) :=
    sampleServer_reachable (by decide +kernel)
  have hroom : ((sampleServer sampleOutsider).rooms.get? "L").map
      (fun room => (room.voters, room.lobby.players.keys,
        room.lobby.turns.map Turn.wasSubmittersWord))
      = some ([("ben", ["eve"]), ("ann", [])], ["ann", "ben"], [some false, none]) := by
    decide +kernel
  obtain ⟨room, hget, hroom⟩ := Option.map_eq_some_iff.mp hroom
  obtain ⟨hvoters, hplayers, hwords⟩ : room.voters = [("ben", ["eve"]), ("ann", [])] ∧
      room.lobby.players.keys = ["ann", "ben"] ∧
      room.lobby.turns.map Turn.wasSubmittersWord = [some false, none] := by
    simpa using hroom
  cases hturns : room.lobby.turns with
  | nil => rw [hturns] at hwords; cases hwords
  | cons t rest =>
    rw [Room.voters, hturns, List.map_cons] at hvoters
    rw [hturns, List.map_cons] at hwords
    have hvoted : t.votes.keys = ["eve"] := (Prod.mk.inj (List.cons.inj hvoters).1).2
    have hword : t.wasSubmittersWord = some false := (List.cons.inj hwords).1
    have hkept := hmembers _ hreach "L" room hget t (by rw [hturns]; simp) (by rw [hword]; simp) "eve"
    rw [hvoted, hplayers] at hkept
    revert hkept
    simp

end PasswordApp
