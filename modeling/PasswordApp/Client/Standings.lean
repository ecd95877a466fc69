import PasswordApp.Client.Session
import PasswordApp.Game.Authorship
import PasswordApp.Game.Scores
import PasswordApp.Library.Ranking
import PasswordApp.Library.Refinement

namespace PasswordApp

/-!
# Client — the scores on the screens (`GameScreenVC.swift`, `ResultsVC.swift`)

The list of users takes a player's score over when the player is added, and after that each time
the game screen is told of the player.  What changes while no screen listens is not told.

* `scoreTold` — the score in a player's dictionary;
* `shown_score_iff` — when the score shown is the right one;
* `setupResults` / `podium_ranks` — the first three places.
-/

/-! ### One score -/

/-- The score the list has for a user. -/
def shownScore (users : List User) (uid : Uid) : Option ℤ :=
  (getUserFromID users uid).map User.score

/-- `updatedUser["score"] as! Int`. -/
def scoreTold (value : Json) : Option ℤ :=
  value.asDictionary.bind (fun updatedUser => (assocGet "score" updatedUser).bind Json.asInt)

theorem scoreTold_snapshot (player : Player) :
    scoreTold (.obj player.snapshot) = Json.asInt (.num player.score) := by
  simp (disch := simp) only [scoreTold, Json.asDictionary, Player.snapshot, Option.bind_some,
    assocGet_presentFields]
  rfl

/-- Only the entry at the index changes. -/
theorem getUserFromID_set {users : List User} (hnodup : (users.map User.userID).Nodup) {index : ℕ}
    {user user' : User} (hindex : users[index]? = some user) (hsame : user'.userID = user.userID)
    (uid : Uid) : getUserFromID (users.set index user') uid =
      if uid = user.userID then some user' else getUserFromID users uid := by
  induction users generalizing index with
  | nil => cases hindex
  | cons u users ih =>
    rw [List.map_cons, List.nodup_cons] at hnodup
    cases index with
    | zero =>
      obtain rfl := Option.some.inj hindex
      simp only [List.set_cons_zero, getUserFromID, List.find?_cons, hsame, eq_comm (a := uid)]
      by_cases huid : u.userID = uid <;> simp [huid]
    | succ index =>
      have hrest := ih hnodup.2 hindex
      simp only [getUserFromID] at hrest
      simp only [List.set_cons_succ, getUserFromID, List.find?_cons, hrest]
      by_cases huid : u.userID = uid
      · have hother : uid ≠ user.userID := by
          rintro rfl
          exact hnodup.1 (huid ▸ List.mem_map_of_mem (List.mem_of_getElem? hindex))
        simp [huid, hother]
      · simp [huid]

/-- Only the score told of changes. -/
theorem shownScore_scoreChanged {users users' : List User} {e : String × Json}
    (hnodup : (users.map User.userID).Nodup) (hlisted : e.1 ∈ users.map User.userID)
    (hdict : ∃ d, e.2 = .obj d) (h : scoreChanged users e = some users') (uid : Uid) :
    shownScore users' uid = if uid = e.1 then scoreTold e.2 else shownScore users uid := by
  obtain ⟨d, hd⟩ := hdict
  obtain ⟨user, hindex, huser, _⟩ := retrieveUserIndex_spec hlisted
  simp only [scoreChanged, hd, Json.asDictionary, Option.bind_eq_bind, Option.bind_eq_some_iff,
    hindex, Option.some.injEq] at h
  obtain ⟨score, ⟨value, hvalue, hscore⟩, _, rfl, rfl⟩ := h
  have htold : scoreTold e.2 = some score := by
    simp [scoreTold, hd, Json.asDictionary, hvalue, hscore]
  have hset := getUserFromID_set hnodup hindex
    (show ({ user with score := score } : User).userID = user.userID from rfl) uid
  rw [shownScore, hset, huser]
  split
  · rw [htold]
    rfl
  · rfl

/-- After all the events, the scores told of are shown, and the other ones are as before. -/
theorem shownScore_scoresChanged {children : Children} {users users' : List User}
    (hkeys : (children.map Prod.fst).Nodup) (hnodup : (users.map User.userID).Nodup)
    (hlisted : ∀ e ∈ children, e.1 ∈ users.map User.userID)
    (hdict : ∀ e ∈ children, ∃ d, e.2 = .obj d)
    (h : children.foldlM scoreChanged users = some users') (uid : Uid) :
    (∀ e ∈ children, e.1 = uid → shownScore users' uid = scoreTold e.2) ∧
      ((∀ e ∈ children, e.1 ≠ uid) → shownScore users' uid = shownScore users uid) := by
  induction children generalizing users with
  | nil =>
    obtain rfl := Option.some.inj h
    simp
  | cons e children ih =>
    rw [List.foldlM_cons, Option.bind_eq_bind, Option.bind_eq_some_iff] at h
    obtain ⟨mid, hchanged, hrest⟩ := h
    rw [List.map_cons, List.nodup_cons] at hkeys
    have hids := userIDs_scoreChanged hchanged
    have hfirst := shownScore_scoreChanged hnodup (hlisted e List.mem_cons_self)
      (hdict e List.mem_cons_self) hchanged uid
    obtain ⟨htold, hkept⟩ := ih hkeys.2 (hids ▸ hnodup)
      (fun e he => hids ▸ hlisted e (List.mem_cons_of_mem _ he))
      (fun e he => hdict e (List.mem_cons_of_mem _ he)) hrest
    constructor
    · intro e' he' huid
      rcases List.mem_cons.mp he' with rfl | hlater
      · have hothers : ∀ e ∈ children, e.1 ≠ uid := by
          intro e he heq
          exact hkeys.1 (huid.trans heq.symm ▸ List.mem_map_of_mem he)
        rw [hkept hothers, hfirst, if_pos huid.symm]
      · exact htold e' hlater huid
    · intro hothers
      rw [hkept (fun e he => hothers e (List.mem_cons_of_mem _ he)), hfirst,
        if_neg (Ne.symm (hothers e List.mem_cons_self))]

/-! ### The scores of a session -/

variable {device : Device} {lobbyId : LobbyId} {hostId : Uid} {uid : Uid}

/-- What the observers know of a player. -/
def playerTold (uid : Uid) (s : Session) : Option Json :=
  assocGet uid s.seen.lobby.playerChildren

/-- The score that is shown of a player. -/
def sessionScore (uid : Uid) (s : Session) : Option ℤ :=
  s.view.bind (fun app => shownScore app.users uid)

/-- The game screen is there, and the player is on it. -/
structure OnScreen (device : Device) (lobbyId : LobbyId) (hostId uid : Uid) (s : Session) :
    Prop where
  reachable : Session.Reachable device lobbyId hostId s
  game : ∃ app, s.view = some app ∧ app.screen = .game
  listed : uid ∈ s.seen.lobby.players.keys

namespace OnScreen

variable {s : Session}

theorem listed_later (h : OnScreen device lobbyId hostId uid s) {next : Room}
    (hreach : (roomMachine lobbyId).Reaches anyInput s.seen next) :
    uid ∈ next.lobby.players.keys :=
  Machine.Reaches.invariant (I := fun later => uid ∈ later.lobby.players.keys)
    (fun later i hmem _ => (Room.step_cases lobbyId later i).keeps_player hmem) h.listed hreach

/-- The list on the game screen has the players of the version told of last. -/
theorem lists (h : OnScreen device lobbyId hostId uid s) {app : App} (happ : s.view = some app)
    (hgame : app.screen = .game) : Lists app.users s.seen.lobby := by
  have htracks := h.reachable.tracks happ
  rw [App.Tracks, hgame] at htracks
  exact htracks.1

/-- What the next version does to the score shown. -/
theorem hear (h : OnScreen device lobbyId hostId uid s) {app app' : App} (happ : s.view = some app)
    (hgame : app.screen = .game) {next : Room}
    (hreach : (roomMachine lobbyId).Reaches anyInput s.seen next)
    (hhear : app.hear device s.seen.lobby next.lobby = some app') :
    app'.screen = .game ∧
      (assocGet uid next.lobby.playerChildren = assocGet uid s.seen.lobby.playerChildren →
        shownScore app'.users uid = shownScore app.users uid) ∧
      (assocGet uid next.lobby.playerChildren ≠ assocGet uid s.seen.lobby.playerChildren →
        shownScore app'.users uid =
          (assocGet uid next.lobby.playerChildren).bind scoreTold) := by
  rw [App.hear, hgame] at hhear
  obtain ⟨husers, hscreen⟩ := App.Tracks.hearGame_users hhear
  refine ⟨hscreen.trans hgame, ?_⟩
  have hlists := h.lists happ hgame
  generalize hchanged : device.arrange (childrenChanged s.seen.lobby.playerChildren
    next.lobby.playerChildren) = children at husers
  have hmem : ∀ e, e ∈ children ↔
      e ∈ childrenChanged s.seen.lobby.playerChildren next.lobby.playerChildren := by
    intro e
    rw [← hchanged]
    exact (device.arrange_perm _).mem_iff
  have hkeys : (children.map Prod.fst).Nodup := by
    rw [← hchanged, ((device.arrange_perm _).map Prod.fst).nodup_iff]
    exact next.lobby.playerChildren_nodup.sublist (List.filter_sublist.map _)
  have hlisted : ∀ e ∈ children, e.1 ∈ app.users.map User.userID := by
    intro e he
    obtain ⟨_, hthere, _⟩ := mem_childrenChanged.mp ((hmem e).mp he)
    rw [hlists.mem_iff, ← Lobby.playerChildren_keys]
    exact not_not.mp (mt (assocGet_eq_none_iff _ _).mpr hthere)
  have hdict : ∀ e ∈ children, ∃ d, e.2 = .obj d := fun e he =>
    playerChildren_dict (mem_childrenChanged.mp ((hmem e).mp he)).1
  have hnodup : (app.users.map User.userID).Nodup :=
    hlists.nodup_iff.mpr s.seen.lobby.players.keys_nodup
  obtain ⟨htold, hkept⟩ := shownScore_scoresChanged hkeys hnodup hlisted hdict husers uid
  constructor
  · intro hsame
    refine hkept (fun e he heq => ?_)
    obtain ⟨hin, _, hne⟩ := mem_childrenChanged.mp ((hmem e).mp he)
    have hget := (assocGet_eq_some_iff next.lobby.playerChildren_nodup e.1 e.2).mpr hin
    rw [heq] at hget hne
    exact hne (hsame ▸ hget)
  · intro hdiffers
    obtain ⟨player, hplayer⟩ := Dict.mem_keys_iff.mp (h.listed_later hreach)
    have hget : assocGet uid next.lobby.playerChildren = some (.obj player.snapshot) := by
      rw [Lobby.assocGet_playerChildren, hplayer]
      rfl
    have hthere : assocGet uid s.seen.lobby.playerChildren ≠ none := by
      rw [ne_eq, assocGet_eq_none_iff, Lobby.playerChildren_keys, not_not]
      exact h.listed
    have hin : (uid, Json.obj player.snapshot) ∈ children := by
      rw [hmem, mem_childrenChanged]
      refine ⟨(assocGet_eq_some_iff next.lobby.playerChildren_nodup _ _).mp hget, hthere, ?_⟩
      exact fun heq => hdiffers (hget.trans heq.symm)
    rw [htold _ hin rfl, hget, Option.bind_some]

/-- Off the two screens' loading, what the user does leaves the list alone. -/
theorem act {app app' : App} (hgame : app.screen = .game) {action : AppAction}
    (hact : app.act device s.seen.lobby action = some app') :
    app'.screen = .game ∧ app'.users = app.users := by
  cases action <;> simp only [App.act, hgame, reduceCtorEq, if_false, if_true] at hact <;>
    obtain rfl := Option.some.inj hact
  · exact ⟨hgame, rfl⟩
  · exact ⟨hgame, rfl⟩
  · exact ⟨rfl, rfl⟩
  · exact ⟨rfl, rfl⟩

/-- **Step lemma.**  A step of a running app keeps the score shown, unless the player's entry is
    told of anew. -/
theorem step (h : OnScreen device lobbyId hostId uid s) {i : SessionInput}
    (hrunning : KeepsRunning device lobbyId s i) :
    OnScreen device lobbyId hostId uid ((session device lobbyId).step s i) ∧
      (playerTold uid ((session device lobbyId).step s i) = playerTold uid s →
        sessionScore uid ((session device lobbyId).step s i) = sessionScore uid s) ∧
      (playerTold uid ((session device lobbyId).step s i) ≠ playerTold uid s →
        sessionScore uid ((session device lobbyId).step s i) =
          (playerTold uid ((session device lobbyId).step s i)).bind scoreTold) := by
  obtain ⟨app, happ, hgame⟩ := h.game
  have hreachable := h.reachable.step i
  unfold KeepsRunning at hrunning
  cases i with
  | source i =>
    exact ⟨⟨hreachable, ⟨app, happ, hgame⟩, h.listed⟩, fun _ => rfl, fun hne => absurd rfl hne⟩
  | hear skipped =>
    cases hdrop : s.pending.drop skipped with
    | nil =>
      rw [Follower.step_hear_nil hdrop]
      exact ⟨h, fun _ => rfl, fun hne => absurd rfl hne⟩
    | cons next rest =>
      rw [Follower.step_hear_cons hdrop] at hreachable hrunning ⊢
      have hmem : next ∈ s.pending := List.mem_of_mem_drop (hdrop ▸ List.mem_cons_self)
      have hreach : (roomMachine lobbyId).Reaches anyInput s.seen next :=
        (List.pairwise_cons.mp h.reachable.inOrder.ordered).1 next hmem
      simp only [happ, session_hear] at hrunning hreachable ⊢
      obtain ⟨app', happ'⟩ := Option.ne_none_iff_exists'.mp hrunning
      obtain ⟨hscreen, hsame, hdiffers⟩ := h.hear happ hgame hreach happ'
      simp only [happ'] at hreachable ⊢
      refine ⟨⟨hreachable, ⟨app', rfl, hscreen⟩, h.listed_later hreach⟩, ?_, ?_⟩
      · intro heq
        simp only [sessionScore, happ, Option.bind_some]
        exact hsame heq
      · intro hne
        simp only [sessionScore, Option.bind_some]
        exact hdiffers hne
  | act action =>
    have hview : ((session device lobbyId).step s (.act action)).view =
        app.act device s.seen.lobby action := by
      show (session device lobbyId).act s.view s.seen action = _
      rw [happ, session_act]
    rw [hview] at hrunning
    obtain ⟨app', happ'⟩ := Option.ne_none_iff_exists'.mp hrunning
    rw [happ'] at hview
    obtain ⟨hscreen, husers⟩ := act hgame happ'
    refine ⟨⟨hreachable, ⟨app', hview, hscreen⟩, h.listed⟩, fun _ => ?_, fun hne => absurd rfl hne⟩
    simp only [sessionScore, hview, happ, Option.bind_some, husers]

end OnScreen

/-- The user a list of the lobby's players has under a uid. -/
theorem Lists.exists_user {users : List User} {lobby : Lobby} (h : Lists users lobby)
    (huid : uid ∈ lobby.players.keys) : ∃ user, getUserFromID users uid = some user := by
  obtain ⟨user, hmem, heq⟩ := List.mem_map.mp (h.mem_iff.mpr huid)
  rw [← Option.isSome_iff_exists, getUserFromID, List.find?_isSome]
  exact ⟨user, hmem, by simpa using heq⟩

/-- On a screen that has run on, the score shown is the last one told of, or what it was. -/
theorem OnScreen.run {s : Session} (h : OnScreen device lobbyId hostId uid s)
    {inputs : List SessionInput} {app : App}
    (happ : ((session device lobbyId).machine.run s inputs).view = some app) :
    OnScreen device lobbyId hostId uid ((session device lobbyId).machine.run s inputs) ∧
      ((session device lobbyId).machine.changes (playerTold uid) s inputs = 0 →
        playerTold uid ((session device lobbyId).machine.run s inputs) = playerTold uid s ∧
        sessionScore uid ((session device lobbyId).machine.run s inputs) = sessionScore uid s) ∧
      (0 < (session device lobbyId).machine.changes (playerTold uid) s inputs →
        sessionScore uid ((session device lobbyId).machine.run s inputs) =
          (playerTold uid ((session device lobbyId).machine.run s inputs)).bind scoreTold) := by
  have hadm := admissible_of_running happ
  refine ⟨?_, Machine.register_of_changes (I := OnScreen device lobbyId hostId uid)
    (g := fun told => told.bind scoreTold) (fun s i hs hG => (hs.step hG).1)
    (fun s i hs hG => (hs.step hG).2.1) (fun s i hs hG => (hs.step hG).2.2) h hadm⟩
  exact Machine.Reaches.invariant (I := OnScreen device lobbyId hostId uid)
    (fun s i hs hG => (hs.step hG).1) h ⟨inputs, hadm, rfl⟩

/-- The score the lobby has for a player that is told of. -/
theorem score_of_told {s : Session} {score : ℤ}
    (h : (playerTold uid s).bind scoreTold = some score) :
    score = scoreOf s.seen.lobby.players uid := by
  rw [playerTold, Lobby.assocGet_playerChildren] at h
  unfold scoreOf
  cases hplayer : s.seen.lobby.players.get? uid with
  | none => simp [hplayer] at h
  | some player =>
    rw [hplayer, Option.map_some, Option.bind_some, scoreTold_snapshot] at h
    exact Json.eq_of_asInt h

/-- The score is a part of what is told. -/
theorem scoreOf_of_told {s t : Session} (h : playerTold uid t = playerTold uid s) :
    scoreOf t.seen.lobby.players uid = scoreOf s.seen.lobby.players uid := by
  rw [playerTold, playerTold, Lobby.assocGet_playerChildren, Lobby.assocGet_playerChildren] at h
  unfold scoreOf
  cases ht : t.seen.lobby.players.get? uid with
  | none =>
    rw [ht, Option.map_none, eq_comm, Option.map_eq_none_iff] at h
    rw [h]
  | some player =>
    rw [ht, Option.map_some, eq_comm, Option.map_eq_some_iff] at h
    obtain ⟨player', hs, heq⟩ := h
    have hscore := congrArg (assocGet "score") (Json.obj.inj heq)
    simp (disch := simp) only [Player.snapshot, assocGet_presentFields] at hscore
    have hcast : (player'.score : ℚ) = player.score := Json.num.inj (Option.some.inj hscore)
    rw [hs]
    exact (Int.cast_injective hcast).symm

/-- A score shown is right exactly if it was told of since, or was right before. -/
theorem OnScreen.right_iff {s : Session} (h : OnScreen device lobbyId hostId uid s)
    {inputs : List SessionInput} {app : App}
    (happ : ((session device lobbyId).machine.run s inputs).view = some app) {before after : ℤ}
    (hbefore : sessionScore uid s = some before)
    (hafter : sessionScore uid ((session device lobbyId).machine.run s inputs) = some after) :
    after = scoreOf ((session device lobbyId).machine.run s inputs).seen.lobby.players uid ↔
      0 < (session device lobbyId).machine.changes (playerTold uid) s inputs ∨
        before = scoreOf s.seen.lobby.players uid := by
  obtain ⟨_, hnever, hsome⟩ := h.run happ
  by_cases hzero : (session device lobbyId).machine.changes (playerTold uid) s inputs = 0
  · obtain ⟨htold, hscore⟩ := hnever hzero
    rw [hbefore, hafter] at hscore
    rw [hzero, scoreOf_of_told htold, Option.some.inj hscore]
    simp
  · have hpos := Nat.pos_of_ne_zero hzero
    rw [hafter] at hsome
    exact iff_of_true (score_of_told (hsome hpos).symm) (Or.inl hpos)

/-- The game screen has the players of a started lobby, who stay. -/
theorem onScreen_of_game {s : Session} (h : Session.Reachable device lobbyId hostId s)
    {app : App} (happ : s.view = some app) (hgame : app.screen = .game) :
    Lists app.users s.seen.lobby ∧
      (∀ uid ∈ s.seen.lobby.players.keys, OnScreen device lobbyId hostId uid s) ∧
      ∀ inputs, ((session device lobbyId).machine.run s inputs).seen.lobby.players.keys
        = s.seen.lobby.players.keys := by
  have htracks := h.tracks happ
  rw [App.Tracks, hgame] at htracks
  obtain ⟨settings, hs⟩ := scheduled_of_reachable h.seen htracks.2
  refine ⟨htracks.1, fun uid huid => ⟨h, ⟨app, happ, hgame⟩, huid⟩, fun inputs => ?_⟩
  exact (hs.kept (h.seen_run inputs)).2.players

theorem lists_run {s : Session} (h : Session.Reachable device lobbyId hostId s)
    {loaded : App} (hloaded : s.view = some loaded) (hgame : loaded.screen = .game)
    {inputs : List SessionInput} {app : App}
    (happ : ((session device lobbyId).machine.run s inputs).view = some app) :
    Lists app.users ((session device lobbyId).machine.run s inputs).seen.lobby := by
  obtain ⟨hlists, hscreen, hkeys⟩ := onScreen_of_game h hloaded hgame
  have htracks := h.tracks hloaded
  rw [App.Tracks, hgame] at htracks
  -- there is somebody on the screen
  obtain ⟨settings, hs⟩ := scheduled_of_reachable h.seen htracks.2
  obtain ⟨uid, huid⟩ := List.exists_mem_of_ne_nil _ hs.order_ne_nil
  have hon := ((hscreen uid (hs.order_perm.mem_iff.mp huid)).run happ).1
  obtain ⟨app', happ', hgame'⟩ := hon.game
  obtain rfl := Option.some.inj (happ.symm.trans happ')
  exact hon.lists happ hgame'

/-- **When a score is right.**  On the game screen the list has the lobby's players, each once.
    From any moment on, the score shown of a player is that of the version told of last exactly
    if the observers were told of the player since then, or the score was right at that moment
    already. -/
theorem shown_score_iff {s : Session} (h : Session.Reachable device lobbyId hostId s)
    {loaded : App} (hloaded : s.view = some loaded) (hgame : loaded.screen = .game)
    {inputs : List SessionInput} {app : App}
    (happ : ((session device lobbyId).machine.run s inputs).view = some app) :
    (app.users.map User.userID).Perm
        ((session device lobbyId).machine.run s inputs).seen.lobby.players.keys ∧
      ∀ uid ∈ s.seen.lobby.players.keys, ∃ before after,
        getUserFromID loaded.users uid = some before ∧ getUserFromID app.users uid = some after ∧
        (after.score =
            scoreOf ((session device lobbyId).machine.run s inputs).seen.lobby.players uid ↔
          0 < (session device lobbyId).machine.changes (playerTold uid) s inputs ∨
            before.score = scoreOf s.seen.lobby.players uid) := by
  obtain ⟨hlists, hscreen, hkeys⟩ := onScreen_of_game h hloaded hgame
  have hlater := lists_run h hloaded hgame happ
  refine ⟨hlater, fun uid huid => ?_⟩
  obtain ⟨before, hbefore⟩ := hlists.exists_user huid
  obtain ⟨after, hafter⟩ := hlater.exists_user (hkeys inputs ▸ huid)
  refine ⟨before, after, hbefore, hafter, (hscreen uid huid).right_iff happ ?_ ?_⟩
  · simp [sessionScore, shownScore, hloaded, hbefore]
  · simp [sessionScore, shownScore, happ, hafter]

/-- The game screen is loaded. -/
theorem sampleLoading_game : ∃ loaded, (sampleSession sampleLoading).view = some loaded ∧
    loaded.screen = .game := by
  have hscreen : (sampleSession sampleLoading).view.map App.screen = some .game := by
    decide +kernel
  exact Option.map_eq_some_iff.mp hscreen

/-- And it runs on while the guest plays. -/
def samplePlayed : Session :=
  (session sampleDevice "L").machine.run (sampleSession sampleLoading) samplePlay

theorem samplePlay_running : ∃ app, samplePlayed.view = some app := by
  rw [← Option.isSome_iff_exists]
  decide +kernel

theorem shown_score_iff_sample :
    ∃ loaded app, (sampleSession sampleLoading).view = some loaded ∧
      samplePlayed.view = some app ∧
      (app.users.map User.userID).Perm samplePlayed.seen.lobby.players.keys ∧
      ∀ uid ∈ (sampleSession sampleLoading).seen.lobby.players.keys, ∃ before after,
        getUserFromID loaded.users uid = some before ∧ getUserFromID app.users uid = some after ∧
        (after.score = scoreOf samplePlayed.seen.lobby.players uid ↔
          0 < (session sampleDevice "L").machine.changes (playerTold uid)
              (sampleSession sampleLoading) samplePlay ∨
            before.score = scoreOf (sampleSession sampleLoading).seen.lobby.players uid) := by
  obtain ⟨loaded, hloaded, hgame⟩ := sampleLoading_game
  obtain ⟨app, happ⟩ := samplePlay_running
  unfold samplePlayed at happ ⊢
  exact ⟨loaded, app, hloaded, happ,
    shown_score_iff (sampleSession_reachable _) hloaded hgame happ⟩

/-! ### The results screen -/

/-- A place on the results screen. -/
structure Place where
  points : String
  name : String
  icon : String × String

/-- The labels and the icon of a place. -/
def User.place (user : User) : Option Place := do
  let icon ← setUserIcon user
  some ⟨toString user.score ++ " Points", user.displayName, icon⟩

/-- `setupResults()`, of the users by falling score: the places that are not hidden.  Without
    users there is no first place, and the app stops. -/
def setupResults (results : List User) : Option (List Place) :=
  if results = [] then none else (results.take 3).mapM User.place

/-- `LOCAL.users.sorted(by: {$0.score > $1.score})`, ties in any order. -/
def SortedByScore (users results : List User) : Prop :=
  results.Perm users ∧ results.Pairwise (fun a b => b.score ≤ a.score)

/-- The user has the name and the icon of the profile. -/
structure User.Portrays (user : User) (info : PlayerInfo) : Prop where
  displayName : info.displayName.bind Json.asString = some user.displayName
  colorNumber : info.colorNumber.bind Json.asInt = some user.colorNumber
  emojiNumber : info.emojiNumber.bind Json.asInt = some user.emojiNumber

/-- The scores of the list are those of the lobby. -/
def ScoresRight (users : List User) (lobby : Lobby) : Prop :=
  ∀ user ∈ users, user.score = scoreOf lobby.players user.userID

/-- The names and icons of the list are those of the lobby. -/
def ProfilesRight (users : List User) (lobby : Lobby) : Prop :=
  ∀ user ∈ users, ∃ info, lobby.profile user.userID = some info ∧ user.Portrays info

/-- The place shows the player: the score, the name, and the icon that goes with the numbers. -/
structure Place.Shows (place : Place) (player : Player) : Prop where
  points : place.points = toString player.score ++ " Points"
  name : player.displayName = some (.str place.name)
  icon : ∃ emojiNumber colorNumber,
    player.emojiNumber.bind Json.asInt = some emojiNumber ∧
    player.colorNumber.bind Json.asInt = some colorNumber ∧
    element emojis emojiNumber = some place.icon.1 ∧
    element colors colorNumber = some place.icon.2

theorem Json.eq_str_of_asString {value : Option Json} {s : String}
    (h : value.bind Json.asString = some s) : value = some (.str s) := by
  obtain ⟨v, rfl, hv⟩ := Option.bind_eq_some_iff.mp h
  cases v with
  | str s' => exact congrArg (some ∘ Json.str) (Option.some.inj hv)
  | _ => cases hv

/-- The place of a user shows the player whose score, name and icon the user has. -/
theorem User.place_shows {user : User} {place : Place} (h : user.place = some place)
    {player : Player} (hscore : user.score = player.score)
    (hprofile : user.Portrays player.profile) : place.Shows player := by
  simp only [User.place, setUserIcon, Option.bind_eq_bind, Option.bind_eq_some_iff,
    Option.some.injEq] at h
  obtain ⟨_, ⟨title, htitle, borderColor, hborder, rfl⟩, rfl⟩ := h
  exact ⟨by rw [hscore], Json.eq_str_of_asString hprofile.displayName,
    ⟨user.emojiNumber, user.colorNumber, hprofile.emojiNumber, hprofile.colorNumber, htitle,
      hborder⟩⟩

theorem getUserFromID_of_mem {users : List User} (hnodup : (users.map User.userID).Nodup)
    {user : User} (h : user ∈ users) : getUserFromID users user.userID = some user := by
  induction users with
  | nil => cases h
  | cons u users ih =>
    rw [List.map_cons, List.nodup_cons] at hnodup
    simp only [getUserFromID, List.find?_cons]
    rcases List.mem_cons.mp h with rfl | hrest
    · simp
    · have hother : u.userID ≠ user.userID := by
        intro heq
        exact hnodup.1 (heq ▸ List.mem_map_of_mem hrest)
      simp only [hother, decide_false]
      exact ih hnodup.2 hrest

/-- Scores that are right at one moment are right later on. -/
theorem scoresRight_run {s : Session} (h : Session.Reachable device lobbyId hostId s)
    {loaded : App} (hloaded : s.view = some loaded) (hgame : loaded.screen = .game)
    (hright : ScoresRight loaded.users s.seen.lobby) {inputs : List SessionInput} {app : App}
    (happ : ((session device lobbyId).machine.run s inputs).view = some app) :
    ScoresRight app.users ((session device lobbyId).machine.run s inputs).seen.lobby := by
  intro user huser
  obtain ⟨hlists, hscreen, hkeys⟩ := onScreen_of_game h hloaded hgame
  have hlater := lists_run h hloaded hgame happ
  have huid : user.userID ∈ s.seen.lobby.players.keys := by
    rw [← hkeys inputs, ← hlater.mem_iff]
    exact List.mem_map_of_mem huser
  obtain ⟨before, hbefore⟩ := hlists.exists_user huid
  have hid : before.userID = user.userID := by simpa using List.find?_some hbefore
  have hafter := getUserFromID_of_mem (hlater.nodup_iff.mpr (Dict.keys_nodup _)) huser
  have hshown : sessionScore user.userID s = some before.score := by
    simp [sessionScore, shownScore, hloaded, hbefore]
  refine ((hscreen _ huid).right_iff happ hshown ?_).mpr (Or.inr ?_)
  · simp [sessionScore, shownScore, happ, hafter]
  · rw [hright before (List.mem_of_find?_eq_some hbefore), hid]

/-- What a running app does on the game screen to the names and icons of its list: nothing. -/
theorem unscored_step {s : Session} {users : List User} {i : SessionInput}
    (h : ∃ app, s.view = some app ∧ app.screen = .game ∧
      app.users.map User.unscored = users.map User.unscored)
    (hrunning : KeepsRunning device lobbyId s i) :
    ∃ app, ((session device lobbyId).step s i).view = some app ∧ app.screen = .game ∧
      app.users.map User.unscored = users.map User.unscored := by
  obtain ⟨app, happ, hgame, hsame⟩ := h
  unfold KeepsRunning at hrunning
  cases i with
  | source i => exact ⟨app, happ, hgame, hsame⟩
  | hear skipped =>
    cases hdrop : s.pending.drop skipped with
    | nil =>
      rw [Follower.step_hear_nil hdrop]
      exact ⟨app, happ, hgame, hsame⟩
    | cons next rest =>
      rw [Follower.step_hear_cons hdrop] at hrunning ⊢
      simp only [happ, session_hear] at hrunning ⊢
      obtain ⟨app', happ'⟩ := Option.ne_none_iff_exists'.mp hrunning
      refine ⟨app', happ', ?_⟩
      rw [App.hear, hgame] at happ'
      obtain ⟨husers, hscreen⟩ := App.Tracks.hearGame_users happ'
      exact ⟨hscreen.trans hgame, (unscored_scoresChanged husers).trans hsame⟩
  | act action =>
    have hview : ((session device lobbyId).step s (.act action)).view =
        app.act device s.seen.lobby action := by
      show (session device lobbyId).act s.view s.seen action = _
      rw [happ, session_act]
    rw [hview] at hrunning ⊢
    obtain ⟨app', happ'⟩ := Option.ne_none_iff_exists'.mp hrunning
    obtain ⟨hscreen, husers⟩ := OnScreen.act hgame happ'
    exact ⟨app', happ', hscreen, husers ▸ hsame⟩

/-- Names and icons that are right at one moment are right later on. -/
theorem profilesRight_run {s : Session} (h : Session.Reachable device lobbyId hostId s)
    {loaded : App} (hloaded : s.view = some loaded) (hgame : loaded.screen = .game)
    (hright : ProfilesRight loaded.users s.seen.lobby) {inputs : List SessionInput} {app : App}
    (happ : ((session device lobbyId).machine.run s inputs).view = some app) :
    ProfilesRight app.users ((session device lobbyId).machine.run s inputs).seen.lobby := by
  intro user huser
  have htracks := h.tracks hloaded
  rw [App.Tracks, hgame] at htracks
  obtain ⟨settings, hs⟩ := scheduled_of_reachable h.seen htracks.2
  obtain ⟨app', happ', _, hsame⟩ := Machine.Reaches.invariant
    (I := fun later => ∃ app, later.view = some app ∧ app.screen = .game ∧
      app.users.map User.unscored = loaded.users.map User.unscored)
    (fun _ _ hI hG => unscored_step hI hG) ⟨loaded, hloaded, hgame, rfl⟩
    ⟨inputs, admissible_of_running happ, rfl⟩
  obtain rfl := Option.some.inj (happ.symm.trans happ')
  -- the same user was in the list before, with another score at most
  have hbefore : user.unscored ∈ loaded.users.map User.unscored :=
    hsame ▸ List.mem_map_of_mem huser
  obtain ⟨before, hmem, heq⟩ := List.mem_map.mp hbefore
  obtain ⟨info, hinfo, hportrays⟩ := hright before hmem
  simp only [User.unscored, User.mk.injEq] at heq
  obtain ⟨hname, hcolor, hemoji, _, hid⟩ := heq
  refine ⟨info, ?_, ?_⟩
  · rw [hs.profile_kept (h.seen_run inputs), ← hid]
    exact hinfo
  · exact ⟨hname ▸ hportrays.displayName, hcolor ▸ hportrays.colorNumber,
      hemoji ▸ hportrays.emojiNumber⟩

theorem forall₂_of_mapM {α β : Type} {f : α → Option β} {l : List α} {r : List β}
    (h : l.mapM f = some r) : List.Forall₂ (fun a b => f a = some b) l r := by
  induction l generalizing r with
  | nil =>
    rw [List.mapM_nil] at h
    obtain rfl := Option.some.inj h
    exact .nil
  | cons a l ih =>
    simp only [List.mapM_cons, Option.bind_eq_bind, Option.bind_eq_some_iff, Option.pure_def,
      Option.some.injEq] at h
    obtain ⟨b, hb, r, hr, rfl⟩ := h
    exact .cons hb (ih hr)

section Results

variable {results : List User} {score : Uid → ℤ}

/-- The places show the first three players. -/
theorem setupResults_shows {places : List Place} (hplaces : setupResults results = some places)
    {players : Dict Uid Player}
    (hshown : ∀ user ∈ results, ∃ player, players.get? user.userID = some player ∧
      user.score = player.score ∧ user.Portrays player.profile) :
    List.Forall₂ (fun uid place => ∃ player, players.get? uid = some player ∧ place.Shows player)
      ((results.take 3).map User.userID) places := by
  have hall : (results.take 3).mapM User.place = some places := by
    unfold setupResults at hplaces
    split at hplaces
    · cases hplaces
    · exact hplaces
  rw [List.forall₂_map_left_iff]
  have hboth := (List.forall₂_and_left (p := fun user => user ∈ results) _ _).mpr
    ⟨fun user huser => List.mem_of_mem_take huser, forall₂_of_mapM hall⟩
  refine hboth.imp ?_
  rintro user place ⟨huser, hplace⟩
  obtain ⟨player, hplayer, hscore, hprofile⟩ := hshown user huser
  exact ⟨player, hplayer, User.place_shows hplace hscore hprofile⟩

/-- Counting users by their scores is counting the uids. -/
theorem countP_scores {keys : List Uid} (hkeys : (results.map User.userID).Perm keys)
    (hscores : ∀ user ∈ results, user.score = score user.userID) (p : ℤ → Bool) :
    results.countP (fun user => p user.score) = keys.countP (fun uid => p (score uid)) := by
  rw [← hkeys.countP_eq, List.countP_map]
  refine List.countP_congr (fun user huser => ?_)
  simp [hscores user huser]

/-- The place of a user among the uids. -/
theorem place_among {keys : List Uid} (hkeys : (results.map User.userID).Perm keys)
    (hscores : ∀ user ∈ results, user.score = score user.userID)
    (hranked : results.Pairwise (fun a b => b.score ≤ a.score)) {k : ℕ} {user : User}
    (hplace : results[k]? = some user) :
    keys.countP (fun other => score user.userID < score other) ≤ k ∧
      k < keys.countP (fun other => score user.userID ≤ score other) := by
  have hmem := List.mem_of_getElem? hplace
  constructor
  · have hahead := Ranking.ahead_le User.score hranked hplace
    rwa [countP_scores hkeys hscores (fun score => user.score < score), hscores user hmem] at hahead
  · have hgood := Ranking.lt_as_good User.score hranked hplace
    rwa [countP_scores hkeys hscores (fun score => user.score ≤ score), hscores user hmem] at hgood

end Results

/-- **The results screen shows the first three.**  If the list was right at some moment on the
    game screen, and later the device has been told of everything, the results screen shows the
    first three players of the lobby, or all of them, with their scores, names and icons: no more
    than `k` players are ahead of the one at place `k`, and more than `k` are as good. -/
theorem podium_ranks {s : Session} (h : Session.Reachable device lobbyId hostId s)
    {loaded : App} (hloaded : s.view = some loaded) (hgame : loaded.screen = .game)
    (hscores : ScoresRight loaded.users s.seen.lobby)
    (hprofiles : ProfilesRight loaded.users s.seen.lobby) {inputs : List SessionInput} {app : App}
    (happ : ((session device lobbyId).machine.run s inputs).view = some app)
    (hpending : ((session device lobbyId).machine.run s inputs).pending = [])
    {results : List User} (hsorted : SortedByScore app.users results) {places : List Place}
    (hplaces : setupResults results = some places) {players : Dict Uid Player}
    (hplayers : players = ((session device lobbyId).machine.run s inputs).source.lobby.players) :
    ∃ winners : List Uid, winners.Nodup ∧ winners.length = min 3 players.size ∧
      List.Forall₂ (fun uid place => ∃ player, players.get? uid = some player ∧ place.Shows player)
        winners places ∧
      ∀ k uid, winners[k]? = some uid → uid ∈ players.keys ∧
        players.keys.countP (fun other => scoreOf players uid < scoreOf players other) ≤ k ∧
        k < players.keys.countP (fun other => scoreOf players uid ≤ scoreOf players other) := by
  have hscores := scoresRight_run h hloaded hgame hscores happ
  have hprofiles := profilesRight_run h hloaded hgame hprofiles happ
  have hlists := lists_run h hloaded hgame happ
  have hrun : Session.Reachable device lobbyId hostId
      ((session device lobbyId).machine.run s inputs) :=
    h.trans ⟨inputs, admissible_anyGuard s inputs, rfl⟩
  rw [ScoresRight, hrun.inOrder.up_to_date hpending, ← hplayers] at hscores
  rw [ProfilesRight, hrun.inOrder.up_to_date hpending] at hprofiles
  rw [Lists, hrun.inOrder.up_to_date hpending, ← hplayers] at hlists
  have hscores' : ∀ user ∈ results, user.score = scoreOf players user.userID :=
    fun user huser => hscores user (hsorted.1.mem_iff.mp huser)
  have hshown : ∀ user ∈ results, ∃ player, players.get? user.userID = some player ∧
      user.score = player.score ∧ user.Portrays player.profile := by
    intro user huser
    obtain ⟨info, hinfo, hportrays⟩ := hprofiles user (hsorted.1.mem_iff.mp huser)
    rw [Lobby.profile, ← hplayers] at hinfo
    obtain ⟨player, hplayer, rfl⟩ := Option.map_eq_some_iff.mp hinfo
    refine ⟨player, hplayer, ?_, hportrays⟩
    rw [hscores' user huser, scoreOf, hplayer]
    rfl
  have hkeys : (results.map User.userID).Perm players.keys := (hsorted.1.map _).trans hlists
  refine ⟨(results.take 3).map User.userID, ?_, ?_, setupResults_shows hplaces hshown, ?_⟩
  · rw [List.map_take]
    exact (hkeys.nodup_iff.mpr players.keys_nodup).sublist (List.take_sublist _ _)
  · rw [List.length_map, List.length_take]
    have hlen := hkeys.length_eq
    rw [List.length_map] at hlen
    rw [hlen]
    rfl
  · intro k uid hk
    rw [List.getElem?_map, Option.map_eq_some_iff] at hk
    obtain ⟨user, huser, rfl⟩ := hk
    have hplace : results[k]? = some user := by
      rw [List.getElem?_take] at huser
      split at huser
      · exact huser
      · cases huser
    have hmem : user.userID ∈ results.map User.userID :=
      List.mem_map_of_mem (List.mem_of_getElem? hplace)
    exact ⟨hkeys.mem_iff.mp hmem, place_among hkeys hscores' hsorted.2 hplace⟩

/-- The users by falling score, the first of two equal ones first. -/
def sampleResults (app : App) : List User :=
  app.users.insertionSort (fun a b => b.score ≤ a.score)

theorem podium_ranks_sample :
    ∃ app places players, samplePlayed.view = some app ∧
      setupResults (sampleResults app) = some places ∧
      players = samplePlayed.source.lobby.players ∧
      ∃ winners : List Uid, winners.Nodup ∧ winners.length = min 3 players.size ∧
        List.Forall₂
          (fun uid place => ∃ player, players.get? uid = some player ∧ place.Shows player)
          winners places ∧
        ∀ k uid, winners[k]? = some uid → uid ∈ players.keys ∧
          players.keys.countP (fun other => scoreOf players uid < scoreOf players other) ≤ k ∧
          k < players.keys.countP (fun other => scoreOf players uid ≤ scoreOf players other) := by
  obtain ⟨loaded, hloaded, hgame⟩ := sampleLoading_game
  obtain ⟨app, happ⟩ := samplePlay_running
  have hscores : ScoresRight loaded.users (sampleSession sampleLoading).seen.lobby := by
    have hall : (sampleSession sampleLoading).view.map (fun app => app.users.all (fun user =>
        user.score = scoreOf (sampleSession sampleLoading).seen.lobby.players user.userID))
          = some true := by
      decide +kernel
    rw [hloaded, Option.map_some, Option.some.injEq, List.all_eq_true] at hall
    intro user huser
    simpa using hall user huser
  have hprofiles : ProfilesRight loaded.users (sampleSession sampleLoading).seen.lobby := by
    have hall : (sampleSession sampleLoading).view.map (fun app => app.users.all (fun user =>
        ((sampleSession sampleLoading).seen.lobby.profile user.userID).any (fun info =>
          info.displayName.bind Json.asString = some user.displayName ∧
          info.colorNumber.bind Json.asInt = some user.colorNumber ∧
          info.emojiNumber.bind Json.asInt = some user.emojiNumber))) = some true := by
      decide +kernel
    rw [hloaded, Option.map_some, Option.some.injEq, List.all_eq_true] at hall
    intro user huser
    obtain ⟨info, hinfo, hsame⟩ := (Option.any_eq_true _ _).mp (hall user huser)
    obtain ⟨hname, hcolor, hemoji⟩ := of_decide_eq_true hsame
    exact ⟨info, hinfo, hname, hcolor, hemoji⟩
  have hsorted : SortedByScore app.users (sampleResults app) := by
    refine ⟨List.perm_insertionSort _ _, ?_⟩
    have : Std.Total (fun a b : User => b.score ≤ a.score) := ⟨fun a b => le_total _ _⟩
    have : IsTrans User (fun a b : User => b.score ≤ a.score) := ⟨fun a b c h h' => le_trans h' h⟩
    exact List.pairwise_insertionSort _ _
  have hplaces : (samplePlayed.view.bind
      (fun app => setupResults (sampleResults app))).isSome = true := by
    decide +kernel
  rw [happ, Option.bind_some, Option.isSome_iff_exists] at hplaces
  obtain ⟨places, hplaces⟩ := hplaces
  have hheard : samplePlayed.pending = [] := by decide +kernel
  unfold samplePlayed at happ hheard ⊢
  exact ⟨app, places, _, happ, hplaces, rfl, podium_ranks (sampleSession_reachable _) hloaded hgame
    hscores hprofiles happ hheard hsorted hplaces rfl⟩

end PasswordApp
