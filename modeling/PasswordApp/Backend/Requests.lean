import PasswordApp.Backend.Server

namespace PasswordApp

/-!
# Backend — what the requests issue

* `Server.lobbyCall_ok` — a callable on the caller's lobby issues one transaction on it;
* `Server.Issues`, `Server.issue_ok` — the operations of every request;
* `Server.mem_tasks_step`, `Server.rooms_step` — where the operations in flight and the lobbies
  come from;
* `PlayRequest`, `Server.issue_play` — the two requests that play the game, and the
  transactions they issue;
* `Server.uid_ne_of_reachable` — whoever is in a lobby has a uid.
-/

/-- A request that plays the game. -/
inductive PlayRequest (uid : Uid) : Request → Prop
  | submitWord (data : Json) : PlayRequest uid (.submitWord (some uid) data)
  | voteOnWord (data : Json) : PlayRequest uid (.voteOnWord (some uid) data)

/-- The user a task will put in a lobby. -/
def Task.entrant : Task → Option Uid
  | .pushLobby _ hostId _ => some hostId
  | .setPlayerLobby playerId _ => some playerId
  | .createLobbyCodeMapping _ _ => none
  | .call _ _ => none

theorem getUid_ok {auth : Option Uid} {uid : Uid} (h : getUid auth = .ok uid) :
    auth = some uid ∧ uid ≠ "" := by
  unfold getUid at h
  split at h
  · split at h
    · cases h
    · rename_i hne
      obtain rfl := Except.ok.inj h
      exact ⟨rfl, hne⟩
  · cases h

namespace Server

variable {server : Server}

theorem findLobbyIdFromUID_ok {map : Dict Uid LobbyId} {uid : Uid} {lobbyId : LobbyId} :
    findLobbyIdFromUID map uid = .ok lobbyId ↔ map.get? uid = some lobbyId := by
  unfold findLobbyIdFromUID
  cases map.get? uid with
  | none => simp [httpsError]
  | some id => simp

/-- A callable on the caller's lobby issues one transaction on it. -/
theorem lobbyCall_ok {auth : Option Uid} {call : Uid → Except Failure Call} {tasks : List Task}
    (h : server.lobbyCall auth call = .ok tasks) :
    ∃ uid c lobbyId, auth = some uid ∧ call uid = .ok c ∧
      server.playerLobbyMap.get? uid = some lobbyId ∧ tasks = [.call lobbyId c] := by
  unfold lobbyCall at h
  obtain ⟨uid, huid, h⟩ := bind_eq_ok.mp h
  obtain ⟨c, hc, h⟩ := bind_eq_ok.mp h
  obtain ⟨lobbyId, hlobby, h⟩ := bind_eq_ok.mp h
  exact ⟨uid, c, lobbyId, (getUid_ok huid).1, hc, findLobbyIdFromUID_ok.mp hlobby,
    (Except.ok.inj h).symm⟩

/-- A transaction on the caller's current lobby, and the request it comes from. -/
inductive CallOf (uid : Uid) : Request → Call → Prop
  | addBot : CallOf uid (.addBot (some uid)) (.addBot uid)
  | startGame (data : Json) (gameSettings : Settings) (random : GameDraws)
      (hsettings : getGameSettings data = .ok gameSettings) :
      CallOf uid (.startGame (some uid) data random) (.startGame uid gameSettings random)
  | submitWord (data word : Json) (hword : getWord data = .ok word) :
      CallOf uid (.submitWord (some uid) data) (.submitWord uid word)
  | requestNewWords (random : ℕ → Draw) :
      CallOf uid (.requestNewWords (some uid) random) (.requestNewWords uid random)
  | voteOnWord (data vote : Json) (hvote : getVote data = .ok vote) :
      CallOf uid (.voteOnWord (some uid) data) (.voteOnWord uid vote)

/-- The operations of an accepted request. -/
inductive Issues (server : Server) : Request → List Task → Prop
  | createLobby (uid : Uid) (data : Json) (key : LobbyId) (random : ℕ → ℕ → Draw)
      (player : PlayerInfo) (hne : uid ≠ "") (hplayer : getPlayerInfo data = .ok player) :
      Issues server (.createLobby (some uid) data key random)
        [.pushLobby key uid player, .createLobbyCodeMapping key random]
  | joinLobby (uid : Uid) (data lobbyCode : Json) (player : PlayerInfo) (lobbyId : LobbyId)
      (hne : uid ≠ "") (hplayer : getPlayerInfo data = .ok player)
      (hcode : getLobbyCode data = .ok lobbyCode)
      (hlobby : findLobbyIdFromCode server.lobbyCodeMap lobbyCode = .ok lobbyId) :
      Issues server (.joinLobby (some uid) data) (addPlayerTasks lobbyId player uid)
  | call (uid : Uid) (r : Request) (c : Call) (lobbyId : LobbyId) (hcall : CallOf uid r c)
      (hhere : server.playerLobbyMap.get? uid = some lobbyId) :
      Issues server r [.call lobbyId c]

/-- **Inversion of the requests.** -/
theorem issue_ok {request : Request} {tasks : List Task}
    (h : server.issue request = .ok tasks) : Issues server request tasks := by
  cases request with
  | createLobby auth data key random =>
    obtain ⟨uid, huid, h⟩ := bind_eq_ok.mp h
    obtain ⟨player, hplayer, h⟩ := bind_eq_ok.mp h
    obtain rfl := (Except.ok.inj h).symm
    obtain ⟨rfl, hne⟩ := getUid_ok huid
    exact .createLobby uid data key random player hne hplayer
  | joinLobby auth data =>
    obtain ⟨uid, huid, h⟩ := bind_eq_ok.mp h
    obtain ⟨player, hplayer, h⟩ := bind_eq_ok.mp h
    obtain ⟨lobbyCode, hcode, h⟩ := bind_eq_ok.mp h
    obtain ⟨lobbyId, hlobby, h⟩ := bind_eq_ok.mp h
    obtain rfl := (Except.ok.inj h).symm
    obtain ⟨rfl, hne⟩ := getUid_ok huid
    exact .joinLobby uid data lobbyCode player lobbyId hne hplayer hcode hlobby
  | addBot auth =>
    obtain ⟨uid, c, lobbyId, rfl, hc, hhere, rfl⟩ := lobbyCall_ok h
    obtain rfl := Except.ok.inj hc
    exact .call uid _ _ lobbyId .addBot hhere
  | startGame auth data random =>
    obtain ⟨gameSettings, hsettings, h⟩ := bind_eq_ok.mp h
    obtain ⟨uid, c, lobbyId, rfl, hc, hhere, rfl⟩ := lobbyCall_ok h
    obtain rfl := Except.ok.inj hc
    exact .call uid _ _ lobbyId (.startGame data gameSettings random hsettings) hhere
  | submitWord auth data =>
    obtain ⟨uid, c, lobbyId, rfl, hc, hhere, rfl⟩ := lobbyCall_ok h
    obtain ⟨word, hword, hc⟩ := bind_eq_ok.mp hc
    obtain rfl := Except.ok.inj hc
    exact .call uid _ _ lobbyId (.submitWord data word hword) hhere
  | requestNewWords auth random =>
    obtain ⟨uid, c, lobbyId, rfl, hc, hhere, rfl⟩ := lobbyCall_ok h
    obtain rfl := Except.ok.inj hc
    exact .call uid _ _ lobbyId (.requestNewWords random) hhere
  | voteOnWord auth data =>
    obtain ⟨uid, c, lobbyId, rfl, hc, hhere, rfl⟩ := lobbyCall_ok h
    obtain ⟨vote, hvote, hc⟩ := bind_eq_ok.mp hc
    obtain rfl := Except.ok.inj hc
    exact .call uid _ _ lobbyId (.voteOnWord data vote hvote) hhere

/-- The player of a play request is in the lobby the request reaches. -/
theorem issue_play {uid : Uid} {request : Request} {lobbyId : LobbyId} {c : Call}
    (hplay : PlayRequest uid request) (h : server.issue request = .ok [.call lobbyId c]) :
    server.playerLobbyMap.get? uid = some lobbyId ∧
      ((∃ word, c = .submitWord uid word) ∨ ∃ vote, c = .voteOnWord uid vote) := by
  cases hplay with
  | submitWord data =>
    cases issue_ok h with
    | call _ _ _ _ hcall hhere =>
      cases hcall with
      | submitWord data word hword => exact ⟨hhere, Or.inl ⟨word, rfl⟩⟩
  | voteOnWord data =>
    cases issue_ok h with
    | call _ _ _ _ hcall hhere =>
      cases hcall with
      | voteOnWord data vote hvote => exact ⟨hhere, Or.inr ⟨vote, rfl⟩⟩

theorem lobbyCall_issues {uid : Uid} {call : Uid → Except Failure Call} {c : Call}
    {lobbyId : LobbyId} (hne : uid ≠ "") (hcall : call uid = .ok c)
    (hhere : server.playerLobbyMap.get? uid = some lobbyId) :
    server.lobbyCall (some uid) call = .ok [.call lobbyId c] := by
  have huid : getUid (some uid) = .ok uid := by simp [getUid, hne]
  rw [lobbyCall, huid, ok_bind, hcall, ok_bind, findLobbyIdFromUID_ok.mpr hhere, ok_bind]

/-- A player can submit the word `a`, if the lobby is his. -/
theorem issue_submitWord {uid : Uid} {lobbyId : LobbyId} (hne : uid ≠ "")
    (hhere : server.playerLobbyMap.get? uid = some lobbyId) :
    server.issue (.submitWord (some uid) (.obj [("word", .str "a")]))
      = .ok [.call lobbyId (.submitWord uid (.str "a"))] :=
  lobbyCall_issues hne rfl hhere

/-- A player can pass, if the lobby is his. -/
theorem issue_pass {uid : Uid} {lobbyId : LobbyId} (hne : uid ≠ "")
    (hhere : server.playerLobbyMap.get? uid = some lobbyId) :
    server.issue (.voteOnWord (some uid) (.obj [("challenge", .bool false)]))
      = .ok [.call lobbyId (.voteOnWord uid (.bool false))] :=
  lobbyCall_issues hne rfl hhere

/-! ### Where the operations in flight come from -/

/-- A room's input changes the rooms only. -/
theorem feed_eq (server : Server) (lobbyId : LobbyId) (i : RoomInput) :
    ∃ rooms, server.feed lobbyId i = { server with rooms := rooms } := by
  unfold Server.feed
  cases server.rooms.get? lobbyId with
  | none => exact ⟨server.rooms, rfl⟩
  | some room => exact ⟨_, rfl⟩

section Feed

variable (server : Server) (lobbyId : LobbyId) (i : RoomInput)

@[simp] theorem tasks_feed : (server.feed lobbyId i).tasks = server.tasks := by
  obtain ⟨rooms, heq⟩ := server.feed_eq lobbyId i
  rw [heq]

@[simp] theorem keys_feed : (server.feed lobbyId i).keys = server.keys := by
  obtain ⟨rooms, heq⟩ := server.feed_eq lobbyId i
  rw [heq]

@[simp] theorem playerLobbyMap_feed :
    (server.feed lobbyId i).playerLobbyMap = server.playerLobbyMap := by
  obtain ⟨rooms, heq⟩ := server.feed_eq lobbyId i
  rw [heq]

end Feed

/-- Feeding a room creates no lobby. -/
theorem rooms_feed {lobbyId id : LobbyId} {i : RoomInput} {room : Room}
    (h : (server.feed id i).rooms.get? lobbyId = some room) :
    ∃ old, server.rooms.get? lobbyId = some old := by
  unfold Server.feed at h
  split at h
  · exact ⟨room, h⟩
  · rename_i old hold
    have h : (server.rooms.set id (old.step id i)).get? lobbyId = some room := h
    by_cases hid : lobbyId = id
    · exact ⟨old, hid ▸ hold⟩
    · rw [Dict.get?_set_ne _ _ hid] at h
      exact ⟨room, h⟩

/-- An operation is in flight because it was before, a request issued it, or a pushed lobby
    gets its host. -/
theorem mem_tasks_step {i : ServerInput} {task : Task} (h : task ∈ (server.step i).tasks) :
    task ∈ server.tasks ∨
    (∃ r tasks, i = .request r ∧ server.issue r = .ok tasks ∧ task ∈ tasks ∧
      ∀ key, Request.key r = some key → key ∈ (server.step i).keys) ∨
    ∃ lobbyId hostId player, .pushLobby lobbyId hostId player ∈ server.tasks ∧
      task ∈ addPlayerTasks lobbyId player hostId := by
  have hstep := server.step_cases i
  generalize server.step i = server' at h hstep ⊢
  cases hstep with
  | idle => exact Or.inl h
  | issued r tasks keys hissued hold hkey =>
    rcases List.mem_append.mp h with hold | hnew
    · exact Or.inl hold
    · exact Or.inr (Or.inl ⟨r, tasks, rfl, hissued, hnew, hkey⟩)
  | pushed now k lobbyId hostId player htask =>
    rcases List.mem_append.mp h with hold | hnew
    · exact Or.inl (List.mem_of_mem_eraseIdx hold)
    · exact Or.inr (Or.inr ⟨lobbyId, hostId, player, List.mem_of_getElem? htask, hnew⟩)
  | coded now k lobbyId random lobbyCodeMap htask => exact Or.inl (List.mem_of_mem_eraseIdx h)
  | placed now k playerId lobbyId htask => exact Or.inl (List.mem_of_mem_eraseIdx h)
  | called now k lobbyId c htask =>
    rw [tasks_feed] at h
    exact Or.inl (List.mem_of_mem_eraseIdx h)
  | delivered lobbyId now k answer => exact Or.inl (by rwa [tasks_feed] at h)
  | redelivered lobbyId now k answer => exact Or.inl (by rwa [tasks_feed] at h)

/-- Keys are only added. -/
theorem keys_step {key : LobbyId} (h : key ∈ server.keys) (i : ServerInput) :
    key ∈ (server.step i).keys := by
  have hstep := server.step_cases i
  generalize server.step i = server' at hstep
  cases hstep with
  | idle => exact h
  | issued r tasks keys hissued hold hkey => exact hold h
  | pushed now k lobbyId hostId player htask => exact h
  | coded now k lobbyId random lobbyCodeMap htask => exact h
  | placed now k playerId lobbyId htask => exact h
  | called now k lobbyId c htask => rwa [keys_feed]
  | delivered lobbyId now k answer => rwa [keys_feed]
  | redelivered lobbyId now k answer => rwa [keys_feed]

/-- A lobby was there before, or has just been pushed. -/
theorem rooms_step {i : ServerInput} {lobbyId : LobbyId} {room : Room}
    (h : (server.step i).rooms.get? lobbyId = some room) :
    (∃ old, server.rooms.get? lobbyId = some old) ∨
      ∃ hostId player, .pushLobby lobbyId hostId player ∈ server.tasks := by
  have hstep := server.step_cases i
  generalize server.step i = server' at h hstep
  cases hstep with
  | idle => exact Or.inl ⟨room, h⟩
  | issued r tasks keys hissued hold hkey => exact Or.inl ⟨room, h⟩
  | pushed now k id hostId player htask =>
    by_cases hid : lobbyId = id
    · exact Or.inr ⟨hostId, player, hid ▸ List.mem_of_getElem? htask⟩
    · rw [Dict.get?_set_ne _ _ hid] at h
      exact Or.inl ⟨room, h⟩
  | coded now k id random lobbyCodeMap htask => exact Or.inl ⟨room, h⟩
  | placed now k playerId id htask => exact Or.inl ⟨room, h⟩
  | called now k id c htask =>
    have hold : ∃ old, { server with tasks := server.tasks.eraseIdx k : Server }.rooms.get? lobbyId
        = some old := rooms_feed h
    exact Or.inl hold
  | delivered id now k answer => exact Or.inl (rooms_feed h)
  | redelivered id now k answer => exact Or.inl (rooms_feed h)

/-! ### Users have uids -/

/-- Nobody without a uid is in a lobby, or on the way to one. -/
structure Named (server : Server) : Prop where
  tasks : ∀ task ∈ server.tasks, task.entrant ≠ some ""
  map : ∀ lobbyId, server.playerLobbyMap.get? "" ≠ some lobbyId

theorem addPlayerTasks_named (lobbyId : LobbyId) (player : PlayerInfo) {playerId : Uid}
    (hne : playerId ≠ "") :
    ∀ task ∈ addPlayerTasks lobbyId player playerId, task.entrant ≠ some "" := by
  simp [addPlayerTasks, Task.entrant, hne]

/-- Requests carry the uid of their caller. -/
theorem issue_named {request : Request} {tasks : List Task}
    (h : server.issue request = .ok tasks) : ∀ task ∈ tasks, task.entrant ≠ some "" := by
  cases issue_ok h with
  | createLobby uid data key random player hne hplayer => simp [Task.entrant, hne]
  | joinLobby uid data lobbyCode player lobbyId hne => exact addPlayerTasks_named lobbyId player hne
  | call uid r c lobbyId => simp [Task.entrant]

/-- The map gets entries of users who have a uid. -/
theorem Named.map_step (h : Named server) (i : ServerInput) (lobbyId : LobbyId) :
    (server.step i).playerLobbyMap.get? "" ≠ some lobbyId := by
  have hstep := server.step_cases i
  generalize server.step i = server' at hstep
  cases hstep with
  | idle => exact h.map lobbyId
  | issued r tasks keys hissued hold hkey => exact h.map lobbyId
  | pushed now k id hostId player htask => exact h.map lobbyId
  | coded now k id random lobbyCodeMap htask => exact h.map lobbyId
  | placed now k playerId id htask =>
    have hname : "" ≠ playerId := by
      rintro rfl
      exact h.tasks _ (List.mem_of_getElem? htask) rfl
    rw [Dict.get?_set_ne _ _ hname]
    exact h.map lobbyId
  | called now k id c htask =>
    rw [playerLobbyMap_feed]
    exact h.map lobbyId
  | delivered id now k answer =>
    rw [playerLobbyMap_feed]
    exact h.map lobbyId
  | redelivered id now k answer =>
    rw [playerLobbyMap_feed]
    exact h.map lobbyId

theorem Named.step (h : Named server) (i : ServerInput) : Named (server.step i) := by
  refine ⟨fun task hmem => ?_, h.map_step i⟩
  rcases mem_tasks_step hmem with hold | ⟨r, tasks, _, hissued, hnew, _⟩ |
    ⟨lobbyId, hostId, player, hpush, hnew⟩
  · exact h.tasks task hold
  · exact issue_named hissued task hnew
  · have hname : hostId ≠ "" := by simpa [Task.entrant] using h.tasks _ hpush
    exact addPlayerTasks_named lobbyId player hname task hnew

/-- Whoever is in a lobby has a uid. -/
theorem uid_ne_of_reachable {G : Server → ServerInput → Prop} (h : Server.Reachable G server)
    {uid : Uid} {lobbyId : LobbyId} (hhere : server.playerLobbyMap.get? uid = some lobbyId) :
    uid ≠ "" := by
  have hnamed : Named server := by
    refine Machine.Reaches.invariant (fun server i hI _ => hI.step i) ⟨?_, ?_⟩ h
    · intro task hmem; cases hmem
    · intro id hget; cases hget
  rintro rfl
  exact hnamed.map lobbyId hhere

end Server

end PasswordApp
