import PasswordApp.Backend.Room

namespace PasswordApp

/-!
# Backend — the database and its requests

A callable is not atomic: it validates its payload, reads the code map or the caller's
current lobby, and then issues one or more database operations that land later and in any
order.  `Server` is the database together with the operations still in flight; a request
adds operations, `perform` lets one of them land.

`rooms` stands for `/lobbies` with the trigger events of each lobby.

* `Server.issue` — the operations of a request;
* `Server.step_cases` — what a step does;
* `Server.room_reachable` — a lobby of the server is a room of its own.
-/

/-- A database operation in flight. -/
inductive Task where
  /-- `ref('/lobbies/').push(...)` of `createLobby`, after which the host is added. -/
  | pushLobby (lobbyId : LobbyId) (hostId : Uid) (player : PlayerInfo)
  /-- The transaction of `createLobbyCodeMapping`. -/
  | createLobbyCodeMapping (lobbyId : LobbyId) (random : ℕ → ℕ → Draw)
  /-- `ref('/playerLobbyMap/' + playerId).set(lobbyId)` of `addPlayerToLobby`. -/
  | setPlayerLobby (playerId : Uid) (lobbyId : LobbyId)
  /-- A lobby transaction. -/
  | call (lobbyId : LobbyId) (c : Call)

/-- A request to a callable: the caller's authentication and its data. -/
inductive Request where
  | createLobby (auth : Option Uid) (data : Json) (key : LobbyId) (random : ℕ → ℕ → Draw)
  | joinLobby (auth : Option Uid) (data : Json)
  | addBot (auth : Option Uid)
  | startGame (auth : Option Uid) (data : Json) (random : GameDraws)
  | submitWord (auth : Option Uid) (data : Json)
  | requestNewWords (auth : Option Uid) (random : ℕ → Draw)
  | voteOnWord (auth : Option Uid) (data : Json)

structure Server where
  rooms : Dict LobbyId Room := ∅
  lobbyCodeMap : LobbyCodeMap := {}
  playerLobbyMap : Dict Uid LobbyId := ∅
  /-- Every key `push` has handed out; it never hands out one twice. -/
  keys : List LobbyId := []
  tasks : List Task := []

/-- What happens to the database. -/
inductive ServerInput where
  | request (r : Request)
  | perform (now : ℕ) (i : ℕ)
  | deliver (lobbyId : LobbyId) (now : ℕ) (i : ℕ) (answer : BotAnswer)
  | redeliver (lobbyId : LobbyId) (now : ℕ) (i : ℕ) (answer : BotAnswer)

namespace Server

/-- The operations of `addPlayerToLobby`, issued side by side. -/
def addPlayerTasks (lobbyId : LobbyId) (player : PlayerInfo) (playerId : Uid) : List Task :=
  [.call lobbyId (.addPlayerToLobby player playerId), .setPlayerLobby playerId lobbyId]

/-- A callable that runs one transaction on the caller's current lobby. -/
def lobbyCall (server : Server) (auth : Option Uid) (c : Uid → Except Failure Call) :
    Except Failure (List Task) := do
  let uid ← getUid auth
  let c ← c uid
  let lobbyId ← findLobbyIdFromUID server.playerLobbyMap uid
  .ok [.call lobbyId c]

/-- The operations a request issues, or its rejection. -/
def issue (server : Server) : Request → Except Failure (List Task)
  | .createLobby auth data key random => do
    let playerId ← getUid auth
    let player ← getPlayerInfo data
    .ok [.pushLobby key playerId player, .createLobbyCodeMapping key random]
  | .joinLobby auth data => do
    let playerId ← getUid auth
    let playerInfo ← getPlayerInfo data
    let lobbyCode ← getLobbyCode data
    let lobbyId ← findLobbyIdFromCode server.lobbyCodeMap lobbyCode
    .ok (addPlayerTasks lobbyId playerInfo playerId)
  | .addBot auth => server.lobbyCall auth (fun uid => .ok (.addBot uid))
  | .startGame auth data random => do
    let gameSettings ← getGameSettings data
    server.lobbyCall auth (fun uid => .ok (.startGame uid gameSettings random))
  | .submitWord auth data => server.lobbyCall auth (fun uid => do
    let word ← getWord data
    .ok (.submitWord uid word))
  | .requestNewWords auth random =>
    server.lobbyCall auth (fun uid => .ok (.requestNewWords uid random))
  | .voteOnWord auth data => server.lobbyCall auth (fun uid => do
    let vote ← getVote data
    .ok (.voteOnWord uid vote))

/-- The key a request takes from `push`. -/
def Request.key : Request → Option LobbyId
  | .createLobby _ _ key _ => some key
  | _ => none

/-- Feed an input to one room; a lobby that does not exist is left so. -/
def feed (server : Server) (lobbyId : LobbyId) (i : RoomInput) : Server :=
  match server.rooms.get? lobbyId with
  | none => server
  | some room => { server with rooms := server.rooms.set lobbyId (room.step lobbyId i) }

/-- A database operation lands. -/
def land (server : Server) (now : ℕ) : Task → Server
  | .pushLobby lobbyId hostId player =>
    { server with
      rooms := server.rooms.set lobbyId (Room.initial hostId)
      tasks := server.tasks ++ addPlayerTasks lobbyId player hostId }
  | .createLobbyCodeMapping lobbyId random =>
    match PasswordApp.createLobbyCodeMapping server.lobbyCodeMap lobbyId now random with
    | .error _ => server
    | .ok lobbyCodeMap => { server with lobbyCodeMap := lobbyCodeMap }
  | .setPlayerLobby playerId lobbyId =>
    { server with playerLobbyMap := server.playerLobbyMap.set playerId lobbyId }
  | .call lobbyId c => server.feed lobbyId (.call now c)

def step (server : Server) : ServerInput → Server
  | .request r =>
    match server.issue r with
    | .error _ => server
    | .ok tasks =>
      match Request.key r with
      | none => { server with tasks := server.tasks ++ tasks }
      | some key =>
        if key ∈ server.keys then server
        else { server with tasks := server.tasks ++ tasks, keys := key :: server.keys }
  | .perform now i =>
    match server.tasks[i]? with
    | none => server
    | some task => { server with tasks := server.tasks.eraseIdx i }.land now task
  | .deliver lobbyId now i answer => server.feed lobbyId (.deliver now i answer)
  | .redeliver lobbyId now i answer => server.feed lobbyId (.redeliver now i answer)

end Server

/-- The machine of the whole backend. -/
def serverMachine : Machine Server ServerInput := ⟨Server.step⟩

/-- The database states some guarded run leads to from an empty database. -/
def Server.Reachable (G : Server → ServerInput → Prop) (server : Server) : Prop :=
  serverMachine.Reaches G {} server

/-! ### What a step does -/

/-- What an input does to the database and the operations in flight. -/
inductive ServerStep (server : Server) : ServerInput → Server → Prop
  /-- The request is rejected, or there is no such operation. -/
  | idle (i : ServerInput) : ServerStep server i server
  | issued (r : Request) (tasks : List Task) (keys : List LobbyId)
      (hissued : server.issue r = .ok tasks) (hold : server.keys ⊆ keys)
      (hkey : ∀ key, Server.Request.key r = some key → key ∈ keys) :
      ServerStep server (.request r)
        { server with tasks := server.tasks ++ tasks, keys := keys }
  | pushed (now k : ℕ) (lobbyId : LobbyId) (hostId : Uid) (player : PlayerInfo)
      (htask : server.tasks[k]? = some (.pushLobby lobbyId hostId player)) :
      ServerStep server (.perform now k)
        { server with
          rooms := server.rooms.set lobbyId (Room.initial hostId)
          tasks := server.tasks.eraseIdx k ++ Server.addPlayerTasks lobbyId player hostId }
  | coded (now k : ℕ) (lobbyId : LobbyId) (random : ℕ → ℕ → Draw) (lobbyCodeMap : LobbyCodeMap)
      (htask : server.tasks[k]? = some (.createLobbyCodeMapping lobbyId random)) :
      ServerStep server (.perform now k)
        { server with lobbyCodeMap := lobbyCodeMap, tasks := server.tasks.eraseIdx k }
  | placed (now k : ℕ) (playerId : Uid) (lobbyId : LobbyId)
      (htask : server.tasks[k]? = some (.setPlayerLobby playerId lobbyId)) :
      ServerStep server (.perform now k)
        { server with
          playerLobbyMap := server.playerLobbyMap.set playerId lobbyId
          tasks := server.tasks.eraseIdx k }
  | called (now k : ℕ) (lobbyId : LobbyId) (c : Call)
      (htask : server.tasks[k]? = some (.call lobbyId c)) :
      ServerStep server (.perform now k)
        ({ server with tasks := server.tasks.eraseIdx k : Server }.feed lobbyId (.call now c))
  | delivered (lobbyId : LobbyId) (now k : ℕ) (answer : BotAnswer) :
      ServerStep server (.deliver lobbyId now k answer)
        (server.feed lobbyId (.deliver now k answer))
  | redelivered (lobbyId : LobbyId) (now k : ℕ) (answer : BotAnswer) :
      ServerStep server (.redeliver lobbyId now k answer)
        (server.feed lobbyId (.redeliver now k answer))

namespace Server

/-- The cases of a step. -/
theorem step_cases (server : Server) (i : ServerInput) : ServerStep server i (server.step i) := by
  cases i with
  | request r =>
    cases hissued : server.issue r with
    | error failure => simp only [step, hissued]; exact .idle _
    | ok tasks =>
      cases hkey : Request.key r with
      | none =>
        simp only [step, hissued, hkey]
        exact .issued r tasks server.keys hissued (List.Subset.refl _) (by simp [hkey])
      | some key =>
        simp only [step, hissued, hkey]
        split
        · exact .idle _
        · exact .issued r tasks (key :: server.keys) hissued (List.subset_cons_self _ _)
            (by simp [hkey])
  | perform now k =>
    cases htask : server.tasks[k]? with
    | none => simp only [step, htask]; exact .idle _
    | some task =>
      simp only [step, htask]
      cases task with
      | pushLobby lobbyId hostId player => exact .pushed now k lobbyId hostId player htask
      | createLobbyCodeMapping lobbyId random =>
        simp only [land]
        split
        · exact .coded now k lobbyId random server.lobbyCodeMap htask
        · exact .coded now k lobbyId random _ htask
      | setPlayerLobby playerId lobbyId => exact .placed now k playerId lobbyId htask
      | call lobbyId c => exact .called now k lobbyId c htask
  | deliver lobbyId now k answer => exact .delivered lobbyId now k answer
  | redeliver lobbyId now k answer => exact .redelivered lobbyId now k answer

end Server

/-! ### From the server to its rooms -/

namespace Server

/-- The input the rooms see, if any, and the lobby it is for. -/
def roomInput (server : Server) : ServerInput → Option (LobbyId × RoomInput)
  | .request _ => none
  | .perform now i =>
    match server.tasks[i]? with
    | some (.call lobbyId c) => some (lobbyId, .call now c)
    | _ => none
  | .deliver lobbyId now i answer => some (lobbyId, .deliver now i answer)
  | .redeliver lobbyId now i answer => some (lobbyId, .redeliver now i answer)

/-- A guard of rooms, asked of every input that reaches a room. -/
def lift (G : Room → RoomInput → Prop) (server : Server) (i : ServerInput) : Prop :=
  match server.roomInput i with
  | none => True
  | some (lobbyId, input) =>
    match server.rooms.get? lobbyId with
    | none => True
    | some room => G room input

instance (G : Room → RoomInput → Prop) [∀ room i, Decidable (G room i)] (server : Server)
    (i : ServerInput) : Decidable (lift G server i) := by
  unfold lift
  split
  · exact inferInstance
  · split
    · exact inferInstance
    · exact inferInstance

theorem lift_feed {G : Room → RoomInput → Prop} {server : Server} {i : ServerInput}
    {lobbyId : LobbyId} {input : RoomInput} {room : Room} (h : lift G server i)
    (hinput : server.roomInput i = some (lobbyId, input))
    (hroom : server.rooms.get? lobbyId = some room) : G room input := by
  unfold lift at h
  rw [hinput] at h
  simp only [hroom] at h
  exact h

/-- All rooms of the server are reached by guarded runs of their own. -/
def RoomsReachable (G : Room → RoomInput → Prop) (server : Server) : Prop :=
  ∀ lobbyId room, server.rooms.get? lobbyId = some room → Room.Reachable lobbyId G room

theorem RoomsReachable.feed {G : Room → RoomInput → Prop} {server : Server}
    (h : RoomsReachable G server) {lobbyId : LobbyId} {input : RoomInput}
    (hG : ∀ room, server.rooms.get? lobbyId = some room → G room input) :
    RoomsReachable G (server.feed lobbyId input) := by
  intro id room hroom
  unfold Server.feed at hroom
  split at hroom
  · exact h id room hroom
  · rename_i old hold
    by_cases hid : id = lobbyId
    · subst hid
      -- the room that took the input; all others are as they were
      have hnew : (server.rooms.set id (old.step id input)).get? id = some room := hroom
      rw [Dict.get?_set_self] at hnew
      obtain rfl := Option.some.inj hnew
      exact (h id old hold).trans (old.reaches_step (hG old hold))
    · have hother : (server.rooms.set lobbyId (old.step lobbyId input)).get? id = some room := hroom
      rw [Dict.get?_set_ne _ _ hid] at hother
      exact h id room hother

theorem RoomsReachable.step {G : Room → RoomInput → Prop} {server : Server} {i : ServerInput}
    (h : RoomsReachable G server) (hG : lift G server i) : RoomsReachable G (server.step i) := by
  have hstep := server.step_cases i
  generalize server.step i = server' at hstep
  cases hstep with
  | idle => exact h
  | issued r tasks keys hissued hold hkey => exact h
  | pushed now k lobbyId hostId player htask =>
    intro id room hroom
    -- a pushed lobby starts a run of its own
    have hroom : (server.rooms.set lobbyId (Room.initial hostId)).get? id = some room := hroom
    by_cases hid : id = lobbyId
    · subst hid
      rw [Dict.get?_set_self] at hroom
      obtain rfl := Option.some.inj hroom
      exact ⟨hostId, .refl _⟩
    · rw [Dict.get?_set_ne _ _ hid] at hroom
      exact h id room hroom
  | coded now k lobbyId random lobbyCodeMap htask => exact h
  | placed now k playerId lobbyId htask => exact h
  | called now k lobbyId c htask =>
    have hrest : RoomsReachable G { server with tasks := server.tasks.eraseIdx k } := h
    refine hrest.feed (fun room hroom => lift_feed hG ?_ hroom)
    simp only [Server.roomInput, htask]
  | delivered lobbyId now k answer => exact h.feed (fun room hroom => lift_feed hG rfl hroom)
  | redelivered lobbyId now k answer => exact h.feed (fun room hroom => lift_feed hG rfl hroom)

/-- **A lobby of the server is a room of its own**: it is reached by a run of the lobby
    machine under the same guard. -/
theorem room_reachable {G : Room → RoomInput → Prop} {server : Server}
    (h : Server.Reachable (lift G) server) {lobbyId : LobbyId} {room : Room}
    (hroom : server.rooms.get? lobbyId = some room) : Room.Reachable lobbyId G room := by
  have hall : RoomsReachable G server := by
    refine Machine.Reaches.invariant (fun server i hI hG => hI.step hG) ?_ h
    intro id room hroom
    cases hroom
  exact hall lobbyId room hroom

end Server

end PasswordApp
