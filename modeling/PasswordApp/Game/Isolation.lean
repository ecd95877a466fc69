import PasswordApp.Backend.Codes
import PasswordApp.Game.Settling
import PasswordApp.Library.Parts

namespace PasswordApp

/-!
# Game — lobbies among themselves

A push takes a key of its own, so it never hits a lobby that is there (`PushesFresh`).  Every lobby
then is a part of the server: it goes where the inputs addressed to it lead, whatever happens to
other lobbies (`lobby_isolated`).

What points to a lobby, points to one that is there or whose push is in flight:

* `Server.Refers` — the codes, the current lobbies and the operations in flight do;
* `references_resolve` — and what is there stays there.
-/

/-! ### Pushes -/

/-- The lobby a task pushes. -/
def Task.pushed : Task → Option LobbyId
  | .pushLobby lobbyId _ _ => some lobbyId
  | _ => none

/-- The lobbies whose push is in flight. -/
def Server.pushes (server : Server) : List LobbyId := server.tasks.filterMap Task.pushed

/-- No push in flight hits another, or a lobby. -/
structure PushesFresh (server : Server) : Prop extends KeysKnown server where
  nodup : server.pushes.Nodup
  fresh : ∀ lobbyId ∈ server.pushes, server.rooms.get? lobbyId = none

theorem mem_pushes {server : Server} {lobbyId : LobbyId} :
    lobbyId ∈ server.pushes ↔ ∃ hostId player, .pushLobby lobbyId hostId player ∈ server.tasks := by
  rw [Server.pushes, List.mem_filterMap]
  constructor
  · rintro ⟨task, hmem, hpushed⟩
    cases task with
    | pushLobby id hostId player =>
      obtain rfl := Option.some.inj hpushed
      exact ⟨hostId, player, hmem⟩
    | createLobbyCodeMapping id random => cases hpushed
    | setPlayerLobby playerId id => cases hpushed
    | call id c => cases hpushed
  · rintro ⟨hostId, player, hmem⟩
    exact ⟨_, hmem, rfl⟩

/-- A request pushes the lobby of its key. -/
theorem issue_pushed {server : Server} {request : Request} {tasks : List Task}
    (h : server.issue request = .ok tasks) :
    tasks.filterMap Task.pushed = (Server.Request.key request).toList := by
  cases Server.issue_ok h with
  | createLobby uid data key random player => rfl
  | joinLobby uid data lobbyCode player lobbyId => rfl
  | call uid r c lobbyId hcall => cases hcall <;> rfl

/-- A request issues operations, and takes a key nobody has had. -/
inductive Requested (server : Server) (r : Request) : Server → Prop
  | refused : Requested server r server
  | issued (tasks : List Task) (keys : List LobbyId) (hissued : server.issue r = .ok tasks)
      (hfresh : ∀ key, Server.Request.key r = some key → key ∉ server.keys) :
      Requested server r { server with tasks := server.tasks ++ tasks, keys := keys }

theorem Server.step_request (server : Server) (r : Request) :
    Requested server r (server.step (.request r)) := by
  cases hissued : server.issue r with
  | error failure => simp only [Server.step, hissued]; exact .refused
  | ok tasks =>
    cases hkey : Server.Request.key r with
    | none =>
      simp only [Server.step, hissued, hkey]
      exact .issued tasks server.keys hissued (by simp [hkey])
    | some key =>
      simp only [Server.step, hissued, hkey]
      split
      · exact .refused
      · rename_i hnew
        exact .issued tasks _ hissued (by simpa [hkey] using hnew)

theorem Server.get?_feed (server : Server) (id lobbyId : LobbyId) (i : RoomInput) :
    (server.feed id i).rooms.get? lobbyId =
      if lobbyId = id then (server.rooms.get? lobbyId).map (fun room => room.step id i)
      else server.rooms.get? lobbyId := by
  cases hroom : server.rooms.get? id with
  | none =>
    have hsame : server.feed id i = server := by simp only [Server.feed, hroom]
    rw [hsame]
    split
    · rename_i heq
      rw [heq, hroom]
      rfl
    · rfl
  | some room =>
    have hset : (server.feed id i).rooms = server.rooms.set id (room.step id i) := by
      simp only [Server.feed, hroom]
    rw [hset, Dict.get?_set]
    split
    · rename_i heq
      rw [heq, hroom]
      rfl
    · rfl

theorem Server.pushes_feed (server : Server) (lobbyId : LobbyId) (i : RoomInput) :
    (server.feed lobbyId i).pushes = server.pushes := by
  rw [Server.pushes, Server.tasks_feed]
  rfl

/-- The operation that lands is one of those in flight. -/
theorem Server.pushes_perm {server : Server} {k : ℕ} {task : Task}
    (htask : server.tasks[k]? = some task) :
    server.pushes.Perm (task.pushed.toList ++ (server.tasks.eraseIdx k).filterMap Task.pushed) := by
  obtain ⟨hlt, rfl⟩ := List.getElem?_eq_some_iff.mp htask
  have hperm := (List.getElem_cons_eraseIdx_perm hlt).symm.filterMap Task.pushed
  rw [List.filterMap_cons] at hperm
  cases hpushed : Task.pushed server.tasks[k] with
  | none => rw [hpushed] at hperm; exact hperm
  | some id => rw [hpushed] at hperm; exact hperm

/-- After a task landed, the pushes in flight are those of the other tasks. -/
theorem PushesFresh.land {server : Server} (h : PushesFresh server) {k : ℕ} {task : Task}
    (htask : server.tasks[k]? = some task) {server' : Server} (hknown : KeysKnown server')
    (hpushes : server'.pushes = (server.tasks.eraseIdx k).filterMap Task.pushed)
    (hrooms : ∀ lobbyId, lobbyId ∉ task.pushed.toList → server.rooms.get? lobbyId = none →
      server'.rooms.get? lobbyId = none) : PushesFresh server' := by
  have hperm := Server.pushes_perm htask
  have hnodup := hperm.nodup_iff.mp h.nodup
  rw [List.nodup_append'] at hnodup
  refine ⟨hknown, hpushes ▸ hnodup.2.1, fun lobbyId hmem => ?_⟩
  rw [hpushes] at hmem
  refine hrooms lobbyId (fun hthis => hnodup.2.2 hthis hmem) (h.fresh lobbyId ?_)
  exact hperm.mem_iff.mpr (List.mem_append_right _ hmem)

/-- **Step lemma.** -/
theorem PushesFresh.step {server : Server} (h : PushesFresh server) (i : ServerInput) :
    PushesFresh (server.step i) := by
  have hknown := h.toKeysKnown.step i
  have hfeed : ∀ (server' : Server) (id : LobbyId) (i : RoomInput) (lobbyId : LobbyId),
      server'.rooms.get? lobbyId = none → (server'.feed id i).rooms.get? lobbyId = none := by
    intro server' id i lobbyId hnone
    rw [Server.get?_feed, hnone]
    split <;> rfl
  cases i with
  | deliver id now k answer =>
    refine ⟨hknown, ?_, fun lobbyId hmem => hfeed _ _ _ _ (h.fresh lobbyId ?_)⟩
    · show (server.feed id _).pushes.Nodup
      rw [Server.pushes_feed]
      exact h.nodup
    · have hmem : lobbyId ∈ (server.feed id (.deliver now k answer)).pushes := hmem
      rwa [Server.pushes_feed] at hmem
  | redeliver id now k answer =>
    refine ⟨hknown, ?_, fun lobbyId hmem => hfeed _ _ _ _ (h.fresh lobbyId ?_)⟩
    · show (server.feed id _).pushes.Nodup
      rw [Server.pushes_feed]
      exact h.nodup
    · have hmem : lobbyId ∈ (server.feed id (.redeliver now k answer)).pushes := hmem
      rwa [Server.pushes_feed] at hmem
  | request r =>
    have hstep := server.step_request r
    generalize server.step (.request r) = server' at hknown hstep
    cases hstep with
    | refused => exact h
    | issued tasks keys hissued hfresh =>
      have hpushes : Server.pushes { server with tasks := server.tasks ++ tasks, keys := keys }
          = server.pushes ++ (Server.Request.key r).toList := by
        rw [Server.pushes, Server.pushes, List.filterMap_append, issue_pushed hissued]
      -- the key is new, so neither a lobby nor a push in flight has it
      refine ⟨hknown, ?_, fun lobbyId hmem => ?_⟩
      · rw [hpushes, List.nodup_append']
        refine ⟨h.nodup, by cases Server.Request.key r <;> simp, fun lobbyId hold hnew => ?_⟩
        obtain ⟨hostId, player, hpush⟩ := mem_pushes.mp hold
        exact hfresh lobbyId (by simpa using hnew) (h.pushes lobbyId hostId player hpush)
      · rw [hpushes, List.mem_append] at hmem
        rcases hmem with hold | hnew
        · exact h.fresh lobbyId hold
        · rw [Option.eq_none_iff_forall_ne_some]
          intro room hroom
          exact hfresh lobbyId (by simpa using hnew) (h.rooms lobbyId room hroom)
  | perform now k =>
    cases htask : server.tasks[k]? with
    | none =>
      have hsame : server.step (.perform now k) = server := by simp only [Server.step, htask]
      rw [hsame]
      exact h
    | some task =>
      have hland : server.step (.perform now k)
          = Server.land { server with tasks := server.tasks.eraseIdx k } now task := by
        simp only [Server.step, htask]
      refine h.land htask hknown ?_ ?_
      · rw [hland]
        cases task with
        | pushLobby id hostId player =>
          show (server.tasks.eraseIdx k ++ Server.addPlayerTasks id player hostId).filterMap _ = _
          rw [List.filterMap_append]
          exact List.append_nil _
        | createLobbyCodeMapping id random =>
          simp only [Server.land]
          split <;> rfl
        | setPlayerLobby playerId id => rfl
        | call id c => exact Server.pushes_feed _ id _
      · rw [hland]
        intro lobbyId hother hnone
        cases task with
        | pushLobby id hostId player =>
          have hne : lobbyId ≠ id := by simpa [Task.pushed] using hother
          show (server.rooms.set id (Room.initial hostId)).get? lobbyId = none
          rw [Dict.get?_set_ne _ _ hne]
          exact hnone
        | createLobbyCodeMapping id random =>
          simp only [Server.land]
          split <;> exact hnone
        | setPlayerLobby playerId id => exact hnone
        | call id c => exact hfeed _ _ _ _ hnone

theorem pushesFresh_of_reachable {G : Server → ServerInput → Prop} {server : Server}
    (h : Server.Reachable G server) : PushesFresh server := by
  refine Machine.Reaches.invariant (fun server i hI _ => hI.step i) ⟨⟨?_, ?_⟩, ?_, ?_⟩ h
  · intro id room hget
    cases hget
  · intro id hostId player hmem
    cases hmem
  · exact List.nodup_nil
  · intro id hmem
    cases hmem

/-! ### A lobby and the others -/

/-- The input a lobby sees, if any. -/
def Server.inputFor (lobbyId : LobbyId) (server : Server) (i : ServerInput) : Option RoomInput :=
  (server.roomInput i).bind (fun x => if x.1 = lobbyId then some x.2 else none)

/-- **Every lobby is a part of the server.** -/
theorem hasPart_room (lobbyId : LobbyId) :
    serverMachine.HasPart (roomMachine lobbyId) PushesFresh (fun server => server.rooms.get? lobbyId)
      (Server.inputFor lobbyId) where
  keeps _ i h := h.step i
  moves server i room h hroom := by
    have hfeed : ∀ (server' : Server) (id : LobbyId) (i : RoomInput),
        server'.rooms.get? lobbyId = some room →
        (server'.feed id i).rooms.get? lobbyId
          = some ((roomMachine lobbyId).run room (if id = lobbyId then some i else none).toList) := by
      intro server' id i hroom'
      rw [Server.get?_feed, hroom']
      by_cases hid : id = lobbyId
      · rw [if_pos hid.symm, if_pos hid, hid]
        rfl
      · rw [if_neg (fun heq => hid heq.symm), if_neg hid]
        rfl
    cases i with
    | deliver id now k answer => exact hfeed server id _ hroom
    | redeliver id now k answer => exact hfeed server id _ hroom
    | request r =>
      have hstep := server.step_request r
      show (server.step (.request r)).rooms.get? lobbyId = some room
      generalize server.step (.request r) = server' at hstep
      cases hstep with
      | refused => exact hroom
      | issued tasks keys hissued hfresh => exact hroom
    | perform now k =>
      show (server.step (.perform now k)).rooms.get? lobbyId = _
      cases htask : server.tasks[k]? with
      | none =>
        simp only [Server.step, Server.inputFor, Server.roomInput, htask]
        exact hroom
      | some task =>
        simp only [Server.step, Server.inputFor, Server.roomInput, htask]
        cases task with
        | pushLobby id hostId player =>
          -- a push in flight is of a lobby that is not there yet
          have hne : lobbyId ≠ id := by
            rintro rfl
            have hnone := h.fresh lobbyId (mem_pushes.mpr ⟨hostId, player,
              List.mem_of_getElem? htask⟩)
            rw [hnone] at hroom
            cases hroom
          show (server.rooms.set id (Room.initial hostId)).get? lobbyId = some room
          rw [Dict.get?_set_ne _ _ hne]
          exact hroom
        | createLobbyCodeMapping id random =>
          simp only [Server.land]
          split <;> exact hroom
        | setPlayerLobby playerId id => exact hroom
        | call id c => exact hfeed { server with tasks := server.tasks.eraseIdx k } id _ hroom

/-- **Isolation.**  From any reachable database, whatever the users and triggers of other lobbies
    do, a lobby ends where the transactions and events addressed to it lead, alone and in the
    order they land in. -/
theorem lobby_isolated {G : Server → ServerInput → Prop} {server : Server}
    (h : Server.Reachable G server) {lobbyId : LobbyId} {room : Room}
    (hroom : server.rooms.get? lobbyId = some room) (inputs : List ServerInput) :
    (serverMachine.run server inputs).rooms.get? lobbyId =
      some ((roomMachine lobbyId).run room
        (serverMachine.inputsOf (Server.inputFor lobbyId) server inputs)) :=
  (hasPart_room lobbyId).run (pushesFresh_of_reachable h) hroom inputs

/-- `carol` creates another lobby while `ben` submits a word, which lands before her push. -/
def sampleSideBySide : List ServerInput :=
  [.request (.createLobby (some "carol") sampleJoinData "M" (fun _ => zeroDraws)),
    .request (.submitWord (some "ben") (.obj [("word", .str "zebra")])), .perform 9 2,
    .perform 9 0]

/-- `ann`'s lobby is told of the word, and of nothing else. -/
theorem lobby_isolated_sample :
    ∃ room, (sampleServer (sampleServerStart ["ben"])).rooms.get? "L" = some room ∧
      (serverMachine.run (sampleServer (sampleServerStart ["ben"])) sampleSideBySide).rooms.get? "L"
        = some (room.step "L" (.call 9 (.submitWord "ben" (.str "zebra")))) := by
  have hsome : ((sampleServer (sampleServerStart ["ben"])).rooms.get? "L").isSome = true := by
    decide +kernel
  obtain ⟨room, hroom⟩ := Option.isSome_iff_exists.mp hsome
  refine ⟨room, hroom, ?_⟩
  have hinputs : serverMachine.inputsOf (Server.inputFor "L")
      (sampleServer (sampleServerStart ["ben"])) sampleSideBySide
      = [.call 9 (.submitWord "ben" (.str "zebra"))] := by
    with_unfolding_all rfl
  rw [lobby_isolated (sampleServer_anyInput _) hroom, hinputs]
  rfl

/-! ### References -/

/-- The lobby a task is about. -/
def Task.target : Task → LobbyId
  | .pushLobby lobbyId _ _ => lobbyId
  | .createLobbyCodeMapping lobbyId _ => lobbyId
  | .setPlayerLobby _ lobbyId => lobbyId
  | .call lobbyId _ => lobbyId

/-- A code, a player's current lobby or an operation in flight points to the lobby. -/
inductive Server.Refers (server : Server) (lobbyId : LobbyId) : Prop
  | code (code : String) (mapping : CodeMapping)
      (hcode : server.lobbyCodeMap.codes.get? code = some mapping)
      (hlobby : mapping.lobbyId = lobbyId)
  | player (uid : Uid) (hplayer : server.playerLobbyMap.get? uid = some lobbyId)
  | task (task : Task) (htask : task ∈ server.tasks) (hlobby : task.target = lobbyId)

/-- The lobby is there, or its push is in flight. -/
def Server.Known (server : Server) (lobbyId : LobbyId) : Prop :=
  (∃ room, server.rooms.get? lobbyId = some room) ∨ lobbyId ∈ server.pushes

theorem Server.Known.of_code {server : Server} {lobbyCode : Json} {lobbyId : LobbyId}
    (h : ∀ id, server.Refers id → server.Known id)
    (hlobby : findLobbyIdFromCode server.lobbyCodeMap lobbyCode = .ok lobbyId) :
    server.Known lobbyId := by
  unfold findLobbyIdFromCode at hlobby
  split at hlobby
  · split at hlobby
    · cases hlobby
    · rename_i code mapping hcode
      exact h lobbyId (.code _ mapping hcode (Except.ok.inj hlobby))
  · cases hlobby

/-- What a request issues is about lobbies that are known, or it pushes itself. -/
theorem issue_target {server : Server} {request : Request} {tasks : List Task}
    (hissued : server.issue request = .ok tasks) (h : ∀ id, server.Refers id → server.Known id)
    {task : Task} (hmem : task ∈ tasks) :
    server.Known task.target ∨ task.target ∈ tasks.filterMap Task.pushed := by
  cases Server.issue_ok hissued with
  | createLobby uid data key random player =>
    right
    simp only [List.mem_cons, List.not_mem_nil, or_false] at hmem
    rcases hmem with rfl | rfl <;> simp [Task.target, Task.pushed]
  | joinLobby uid data lobbyCode player lobbyId hne hplayer hcode hlobby =>
    left
    have hknown := Server.Known.of_code h hlobby
    simp only [Server.addPlayerTasks, List.mem_cons, List.not_mem_nil, or_false] at hmem
    rcases hmem with rfl | rfl <;> exact hknown
  | call uid r c lobbyId hcall hhere =>
    rw [List.mem_singleton.mp hmem]
    exact Or.inl (h lobbyId (.player uid hhere))

/-- A known lobby stays known. -/
theorem Server.Known.step {server : Server} (hfresh : PushesFresh server) {lobbyId : LobbyId}
    (h : server.Known lobbyId) (i : ServerInput) : (server.step i).Known lobbyId := by
  rcases h with ⟨room, hroom⟩ | hpush
  · exact Or.inl ⟨_, (hasPart_room lobbyId).moves server i room hfresh hroom⟩
  · have hstep := server.step_cases i
    generalize server.step i = server' at hstep
    -- a push in flight stays so until it lands
    have herase : ∀ {k : ℕ} {task : Task}, server.tasks[k]? = some task →
        task.pushed ≠ some lobbyId →
        lobbyId ∈ (server.tasks.eraseIdx k).filterMap Task.pushed := by
      intro k task htask hne
      have hmem := (Server.pushes_perm htask).mem_iff.mp hpush
      rw [List.mem_append, Option.mem_toList] at hmem
      exact hmem.resolve_left hne
    cases hstep with
    | idle => exact Or.inr hpush
    | issued r tasks keys hissued hold hkey =>
      refine Or.inr ?_
      show lobbyId ∈ (server.tasks ++ tasks).filterMap Task.pushed
      rw [List.filterMap_append]
      exact List.mem_append_left _ hpush
    | pushed now k id hostId player htask =>
      by_cases hid : id = lobbyId
      · subst hid
        exact Or.inl ⟨_, Dict.get?_set_self _ _ _⟩
      · refine Or.inr ?_
        show lobbyId ∈ (server.tasks.eraseIdx k ++ _).filterMap Task.pushed
        rw [List.filterMap_append]
        exact List.mem_append_left _ (herase htask (by simpa [Task.pushed] using hid))
    | coded now k id random lobbyCodeMap htask =>
      exact Or.inr (herase htask (by simp [Task.pushed]))
    | placed now k playerId id htask => exact Or.inr (herase htask (by simp [Task.pushed]))
    | called now k id c htask =>
      refine Or.inr ?_
      rw [Server.pushes_feed]
      exact herase htask (by simp [Task.pushed])
    | delivered id now k answer =>
      refine Or.inr ?_
      rw [Server.pushes_feed]
      exact hpush
    | redelivered id now k answer =>
      refine Or.inr ?_
      rw [Server.pushes_feed]
      exact hpush

/-- A code points to what it did before, or to the lobby whose code transaction landed. -/
theorem code_step {server : Server} {i : ServerInput} {code : String} {mapping : CodeMapping}
    (h : (server.step i).lobbyCodeMap.codes.get? code = some mapping) :
    server.Refers mapping.lobbyId := by
  cases i with
  | deliver id now k answer =>
    have hsame : (server.step (.deliver id now k answer)).lobbyCodeMap = server.lobbyCodeMap :=
      Server.feed_lobbyCodeMap server id _
    rw [hsame] at h
    exact .code code mapping h rfl
  | redeliver id now k answer =>
    have hsame : (server.step (.redeliver id now k answer)).lobbyCodeMap = server.lobbyCodeMap :=
      Server.feed_lobbyCodeMap server id _
    rw [hsame] at h
    exact .code code mapping h rfl
  | request r =>
    have hstep := server.step_request r
    generalize server.step (.request r) = server' at h hstep
    cases hstep with
    | refused => exact .code code mapping h rfl
    | issued tasks keys hissued hfresh => exact .code code mapping h rfl
  | perform now k =>
    cases htask : server.tasks[k]? with
    | none =>
      simp only [Server.step, htask] at h
      exact .code code mapping h rfl
    | some task =>
      simp only [Server.step, htask] at h
      cases task with
      | pushLobby id hostId player => exact .code code mapping h rfl
      | setPlayerLobby playerId id => exact .code code mapping h rfl
      | call id c =>
        rw [Server.land, Server.feed_lobbyCodeMap] at h
        exact .code code mapping h rfl
      | createLobbyCodeMapping id random =>
        simp only [Server.land] at h
        cases hrun : createLobbyCodeMapping server.lobbyCodeMap id now random with
        | error failure =>
          simp only [hrun] at h
          exact .code code mapping h rfl
        | ok map =>
          obtain ⟨_, rfl⟩ := createLobbyCodeMapping_ok hrun
          simp only [hrun, LobbyCodeMap.assign, Dict.get?_set] at h
          split at h
          · obtain rfl := Option.some.inj h
            exact .task _ (List.mem_of_getElem? htask) rfl
          · exact .code code mapping h rfl

/-- What a step makes point to a lobby did so before, is issued by a request, or follows the push
    of the lobby. -/
theorem Server.Refers.of_step {server : Server} {i : ServerInput} {lobbyId : LobbyId}
    (h : (server.step i).Refers lobbyId) :
    server.Refers lobbyId ∨ ∃ r tasks task, i = .request r ∧ server.issue r = .ok tasks ∧
      task ∈ tasks ∧ task.target = lobbyId := by
  cases h with
  | task task hmem hlobby =>
    rcases Server.mem_tasks_step hmem with hold | ⟨r, tasks, hr, hissued, hnew, _⟩ |
      ⟨id, hostId, player, hpush, hnew⟩
    · exact Or.inl (.task task hold hlobby)
    · exact Or.inr ⟨r, tasks, task, hr, hissued, hnew, hlobby⟩
    · refine Or.inl (.task _ hpush ?_)
      simp only [Server.addPlayerTasks, List.mem_cons, List.not_mem_nil, or_false] at hnew
      rcases hnew with rfl | rfl <;> exact hlobby
  | player uid hplayer =>
    left
    have hstep := server.step_cases i
    generalize server.step i = server' at hplayer hstep
    cases hstep with
    | idle => exact .player uid hplayer
    | issued => exact .player uid hplayer
    | pushed => exact .player uid hplayer
    | coded => exact .player uid hplayer
    | placed now k playerId id htask =>
      rw [Dict.get?_set] at hplayer
      split at hplayer
      · exact .task _ (List.mem_of_getElem? htask) (Option.some.inj hplayer)
      · exact .player uid hplayer
    | called now k id c htask =>
      rw [Server.playerLobbyMap_feed] at hplayer
      exact .player uid hplayer
    | delivered id now k answer =>
      rw [Server.playerLobbyMap_feed] at hplayer
      exact .player uid hplayer
    | redelivered id now k answer =>
      rw [Server.playerLobbyMap_feed] at hplayer
      exact .player uid hplayer
  | code code mapping hcode hlobby =>
    exact Or.inl (hlobby ▸ code_step hcode)

theorem known_of_reachable {G : Server → ServerInput → Prop} {server : Server}
    (h : Server.Reachable G server) {lobbyId : LobbyId} (href : server.Refers lobbyId) :
    server.Known lobbyId := by
  have hall : Server.Reachable G server ∧ ∀ id, server.Refers id → server.Known id := by
    refine Machine.Reaches.invariant (I := fun server => Server.Reachable G server ∧
      ∀ id, server.Refers id → server.Known id) ?_ ⟨.refl _, ?_⟩ h
    · rintro server i ⟨hreach, hknown⟩ hG
      have hfresh := pushesFresh_of_reachable hreach
      refine ⟨hreach.trans (.step hG), fun id href => ?_⟩
      rcases href.of_step with hold | ⟨r, tasks, task, rfl, hissued, hmem, rfl⟩
      · exact (hknown id hold).step hfresh i
      · -- the lobby was known, or its push has just been issued
        rcases issue_target hissued hknown hmem with hold | hpush
        · exact hold.step hfresh _
        · have hstep := server.step_request r
          have href : (server.step (.request r)).Refers task.target := href
          show (server.step (.request r)).Known task.target
          generalize server.step (.request r) = server' at href hstep ⊢
          cases hstep with
          | refused => exact hknown _ href
          | issued tasks' keys hissued' hnew =>
            obtain rfl := Except.ok.inj (hissued.symm.trans hissued')
            refine Or.inr ?_
            show task.target ∈ (server.tasks ++ tasks).filterMap Task.pushed
            rw [List.filterMap_append]
            exact List.mem_append_right _ hpush
    · intro id href
      cases href with
      | code code mapping hcode => cases hcode
      | player uid hplayer => cases hplayer
      | task task hmem => cases hmem
  exact hall.2 lobbyId href

/-- **References.**  In every reachable database, every code, every player's current lobby and
    every operation in flight points to a lobby that is there, or whose push is in flight; and the
    lobbies that are there stay, whatever happens next. -/
theorem references_resolve {G : Server → ServerInput → Prop} {server : Server}
    (h : Server.Reachable G server) {lobbyId : LobbyId} (href : server.Refers lobbyId) :
    ((∃ hostId player, .pushLobby lobbyId hostId player ∈ server.tasks) ∧
      server.rooms.get? lobbyId = none) ∨
    ∀ inputs, ∃ room, (serverMachine.run server inputs).rooms.get? lobbyId = some room := by
  rcases known_of_reachable h href with ⟨room, hroom⟩ | hpush
  · exact Or.inr (fun inputs => ⟨_, (hasPart_room lobbyId).run (pushesFresh_of_reachable h) hroom
      inputs⟩)
  · exact Or.inl ⟨mem_pushes.mp hpush, (pushesFresh_of_reachable h).fresh lobbyId hpush⟩

/-- `ann` creates a lobby, and its code is there before the lobby is. -/
def sampleEarlyCode : List ServerInput :=
  [.request (.createLobby (some "ann") sampleJoinData "L" (fun _ => zeroDraws)), .perform 1 1]

theorem references_resolve_sample :
    ((∃ hostId player, .pushLobby "L" hostId player ∈ (sampleServer sampleEarlyCode).tasks) ∧
      (sampleServer sampleEarlyCode).rooms.get? "L" = none) ∨
    ∀ inputs, ∃ room, (serverMachine.run (sampleServer sampleEarlyCode) inputs).rooms.get? "L"
      = some room := by
  have hcode : (sampleServer sampleEarlyCode).lobbyCodeMap.codes.get? "AAAA" = some ⟨"L", 1⟩ := by
    decide +kernel
  exact references_resolve (sampleServer_anyInput sampleEarlyCode) (.code "AAAA" ⟨"L", 1⟩ hcode rfl)

end PasswordApp
