import PasswordApp.Backend.Codes
import PasswordApp.Game.Ballots

namespace PasswordApp

/-!
# Game — entering a lobby, and failing to

`createLobby` and `joinLobby` issue several writes side by side and undo none of them.  Here
the operations of one call land alone, in any order, until none is left.

* `Server.settle`, `Server.rejections` — the database afterwards, and what was rejected;
* `Server.FailsCleanly` — a call that rejects leaves the database as it was;
* `Server.Admits` — a join the lobby and the database accept;
* `joins_cleanly`, `creates_cleanly` — when the operations of a join or a creation do;
* `Entering` — the invariant of the orders in which nothing is rejected;
* `failed_entry_clean_iff` — when entries fail cleanly.
-/

/-! ### The operations of one call -/

/-- The rejection of an operation that lands. -/
def Task.rejection (server : Server) (now : ℕ) : Task → Option Failure
  | .pushLobby _ _ _ => none
  | .setPlayerLobby _ _ => none
  | .createLobbyCodeMapping lobbyId random =>
    match PasswordApp.createLobbyCodeMapping server.lobbyCodeMap lobbyId now random with
    | .error failure => some failure
    | .ok _ => none
  | .call lobbyId c =>
    match updateLobby lobbyId (c.transaction lobbyId) now
      ((server.rooms.get? lobbyId).map Room.lobby) with
    | .error failure => some failure
    | .ok _ => none

/-- The operations in flight; the one at the place `l.2` lands at the time `l.1`. -/
def landingMachine : Machine Server (ℕ × ℕ) := ⟨fun server l => server.step (.perform l.1 l.2)⟩

namespace Server

/-- The rejection of the operation that lands. -/
def rejection (server : Server) (l : ℕ × ℕ) : Option Failure :=
  (server.tasks[l.2]?).bind (Task.rejection server l.1)

/-- The database after the operations of one call landed, alone. -/
def settle (server : Server) (tasks : List Task) (landings : List (ℕ × ℕ)) : Server :=
  landingMachine.run { server with tasks := tasks } landings

/-- What was rejected on the way. -/
def rejections (server : Server) (tasks : List Task) (landings : List (ℕ × ℕ)) :
    List (Option Failure) :=
  landingMachine.outputs rejection { server with tasks := tasks } landings

end Server

/-- The same lobbies, codes and current lobbies. -/
structure SameDatabase (before after : Server) : Prop where
  lobbies : ∀ lobbyId, (after.rooms.get? lobbyId).map Room.lobby
    = (before.rooms.get? lobbyId).map Room.lobby
  codes : after.lobbyCodeMap = before.lobbyCodeMap
  players : ∀ uid, after.playerLobbyMap.get? uid = before.playerLobbyMap.get? uid

theorem SameDatabase.refl (server : Server) : SameDatabase server server :=
  ⟨fun _ => rfl, rfl, fun _ => rfl⟩

/-- If the call rejects, the database is what it was, in whatever order its operations land. -/
def Server.FailsCleanly (server : Server) (request : Request) : Prop :=
  match server.issue request with
  | .error _ => SameDatabase server (server.step (.request request))
  | .ok tasks =>
    ∀ landings, (server.settle tasks landings).tasks = [] →
      (∃ failure, some failure ∈ server.rejections tasks landings) →
      SameDatabase server (server.settle tasks landings)

/-- The same of the operations of the call. -/
def Server.SettlesCleanly (server : Server) (tasks : List Task) : Prop :=
  ∀ landings, (server.settle tasks landings).tasks = [] →
    (∃ failure, some failure ∈ server.rejections tasks landings) →
    SameDatabase server (server.settle tasks landings)

/-- `createLobby` or `joinLobby`. -/
def Request.Entry : Request → Prop
  | .createLobby _ _ _ _ => True
  | .joinLobby _ _ => True
  | _ => False

/-- The lobby exists and is open to join. -/
def Server.OpenLobby (server : Server) (lobbyId : LobbyId) : Prop :=
  ∃ room, server.rooms.get? lobbyId = some room ∧ room.lobby.status = .lobby

/-- A join is accepted: the lobby is open, and the database takes the profile. -/
def Server.Admits (server : Server) (lobbyId : LobbyId) (player : PlayerInfo) : Prop :=
  server.OpenLobby lobbyId ∧ player.storable = true

/-! ### Single landings -/

section Landings

variable {server : Server} {lobbyId : LobbyId}

/-- A rejected operation leaves the database as it was. -/
theorem land_rejected {now : ℕ} {task : Task} {failure : Failure}
    (h : task.rejection server now = some failure) :
    SameDatabase server (server.land now task) ∧ (server.land now task).tasks = server.tasks := by
  cases task with
  | pushLobby lobbyId hostId player => cases h
  | setPlayerLobby playerId lobbyId => cases h
  | createLobbyCodeMapping lobbyId random =>
    simp only [Task.rejection] at h
    unfold Server.land
    split at h
    · rename_i hfailed
      simp only [hfailed]
      exact ⟨.refl server, trivial⟩
    · cases h
  | call lobbyId c =>
    simp only [Task.rejection] at h
    unfold Server.land Server.feed
    cases hroom : server.rooms.get? lobbyId with
    | none =>
      simp only [hroom]
      exact ⟨.refl server, trivial⟩
    | some room =>
      simp only [hroom, Option.map_some] at h
      simp only [hroom]
      -- the transaction is aborted, so the room is written back as it was
      have hkept : room.step lobbyId (.call now c) = room := by
        show room.commit lobbyId (c.transaction lobbyId) now = room
        rcases Room.commit_cases lobbyId (c.transaction lobbyId) now room with
          ⟨hsame, _⟩ | ⟨lobby, hok, _⟩
        · exact hsame
        · rw [hok] at h
          cases h
      rw [hkept]
      refine ⟨⟨fun id => ?_, rfl, fun _ => rfl⟩, trivial⟩
      show ((server.rooms.set lobbyId room).get? id).map Room.lobby = _
      by_cases hid : id = lobbyId
      · rw [hid, Dict.get?_set_self, hroom]
      · rw [Dict.get?_set_ne _ _ hid]

/-- A join is accepted exactly if the lobby is open and the database takes the profile. -/
theorem join_rejection (now : ℕ) (player : PlayerInfo) (uid : Uid) :
    (Task.call lobbyId (.addPlayerToLobby player uid)).rejection server now = none ↔
      server.Admits lobbyId player := by
  simp only [Task.rejection, Server.Admits, Server.OpenLobby]
  cases hroom : server.rooms.get? lobbyId with
  | none => simp [updateLobby, httpsError]
  | some room =>
    by_cases hstatus : room.lobby.status = .lobby
    · have hvalid :
          (addPlayerToLobby lobbyId player uid).validateLobbyFn room.lobby = .ok none := by
        simp [addPlayerToLobby, hstatus]
      cases hstorable : player.storable with
      | true =>
        have hok : ∃ next, (addPlayerToLobby lobbyId player uid).updateLobbyFn
            (room.lobby.stamp now) = .ok next := by
          simp [addPlayerToLobby, hstorable]
        obtain ⟨next, hok⟩ := hok
        simp [Call.transaction, updateLobby_commits lobbyId hvalid hok, hstatus]
      | false =>
        have hthrown : (addPlayerToLobby lobbyId player uid).updateLobbyFn
            (room.lobby.stamp now) = .error .unstorable := by
          simp only [addPlayerToLobby, hstorable]
          rfl
        simp [Call.transaction, updateLobby_throws lobbyId hvalid hthrown]
    · have hvalid : ∃ error, (addPlayerToLobby lobbyId player uid).validateLobbyFn room.lobby
          = .ok (some error) := by
        simp [addPlayerToLobby, hstatus, preconditionError]
      obtain ⟨error, hvalid⟩ := hvalid
      have hrefused : updateLobby lobbyId (addPlayerToLobby lobbyId player uid) now
          (some room.lobby) = .error (.https error) := updateLobby_refuses lobbyId hvalid
      simp [Call.transaction, hrefused, hstatus]

end Landings

/-! ### Orders in which nothing is rejected -/

/-- An operation of a call that enters the lobby with a profile the database takes. -/
inductive EntryTask (lobbyId : LobbyId) : Task → Prop
  | push (hostId : Uid) (player : PlayerInfo) (hplayer : player.storable = true) :
      EntryTask lobbyId (.pushLobby lobbyId hostId player)
  | code (random : ℕ → ℕ → Draw) : EntryTask lobbyId (.createLobbyCodeMapping lobbyId random)
  | seat (player : PlayerInfo) (uid : Uid) (hplayer : player.storable = true) :
      EntryTask lobbyId (.call lobbyId (.addPlayerToLobby player uid))
  | move (uid : Uid) : EntryTask lobbyId (.setPlayerLobby uid lobbyId)

def Task.isCode : Task → Bool
  | .createLobbyCodeMapping _ _ => true
  | _ => false

/-- Every operation in flight will be accepted: the lobby to be joined is open, and the code to
    be taken is free. -/
structure Entering (lobbyId : LobbyId) (server : Server) : Prop where
  tasks : ∀ task ∈ server.tasks, EntryTask lobbyId task
  seat : ∀ c, .call lobbyId c ∈ server.tasks → server.OpenLobby lobbyId
  code : ∀ random, .createLobbyCodeMapping lobbyId random ∈ server.tasks →
    generateLobbyCode (random 0) ∉ server.lobbyCodeMap.codes.keys
  once : server.tasks.countP Task.isCode ≤ 1

theorem code_thrown {server : Server} (lobbyId : LobbyId) (now : ℕ) {random : ℕ → ℕ → Draw}
    (htaken : generateLobbyCode (random 0) ∈ server.lobbyCodeMap.codes.keys) :
    (Task.createLobbyCodeMapping lobbyId random).rejection server now
      = some (.exception .referenceError) ∧
    server.land now (.createLobbyCodeMapping lobbyId random) = server := by
  simp only [Task.rejection, Server.land, createLobbyCodeMapping_taken lobbyId now htaken]
  exact ⟨trivial, trivial⟩

/-- A transaction keeps an open lobby open to join, if it is a join. -/
theorem Server.OpenLobby.feed_join {server : Server} {lobbyId : LobbyId}
    (h : server.OpenLobby lobbyId) (now : ℕ) (player : PlayerInfo) (uid : Uid) :
    (server.feed lobbyId (.call now (.addPlayerToLobby player uid))).OpenLobby lobbyId := by
  obtain ⟨room, hroom, hstatus⟩ := h
  unfold Server.feed
  simp only [hroom]
  refine ⟨_, Dict.get?_set_self _ _ _, ?_⟩
  rcases Room.commit_cases lobbyId (addPlayerToLobby lobbyId player uid) now room with
    ⟨hsame, _⟩ | ⟨lobby, hok, hcommit⟩
  · show (room.commit lobbyId (addPlayerToLobby lobbyId player uid) now).lobby.status = .lobby
    rw [hsame, hstatus]
  · show (room.commit lobbyId (addPlayerToLobby lobbyId player uid) now).lobby.status = .lobby
    rw [hcommit]
    have hcall : updateLobby lobbyId ((Call.addPlayerToLobby player uid).transaction lobbyId) now
        (some room.lobby) = .ok lobby := hok
    obtain ⟨_, rfl⟩ := call_ok hcall
    exact hstatus

namespace Entering

variable {lobbyId : LobbyId} {server : Server}

/-- Without one of its operations. -/
theorem erase (h : Entering lobbyId server) (i : ℕ) :
    Entering lobbyId { server with tasks := server.tasks.eraseIdx i } where
  tasks task hmem := h.tasks task (List.mem_of_mem_eraseIdx hmem)
  seat c hmem := h.seat c (List.mem_of_mem_eraseIdx hmem)
  code random hmem := h.code random (List.mem_of_mem_eraseIdx hmem)
  once := (List.Sublist.countP_le (List.eraseIdx_sublist _ _)).trans h.once

/-- Once the code is taken, no other is to be. -/
theorem no_code (h : Entering lobbyId server) {i : ℕ} {random : ℕ → ℕ → Draw}
    (htask : server.tasks[i]? = some (.createLobbyCodeMapping lobbyId random)) :
    ∀ random', .createLobbyCodeMapping lobbyId random' ∉ server.tasks.eraseIdx i := by
  intro random' hmem
  obtain ⟨hi, hget⟩ := List.getElem?_eq_some_iff.mp htask
  have hcount := h.once
  rw [← (List.getElem_cons_eraseIdx_perm hi).countP_eq, hget, List.countP_cons] at hcount
  have hpos : 0 < (server.tasks.eraseIdx i).countP Task.isCode :=
    List.countP_pos_iff.mpr ⟨_, hmem, rfl⟩
  simp only [Task.isCode, if_true] at hcount
  omega

/-- The pushed lobby is open, and its host may be added. -/
theorem push (h : Entering lobbyId server) (hostId : Uid) {player : PlayerInfo}
    (hplayer : player.storable = true) :
    Entering lobbyId (server.land 0 (.pushLobby lobbyId hostId player)) where
  tasks task hmem := by
    rcases List.mem_append.mp hmem with hmem | hmem
    · exact h.tasks task hmem
    · simp only [Server.addPlayerTasks, List.mem_cons, List.not_mem_nil, or_false] at hmem
      rcases hmem with rfl | rfl
      · exact .seat player hostId hplayer
      · exact .move hostId
  seat c hmem := ⟨Room.initial hostId, Dict.get?_set_self _ _ _, rfl⟩
  code random hmem := by
    rcases List.mem_append.mp hmem with hmem | hmem
    · exact h.code random hmem
    · simp [Server.addPlayerTasks] at hmem
  once := by
    show (server.tasks ++ Server.addPlayerTasks lobbyId player hostId).countP Task.isCode ≤ 1
    rw [List.countP_append]
    exact h.once

theorem feed (h : Entering lobbyId server) (i : RoomInput)
    (hopen : (server.feed lobbyId i).OpenLobby lobbyId) :
    Entering lobbyId (server.feed lobbyId i) := by
  obtain ⟨rooms, heq⟩ := server.feed_eq lobbyId i
  rw [heq] at hopen ⊢
  exact ⟨h.tasks, fun _ _ => hopen, h.code, h.once⟩

/-- **Step lemma.** Nothing is rejected, and nothing will be. -/
theorem step (h : Entering lobbyId server) (l : ℕ × ℕ) :
    server.rejection l = none ∧ Entering lobbyId (server.step (.perform l.1 l.2)) := by
  unfold Server.rejection
  cases htask : server.tasks[l.2]? with
  | none =>
    simp only [Server.step, htask]
    exact ⟨rfl, h⟩
  | some task =>
    simp only [Server.step, htask, Option.bind_some]
    have hmem := List.mem_of_getElem? htask
    have hrest := h.erase l.2
    cases h.tasks task hmem with
    | push hostId player hplayer => exact ⟨rfl, hrest.push hostId hplayer⟩
    | code random =>
      have hmap := createLobbyCodeMapping_free lobbyId l.1 (h.code random hmem)
      simp only [Task.rejection, Server.land, hmap]
      exact ⟨trivial, hrest.tasks, hrest.seat,
        fun random' hcode => absurd hcode (h.no_code htask random'), hrest.once⟩
    | seat player uid hplayer =>
      have hopen : Server.OpenLobby { server with tasks := server.tasks.eraseIdx l.2 } lobbyId :=
        h.seat _ hmem
      refine ⟨(join_rejection l.1 player uid).mpr ⟨hopen, hplayer⟩, ?_⟩
      exact hrest.feed _ (hopen.feed_join l.1 player uid)
    | move uid => exact ⟨rfl, hrest.tasks, hrest.seat, hrest.code, hrest.once⟩

end Entering

/-- In whatever order they land, nothing is rejected. -/
theorem Entering.accepted {lobbyId : LobbyId} {server : Server} {tasks : List Task}
    (h : Entering lobbyId { server with tasks := tasks }) (landings : List (ℕ × ℕ)) :
    ¬ ∃ failure, some failure ∈ server.rejections tasks landings := by
  rintro ⟨failure, hmem⟩
  have hnone : ∀ shown ∈ server.rejections tasks landings, shown = none :=
    Machine.outputs_forall (fun _ l hI => hI.step l) h landings
  cases hnone _ hmem

/-! ### Joining -/

section Joining

variable {server : Server} {lobbyId : LobbyId}

/-- A join of an open lobby is accepted if the database takes the profile. -/
theorem entering_join {player : PlayerInfo} (hadmits : server.Admits lobbyId player) (uid : Uid) :
    Entering lobbyId { server with tasks := Server.addPlayerTasks lobbyId player uid } where
  tasks task hmem := by
    simp only [Server.addPlayerTasks, List.mem_cons, List.not_mem_nil, or_false] at hmem
    rcases hmem with rfl | rfl
    · exact .seat player uid hadmits.2
    · exact .move uid
  seat _ _ := hadmits.1
  code random hmem := by simp [Server.addPlayerTasks] at hmem
  once := Nat.zero_le 1

/-- A refused join of the lobby the player is in: nothing is written that was not there. -/
structure Refused (server : Server) (lobbyId : LobbyId) (player : PlayerInfo) (uid : Uid)
    (now : Server) : Prop where
  tasks : ∀ task ∈ now.tasks, task ∈ Server.addPlayerTasks lobbyId player uid
  same : SameDatabase server now

theorem SameDatabase.trans {a b c : Server} (h : SameDatabase a b) (h' : SameDatabase b c) :
    SameDatabase a c :=
  ⟨fun id => (h'.lobbies id).trans (h.lobbies id), h'.codes.trans h.codes,
    fun uid => (h'.players uid).trans (h.players uid)⟩

/-- An open lobby is one whose value says so. -/
theorem openLobby_iff : server.OpenLobby lobbyId ↔
    ((server.rooms.get? lobbyId).map Room.lobby).any (fun lobby => lobby.status = .lobby)
      = true := by
  unfold Server.OpenLobby
  cases server.rooms.get? lobbyId with
  | none => simp
  | some room => simp

theorem Refused.step {player : PlayerInfo} {uid : Uid} (hrefused : ¬ server.Admits lobbyId player)
    (hhere : server.playerLobbyMap.get? uid = some lobbyId) {now : Server}
    (h : Refused server lobbyId player uid now) (l : ℕ × ℕ) :
    Refused server lobbyId player uid (now.step (.perform l.1 l.2)) := by
  cases htask : now.tasks[l.2]? with
  | none =>
    simp only [Server.step, htask]
    exact h
  | some task =>
    simp only [Server.step, htask]
    have hrest : ∀ task ∈ now.tasks.eraseIdx l.2, task ∈ Server.addPlayerTasks lobbyId player uid :=
      fun task hmem => h.tasks task (List.mem_of_mem_eraseIdx hmem)
    have hmem := h.tasks task (List.mem_of_getElem? htask)
    simp only [Server.addPlayerTasks, List.mem_cons, List.not_mem_nil, or_false] at hmem
    rcases hmem with rfl | rfl
    · -- the lobby is as it was, so the transaction fails
      have hrefused' : ¬ Server.Admits { now with tasks := now.tasks.eraseIdx l.2 } lobbyId
          player := by
        rw [Server.Admits, openLobby_iff] at hrefused ⊢
        have hlobby := h.same.lobbies lobbyId
        simp only [hlobby]
        exact hrefused
      have hrejected := mt (join_rejection l.1 player uid).mp hrefused'
      obtain ⟨failure, hfailure⟩ := Option.ne_none_iff_exists'.mp hrejected
      obtain ⟨hsame, htasks⟩ := land_rejected hfailure
      exact ⟨by rw [htasks]; exact hrest, h.same.trans ⟨hsame.lobbies, hsame.codes, hsame.players⟩⟩
    · refine ⟨hrest, h.same.lobbies, h.same.codes, fun u => ?_⟩
      -- the entry is written again
      show (now.playerLobbyMap.set uid lobbyId).get? u = _
      by_cases hu : u = uid
      · rw [hu, Dict.get?_set_self, hhere]
      · rw [Dict.get?_set_ne _ _ hu, h.same.players u]

/-- Any other refused join leaves the player in the lobby that refused him. -/
theorem join_leaves_trace {player : PlayerInfo} {uid : Uid}
    (hrefused : ¬ server.Admits lobbyId player)
    (hother : server.playerLobbyMap.get? uid ≠ some lobbyId) :
    ¬ server.SettlesCleanly (Server.addPlayerTasks lobbyId player uid) := by
  intro hclean
  obtain ⟨rooms, hfeed⟩ := Server.feed_eq
    { server with tasks := [.setPlayerLobby uid lobbyId] } lobbyId
    (.call 0 (.addPlayerToLobby player uid))
  -- the transaction lands first, then the entry of the player
  have hsettled : server.settle (Server.addPlayerTasks lobbyId player uid) [(0, 0), (0, 0)]
      = { server with
          rooms := rooms
          playerLobbyMap := server.playerLobbyMap.set uid lobbyId
          tasks := [] } := by
    show Server.step (Server.feed { server with tasks := [.setPlayerLobby uid lobbyId] } lobbyId
      (.call 0 (.addPlayerToLobby player uid))) (.perform 0 0) = _
    rw [hfeed]
    rfl
  have hrefused' : ¬ Server.Admits
      { server with tasks := Server.addPlayerTasks lobbyId player uid } lobbyId player := hrefused
  have hrejected := mt (join_rejection 0 player uid).mp hrefused'
  obtain ⟨failure, hfailure⟩ := Option.ne_none_iff_exists'.mp hrejected
  have hsame := hclean [(0, 0), (0, 0)] (by rw [hsettled])
    ⟨failure, List.mem_cons.mpr (Or.inl hfailure.symm)⟩
  rw [hsettled] at hsame
  have hentry := hsame.players uid
  rw [Dict.get?_set_self] at hentry
  exact hother hentry.symm

/-- Joins fail cleanly exactly if they are admitted, or the lobby is the player's already. -/
theorem joins_cleanly (player : PlayerInfo) (uid : Uid) :
    server.SettlesCleanly (Server.addPlayerTasks lobbyId player uid) ↔
      server.Admits lobbyId player ∨ server.playerLobbyMap.get? uid = some lobbyId := by
  by_cases hadmits : server.Admits lobbyId player
  · refine iff_of_true (fun landings _ hrejected => ?_) (Or.inl hadmits)
    exact absurd hrejected ((entering_join hadmits uid).accepted landings)
  · by_cases hhere : server.playerLobbyMap.get? uid = some lobbyId
    · refine iff_of_true (fun landings _ _ => ?_) (Or.inr hhere)
      have hstart : Refused server lobbyId player uid
          { server with tasks := Server.addPlayerTasks lobbyId player uid } :=
        ⟨fun _ hmem => hmem, fun _ => rfl, rfl, fun _ => rfl⟩
      have hrun := Machine.Reaches.of_run landingMachine
        { server with tasks := Server.addPlayerTasks lobbyId player uid } landings
      have hrefused := hrun.invariant (fun _ l hI _ => hI.step hadmits hhere l) hstart
      exact hrefused.same
    · exact iff_of_false (join_leaves_trace hadmits hhere) (not_or.mpr ⟨hadmits, hhere⟩)

end Joining

/-! ### Creating -/

/-- Every lobby has a key that `push` handed out. -/
structure KeysKnown (server : Server) : Prop where
  rooms : ∀ lobbyId room, server.rooms.get? lobbyId = some room → lobbyId ∈ server.keys
  pushes : ∀ lobbyId hostId player, .pushLobby lobbyId hostId player ∈ server.tasks →
    lobbyId ∈ server.keys

/-- Only a creation pushes a lobby, under its key. -/
theorem issue_pushes {server : Server} {request : Request} {tasks : List Task}
    (h : server.issue request = .ok tasks) {lobbyId : LobbyId} {hostId : Uid} {player : PlayerInfo}
    (hmem : .pushLobby lobbyId hostId player ∈ tasks) :
    Server.Request.key request = some lobbyId := by
  cases Server.issue_ok h with
  | createLobby uid data key random info =>
    simp only [List.mem_cons, Task.pushLobby.injEq, reduceCtorEq, List.not_mem_nil, or_false]
      at hmem
    exact congrArg some hmem.1.symm
  | joinLobby uid data lobbyCode info id => simp [Server.addPlayerTasks] at hmem
  | call uid r c id => simp at hmem

theorem KeysKnown.step {server : Server} (h : KeysKnown server) (i : ServerInput) :
    KeysKnown (server.step i) where
  rooms lobbyId room hroom := by
    apply Server.keys_step
    rcases Server.rooms_step hroom with ⟨old, hold⟩ | ⟨hostId, player, hpush⟩
    · exact h.rooms lobbyId old hold
    · exact h.pushes lobbyId hostId player hpush
  pushes lobbyId hostId player hmem := by
    rcases Server.mem_tasks_step hmem with hold | ⟨r, tasks, _, hissued, hnew, hkey⟩ |
      ⟨id, host, info, _, hnew⟩
    · exact Server.keys_step (h.pushes lobbyId hostId player hold) i
    · exact hkey lobbyId (issue_pushes hissued hnew)
    · simp [Server.addPlayerTasks] at hnew

theorem keysKnown_of_reachable {G : Server → ServerInput → Prop} {server : Server}
    (h : Server.Reachable G server) : KeysKnown server := by
  refine Machine.Reaches.invariant (fun server i hI _ => hI.step i) ⟨?_, ?_⟩ h
  · intro id room hget
    cases hget
  · intro id host info hmem
    cases hmem

section Creating

variable {server : Server} {key : LobbyId}

/-- A creation whose first code is free is accepted if the database takes the profile. -/
theorem entering_create {random : ℕ → ℕ → Draw}
    (hfree : generateLobbyCode (random 0) ∉ server.lobbyCodeMap.codes.keys) (hostId : Uid)
    {player : PlayerInfo} (hplayer : player.storable = true) :
    Entering key { server with
      tasks := [.pushLobby key hostId player, .createLobbyCodeMapping key random] } where
  tasks task hmem := by
    simp only [List.mem_cons, List.not_mem_nil, or_false] at hmem
    rcases hmem with rfl | rfl
    · exact .push hostId player hplayer
    · exact .code random
  seat c hmem := by simp at hmem
  code random' hmem := by
    simp only [List.mem_cons, reduceCtorEq, Task.createLobbyCodeMapping.injEq, true_and, false_or,
      List.not_mem_nil, or_false] at hmem
    rw [hmem]
    exact hfree
  once := Nat.le_refl 1

theorem Server.feed_isSome (server : Server) (lobbyId : LobbyId) (i : RoomInput) :
    ((server.feed lobbyId i).rooms.get? lobbyId).isSome = (server.rooms.get? lobbyId).isSome := by
  unfold Server.feed
  cases hroom : server.rooms.get? lobbyId with
  | none => simp [hroom]
  | some room =>
    show ((server.rooms.set lobbyId (room.step lobbyId i)).get? lobbyId).isSome = _
    rw [Dict.get?_set_self]
    rfl

/-- Whether it is taken or throws, the code transaction only writes the code. -/
theorem land_code (server : Server) (lobbyId : LobbyId) (now : ℕ) (random : ℕ → ℕ → Draw) :
    ∃ map, server.land now (.createLobbyCodeMapping lobbyId random)
      = { server with lobbyCodeMap := map } := by
  unfold Server.land
  simp only []
  split
  · exact ⟨server.lobbyCodeMap, rfl⟩
  · exact ⟨_, rfl⟩

/-- The code transaction and the push have landed: the host's own writes are left. -/
theorem creation_pushed (server : Server) (key : LobbyId) (hostId : Uid) (player : PlayerInfo)
    (random : ℕ → ℕ → Draw) :
    ∃ map, Server.step (Server.step
        { server with tasks := [.pushLobby key hostId player, .createLobbyCodeMapping key random] }
        (.perform 0 1)) (.perform 0 0)
      = { server with
          lobbyCodeMap := map
          rooms := server.rooms.set key (Room.initial hostId)
          tasks := Server.addPlayerTasks key player hostId } := by
  obtain ⟨map, hcode⟩ := land_code { server with tasks := [.pushLobby key hostId player] } key 0
    random
  have hfirst : Server.step
      { server with tasks := [.pushLobby key hostId player, .createLobbyCodeMapping key random] }
      (.perform 0 1)
      = { server with lobbyCodeMap := map, tasks := [.pushLobby key hostId player] } := hcode
  exact ⟨map, by rw [hfirst]; rfl⟩

/-- In this order the creation ends with the lobby in the database. -/
theorem creation_settled (server : Server) (key : LobbyId) (hostId : Uid) (player : PlayerInfo)
    (random : ℕ → ℕ → Draw) :
    ∃ map rooms, (Dict.get? rooms key).isSome = true ∧
      server.settle [.pushLobby key hostId player, .createLobbyCodeMapping key random]
        [(0, 1), (0, 0), (0, 0), (0, 0)]
      = { server with
          lobbyCodeMap := map
          rooms := rooms
          playerLobbyMap := server.playerLobbyMap.set hostId key
          tasks := [] } := by
  obtain ⟨map, hpushed⟩ := creation_pushed server key hostId player random
  let joining : Server := { server with
    lobbyCodeMap := map
    rooms := server.rooms.set key (Room.initial hostId)
    tasks := [.setPlayerLobby hostId key] }
  obtain ⟨rooms, hfeed⟩ := joining.feed_eq key (.call 0 (.addPlayerToLobby player hostId))
  refine ⟨map, rooms, ?_, ?_⟩
  · have hsome := joining.feed_isSome key (.call 0 (.addPlayerToLobby player hostId))
    rw [hfeed, Dict.get?_set_self] at hsome
    exact hsome
  · show Server.step (Server.step (Server.step (Server.step
      { server with tasks := [.pushLobby key hostId player, .createLobbyCodeMapping key random] }
      (.perform 0 1)) (.perform 0 0)) (.perform 0 0)) (.perform 0 0) = _
    rw [hpushed]
    show Server.step (joining.feed key (.call 0 (.addPlayerToLobby player hostId)))
      (.perform 0 0) = _
    rw [hfeed]
    rfl

/-- A code that is taken or a profile the database refuses makes it reject. -/
theorem creation_rejected {random : ℕ → ℕ → Draw} (hostId : Uid) {player : PlayerInfo}
    (hrefused : generateLobbyCode (random 0) ∈ server.lobbyCodeMap.codes.keys ∨
      player.storable = false) :
    ∃ failure, some failure ∈ server.rejections
      [.pushLobby key hostId player, .createLobbyCodeMapping key random]
      [(0, 1), (0, 0), (0, 0), (0, 0)] := by
  rcases hrefused with htaken | hplayer
  · -- the code transaction, which lands first, throws
    have hshown : Server.rejection
        { server with
          tasks := [.pushLobby key hostId player, .createLobbyCodeMapping key random] } (0, 1)
        = some (.exception .referenceError) := (code_thrown key 0 htaken).1
    exact ⟨.exception .referenceError, List.mem_cons.mpr (Or.inl hshown.symm)⟩
  · -- the join of the host, which lands third, throws
    obtain ⟨map, hpushed⟩ := creation_pushed server key hostId player random
    have hjoin : (Task.call key (.addPlayerToLobby player hostId)).rejection
        { server with
          lobbyCodeMap := map
          rooms := server.rooms.set key (Room.initial hostId)
          tasks := Server.addPlayerTasks key player hostId } 0 ≠ none :=
      mt (join_rejection 0 player hostId).mp (fun hadmits => by
        have hstorable := hadmits.2
        rw [hplayer] at hstorable
        cases hstorable)
    obtain ⟨failure, hfailure⟩ := Option.ne_none_iff_exists'.mp hjoin
    have hshown : Server.rejection (Server.step (Server.step
        { server with
          tasks := [.pushLobby key hostId player, .createLobbyCodeMapping key random] }
        (.perform 0 1)) (.perform 0 0)) (0, 0) = some failure := by
      rw [hpushed]
      exact hfailure
    exact ⟨failure, List.mem_cons.mpr (Or.inr (List.mem_cons.mpr (Or.inr
      (List.mem_cons.mpr (Or.inl hshown.symm)))))⟩

/-- Any other creation rejects, and leaves the pushed lobby behind. -/
theorem create_leaves_trace {random : ℕ → ℕ → Draw} (hostId : Uid) {player : PlayerInfo}
    (hrefused : generateLobbyCode (random 0) ∈ server.lobbyCodeMap.codes.keys ∨
      player.storable = false)
    (hfresh : server.rooms.get? key = none) :
    ¬ server.SettlesCleanly
      [.pushLobby key hostId player, .createLobbyCodeMapping key random] := by
  intro hclean
  obtain ⟨map, rooms, hthere, hsettled⟩ := creation_settled server key hostId player random
  have hsame := hclean [(0, 1), (0, 0), (0, 0), (0, 0)] (by rw [hsettled])
    (creation_rejected hostId hrefused)
  rw [hsettled] at hsame
  have hlobby := hsame.lobbies key
  rw [hfresh, Option.map_none, Option.map_eq_none_iff] at hlobby
  rw [hlobby] at hthere
  cases hthere

/-- Creations fail cleanly exactly if the first code drawn is free and the database takes the
    profile. -/
theorem creates_cleanly {random : ℕ → ℕ → Draw} (hostId : Uid) (player : PlayerInfo)
    (hfresh : server.rooms.get? key = none) :
    server.SettlesCleanly [.pushLobby key hostId player, .createLobbyCodeMapping key random] ↔
      generateLobbyCode (random 0) ∉ server.lobbyCodeMap.codes.keys ∧ player.storable = true := by
  constructor
  · intro hclean
    refine ⟨fun htaken => create_leaves_trace hostId (Or.inl htaken) hfresh hclean, ?_⟩
    by_contra hplayer
    exact create_leaves_trace hostId (Or.inr (Bool.eq_false_of_not_eq_true hplayer)) hfresh hclean
  · rintro ⟨hfree, hplayer⟩ landings _ hrejected
    exact absurd hrejected ((entering_create hfree hostId hplayer).accepted landings)

end Creating

/-! ### When entries fail cleanly -/

/-- A creation draws a free code first; a join is of an open lobby, or of the one the player
    is in; and the database takes the profile, unless the lobby is the player's already.  What the
    validation or the code lookup rejects writes nothing. -/
def Server.EntersCleanly (server : Server) : Request → Prop
  | .createLobby auth data _ random => ∀ playerId player,
      getUid auth = .ok playerId → getPlayerInfo data = .ok player →
      generateLobbyCode (random 0) ∉ server.lobbyCodeMap.codes.keys ∧ player.storable = true
  | .joinLobby auth data => ∀ playerId player lobbyCode lobbyId,
      getUid auth = .ok playerId → getPlayerInfo data = .ok player →
      getLobbyCode data = .ok lobbyCode →
      findLobbyIdFromCode server.lobbyCodeMap lobbyCode = .ok lobbyId →
      server.Admits lobbyId player ∨ server.playerLobbyMap.get? playerId = some lobbyId
  | _ => True

/-- The operations of a creation. -/
theorem issue_createLobby {server : Server} {auth : Option Uid} {data : Json} {key : LobbyId}
    {random : ℕ → ℕ → Draw} {playerId : Uid} {player : PlayerInfo}
    (hauth : getUid auth = .ok playerId) (hplayer : getPlayerInfo data = .ok player) :
    server.issue (.createLobby auth data key random)
      = .ok [.pushLobby key playerId player, .createLobbyCodeMapping key random] := by
  simp only [Server.issue, hauth, hplayer, ok_bind]

/-- The operations of a join. -/
theorem issue_joinLobby {server : Server} {auth : Option Uid} {data lobbyCode : Json}
    {playerId : Uid} {player : PlayerInfo} {lobbyId : LobbyId}
    (hauth : getUid auth = .ok playerId) (hplayer : getPlayerInfo data = .ok player)
    (hcode : getLobbyCode data = .ok lobbyCode)
    (hlobby : findLobbyIdFromCode server.lobbyCodeMap lobbyCode = .ok lobbyId) :
    server.issue (.joinLobby auth data) = .ok (Server.addPlayerTasks lobbyId player playerId) := by
  simp only [Server.issue, hauth, hplayer, hcode, hlobby, ok_bind]

/-- A request that issues nothing changes nothing. -/
theorem failsCleanly_of_error {server : Server} {request : Request} {failure : Failure}
    (h : server.issue request = .error failure) : server.FailsCleanly request := by
  unfold Server.FailsCleanly
  simp only [h, Server.step]
  exact .refl server

/-- Any other fails cleanly if its operations do. -/
theorem failsCleanly_of_ok {server : Server} {request : Request} {tasks : List Task}
    (h : server.issue request = .ok tasks) :
    server.FailsCleanly request ↔ server.SettlesCleanly tasks := by
  unfold Server.FailsCleanly
  simp only [h]
  exact Iff.rfl

/-- Without assumptions on the requests, every input list is a run of the server. -/
theorem sampleServer_anyInput (inputs : List ServerInput) :
    Server.Reachable (fun _ _ => True) (sampleServer inputs) :=
  .of_run serverMachine {} inputs

/-- The data of a join with the code `AAAA`. -/
def sampleJoinData : Json := .obj [("lobbyCode", .str "AAAA"), sampleProfile]

end PasswordApp
