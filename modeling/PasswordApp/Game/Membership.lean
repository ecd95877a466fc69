import PasswordApp.Game.Seating
import PasswordApp.Game.Settling

namespace PasswordApp

/-!
# Game — the lobby a player is in

`/playerLobbyMap` has one slot a user; every create and join writes it, side by side with the
transaction that seats the player.  Entering another lobby moves the user there.

* `CallEffect.new_player` — a human is seated by a join of his own only;
* `Server.StaysIn` — the guard of runs in which nothing moves the user elsewhere;
* `Belongs` — whoever is seated, or about to be, is in the lobby or about to be;
* `seated_player_plays` — a seated player whose slot is written reaches the lobby with every
  request.
-/

/-! ### How a human is seated -/

/-- A human is seated by a join of his own. -/
theorem CallEffect.new_player {now : ℕ} {lobby lobby' : Lobby} {c : Call} {uid : Uid}
    (h : CallEffect now lobby c lobby') (huid : uid ∈ lobby'.players.keys)
    (hhuman : isBot uid = false) :
    uid ∈ lobby.players.keys ∨ ∃ player, c = .addPlayerToLobby player uid := by
  cases c with
  | addPlayerToLobby player playerId =>
    obtain ⟨_, rfl⟩ := h
    rcases Dict.mem_keys_set.mp huid with rfl | hold
    · exact Or.inr ⟨player, rfl⟩
    · exact Or.inl hold
  | addBot requesterId =>
    obtain ⟨_, _, _, rfl⟩ := h
    rcases Dict.mem_keys_set.mp huid with rfl | hold
    · rw [isBot_bot] at hhuman
      cases hhuman
    · exact Or.inl hold
  | startGame playerId gameSettings random =>
    obtain ⟨_, _, next, hdealt, rfl⟩ := h
    obtain ⟨_, _, _, _, _, _, _, _, _, _⟩ := hdealt
    exact Or.inl huid
  | submitWord playerId word =>
    obtain ⟨_, _, next, hplayed, rfl⟩ := h
    have huid : uid ∈ next.players.keys := huid
    rw [hplayed.seats.players] at huid
    exact Or.inl huid
  | requestNewWords playerId random =>
    obtain ⟨_, next, hrolled, rfl⟩ := h
    have huid : uid ∈ next.players.keys := huid
    rw [hrolled.seats.players] at huid
    exact Or.inl huid
  | voteOnWord playerId vote =>
    obtain ⟨_, _, _, k, next, _, hcast, rfl⟩ := h
    have huid : uid ∈ next.players.keys := huid
    rw [hcast.seats.players] at huid
    exact Or.inl huid

theorem RoomStep.new_player {lobbyId : LobbyId} {room room' : Room} {i : RoomInput} {uid : Uid}
    (h : RoomStep lobbyId room i room') (huid : uid ∈ room'.lobby.players.keys)
    (hhuman : isBot uid = false) :
    uid ∈ room.lobby.players.keys ∨
      ∃ now player, i = .call now (.addPlayerToLobby player uid) := by
  have htrigger : ∀ {now answer trigger lobby}, TriggerEffect now answer room.lobby trigger lobby →
      uid ∈ lobby.players.keys → uid ∈ room.lobby.players.keys := by
    intro now answer trigger lobby heffect hmem
    rw [← heffect.seats.players]
    exact hmem
  cases h with
  | rejected => exact Or.inl huid
  | called now c lobby hok heffect =>
    rcases heffect.new_player huid hhuman with hold | ⟨player, rfl⟩
    · exact Or.inl hold
    · exact Or.inr ⟨now, player, rfl⟩
  | failed => exact Or.inl huid
  | delivered now i answer trigger hpending lobby heffect => exact Or.inl (htrigger heffect huid)
  | redelivered now i answer trigger hdelivered lobby heffect =>
    exact Or.inl (htrigger heffect huid)

/-! ### Runs that keep a user where he is -/

/-- The write that makes another lobby the user's current one. -/
def Task.movesAway (uid : Uid) (lobbyId : LobbyId) : Task → Bool
  | .setPlayerLobby playerId other => playerId = uid && other ≠ lobbyId
  | _ => false

/-- The guard of runs in which no such write lands. -/
def Server.StaysIn (uid : Uid) (lobbyId : LobbyId) (server : Server) : ServerInput → Prop
  | .perform _ i => (server.tasks[i]?).all (fun task => !task.movesAway uid lobbyId) = true
  | _ => True

instance (uid : Uid) (lobbyId : LobbyId) (server : Server) :
    ∀ i, Decidable (server.StaysIn uid lobbyId i)
  | .perform _ _ => inferInstanceAs (Decidable (_ = true))
  | .request _ => inferInstanceAs (Decidable True)
  | .deliver _ _ _ _ => inferInstanceAs (Decidable True)
  | .redeliver _ _ _ _ => inferInstanceAs (Decidable True)

/-- The user is a player of the lobby, or a join of his is in flight. -/
def Server.Entered (server : Server) (uid : Uid) (lobbyId : LobbyId) : Prop :=
  (∃ room, server.rooms.get? lobbyId = some room ∧ uid ∈ room.lobby.players.keys) ∨
  ∃ player, .call lobbyId (.addPlayerToLobby player uid) ∈ server.tasks

/-- The lobby is the user's current one, or is about to be. -/
def Server.Belongs (server : Server) (uid : Uid) (lobbyId : LobbyId) : Prop :=
  .setPlayerLobby uid lobbyId ∈ server.tasks ∨ server.playerLobbyMap.get? uid = some lobbyId

/-- A join comes with the write of the player's slot. -/
theorem issue_seats {server : Server} {request : Request} {tasks : List Task} {lobbyId : LobbyId}
    {player : PlayerInfo} {uid : Uid} (h : server.issue request = .ok tasks)
    (hmem : .call lobbyId (.addPlayerToLobby player uid) ∈ tasks) :
    .setPlayerLobby uid lobbyId ∈ tasks := by
  cases Server.issue_ok h with
  | createLobby u data key random info => simp at hmem
  | joinLobby u data lobbyCode info id =>
    simp only [Server.addPlayerTasks, List.mem_cons, Task.call.injEq, Call.addPlayerToLobby.injEq,
      reduceCtorEq, List.not_mem_nil, or_false] at hmem
    obtain ⟨rfl, _, rfl⟩ := hmem
    simp [Server.addPlayerTasks]
  | call u r c id hcall =>
    -- the calls on the current lobby seat nobody
    simp only [List.mem_singleton, Task.call.injEq] at hmem
    obtain ⟨_, rfl⟩ := hmem
    cases hcall

/-! ### Steps -/

namespace Server

variable {server : Server} {uid : Uid} {lobbyId : LobbyId}

theorem Entered.of_erase {i : ℕ}
    (h : Server.Entered { server with tasks := server.tasks.eraseIdx i } uid lobbyId) :
    server.Entered uid lobbyId := by
  rcases h with hseated | ⟨player, hmem⟩
  · exact Or.inl hseated
  · exact Or.inr ⟨player, List.mem_of_mem_eraseIdx hmem⟩

/-- Any other operation leaves the write of the player's slot in flight. -/
theorem Belongs.erase (h : server.Belongs uid lobbyId) {i : ℕ} {task : Task}
    (htask : server.tasks[i]? = some task) (hne : .setPlayerLobby uid lobbyId ≠ task) :
    Server.Belongs { server with tasks := server.tasks.eraseIdx i } uid lobbyId := by
  rcases h with hmem | hhere
  · left
    obtain ⟨hi, hget⟩ := List.getElem?_eq_some_iff.mp htask
    have hperm := List.getElem_cons_eraseIdx_perm hi
    rw [hget] at hperm
    exact (List.mem_cons.mp (hperm.mem_iff.mpr hmem)).resolve_left hne
  · exact Or.inr hhere

theorem Belongs.feed (h : server.Belongs uid lobbyId) (id : LobbyId) (i : RoomInput) :
    (server.feed id i).Belongs uid lobbyId := by
  obtain ⟨rooms, heq⟩ := server.feed_eq id i
  rw [heq]
  exact h

theorem Entered.of_feed {id : LobbyId} {i : RoomInput} (hhuman : isBot uid = false)
    (h : (server.feed id i).Entered uid lobbyId) :
    server.Entered uid lobbyId ∨
      id = lobbyId ∧ ∃ now player, i = .call now (.addPlayerToLobby player uid) := by
  rcases h with ⟨room', hroom', huid⟩ | ⟨player, hmem⟩
  · unfold Server.feed at hroom'
    split at hroom'
    · exact Or.inl (Or.inl ⟨room', hroom', huid⟩)
    · rename_i room hroom
      have hroom' : (server.rooms.set id (room.step id i)).get? lobbyId = some room' := hroom'
      by_cases hid : lobbyId = id
      · subst hid
        rw [Dict.get?_set_self] at hroom'
        obtain rfl := Option.some.inj hroom'
        rcases (Room.step_cases lobbyId room i).new_player huid hhuman with hold | hjoin
        · exact Or.inl (Or.inl ⟨room, hroom, hold⟩)
        · exact Or.inr ⟨rfl, hjoin⟩
      · rw [Dict.get?_set_ne _ _ hid] at hroom'
        exact Or.inl (Or.inl ⟨room', hroom', huid⟩)
  · obtain ⟨rooms, heq⟩ := server.feed_eq id i
    rw [heq] at hmem
    exact Or.inl (Or.inr ⟨player, hmem⟩)

/-- A request seats nobody, and a join puts both of its writes in flight. -/
theorem Belongs.issued (h : server.Entered uid lobbyId → server.Belongs uid lobbyId)
    {r : Request} {tasks : List Task} {keys : List LobbyId} (hissued : server.issue r = .ok tasks)
    (hentered : Server.Entered { server with tasks := server.tasks ++ tasks, keys := keys }
      uid lobbyId) :
    Server.Belongs { server with tasks := server.tasks ++ tasks, keys := keys } uid lobbyId := by
  have hold : server.Entered uid lobbyId ∨
      ∃ player, .call lobbyId (.addPlayerToLobby player uid) ∈ tasks := by
    rcases hentered with hseated | ⟨player, hmem⟩
    · exact Or.inl (Or.inl hseated)
    · rcases List.mem_append.mp hmem with hmem | hmem
      · exact Or.inl (Or.inr ⟨player, hmem⟩)
      · exact Or.inr ⟨player, hmem⟩
  rcases hold with hold | ⟨player, hmem⟩
  · rcases h hold with hflight | hhere
    · exact Or.inl (List.mem_append_left _ hflight)
    · exact Or.inr hhere
  · exact Or.inl (List.mem_append_right _ (issue_seats hissued hmem))

/-- A pushed lobby is empty, and puts both writes of its host in flight. -/
theorem Belongs.pushed (h : server.Entered uid lobbyId → server.Belongs uid lobbyId)
    {k : ℕ} {id : LobbyId} {hostId : Uid} {player : PlayerInfo}
    (htask : server.tasks[k]? = some (.pushLobby id hostId player))
    (hentered : Server.Entered { server with
      rooms := server.rooms.set id (Room.initial hostId)
      tasks := server.tasks.eraseIdx k ++ addPlayerTasks id player hostId } uid lobbyId) :
    Server.Belongs { server with
      rooms := server.rooms.set id (Room.initial hostId)
      tasks := server.tasks.eraseIdx k ++ addPlayerTasks id player hostId } uid lobbyId := by
  have hold : server.Entered uid lobbyId ∨
      .setPlayerLobby uid lobbyId ∈ addPlayerTasks id player hostId := by
    rcases hentered with ⟨room, hroom, huid⟩ | ⟨info, hcall⟩
    · by_cases hid : lobbyId = id
      · -- nobody is in a new lobby yet
        rw [hid, Dict.get?_set_self] at hroom
        obtain rfl := Option.some.inj hroom
        cases huid
      · rw [Dict.get?_set_ne _ _ hid] at hroom
        exact Or.inl (Or.inl ⟨room, hroom, huid⟩)
    · rcases List.mem_append.mp hcall with hcall | hcall
      · exact Or.inl (Or.inr ⟨info, List.mem_of_mem_eraseIdx hcall⟩)
      · simp only [addPlayerTasks, List.mem_cons, Task.call.injEq, Call.addPlayerToLobby.injEq,
          reduceCtorEq, List.not_mem_nil, or_false] at hcall
        obtain ⟨rfl, _, rfl⟩ := hcall
        exact Or.inr (by simp [addPlayerTasks])
  rcases hold with hold | hadded
  · rcases (h hold).erase htask (by simp) with hflight | hhere
    · exact Or.inl (List.mem_append_left _ hflight)
    · exact Or.inr hhere
  · exact Or.inl (List.mem_append_right _ hadded)

/-- The slot of a user is written for the lobby only. -/
theorem Belongs.placed (h : server.Entered uid lobbyId → server.Belongs uid lobbyId)
    {k : ℕ} {playerId : Uid} {other : LobbyId}
    (htask : server.tasks[k]? = some (.setPlayerLobby playerId other))
    (hstays : Task.movesAway uid lobbyId (.setPlayerLobby playerId other) = false)
    (hentered : server.Entered uid lobbyId) :
    Server.Belongs { server with
      playerLobbyMap := server.playerLobbyMap.set playerId other
      tasks := server.tasks.eraseIdx k } uid lobbyId := by
  by_cases hplayer : playerId = uid
  · subst hplayer
    obtain rfl : other = lobbyId := by simpa [Task.movesAway] using hstays
    exact Or.inr (Dict.get?_set_self _ _ _)
  · have hne : Task.setPlayerLobby uid lobbyId ≠ .setPlayerLobby playerId other := by
      intro heq
      exact hplayer (Task.setPlayerLobby.inj heq).1.symm
    rcases (h hentered).erase htask hne with hflight | hhere
    · exact Or.inl hflight
    · right
      show (server.playerLobbyMap.set playerId other).get? uid = some lobbyId
      rw [Dict.get?_set_ne _ _ (Ne.symm hplayer)]
      exact hhere

/-- **Step lemma.** -/
theorem Belongs.step (hhuman : isBot uid = false)
    (h : server.Entered uid lobbyId → server.Belongs uid lobbyId) {i : ServerInput}
    (hstays : server.StaysIn uid lobbyId i) (hentered : (server.step i).Entered uid lobbyId) :
    (server.step i).Belongs uid lobbyId := by
  have hlands : ∀ {now k : ℕ} {task : Task}, i = .perform now k → server.tasks[k]? = some task →
      task.movesAway uid lobbyId = false := by
    rintro now k task rfl htask
    have hall : (server.tasks[k]?).all (fun task => !task.movesAway uid lobbyId) = true := hstays
    rw [htask] at hall
    simpa using hall
  have hstep := server.step_cases i
  generalize server.step i = server' at hentered hstep ⊢
  cases hstep with
  | idle => exact h hentered
  | issued r tasks keys hissued hold hkey => exact Belongs.issued h hissued hentered
  | pushed now k id hostId player htask => exact Belongs.pushed h htask hentered
  | coded now k id random lobbyCodeMap htask =>
    have hseen : Server.Entered { server with tasks := server.tasks.eraseIdx k } uid lobbyId :=
      hentered
    exact (h hseen.of_erase).erase htask (by simp)
  | placed now k playerId other htask =>
    have hseen : Server.Entered { server with tasks := server.tasks.eraseIdx k } uid lobbyId :=
      hentered
    exact Belongs.placed h htask (hlands rfl htask) hseen.of_erase
  | called now k id c htask =>
    have hold : server.Entered uid lobbyId := by
      rcases Entered.of_feed hhuman hentered with hold | ⟨rfl, now', player, heq⟩
      · exact hold.of_erase
      · obtain ⟨_, rfl⟩ := RoomInput.call.inj heq
        exact Or.inr ⟨player, List.mem_of_getElem? htask⟩
    exact ((h hold).erase htask (by simp)).feed id _
  | delivered id now k answer =>
    rcases Entered.of_feed hhuman hentered with hold | ⟨_, _, _, heq⟩
    · exact (h hold).feed id _
    · cases heq
  | redelivered id now k answer =>
    rcases Entered.of_feed hhuman hentered with hold | ⟨_, _, _, heq⟩
    · exact (h hold).feed id _
    · cases heq

end Server

/-! ### Seated players -/

/-- The lobby is the user's current one, and the requests that play the game are applied to it. -/
structure Server.PlaysIn (server : Server) (uid : Uid) (lobbyId : LobbyId) : Prop where
  current : server.playerLobbyMap.get? uid = some lobbyId
  submitWord : ∀ data word, getWord data = .ok word →
    server.issue (.submitWord (some uid) data) = .ok [.call lobbyId (.submitWord uid word)]
  voteOnWord : ∀ data vote, getVote data = .ok vote →
    server.issue (.voteOnWord (some uid) data) = .ok [.call lobbyId (.voteOnWord uid vote)]
  requestNewWords : ∀ random, server.issue (.requestNewWords (some uid) random)
    = .ok [.call lobbyId (.requestNewWords uid random)]

theorem playsIn_of_current {server : Server} {uid : Uid} {lobbyId : LobbyId} (hne : uid ≠ "")
    (hhere : server.playerLobbyMap.get? uid = some lobbyId) : server.PlaysIn uid lobbyId where
  current := hhere
  submitWord data word hword :=
    Server.lobbyCall_issues hne (by rw [hword, ok_bind]) hhere
  voteOnWord data vote hvote :=
    Server.lobbyCall_issues hne (by rw [hvote, ok_bind]) hhere
  requestNewWords random := Server.lobbyCall_issues hne rfl hhere

/-- **A seated player reaches his game.**  Take any reachable database in which the user has
    not entered the lobby yet, or is in it, and any run from there in which no write makes
    another lobby his.  Wherever he is a player of the lobby and his own slot is no longer in
    flight, the lobby is his current one and his requests are applied to it. -/
theorem seated_player_plays {G : Server → ServerInput → Prop} {start server : Server} {uid : Uid}
    {lobbyId : LobbyId} {room : Room} (hhuman : isBot uid = false)
    (hreach : Server.Reachable G start)
    (hstart : ¬ start.Entered uid lobbyId ∨ start.playerLobbyMap.get? uid = some lobbyId)
    (hrun : serverMachine.Reaches (Server.StaysIn uid lobbyId) start server)
    (hroom : server.rooms.get? lobbyId = some room) (hseated : uid ∈ room.lobby.players.keys)
    (hlanded : .setPlayerLobby uid lobbyId ∉ server.tasks) : server.PlaysIn uid lobbyId := by
  have hbelongs : server.Entered uid lobbyId → server.Belongs uid lobbyId := by
    refine Machine.Reaches.invariant
      (I := fun server => server.Entered uid lobbyId → server.Belongs uid lobbyId)
      (fun server i hI hG => Server.Belongs.step hhuman hI hG) ?_ hrun
    intro hentered
    rcases hstart with hfresh | hhere
    · exact absurd hentered hfresh
    · exact Or.inr hhere
  have hhere := (hbelongs (Or.inl ⟨room, hroom, hseated⟩)).resolve_left hlanded
  -- whoever is in a lobby has a uid
  have hall : Server.Reachable (fun _ _ => True) server := by
    refine Machine.Reaches.trans (t := start) ?_ ?_
    · exact hreach.strengthen (I := fun _ => True) (fun _ _ _ _ => trivial)
        (fun _ _ _ _ => trivial) trivial
    · exact hrun.strengthen (I := fun _ => True) (fun _ _ _ _ => trivial)
        (fun _ _ _ _ => trivial) trivial
  exact playsIn_of_current (Server.uid_ne_of_reachable hall hhere) hhere

theorem not_entered_empty (uid : Uid) (lobbyId : LobbyId) :
    ¬ Server.Entered {} uid lobbyId := by
  rintro (⟨room, hroom, _⟩ | ⟨player, hmem⟩)
  · cases hroom
  · cases hmem

theorem seated_player_plays_sample :
    (sampleServer (sampleServerStart ["ben"])).PlaysIn "ben" "L" := by
  have hplayers : ((sampleServer (sampleServerStart ["ben"])).rooms.get? "L").map
      (fun room => room.lobby.players.keys) = some ["ann", "ben"] := by decide +kernel
  obtain ⟨room, hroom, hkeys⟩ := Option.map_eq_some_iff.mp hplayers
  have hlanded : (sampleServer (sampleServerStart ["ben"])).tasks.length = 0 := by decide +kernel
  refine seated_player_plays (by decide) (sampleServer_anyInput [])
    (Or.inl (not_entered_empty "ben" "L")) ⟨sampleServerStart ["ben"], by decide +kernel, rfl⟩ hroom
    (by rw [hkeys]; decide) ?_
  rw [List.eq_nil_of_length_eq_zero hlanded]
  exact List.not_mem_nil

/-- A draw from the middle. -/
def middleDraw : Draw := ⟨1 / 2, by norm_num, by norm_num⟩

/-- `ben` plays in the lobby of `ann`; `eve` creates another one and `ben` joins it. -/
def sampleMove : List ServerInput :=
  sampleServerStart ["ben"] ++
  [.request (.createLobby (some "eve") (.obj [sampleProfile]) "M" (fun _ _ => middleDraw)),
   .perform 8 0, .perform 9 0, .perform 10 0, .perform 11 0,
   .request (.joinLobby (some "ben") (.obj [("lobbyCode", .str "NNNN"), sampleProfile])),
   .perform 12 0, .perform 13 0]

/-- Whoever joins another lobby has left the game that runs, though he is on its roster. -/
theorem player_moves_away :
    ¬ ∀ (server : Server), Server.Reachable (fun _ _ => True) server →
      ∀ lobbyId room uid, server.rooms.get? lobbyId = some room →
        room.lobby.status = .submission ∨ room.lobby.status = .voting →
        uid ∈ room.lobby.players.keys → isBot uid = false →
        server.playerLobbyMap.get? uid = some lobbyId := by
  intro hstays
  have hshown : ((sampleServer sampleMove).rooms.get? "L").map
      (fun room => (room.lobby.status, room.lobby.players.keys))
      = some (.submission, ["ann", "ben"]) := by decide +kernel
  obtain ⟨room, hroom, hshown⟩ := Option.map_eq_some_iff.mp hshown
  obtain ⟨hstatus, hkeys⟩ := Prod.mk.inj hshown
  have hmoved : (sampleServer sampleMove).playerLobbyMap.get? "ben" = some "M" := by
    decide +kernel
  have hstayed := hstays _ (sampleServer_anyInput sampleMove) "L" room "ben" hroom (Or.inl hstatus)
    (by rw [hkeys]; decide) (by decide)
  rw [hmoved] at hstayed
  revert hstayed
  decide

end PasswordApp
