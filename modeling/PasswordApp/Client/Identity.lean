import PasswordApp.Client.Users

namespace PasswordApp

/-!
# Client — which user am I?

The lobby is keyed by uid, but the game screen looks its own uid up by the profile: the first user
of the list with the same name and icon.  It then observes the words of that uid.

* `retrieveUserID` / `wordBankPath` — the game screen;
* `IdentifiesItself` — whatever the order of the list, a player's device finds its own uid;
* `identifiesItself_iff` — exactly if every player is a user and none of the others looks the same;
* `retrieves_own_uid_iff` — and so in every lobby that players enter with profiles of their own.
-/

/-! ### The lookup -/

/-- The condition of the loop.  Two strings are the same if their canonical forms are. -/
def sameProfile (canonical : String → String) (u user : User) : Bool :=
  canonical u.displayName == canonical user.displayName &&
    u.emojiNumber == user.emojiNumber && u.colorNumber == user.colorNumber

/-- `retrieveUserID(users:user:)`. -/
def retrieveUserID (canonical : String → String) (users : List User) (user : User) : String :=
  match users.find? (fun u => sameProfile canonical u user) with
  | some u => u.userID
  | none => ""

/-- The path both observers of the word bank are attached to. -/
def wordBankPath (lobbyId : LobbyId) (userID : String) : String :=
  "/lobbies/" ++ lobbyId ++ "/private/" ++ userID

theorem wordBankPath_inj {lobbyId : LobbyId} {uid uid' : String} :
    wordBankPath lobbyId uid = wordBankPath lobbyId uid' ↔ uid = uid' :=
  String.append_right_inj _

variable {canonical : String → String} {lobbyId : LobbyId} {players : Dict Uid Player} {p : Uid}
  {player : Player}

theorem sameProfile_self (u : User) : sameProfile canonical u u = true := by
  simp [sameProfile]

/-- The uid found is that of a user in the list with the same profile. -/
theorem retrieveUserID_of_mem (canonical : String → String) {users : List User} {user : User}
    (h : user ∈ users) :
    ∃ u ∈ users, sameProfile canonical u user = true ∧
      retrieveUserID canonical users user = u.userID := by
  cases hfind : users.find? (fun u => sameProfile canonical u user) with
  | none =>
    have hnone := List.find?_eq_none.mp hfind user h
    exact absurd (sameProfile_self user) hnone
  | some u =>
    have hsame := List.find?_some (p := fun u => sameProfile canonical u user) hfind
    exact ⟨u, List.mem_of_find?_eq_some hfind, hsame, by rw [retrieveUserID, hfind]⟩

theorem retrieveUserID_cons {users : List User} {u user : User}
    (h : sameProfile canonical u user = true) :
    retrieveUserID canonical (u :: users) user = u.userID := by
  have hfind : (u :: users).find? (fun u => sameProfile canonical u user) = some u := by
    rw [List.find?_cons, h]
  rw [retrieveUserID, hfind]

/-! ### Identification -/

/-- However the players are listed, the device of `p` finds its uid, and observes its word bank
    and no one else's. -/
def IdentifiesItself (canonical : String → String) (lobbyId : LobbyId)
    (players : Dict Uid Player) (p : Uid) (player : Player) : Prop :=
  ∀ order : List (Uid × Player), order.Perm players.entries →
    ∃ users own, usersAdded order = some users ∧ player.user p = some own ∧
      retrieveUserID canonical users own = p ∧
      ∀ uid, wordBankPath lobbyId (retrieveUserID canonical users own) = wordBankPath lobbyId uid ↔
        uid = p

/-- Every player is a user, that is, the casts of the app succeed. -/
def AllUsers (players : Dict Uid Player) : Prop :=
  ∀ uid other, players.get? uid = some other → ∃ user, other.user uid = some user

/-- No other player looks like `p`. -/
def LooksUnlikeOthers (canonical : String → String) (players : Dict Uid Player) (p : Uid)
    (player : Player) : Prop :=
  ∀ uid other user own, uid ≠ p → players.get? uid = some other → other.user uid = some user →
    player.user p = some own → sameProfile canonical user own = false

theorem AllUsers.usersAdded (h : AllUsers players) {order : List (Uid × Player)}
    (hmem : ∀ e ∈ order, players.get? e.1 = some e.2) :
    ∃ users, usersAdded order = some users := by
  suffices hall : ∃ users, List.Forall₂ (fun e user => e.2.user e.1 = some user) order users by
    obtain ⟨users, husers⟩ := hall
    exact ⟨users, usersAdded_eq_some.mpr husers⟩
  induction order with
  | nil => exact ⟨[], .nil⟩
  | cons e order ih =>
    obtain ⟨user, huser⟩ := h e.1 e.2 (hmem e List.mem_cons_self)
    obtain ⟨users, husers⟩ := ih (fun e he => hmem e (List.mem_cons_of_mem _ he))
    exact ⟨user :: users, .cons huser husers⟩

/-- Every player of a list of users is one. -/
theorem user_of_usersAdded {order : List (Uid × Player)} {users : List User}
    (h : PasswordApp.usersAdded order = some users) {e : Uid × Player} (he : e ∈ order) :
    ∃ user, e.2.user e.1 = some user := by
  have hall := usersAdded_eq_some.mp h
  clear h
  induction hall with
  | nil => cases he
  | cons hhead _ ih =>
    rcases List.mem_cons.mp he with rfl | hrest
    · exact ⟨_, hhead⟩
    · exact ih hrest

/-- The users of a list of players, one by one. -/
theorem mem_usersAdded {order : List (Uid × Player)} {users : List User}
    (h : usersAdded order = some users) {user : User} :
    user ∈ users ↔ ∃ e ∈ order, e.2.user e.1 = some user := by
  have hall := usersAdded_eq_some.mp h
  clear h
  induction hall with
  | nil => simp
  | cons hhead _ ih => simp [ih, hhead, eq_comm]

/-- **A device finds its own uid** exactly if every player is a user and no other one looks like
    its own. -/
theorem identifiesItself_iff (hp : players.get? p = some player) :
    IdentifiesItself canonical lobbyId players p player ↔
      AllUsers players ∧ LooksUnlikeOthers canonical players p player := by
  constructor
  · intro hid
    refine ⟨?_, ?_⟩
    · intro uid other hget
      obtain ⟨users, own, hadded, _⟩ := hid players.entries (List.Perm.refl _)
      exact user_of_usersAdded hadded (Dict.get?_eq_some_iff.mp hget)
    · intro uid other user own hne hget huser hown
      by_contra hsame
      -- list the look-alike first
      obtain ⟨before, after, hentries⟩ := List.append_of_mem (Dict.get?_eq_some_iff.mp hget)
      have hperm : ((uid, other) :: (before ++ after)).Perm players.entries := by
        rw [hentries]
        exact List.perm_middle.symm
      obtain ⟨users, own', hadded, hown', hfound, _⟩ := hid _ hperm
      obtain ⟨rfl⟩ : own' = own := Option.some.inj (hown'.symm.trans hown)
      cases usersAdded_eq_some.mp hadded with
      | cons hhead hrest =>
        obtain rfl := Option.some.inj (huser.symm.trans hhead)
        rw [retrieveUserID_cons (by simpa using hsame)] at hfound
        rw [Player.user_userID huser] at hfound
        exact hne hfound
  · rintro ⟨hall, hunlike⟩ order hperm
    have hmem : ∀ e ∈ order, players.get? e.1 = some e.2 := fun e he =>
      Dict.get?_eq_some_iff.mpr (hperm.mem_iff.mp he)
    obtain ⟨users, hadded⟩ := hall.usersAdded hmem
    obtain ⟨own, hown⟩ := hall p player hp
    have hin : own ∈ users := (mem_usersAdded hadded).mpr
      ⟨(p, player), hperm.mem_iff.mpr (Dict.get?_eq_some_iff.mp hp), hown⟩
    obtain ⟨u, hu, hsame, hfound⟩ := retrieveUserID_of_mem canonical hin
    obtain ⟨e, he, huser⟩ := (mem_usersAdded hadded).mp hu
    have hself : e.1 = p := by
      by_contra hne
      rw [hunlike e.1 e.2 u own hne (hmem e he) huser hown] at hsame
      cases hsame
    have hretrieved : retrieveUserID canonical users own = p := by
      rw [hfound, Player.user_userID huser, hself]
    refine ⟨users, own, hadded, hown, hretrieved, fun uid => ?_⟩
    rw [hretrieved, wordBankPath_inj, eq_comm]

/-! ### Entering with a profile of one's own -/

/-- The player is a user, and no other player looks the same. -/
def Apart (canonical : String → String) (players : Dict Uid Player) (uid : Uid) (player : Player) :
    Prop :=
  ∃ user, player.user uid = some user ∧ ∀ uid' other other', uid' ≠ uid →
    players.get? uid' = some other → other.user uid' = some other' →
    sameProfile canonical other' user = false

/-- Joins and new bots whose profile is one of its own. -/
def EntersApart (canonical : String → String) (room : Room) : RoomInput → Prop
  | .call _ c => ∃ e, room.lobby.entry c = some e ∧ Apart canonical room.lobby.players e.1 e.2
  | _ => False

theorem sameProfile_comm (u user : User) :
    sameProfile canonical u user = sameProfile canonical user u := by
  simp only [sameProfile, BEq.comm (a := u.emojiNumber), BEq.comm (a := u.colorNumber),
    BEq.comm (a := canonical u.displayName)]

/-- Every player is apart from the others. -/
def AllApart (canonical : String → String) (players : Dict Uid Player) : Prop :=
  ∀ uid player, players.get? uid = some player → Apart canonical players uid player

theorem AllApart.set (h : AllApart canonical players) (hapart : Apart canonical players p player) :
    AllApart canonical (players.set p player) := by
  obtain ⟨own, hown, hothers⟩ := hapart
  intro uid other hget
  by_cases hup : uid = p
  · subst hup
    rw [Dict.get?_set_self] at hget
    obtain rfl := Option.some.inj hget
    refine ⟨own, hown, fun uid' other other' hne hget' huser => ?_⟩
    rw [Dict.get?_set_ne _ _ hne] at hget'
    exact hothers uid' other other' hne hget' huser
  · rw [Dict.get?_set_ne _ _ hup] at hget
    obtain ⟨user, huser, hrest⟩ := h uid other hget
    refine ⟨user, huser, fun uid' third third' hne hget' huser' => ?_⟩
    by_cases hup' : uid' = p
    · subst hup'
      rw [Dict.get?_set_self] at hget'
      obtain rfl := Option.some.inj hget'
      obtain rfl := Option.some.inj (hown.symm.trans huser')
      rw [sameProfile_comm]
      exact hothers uid other user hup hget huser
    · rw [Dict.get?_set_ne _ _ hup'] at hget'
      exact hrest uid' third third' hne hget' huser'

theorem AllApart.identifiesItself (h : AllApart canonical players)
    (hp : players.get? p = some player) :
    IdentifiesItself canonical lobbyId players p player := by
  refine (identifiesItself_iff hp).mpr ⟨?_, ?_⟩
  · intro uid other hget
    obtain ⟨user, huser, _⟩ := h uid other hget
    exact ⟨user, huser⟩
  · intro uid other user own hne hget huser hown
    obtain ⟨own', hown', hothers⟩ := h p player hp
    obtain rfl := Option.some.inj (hown.symm.trans hown')
    exact hothers uid other user hne hget huser

/-- Players who enter apart stay apart. -/
theorem allApart_of_reachable {room : Room}
    (h : Room.Reachable lobbyId (EntersApart canonical) room) :
    AllApart canonical room.lobby.players := by
  refine h.invariant (I := fun room => AllApart canonical room.lobby.players) ?_ ?_
  · intro hostId uid player hget
    cases hget
  · intro room i hapart hG
    have hstep := Room.step_cases lobbyId room i
    generalize room.step lobbyId i = room' at hstep
    cases hstep with
    | rejected => exact hapart
    | called now c lobby hok heffect =>
      obtain ⟨e, hentry, he⟩ := hG
      show AllApart canonical lobby.players
      rw [players_entered heffect hentry]
      exact hapart.set he
    | failed => exact hapart
    | delivered => exact absurd hG id
    | redelivered => exact absurd hG id

/-- **Clients identify themselves** exactly if they look unlike the others: in any lobby, a
    player's device finds its own uid, in every order of the list, if and only if the app can
    read every player and no other player has the same name and icon.  In a lobby that was
    entered by such players only, every device does. -/
theorem retrieves_own_uid_iff (canonical : String → String) (lobbyId : LobbyId) :
    (∀ (lobby : Lobby) (p : Uid) (player : Player), lobby.players.get? p = some player →
      (IdentifiesItself canonical lobbyId lobby.players p player ↔
        AllUsers lobby.players ∧ LooksUnlikeOthers canonical lobby.players p player)) ∧
    ∀ room, Room.Reachable lobbyId (EntersApart canonical) room →
      ∀ p player, room.lobby.players.get? p = some player →
        IdentifiesItself canonical lobbyId room.lobby.players p player := by
  refine ⟨fun lobby p player hp => identifiesItself_iff hp, fun room hroom p player hp => ?_⟩
  exact (allApart_of_reachable hroom).identifiesItself hp

/-- The profile of a guest, and what the app sends of it. -/
def sampleGuest : PlayerInfo := ⟨some (.str "Anonymous"), some (.num 0), some (.num 1), true⟩

def sampleGuestData : Json :=
  .obj [("player", .obj [("displayName", .str "Anonymous"), ("colorNumber", .num 0),
    ("emojiNumber", .num 1)])]

/-- A bot in the lobby of a guest. -/
def sampleGuestAndBot : List RoomInput :=
  [.call 1 (.addPlayerToLobby sampleGuest "ann"), .call 2 (.addBot "ann")]

theorem retrieves_own_uid_guest_and_bot :
    IdentifiesItself id "L"
      ((roomMachine "L").run (Room.initial "ann") sampleGuestAndBot).lobby.players
      "ann" sampleGuest.seat := by
  have hann : Apart id (∅ : Dict Uid Player) "ann" sampleGuest.seat :=
    ⟨⟨"Anonymous", 0, 1, 0, "ann"⟩, by decide +kernel, by rintro uid' other other' _ ⟨⟩⟩
  have hbot : Apart id (Dict.set (∅ : Dict Uid Player) "ann" sampleGuest.seat) "bot1"
      (botPlayer 0) := by
    refine ⟨⟨"Bot 1", 0, 0, 0, "bot1"⟩, by decide +kernel, ?_⟩
    intro uid' other other' _ hget huser
    rw [Dict.get?_set] at hget
    split at hget
    · obtain rfl := Option.some.inj hget
      rw [Player.user_eq] at huser
      obtain rfl := Option.some.inj huser
      simp [sameProfile]
    · cases hget
  refine (retrieves_own_uid_iff id "L").2 _ ⟨"ann", sampleGuestAndBot, ⟨?_, ?_, trivial⟩, rfl⟩ "ann"
    sampleGuest.seat rfl
  · exact ⟨_, rfl, hann⟩
  · exact ⟨_, rfl, hbot⟩

/-- Two guests with the same icon. -/
def sampleGuests : List RoomInput :=
  [.call 1 (.addPlayerToLobby sampleGuest "ann"), .call 2 (.addPlayerToLobby sampleGuest "ben")]

/-- The second guest's device takes itself for the first one. -/
theorem guest_taken_for_host :
    ¬ ∀ (lobbyId : LobbyId) (room : Room), Room.Reachable lobbyId JoinsAndBots room →
      ∀ p player, isBot p = false → room.lobby.players.get? p = some player →
        IdentifiesItself id lobbyId room.lobby.players p player := by
  intro hall
  have hid := hall "L" ((roomMachine "L").run (Room.initial "ann") sampleGuests)
    ⟨"ann", sampleGuests, ⟨⟨sampleGuestData, rfl⟩, ⟨sampleGuestData, rfl⟩, trivial⟩, rfl⟩
    "ben" sampleGuest.seat (by decide) rfl
  obtain ⟨users, own, hadded, hown, hfound, _⟩ := hid _ (List.Perm.refl _)
  have husers : usersAdded
      ((roomMachine "L").run (Room.initial "ann") sampleGuests).lobby.players.entries
      = some [⟨"Anonymous", 0, 1, 0, "ann"⟩, ⟨"Anonymous", 0, 1, 0, "ben"⟩] := by decide +kernel
  have hben : sampleGuest.seat.user "ben" = some ⟨"Anonymous", 0, 1, 0, "ben"⟩ := by decide +kernel
  obtain rfl := Option.some.inj (husers.symm.trans hadded)
  obtain rfl := Option.some.inj (hben.symm.trans hown)
  exact absurd hfound (by decide)

end PasswordApp
