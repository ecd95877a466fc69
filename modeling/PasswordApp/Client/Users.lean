import PasswordApp.Game.Moves

namespace PasswordApp

/-!
# Client — users (`User.swift`)

The screens are told of a child of the database by its key and its value, a dictionary.  A cast
`as!` that fails stops the app, as `none` does here.

* `Json.asString` / `Json.asInt` / `Json.asBool` — the conditional casts of a value;
* `User.init` — the user of a player's dictionary;
* `usersAdded` — the list the lobby screen keeps;
* `usersAdded_eq_some` — it has one user for each player, in the order of the events;
* `Lobby.entry` — the player a join or a new bot writes.
-/

/-! ### Casts -/

namespace Json

/-- `value as? String`. -/
def asString : Json → Option String
  | .str s => some s
  | _ => none

/-- `Int.max`, of 64 bits. -/
def intMax : ℤ := 9223372036854775807

/-- `value as? Int`: a number that is exactly an `Int`; booleans count as numbers. -/
def asInt : Json → Option ℤ
  | .num q => if q.den = 1 ∧ -intMax - 1 ≤ q.num ∧ q.num ≤ intMax then some q.num else none
  | .bool b => some (if b then 1 else 0)
  | _ => none

/-- `value as? Bool`: the numbers `0` and `1` count as booleans. -/
def asBool : Json → Option Bool
  | .bool b => some b
  | .num q => if q = 0 then some false else if q = 1 then some true else none
  | _ => none

theorem asInt_intCast {i : ℤ} (hmin : -intMax - 1 ≤ i) (hmax : i ≤ intMax) :
    asInt (.num i) = some i := by
  rw [asInt, if_pos]
  · simp
  · exact ⟨rfl, hmin, hmax⟩

/-- An integer is read as itself, if at all. -/
theorem eq_of_asInt {i j : ℤ} (h : asInt (.num i) = some j) : j = i := by
  rw [asInt] at h
  split at h
  · obtain rfl := Option.some.inj h
    exact Rat.num_intCast i
  · cases h

theorem asInt_natCast {n : ℕ} (h : (n : ℤ) ≤ intMax) : asInt (.num n) = some (n : ℤ) := by
  have hmin : -intMax - 1 ≤ (n : ℤ) := by
    rw [intMax]
    omega
  exact asInt_intCast hmin h

end Json

/-! ### Users -/

/-- A user of the lobby, as the app knows it. -/
structure User where
  displayName : String
  colorNumber : ℤ
  emojiNumber : ℤ
  score : ℤ
  userID : String
  deriving DecidableEq

/-- `User(dictionary:userID:)`. -/
def User.init (dictionary : List (String × Json)) (userID : String) : Option User := do
  let displayName ← (assocGet "displayName" dictionary).bind Json.asString
  let colorNumber ← (assocGet "colorNumber" dictionary).bind Json.asInt
  let emojiNumber ← (assocGet "emojiNumber" dictionary).bind Json.asInt
  let score ← (assocGet "score" dictionary).bind Json.asInt
  some ⟨displayName, colorNumber, emojiNumber, score, userID⟩

/-- `users.getUserFromID(id:)`. -/
def getUserFromID (users : List User) (id : String) : Option User :=
  users.find? (fun user => user.userID = id)

/-- The fields of a dictionary that are there. -/
def presentFields (fields : List (String × Option Json)) : List (String × Json) :=
  fields.filterMap (fun field => field.2.map (fun value => (field.1, value)))

theorem assocGet_presentFields {fields : List (String × Option Json)}
    (hkeys : (fields.map Prod.fst).Nodup) (key : String) :
    assocGet key (presentFields fields) = (assocGet key fields).bind id := by
  induction fields with
  | nil => rfl
  | cons field fields ih =>
    obtain ⟨name, value⟩ := field
    rw [List.map_cons, List.nodup_cons] at hkeys
    have hrest := ih hkeys.2
    cases value with
    | some v =>
      show (if name = key then some v else assocGet key (presentFields fields)) = _
      by_cases hname : name = key
      · simp [assocGet, hname]
      · simp [assocGet, hname, hrest]
    | none =>
      show assocGet key (presentFields fields) = _
      by_cases hname : name = key
      · -- no later field has that name
        have hnone : assocGet key fields = none := by
          rw [assocGet_eq_none_iff, ← hname]
          exact hkeys.1
        rw [hrest, hnone]
        simp [assocGet, hname]
      · rw [hrest]
        simp [assocGet, hname]

/-- The value at `public/players/$uid`. -/
def Player.snapshot (player : Player) : List (String × Json) :=
  presentFields [("displayName", player.displayName), ("colorNumber", player.colorNumber),
    ("emojiNumber", player.emojiNumber), ("score", some (.num player.score))]

/-- The user of a player. -/
def Player.user (player : Player) (uid : Uid) : Option User := User.init player.snapshot uid

/-- The lobby screen's observer of added players. -/
def userAdded (users : List User) (e : Uid × Player) : Option (List User) := do
  let newUser ← e.2.user e.1
  some (users ++ [newUser])

/-- `LOCAL.users` after the players were added in this order. -/
def usersAdded (players : List (Uid × Player)) : Option (List User) :=
  players.foldlM userAdded []

theorem Player.user_eq (player : Player) (uid : Uid) : player.user uid = (do
    let displayName ← player.displayName.bind Json.asString
    let colorNumber ← player.colorNumber.bind Json.asInt
    let emojiNumber ← player.emojiNumber.bind Json.asInt
    let score ← Json.asInt (.num player.score)
    some ⟨displayName, colorNumber, emojiNumber, score, uid⟩) := by
  simp (disch := simp) only [Player.user, User.init, Player.snapshot, assocGet_presentFields]
  rfl

theorem Player.user_userID {player : Player} {uid : Uid} {user : User}
    (h : player.user uid = some user) : user.userID = uid := by
  rw [Player.user_eq] at h
  simp only [Option.bind_eq_bind, Option.bind_eq_some_iff, Option.some.injEq] at h
  obtain ⟨_, _, _, _, _, _, _, _, rfl⟩ := h
  rfl

/-- **The list of the lobby screen** has one user for each player, in the order of the events;
    there is none if some player is no user. -/
theorem usersAdded_eq_some {players : List (Uid × Player)} {users : List User} :
    usersAdded players = some users ↔
      List.Forall₂ (fun e user => e.2.user e.1 = some user) players users := by
  suffices hfold : ∀ before : List User, players.foldlM userAdded before = some users ↔
      ∃ added, users = before ++ added ∧
        List.Forall₂ (fun e user => e.2.user e.1 = some user) players added by
    rw [usersAdded, hfold []]
    simp
  induction players with
  | nil =>
    intro before
    simp only [List.foldlM_nil, List.forall₂_nil_left_iff, Option.pure_def, Option.some.injEq]
    constructor
    · rintro rfl
      exact ⟨[], (List.append_nil _).symm, rfl⟩
    · rintro ⟨added, rfl, rfl⟩
      exact (List.append_nil _).symm
  | cons e players ih =>
    intro before
    rw [List.foldlM_cons]
    cases huser : e.2.user e.1 with
    | none =>
      simp only [userAdded, huser, List.forall₂_cons_left_iff]
      simp
    | some user =>
      simp only [userAdded, huser, Option.bind_eq_bind, Option.bind_some, ih,
        List.forall₂_cons_left_iff, Option.some.injEq, List.append_assoc]
      constructor
      · rintro ⟨added, rfl, hadded⟩
        exact ⟨user :: added, rfl, user, added, rfl, hadded, rfl⟩
      · rintro ⟨_, rfl, user', added, rfl, hadded, rfl⟩
        exact ⟨added, rfl, hadded⟩

/-! ### Entering a lobby -/

/-- The player a call writes, and its key. -/
def Lobby.entry (lobby : Lobby) : Call → Option (Uid × Player)
  | .addPlayerToLobby player playerId => some (playerId, player.seat)
  | .addBot _ =>
    some ("bot" ++ toString (numExistingBots lobby + 1), botPlayer (numExistingBots lobby))
  | _ => none

/-- A join or a new bot writes its entry and no other. -/
theorem players_entered {now : ℕ} {lobby next : Lobby} {c : Call} {e : Uid × Player}
    (heffect : CallEffect now lobby c next) (hentry : lobby.entry c = some e) :
    next.players = lobby.players.set e.1 e.2 := by
  cases c with
  | addPlayerToLobby player playerId =>
    obtain ⟨_, rfl⟩ := heffect
    obtain rfl := Option.some.inj hentry
    rfl
  | addBot requesterId =>
    obtain ⟨_, _, _, rfl⟩ := heffect
    obtain rfl := Option.some.inj hentry
    rfl
  | startGame playerId gameSettings random => cases hentry
  | submitWord playerId word => cases hentry
  | requestNewWords playerId random => cases hentry
  | voteOnWord playerId vote => cases hentry

/-- Only joins with an accepted profile and new bots. -/
def JoinsAndBots (_ : Room) : RoomInput → Prop
  | .call _ (.addPlayerToLobby player _) => ∃ data, getPlayerInfo data = .ok player
  | .call _ (.addBot _) => True
  | _ => False

end PasswordApp
