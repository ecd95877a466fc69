import PasswordApp.Client.Children
import PasswordApp.Client.Icons
import PasswordApp.Client.Identity
import PasswordApp.Game.History
import PasswordApp.Game.Seating
import PasswordApp.Library.Follower

namespace PasswordApp

/-!
# Client — a session of the app (`LobbyVC.swift`, `GameScreenVC.swift`)

A device is told of the lobby's versions in their order, later, and not of all of them.  The lobby
screen lists the players that are added until the status says `SUBMISSION`.  Then its observers
are removed, and some time later the game screen attaches its own: to the word bank, the turns,
the scores, the vote counter and the status.

* `App` — what the screens show, and the observers of each;
* `session` — an app that follows a room;
* `App.Tracks` — what the list of users has to do with the lobby's players.

A session is what the observers do.  The drawing of cells is no part of it: `setUserIcon` looks up
a color and an emoji by number and can stop the app on its own, which `Icons` is about.
-/

/-! ### The app -/

inductive Screen where
  | newGame
  | lobby
  /-- The segue to the game screen is under way, and nothing is observed. -/
  | segueStartGame
  | game
  deriving DecidableEq

/-- The device: the order it is told of children in, string comparison, and its user. -/
structure Device where
  arrange : Children → Children
  arrange_perm : ∀ children, (arrange children).Perm children
  canonical : String → String
  /-- `LOCAL.user`, as it joined. -/
  user : User

/-- The words of the device's user, and the titles of the word buttons. -/
structure WordBank where
  /-- `LOCAL.user.targetWords`. -/
  targetWords : List String := []
  wordButtons : List String := []

/-- `LOCAL.hasVoted` and `LOCAL.gameDone`. -/
structure Flags where
  hasVoted : Bool := false
  gameDone : Bool := false

structure App where
  screen : Screen := .newGame
  /-- `LOCAL.users`. -/
  users : List User := []
  /-- `LOCAL.user.userID`. -/
  userID : String := ""
  bank : WordBank := {}
  flags : Flags := {}
  startingWord : String := "password"
  words : List Word := []
  numberOfVotes : ℤ := 0

namespace Json

/-- `value as? [String: Any]`. -/
def asDictionary : Json → Option (List (String × Json))
  | .obj fields => some fields
  | _ => none

/-- `value as? [String]`. -/
def asStrings : Json → Option (List String)
  | .arr elems => elems.mapM asString
  | _ => none

end Json

/-- `retrieveUserIndex(users:userID:)`. -/
def retrieveUserIndex (users : List User) (userID : String) : ℕ :=
  (users.findIdx? (fun u => u.userID = userID)).getD 0

/-! ### The observers of the lobby screen -/

/-- A player is added. -/
def playerAdded (users : List User) (e : String × Json) : Option (List User) :=
  match e.2.asDictionary with
  | some userDetails => do
    let newUser ← User.init userDetails e.1
    some (users ++ [newUser])
  | none => some users

/-- The status changes, or another child of `public` does. -/
def gameStatus (screen : Screen) (e : String × Json) : Screen :=
  match e.2.asString with
  | some snap => if snap = "SUBMISSION" then .segueStartGame else screen
  | none => screen

/-! ### The observers of the game screen -/

/-- `setWordBankText()`; a bank of less than six words stops the app. -/
def setWordBankText (targetWords : List String) : Option WordBank :=
  if targetWords.length < 6 then none else some ⟨targetWords, targetWords.take 6⟩

/-- The word bank is added, or changes. -/
def wordBankSet (bank : WordBank) (e : String × Json) : Option WordBank :=
  match e.2.asStrings with
  | some wordBank => setWordBankText wordBank
  | none => some bank

/-- A player changes. -/
def scoreChanged (users : List User) (e : String × Json) : Option (List User) :=
  match e.2.asDictionary with
  | some updatedUser => do
    let index := retrieveUserIndex users e.1
    let score ← (assocGet "score" updatedUser).bind Json.asInt
    let user ← users[index]?
    some (users.set index { user with score := score })
  | none => some users

/-- A child of `public` changes: any other one resets the number of votes. -/
def votesChanged (users : List User) (_ : ℤ) (e : String × Json) : Option ℤ :=
  if e.1 = "votesTallied" then do
    let numberOfVotes ← e.2.asInt
    some (if numberOfVotes = (users.length : ℤ) - 1 then 0 else numberOfVotes)
  else some 0

/-- The other observer of `public`. -/
def statusChanged (flags : Flags) (e : String × Json) : Flags :=
  match e.2.asString with
  | some snap =>
    let flags := if snap = "SUBMISSION" then { flags with hasVoted := false } else flags
    if snap = "DONE" then { flags with gameDone := true } else flags
  | none => flags

namespace App

/-! ### What the screens make of a version -/

def hearLobby (device : Device) (app : App) (old new : Lobby) : Option App := do
  let users ← (device.arrange (childrenAdded old.playerChildren new.playerChildren)).foldlM
    playerAdded app.users
  let changes := device.arrange (childrenChanged old.publicChildren new.publicChildren)
  some { app with users := users, screen := changes.foldl gameStatus app.screen }

def hearGame (device : Device) (app : App) (old new : Lobby) : Option App := do
  let words := old.privateChildren app.userID
  let newWords := new.privateChildren app.userID
  let bank ← (device.arrange (childrenAdded words newWords)).foldlM wordBankSet app.bank
  let bank ← (device.arrange (childrenChanged words newWords)).foldlM wordBankSet bank
  let users ← (device.arrange (childrenChanged old.playerChildren new.playerChildren)).foldlM
    scoreChanged app.users
  let words ← (device.arrange (childrenAdded old.turnChildren new.turnChildren)).foldlM
    (fun words e => turnAdded users words e.2) app.words
  let words ← (device.arrange (childrenChanged old.turnChildren new.turnChildren)).foldlM
    (fun words e => turnChanged users words e.2) words
  let changes := device.arrange (childrenChanged old.publicChildren new.publicChildren)
  let numberOfVotes ← changes.foldlM (votesChanged users) app.numberOfVotes
  some { app with
    users := users
    bank := bank
    words := words
    numberOfVotes := numberOfVotes
    flags := changes.foldl statusChanged app.flags }

/-- A new version of the lobby. -/
def hear (device : Device) (app : App) (old new : Lobby) : Option App :=
  match app.screen with
  | .newGame => some app
  | .lobby => hearLobby device app old new
  | .segueStartGame => some app
  | .game => hearGame device app old new

/-- `viewDidLoad()` of the lobby screen: the observer is told of the players there are. -/
def loadLobby (device : Device) (app : App) (lobby : Lobby) : Option App := do
  let users ← (device.arrange lobby.playerChildren).foldlM playerAdded app.users
  some { app with screen := .lobby, users := users }

/-- `viewDidLoad()` of the game screen. -/
def loadGame (device : Device) (app : App) (lobby : Lobby) : Option App := do
  let id := retrieveUserID device.canonical app.users device.user
  let bank ← (device.arrange (lobby.privateChildren id)).foldlM wordBankSet app.bank
  let words ← (device.arrange lobby.turnChildren).foldlM
    (fun words e => turnAdded app.users words e.2) app.words
  let startWord ← lobby.startWord
  some { app with
    screen := .game
    userID := id
    bank := bank
    words := words
    startingWord := startWord }

end App

/-- What happens on a device besides the versions it is told of. -/
inductive AppAction where
  | loadLobby
  | loadGame
  /-- A tap on one of the voting buttons. -/
  | vote
  /-- The child `chat` of `public` has changed. -/
  | chatChanged
  deriving DecidableEq

/-- A screen loads once; the voting buttons and the counter are on the game screen. -/
def App.act (device : Device) (app : App) (lobby : Lobby) : AppAction → Option App
  | .loadLobby => if app.screen = .newGame then app.loadLobby device lobby else some app
  | .loadGame => if app.screen = .segueStartGame then app.loadGame device lobby else some app
  | .vote =>
    some (if app.screen = .game then { app with flags := { app.flags with hasVoted := true } }
      else app)
  | .chatChanged => some (if app.screen = .game then { app with numberOfVotes := 0 } else app)

/-- An app that follows a room.  It is `none` once an observer has stopped it; nothing is drawn
    here, so it does not stop on an icon. -/
def session (device : Device) (lobbyId : LobbyId) : Follower Room RoomInput (Option App) AppAction
    where
  source := roomMachine lobbyId
  hear app old new := app.bind (fun app => app.hear device old.lobby new.lobby)
  act app seen action := app.bind (fun app => app.act device seen.lobby action)

abbrev Session := Following Room (Option App)

abbrev SessionInput := FollowerInput RoomInput AppAction

/-- The app is open, and a lobby was created. -/
def Session.start (hostId : Uid) : Session := Following.start (Room.initial hostId) (some {})

variable {device : Device} {lobbyId : LobbyId}

@[simp] theorem session_hear (app : App) (old new : Room) :
    (session device lobbyId).hear (some app) old new = app.hear device old.lobby new.lobby := rfl

@[simp] theorem session_act (app : App) (seen : Room) (action : AppAction) :
    (session device lobbyId).act (some app) seen action = app.act device seen.lobby action := rfl

/-! ### The observers of the list of users -/

theorem User.init_userID {details : List (String × Json)} {uid : String} {user : User}
    (h : User.init details uid = some user) : user.userID = uid := by
  simp only [User.init, Option.bind_eq_bind, Option.bind_eq_some_iff, Option.some.injEq] at h
  obtain ⟨_, _, _, _, _, _, _, _, rfl⟩ := h
  rfl

/-- The added players join the list, in the order of the events. -/
theorem userIDs_playerAdded {children : Children} (hdict : ∀ e ∈ children, ∃ d, e.2 = .obj d)
    {users users' : List User} (h : children.foldlM playerAdded users = some users') :
    users'.map User.userID = users.map User.userID ++ children.map Prod.fst := by
  induction children generalizing users with
  | nil =>
    obtain rfl := Option.some.inj h
    exact (List.append_nil _).symm
  | cons e children ih =>
    rw [List.foldlM_cons, Option.bind_eq_bind, Option.bind_eq_some_iff] at h
    obtain ⟨mid, hadded, hrest⟩ := h
    obtain ⟨d, hd⟩ := hdict e List.mem_cons_self
    simp only [playerAdded, hd, Json.asDictionary, Option.bind_eq_bind, Option.bind_eq_some_iff,
      Option.some.injEq] at hadded
    obtain ⟨newUser, hinit, rfl⟩ := hadded
    rw [ih (fun e he => hdict e (List.mem_cons_of_mem _ he)) hrest, List.map_append, List.map_cons,
      List.map_cons, List.map_nil, User.init_userID hinit, List.append_assoc, List.singleton_append]

theorem retrieveUserIndex_spec {users : List User} {uid : String}
    (h : uid ∈ users.map User.userID) :
    ∃ user, users[retrieveUserIndex users uid]? = some user ∧ user.userID = uid ∧ user ∈ users := by
  obtain ⟨user, hmem, huid⟩ := List.mem_map.mp h
  cases hfind : users.findIdx? (fun u => u.userID = uid) with
  | none =>
    rw [List.findIdx?_eq_none_iff] at hfind
    simpa [huid] using hfind user hmem
  | some index =>
    obtain ⟨hindex, hu, _⟩ := List.findIdx?_eq_some_iff_getElem.mp hfind
    refine ⟨users[index], ?_, by simpa using hu, List.getElem_mem hindex⟩
    rw [retrieveUserIndex, hfind, Option.getD_some]
    exact List.getElem?_eq_getElem hindex

/-- The user but for the score. -/
def User.unscored (user : User) : User := { user with score := 0 }

/-- A score changes, and nothing else. -/
theorem unscored_scoreChanged {users users' : List User} {e : String × Json}
    (h : scoreChanged users e = some users') :
    users'.map User.unscored = users.map User.unscored := by
  unfold scoreChanged at h
  split at h
  · simp only [Option.bind_eq_bind, Option.bind_eq_some_iff, Option.some.injEq] at h
    obtain ⟨score, _, user, huser, rfl⟩ := h
    have hat : (users.map User.unscored)[retrieveUserIndex users e.1]? = some user.unscored := by
      rw [List.getElem?_map, huser]
      rfl
    obtain ⟨_, hsame⟩ := List.getElem?_eq_some_iff.mp hat
    rw [List.map_set]
    show (users.map User.unscored).set _ user.unscored = _
    rw [← hsame, List.set_getElem_self]
  · obtain rfl := Option.some.inj h
    rfl

theorem unscored_scoresChanged {children : Children} {users users' : List User}
    (h : children.foldlM scoreChanged users = some users') :
    users'.map User.unscored = users.map User.unscored := by
  induction children generalizing users with
  | nil =>
    obtain rfl := Option.some.inj h
    rfl
  | cons e children ih =>
    rw [List.foldlM_cons, Option.bind_eq_bind, Option.bind_eq_some_iff] at h
    obtain ⟨mid, hchanged, hrest⟩ := h
    rw [ih hrest, unscored_scoreChanged hchanged]

/-- So nobody comes or goes. -/
theorem userIDs_of_unscored {users users' : List User}
    (h : users'.map User.unscored = users.map User.unscored) :
    users'.map User.userID = users.map User.userID := by
  have hids := congrArg (List.map User.userID) h
  rw [List.map_map, List.map_map] at hids
  exact hids

theorem userIDs_scoreChanged {users users' : List User} {e : String × Json}
    (h : scoreChanged users e = some users') :
    users'.map User.userID = users.map User.userID :=
  userIDs_of_unscored (unscored_scoreChanged h)

theorem userIDs_scoresChanged {children : Children} {users users' : List User}
    (h : children.foldlM scoreChanged users = some users') :
    users'.map User.userID = users.map User.userID :=
  userIDs_of_unscored (unscored_scoresChanged h)

/-! ### The list of users -/

/-- The list has the lobby's players, each of them once. -/
def Lists (users : List User) (lobby : Lobby) : Prop :=
  (users.map User.userID).Perm lobby.players.keys

/-- What the list is worth on each screen. -/
def App.Tracks (app : App) (room : Room) : Prop :=
  match app.screen with
  | .newGame => app.users = []
  | .lobby => Lists app.users room.lobby
  | .segueStartGame | .game => Lists app.users room.lobby ∧ room.lobby.status ≠ .lobby

/-- New players are added to the old ones. -/
theorem childrenAdded_keys {old new : Children} (hold : (old.map Prod.fst).Nodup)
    (hnew : (new.map Prod.fst).Nodup) (hsub : ∀ key ∈ old.map Prod.fst, key ∈ new.map Prod.fst) :
    (old.map Prod.fst ++ (childrenAdded old new).map Prod.fst).Perm (new.map Prod.fst) := by
  have hadded : ((childrenAdded old new).map Prod.fst).Nodup :=
    hnew.sublist (List.filter_sublist.map _)
  rw [List.perm_ext_iff_of_nodup ?_ hnew]
  · intro key
    simp only [List.mem_append, List.mem_map, mem_childrenAdded]
    constructor
    · rintro (hkey | ⟨e, ⟨he, _⟩, rfl⟩)
      · exact List.mem_map.mp (hsub key (List.mem_map.mpr hkey))
      · exact ⟨e, he, rfl⟩
    · rintro ⟨e, he, rfl⟩
      by_cases hmem : e.1 ∈ old.map Prod.fst
      · exact Or.inl (List.mem_map.mp hmem)
      · exact Or.inr ⟨e, ⟨he, (assocGet_eq_none_iff _ _).mpr hmem⟩, rfl⟩
  · rw [List.nodup_append]
    refine ⟨hold, hadded, ?_⟩
    intro key hkey key' hkey' heq
    obtain ⟨e, he, rfl⟩ := List.mem_map.mp hkey'
    exact (assocGet_eq_none_iff _ _).mp (mem_childrenAdded.mp he).2 (heq ▸ hkey)

/-- Every child of the players is a dictionary. -/
theorem playerChildren_dict {lobby : Lobby} {e : String × Json} (he : e ∈ lobby.playerChildren) :
    ∃ d, e.2 = .obj d := by
  obtain ⟨entry, _, rfl⟩ := List.mem_map.mp he
  exact ⟨_, rfl⟩

theorem Lists.of_added {users users' : List User} {old new : Lobby} (h : Lists users old)
    (hsub : ∀ uid ∈ old.players.keys, uid ∈ new.players.keys)
    (hadded : (device.arrange (childrenAdded old.playerChildren new.playerChildren)).foldlM
      playerAdded users = some users') : Lists users' new := by
  have hdict : ∀ e ∈ device.arrange (childrenAdded old.playerChildren new.playerChildren),
      ∃ d, e.2 = .obj d := by
    intro e he
    have hmem := (device.arrange_perm _).mem_iff.mp he
    exact playerChildren_dict (mem_childrenAdded.mp hmem).1
  have hkeys := childrenAdded_keys old.playerChildren_nodup new.playerChildren_nodup (by
    simpa only [Lobby.playerChildren_keys] using hsub)
  rw [Lobby.playerChildren_keys, Lobby.playerChildren_keys] at hkeys
  rw [Lists, userIDs_playerAdded hdict hadded]
  exact (h.append ((device.arrange_perm _).map Prod.fst)).trans hkeys

/-- The word a game starts with is there from the deal on. -/
theorem Unstarted.startWord_step {room room' : Room} {i : RoomInput} (h : Unstarted room)
    (hnone : room.lobby.startWord = none) (hstep : RoomStep lobbyId room i room')
    (hstatus : room'.lobby.status = .lobby) : room'.lobby.startWord = none := by
  have hopen := h.status
  cases hstep with
  | rejected => exact hnone
  | called now c lobby hok heffect =>
    cases c with
    | addPlayerToLobby player playerId =>
      obtain ⟨_, rfl⟩ := heffect
      exact hnone
    | addBot requesterId =>
      obtain ⟨_, _, _, rfl⟩ := heffect
      exact hnone
    | startGame playerId gameSettings random =>
      obtain ⟨_, _, next, hdealt, rfl⟩ := heffect
      obtain ⟨_, _, _, _, _, _, _, _, _, _⟩ := hdealt
      cases hstatus
    | submitWord playerId word => simp [CallEffect, hopen] at heffect
    | requestNewWords playerId random => simp [CallEffect, hopen] at heffect
    | voteOnWord playerId vote => simp [CallEffect, hopen] at heffect
  | failed now i answer trigger hpending => simp [h.pending] at hpending
  | delivered now i answer trigger hpending => simp [h.pending] at hpending
  | redelivered now i answer trigger hdelivered => simp [h.delivered] at hdelivered

theorem startWord_of_unstarted {room : Room} (h : Room.Reachable lobbyId anyInput room)
    (hstatus : room.lobby.status = .lobby) : room.lobby.startWord = none := by
  have hphase : (Unstarted room ∧ room.lobby.startWord = none) ∨
      ∃ settings, Scheduled settings room.lobby := by
    refine h.invariant (I := fun room => (Unstarted room ∧ room.lobby.startWord = none) ∨
      ∃ settings, Scheduled settings room.lobby) (fun hostId => Or.inl ⟨unstarted_initial hostId,
        rfl⟩) ?_
    rintro room i (⟨hun, hnone⟩ | ⟨settings, hs⟩) _
    · have hstep := Room.step_cases lobbyId room i
      rcases hun.step hstep with hun' | ⟨now, settings, next, hdealt, heq⟩
      · exact Or.inl ⟨hun', hun.startWord_step hnone hstep hun'.status⟩
      · rw [heq]
        exact Or.inr ⟨settings, (Scheduled.dealt hdealt).stored⟩
    · exact Or.inr ⟨settings, hs.step i⟩
  rcases hphase with ⟨_, hnone⟩ | ⟨settings, hs⟩
  · exact hnone
  · exact absurd hstatus hs.started

theorem foldl_gameStatus (children : Children) (screen : Screen) :
    children.foldl gameStatus screen = screen ∨
      children.foldl gameStatus screen = .segueStartGame ∧
        ∃ e ∈ children, e.2.asString = some "SUBMISSION" := by
  induction children generalizing screen with
  | nil => exact Or.inl rfl
  | cons e children ih =>
    rw [List.foldl_cons]
    have hlater : ∀ {P : String × Json → Prop}, (∃ e' ∈ children, P e') →
        ∃ e' ∈ e :: children, P e' := fun ⟨e', he', hP⟩ => ⟨e', List.mem_cons_of_mem _ he', hP⟩
    by_cases hsnap : e.2.asString = some "SUBMISSION"
    · have hnow : ∃ e' ∈ e :: children, e'.2.asString = some "SUBMISSION" :=
        ⟨e, List.mem_cons_self, hsnap⟩
      have hsegue : gameStatus screen e = .segueStartGame := by simp [gameStatus, hsnap]
      rw [hsegue]
      rcases ih .segueStartGame with hsame | ⟨hmoved, _⟩
      · exact Or.inr ⟨hsame, hnow⟩
      · exact Or.inr ⟨hmoved, hnow⟩
    · have hstay : gameStatus screen e = screen := by
        unfold gameStatus
        split
        · rename_i snap heq
          rw [if_neg (by rintro rfl; exact hsnap heq)]
        · rfl
      rw [hstay]
      rcases ih screen with hsame | ⟨hmoved, htold⟩
      · exact Or.inl hsame
      · exact Or.inr ⟨hmoved, hlater htold⟩

/-- Two children of `public` are strings. -/
theorem publicChildren_text {lobby : Lobby} {e : String × Json} (he : e ∈ lobby.publicChildren)
    {text : String} (htext : e.2.asString = some text) :
    e.1 = "startWord" ∧ lobby.startWord = some text ∨
      e.1 = "status" ∧ lobby.status.text = text := by
  obtain ⟨key, v⟩ := e
  have hv : v = .str text := by
    cases v with
    | str s => exact congrArg Json.str (Option.some.inj htext)
    | _ => cases htext
  have hstored : ∀ w : Json, (∀ s, w ≠ .str s) → w.stored ≠ some v := by
    rintro w hw hsame
    obtain ⟨rfl, _⟩ := Json.stored_eq_some hsame
    exact hw text hv
  simp only [Lobby.publicChildren, presentFields, List.mem_filterMap, List.mem_cons,
    List.not_mem_nil, or_false] at he
  obtain ⟨field, hfield, hchild⟩ := he
  rw [Option.map_eq_some_iff] at hchild
  obtain ⟨w, hw, heq⟩ := hchild
  obtain ⟨rfl, rfl⟩ := Prod.mk.inj heq
  rcases hfield with rfl | rfl | rfl | rfl | rfl | rfl | rfl
  · exact absurd hw (hstored _ (by simp))
  · exact absurd hw (hstored _ (by simp))
  · obtain ⟨settings, _, rfl⟩ := Option.map_eq_some_iff.mp hw
    cases hv
  · obtain ⟨word, hword, rfl⟩ := Option.map_eq_some_iff.mp hw
    exact Or.inl ⟨rfl, by rw [hword, Json.str.inj hv]⟩
  · obtain rfl := Option.some.inj hw
    exact Or.inr ⟨rfl, Json.str.inj hv⟩
  · exact absurd hw (hstored _ (by simp))
  · obtain ⟨n, _, rfl⟩ := Option.map_eq_some_iff.mp hw
    cases hv

/-- Only a game in progress is told of as `SUBMISSION`. -/
theorem started_of_told {room : Room} (h : Room.Reachable lobbyId anyInput room)
    {e : String × Json} (he : e ∈ room.lobby.publicChildren)
    (hsnap : e.2.asString = some "SUBMISSION") : room.lobby.status ≠ .lobby := by
  intro hstatus
  rcases publicChildren_text he hsnap with ⟨_, hword⟩ | ⟨_, htext⟩
  · rw [startWord_of_unstarted h hstatus] at hword
    cases hword
  · rw [hstatus] at htext
    exact absurd htext (by decide)

namespace App.Tracks

variable {app app' : App} {old new : Room}

theorem hearLobby (h : Lists app.users old.lobby) (hscreen : app.screen = .lobby)
    (hsub : ∀ uid ∈ old.lobby.players.keys, uid ∈ new.lobby.players.keys)
    (hnew : Room.Reachable lobbyId anyInput new)
    (hhear : App.hearLobby device app old.lobby new.lobby = some app') : app'.Tracks new := by
  simp only [App.hearLobby, Option.bind_eq_bind, Option.bind_eq_some_iff, Option.some.injEq]
    at hhear
  obtain ⟨users, hadded, rfl⟩ := hhear
  have hlists := h.of_added hsub hadded
  rcases foldl_gameStatus (device.arrange (childrenChanged old.lobby.publicChildren
    new.lobby.publicChildren)) app.screen with hsame | ⟨hsegue, e, he, hsnap⟩
  · rw [App.Tracks, hsame, hscreen]
    exact hlists
  · rw [App.Tracks, hsegue]
    have hmem := (device.arrange_perm _).mem_iff.mp he
    exact ⟨hlists, started_of_told hnew (mem_childrenChanged.mp hmem).1 hsnap⟩

/-- The game screen neither adds users nor drops them. -/
theorem hearGame_users (h : App.hearGame device app old.lobby new.lobby = some app') :
    (device.arrange (childrenChanged old.lobby.playerChildren new.lobby.playerChildren)).foldlM
      scoreChanged app.users = some app'.users ∧ app'.screen = app.screen := by
  simp only [App.hearGame, Option.bind_eq_bind, Option.bind_eq_some_iff, Option.some.injEq] at h
  obtain ⟨_, _, _, _, users, husers, _, _, _, _, _, _, rfl⟩ := h
  exact ⟨husers, rfl⟩

/-- **Step lemma, a version is told of.** -/
theorem hear (h : app.Tracks old) (hold : Room.Reachable lobbyId anyInput old)
    (hreach : (roomMachine lobbyId).Reaches anyInput old new)
    (hhear : app.hear device old.lobby new.lobby = some app') : app'.Tracks new := by
  have hnew := hold.trans hreach
  have hseats : old.lobby.status ≠ .lobby → SameSeats old.lobby new.lobby ∧
      new.lobby.status ≠ .lobby := by
    intro hstarted
    obtain ⟨settings, hs⟩ := scheduled_of_reachable hold hstarted
    obtain ⟨hs', hseats⟩ := hs.kept hreach
    exact ⟨hseats, hs'.started⟩
  unfold App.hear at hhear
  unfold App.Tracks at h
  split at hhear <;> rename_i hscreen <;> simp only [hscreen] at h
  · obtain rfl := Option.some.inj hhear
    simpa only [App.Tracks, hscreen] using h
  · refine hearLobby h hscreen (fun uid huid => ?_) hnew hhear
    exact Machine.Reaches.invariant (I := fun later => uid ∈ later.lobby.players.keys)
      (fun later i hmem _ => (Room.step_cases lobbyId later i).keeps_player hmem) huid hreach
  · obtain rfl := Option.some.inj hhear
    obtain ⟨hkept, hstarted⟩ := hseats h.2
    simp only [App.Tracks, hscreen]
    exact ⟨by rw [Lists, hkept.players]; exact h.1, hstarted⟩
  · obtain ⟨husers, hsame⟩ := hearGame_users hhear
    obtain ⟨hkept, hstarted⟩ := hseats h.2
    simp only [App.Tracks, hsame, hscreen]
    exact ⟨by rw [Lists, hkept.players, userIDs_scoresChanged husers]; exact h.1, hstarted⟩

/-- **Step lemma, the user acts.** -/
theorem act (h : app.Tracks old) {action : AppAction}
    (hact : app.act device old.lobby action = some app') : app'.Tracks old := by
  cases action with
  | loadLobby =>
    simp only [App.act] at hact
    split at hact
    · rename_i hscreen
      simp only [App.loadLobby, Option.bind_eq_bind, Option.bind_eq_some_iff,
        Option.some.injEq] at hact
      obtain ⟨users, hadded, rfl⟩ := hact
      have hnone : app.users = [] := by simpa only [App.Tracks, hscreen] using h
      have hdict : ∀ e ∈ device.arrange old.lobby.playerChildren, ∃ d, e.2 = .obj d :=
        fun e he => playerChildren_dict ((device.arrange_perm _).mem_iff.mp he)
      have hkeys := (device.arrange_perm old.lobby.playerChildren).map Prod.fst
      rw [Lobby.playerChildren_keys] at hkeys
      simp only [App.Tracks, Lists]
      rw [userIDs_playerAdded hdict hadded, hnone]
      exact hkeys
    · obtain rfl := Option.some.inj hact
      exact h
  | loadGame =>
    simp only [App.act] at hact
    split at hact
    · rename_i hscreen
      simp only [App.loadGame, Option.bind_eq_bind, Option.bind_eq_some_iff,
        Option.some.injEq] at hact
      obtain ⟨_, _, _, _, _, _, rfl⟩ := hact
      simpa only [App.Tracks, hscreen] using h
    · obtain rfl := Option.some.inj hact
      exact h
  | vote =>
    simp only [App.act] at hact
    obtain rfl := Option.some.inj hact
    split <;> exact h
  | chatChanged =>
    simp only [App.act] at hact
    obtain rfl := Option.some.inj hact
    split <;> exact h

end App.Tracks

/-! ### Runs -/

/-- A session that some run leads to. -/
def Session.Reachable (device : Device) (lobbyId : LobbyId) (hostId : Uid) (s : Session) : Prop :=
  (session device lobbyId).machine.Reaches (Follower.Guard anyInput) (Session.start hostId) s

variable {hostId : Uid} {s : Session}

theorem guard_anyInput (s : Session) (i : SessionInput) : Follower.Guard anyInput s i := by
  cases i <;> trivial

theorem admissible_anyGuard (s : Session) (inputs : List SessionInput) :
    (session device lobbyId).machine.Admissible (Follower.Guard anyInput) s inputs :=
  Machine.admissible_of_forall s (fun i _ s => guard_anyInput s i)

theorem Session.Reachable.step (h : Session.Reachable device lobbyId hostId s)
    (i : SessionInput) :
    Session.Reachable device lobbyId hostId ((session device lobbyId).step s i) :=
  h.trans (.step (guard_anyInput s i))

theorem Session.Reachable.inOrder (h : Session.Reachable device lobbyId hostId s) :
    InOrder (roomMachine lobbyId) anyInput (Room.initial hostId) s :=
  Follower.inOrder_of_reaches (Follower.inOrder_start _ _) h

/-- The version told of last is one of the room. -/
theorem Session.Reachable.seen (h : Session.Reachable device lobbyId hostId s) :
    Room.Reachable lobbyId anyInput s.seen :=
  ⟨hostId, h.inOrder.start⟩

/-- The version told of at the end of a run is a later one. -/
theorem Session.Reachable.seen_run (h : Session.Reachable device lobbyId hostId s)
    (inputs : List SessionInput) :
    (roomMachine lobbyId).Reaches anyInput s.seen
      ((session device lobbyId).machine.run s inputs).seen :=
  (Follower.inOrder_of_reaches h.inOrder.restart ⟨inputs, admissible_anyGuard s inputs, rfl⟩).start

/-- **Run lemma.**  As long as the app has not stopped, its list has the players of the version
    it was told of last. -/
theorem Session.Reachable.tracks (h : Session.Reachable device lobbyId hostId s) {app : App}
    (happ : s.view = some app) : app.Tracks s.seen := by
  have hall := Follower.follows (f := session device lobbyId) (G := anyInput)
    (V := fun view seen => ∀ app, view = some app → app.Tracks seen) ?_ ?_
    (Follower.inOrder_start (Room.initial hostId) _) ?_ h
  · exact hall app happ
  · intro view old new hold hreach hV app' happ'
    cases view with
    | none => cases happ'
    | some app => exact (hV app rfl).hear ⟨hostId, hold⟩ hreach happ'
  · intro view old action hold hV app' happ'
    cases view with
    | none => cases happ'
    | some app => exact (hV app rfl).act happ'
  · intro app' happ'
    obtain rfl := Option.some.inj happ'
    exact rfl

/-- An app that has stopped does not start again. -/
theorem step_view_none (h : s.view = none) (i : SessionInput) :
    ((session device lobbyId).step s i).view = none := by
  cases i with
  | source i => exact h
  | hear skipped =>
    cases hdrop : s.pending.drop skipped with
    | nil => rwa [Follower.step_hear_nil hdrop]
    | cons next rest =>
      rw [Follower.step_hear_cons hdrop]
      show ((session device lobbyId).hear s.view s.seen next) = none
      rw [h]
      rfl
  | act a =>
    show ((session device lobbyId).act s.view s.seen a) = none
    rw [h]
    rfl

theorem run_view_none (h : s.view = none) (inputs : List SessionInput) :
    ((session device lobbyId).machine.run s inputs).view = none := by
  induction inputs generalizing s with
  | nil => exact h
  | cons i inputs ih => exact ih (step_view_none h i)

/-- The app does not stop. -/
def KeepsRunning (device : Device) (lobbyId : LobbyId) (s : Session) (i : SessionInput) : Prop :=
  ((session device lobbyId).step s i).view ≠ none

/-- An app that is running at the end was running all along. -/
theorem admissible_of_running {inputs : List SessionInput} {app : App}
    (h : ((session device lobbyId).machine.run s inputs).view = some app) :
    (session device lobbyId).machine.Admissible (KeepsRunning device lobbyId) s inputs := by
  induction inputs generalizing s with
  | nil => trivial
  | cons i inputs ih =>
    refine ⟨fun hnone => ?_, ih h⟩
    have hend : ((session device lobbyId).machine.run _ inputs).view = none :=
      run_view_none hnone inputs
    have habsurd : none = some app := hend.symm.trans h
    cases habsurd

/-- A device that is told of the children in the order they are in. -/
def sampleDevice : Device where
  arrange children := children
  arrange_perm _ := List.Perm.refl _
  canonical := id
  user := ⟨"Anonymous", 0, 1, 0, ""⟩

/-- A guest and a bot in the lobby, which the device has heard of, and the game starts. -/
def sampleLoading : List SessionInput :=
  [.source (.call 1 (.addPlayerToLobby sampleGuest "ann")), .hear 0, .act .loadLobby,
    .source (.call 2 (.addBot "ann")), .hear 0,
    .source (.call 3 (.startGame "ann" sampleSettings ⟨zeroDraws, zeroDraws⟩)), .hear 0,
    .act .loadGame]

/-- The guest asks for new words. -/
def samplePlay : List SessionInput :=
  [.source (.call 4 (.requestNewWords "ann" zeroDraws)), .hear 0]

/-- The session of the device. -/
def sampleSession (inputs : List SessionInput) : Session :=
  (session sampleDevice "L").machine.run (Session.start "ann") inputs

theorem sampleSession_reachable (inputs : List SessionInput) :
    Session.Reachable sampleDevice "L" "ann" (sampleSession inputs) :=
  ⟨inputs, admissible_anyGuard _ _, rfl⟩

end PasswordApp
