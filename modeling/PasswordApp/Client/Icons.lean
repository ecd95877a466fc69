import PasswordApp.Client.Users

namespace PasswordApp

/-!
# Client — the icons of the players (`LocalData.swift`, `UserSmallIconButton.swift`)

An icon is an emoji on a colored ring; a player carries the index of each.  The app draws its own
indices at random, a bot takes the number of the bots before it as its color.  An index out of
range stops every app that shows the player.

* `randomizeIcon` / `setUserIcon` — the app;
* `Drawable` — the app can show the player;
* `BotsCounted` — the bots' numbers are at most their count, so the next one is new;
* `players_drawable` — as long as there are colors for the bots.
-/

/-! ### Icons -/

/-- `LocalData.colors`, by name. -/
def colors : List String := ["orange", "red", "gray", "yellow", "green", "blue", "purple"]

/-- `LocalData.emojis`. -/
def emojis : List String := ["🤖", "💃🏻", "🦁", "🤓", "🌲", "🐮", "🧨", "🎱", "🍔", "🐶", "🍺", "🍕"]

/-- `LocalData.randomizeIcon()`. -/
def randomizeIcon (user : User) (emoji color : Draw) : User :=
  { user with
    emojiNumber := ((1 + emoji.index (emojis.length - 1) : ℕ) : ℤ)
    colorNumber := (color.index colors.length : ℤ) }

/-- `xs[i]`; an index out of range stops the app. -/
def element (xs : List String) (i : ℤ) : Option String := if 0 ≤ i then xs[i.toNat]? else none

/-- `setUserIcon(user:)`: the title and the color of the border. -/
def setUserIcon (user : User) : Option (String × String) := do
  let title ← element emojis user.emojiNumber
  let borderColor ← element colors user.colorNumber
  some (title, borderColor)

/-- The profile the app sends with `createLobby` and `joinLobby`. -/
def User.profile (user : User) : Json :=
  .obj [("displayName", .str user.displayName), ("colorNumber", .num user.colorNumber),
    ("emojiNumber", .num user.emojiNumber)]

/-- The data of `newGameButtonPressed`. -/
def newGameData (user : User) : Json := .obj [("player", user.profile)]

/-- The data of `enterLobbyButtonPressed`. -/
def enterLobbyData (lobbyCode : String) (user : User) : Json :=
  .obj [("lobbyCode", .str lobbyCode), ("player", user.profile)]

/-- `i` is an index of `xs`. -/
def ValidIndex (xs : List String) (i : ℤ) : Prop := 0 ≤ i ∧ i < xs.length

instance (xs : List String) (i : ℤ) : Decidable (ValidIndex xs i) :=
  inferInstanceAs (Decidable (_ ∧ _))

theorem element_isSome {xs : List String} {i : ℤ} : (element xs i).isSome ↔ ValidIndex xs i := by
  unfold element ValidIndex
  split
  · rename_i hi
    simp only [isSome_getElem?]
    omega
  · rename_i hi
    simp [hi]

/-- The app knows the player as a user, whose icon has valid indices. -/
def Drawable (uid : Uid) (player : Player) : Prop :=
  ∃ user, player.user uid = some user ∧ ValidIndex colors user.colorNumber ∧
    ValidIndex emojis user.emojiNumber

/-- A drawable player is drawn. -/
theorem Drawable.setUserIcon {uid : Uid} {player : Player} (h : Drawable uid player) :
    ∃ user icon, player.user uid = some user ∧ setUserIcon user = some icon := by
  obtain ⟨user, huser, hcolor, hemoji⟩ := h
  obtain ⟨title, htitle⟩ := Option.isSome_iff_exists.mp (element_isSome.mpr hemoji)
  obtain ⟨borderColor, hborder⟩ := Option.isSome_iff_exists.mp (element_isSome.mpr hcolor)
  refine ⟨user, (title, borderColor), huser, ?_⟩
  rw [PasswordApp.setUserIcon, htitle, hborder]
  rfl

theorem randomizeIcon_valid (user : User) (emoji color : Draw) :
    ValidIndex emojis (randomizeIcon user emoji color).emojiNumber ∧
      ValidIndex colors (randomizeIcon user emoji color).colorNumber := by
  have hemoji : emoji.index (emojis.length - 1) < emojis.length - 1 := emoji.index_lt (by decide)
  have hcolor : color.index colors.length < colors.length := color.index_lt (by decide)
  refine ⟨⟨?_, ?_⟩, ?_, ?_⟩ <;> simp only [randomizeIcon] <;> omega

/-! ### The profiles of the app -/

/-- The data of a request of the app. -/
def AppData (user : User) (data : Json) : Prop :=
  data = newGameData user ∨ ∃ lobbyCode, data = enterLobbyData lobbyCode user

/-- A profile the app sends, as validation reads it. -/
def AppProfile (player : PlayerInfo) : Prop :=
  ∃ user emoji color data, AppData (randomizeIcon user emoji color) data ∧
    getPlayerInfo data = .ok player

/-- Validation refuses the empty name and leaves any other profile as it is. -/
theorem getPlayerInfo_appData {data : Json} {user : User} (hdata : AppData user data) :
    getPlayerInfo data =
      if user.displayName = "" then
        httpsError ErrorCode.invalidArgument "Missing player.displayName."
      else .ok ⟨some (.str user.displayName), some (.num user.colorNumber),
        some (.num user.emojiNumber), true⟩ := by
  have hread : readField data "player" = .ok (some user.profile) := by
    rcases hdata with rfl | ⟨lobbyCode, rfl⟩ <;> rfl
  rw [getPlayerInfo, hread]
  by_cases hname : user.displayName = "" <;>
  simp [readField, Json.get, assocGet, User.profile, hname, truthy?, Json.truthy, Except.mapError,
    Json.stored, Json.hasLeaf]
  rfl

/-! ### Bots -/

/-- The key of the `n`-th bot. -/
def botKey (n : ℕ) : Uid := "bot" ++ toString n

theorem botKey_injective : Function.Injective botKey :=
  numberedKey_injective "bot"

/-- The bots' numbers are at most the count of the bots. -/
def BotsCounted (lobby : Lobby) : Prop :=
  ∀ n, botKey n ∈ lobby.players.keys → n ≤ numExistingBots lobby

/-- A lobby whose players can be drawn, and whose next bot is a new player. -/
structure Sound (lobby : Lobby) : Prop where
  drawable : ∀ uid player, lobby.players.get? uid = some player → Drawable uid player
  counted : BotsCounted lobby

theorem BotsCounted.newBot {lobby : Lobby} (h : BotsCounted lobby) :
    botKey (numExistingBots lobby + 1) ∉ lobby.players.keys := by
  intro hkey
  have hle := h _ hkey
  omega

/-- The bots of the lobby with one more entry. -/
theorem numExistingBots_set {lobby next : Lobby} {uid : Uid} {player : Player}
    (hplayers : next.players = lobby.players.set uid player) :
    numExistingBots next =
      if uid ∉ lobby.players.keys ∧ isBot uid = true then numExistingBots lobby + 1
      else numExistingBots lobby := by
  rw [numExistingBots, numExistingBots, hplayers, Dict.keys_set]
  by_cases hkey : uid ∈ lobby.players.keys
  · simp [hkey]
  · by_cases hbot : isBot uid = true <;> simp [hkey, hbot, List.filter_append]

theorem numExistingBots_le_set {lobby next : Lobby} {uid : Uid} {player : Player}
    (hplayers : next.players = lobby.players.set uid player) :
    numExistingBots lobby ≤ numExistingBots next := by
  rw [numExistingBots_set hplayers]
  split <;> omega

/-- A player whose uid is not a bot's key enters. -/
theorem BotsCounted.entered {lobby next : Lobby} (h : BotsCounted lobby) {uid : Uid}
    {player : Player} (hplayers : next.players = lobby.players.set uid player)
    (huid : ∀ n, uid ≠ botKey n) : BotsCounted next := by
  intro n hkey
  rw [hplayers, Dict.mem_keys_set] at hkey
  have hold := hkey.resolve_left (fun heq => huid n heq.symm)
  exact (h n hold).trans (numExistingBots_le_set hplayers)

/-- A bot enters. -/
theorem BotsCounted.botEntered {lobby next : Lobby} (h : BotsCounted lobby) {player : Player}
    (hplayers : next.players =
      lobby.players.set (botKey (numExistingBots lobby + 1)) player) : BotsCounted next := by
  have hcount : numExistingBots next = numExistingBots lobby + 1 := by
    rw [numExistingBots_set hplayers, if_pos ⟨h.newBot, isBot_bot _⟩]
  intro n hkey
  rw [hplayers, Dict.mem_keys_set] at hkey
  rcases hkey with heq | hold
  · rw [botKey_injective heq, hcount]
  · have hle := h n hold
    omega

theorem Drawable.set {players : Dict Uid Player} {uid : Uid} {player : Player}
    (h : ∀ uid player, players.get? uid = some player → Drawable uid player)
    (hplayer : Drawable uid player) :
    ∀ uid' player', (players.set uid player).get? uid' = some player' → Drawable uid' player' := by
  intro uid' player' hget
  by_cases heq : uid' = uid
  · subst heq
    rw [Dict.get?_set_self] at hget
    obtain rfl := Option.some.inj hget
    exact hplayer
  · rw [Dict.get?_set_ne _ _ heq] at hget
    exact h uid' player' hget

/-- A player with these indices can be drawn exactly if they are valid. -/
theorem drawable_iff {uid : Uid} {player : Player} {name : String} {colorNumber emojiNumber : ℤ}
    (hname : player.displayName = some (.str name))
    (hcolor : player.colorNumber = some (.num colorNumber))
    (hemoji : player.emojiNumber = some (.num emojiNumber)) (hscore : player.score = 0) :
    Drawable uid player ↔ ValidIndex colors colorNumber ∧ ValidIndex emojis emojiNumber := by
  have huser := player.user_eq uid
  rw [hname, hcolor, hemoji, hscore] at huser
  simp only [Option.bind_some, Json.asString, Option.bind_eq_bind] at huser
  constructor
  · rintro ⟨user, hsome, hvalid⟩
    rw [hsome] at huser
    obtain ⟨c, hc, e, he, score, _, heq⟩ : ∃ c, (Json.num colorNumber).asInt = some c ∧
        ∃ e, (Json.num emojiNumber).asInt = some e ∧
        ∃ score, (Json.num (0 : ℤ)).asInt = some score ∧ ⟨name, c, e, score, uid⟩ = user := by
      simpa only [Option.bind_eq_some_iff, Option.some.injEq] using huser.symm
    obtain rfl := Json.eq_of_asInt hc
    obtain rfl := Json.eq_of_asInt he
    rw [← heq] at hvalid
    exact hvalid
  · rintro ⟨hc, he⟩
    have hsmall : ∀ i : ℤ, 0 ≤ i → i < 12 → (Json.num i).asInt = some i := by
      intro i hnonneg hlt
      apply Json.asInt_intCast <;> rw [Json.intMax] <;> omega
    have hcolors : colorNumber < 7 := hc.2
    have hemojis : emojiNumber < 12 := he.2
    rw [hsmall _ hc.1 (by omega), hsmall _ he.1 hemojis, hsmall 0 (by omega) (by omega)] at huser
    exact ⟨_, huser, hc, he⟩

/-- A bot can be drawn exactly if there is a color for it. -/
theorem drawable_botPlayer (uid : Uid) (n : ℕ) :
    Drawable uid (botPlayer n) ↔ n < colors.length := by
  have hiff : Drawable uid (botPlayer n) ↔ ValidIndex colors (n : ℤ) ∧ ValidIndex emojis 0 :=
    drawable_iff rfl rfl rfl rfl
  have hemoji : ValidIndex emojis 0 := by decide
  rw [hiff, and_iff_left hemoji, ValidIndex]
  omega

/-- A player of the app can be drawn. -/
theorem AppProfile.drawable {player : PlayerInfo} (h : AppProfile player) (uid : Uid) :
    Drawable uid player.seat := by
  obtain ⟨user, emoji, color, data, hdata, hok⟩ := h
  obtain ⟨hemoji, hcolor⟩ := randomizeIcon_valid user emoji color
  rw [getPlayerInfo_appData hdata] at hok
  split at hok
  · cases hok
  · obtain rfl := Except.ok.inj hok
    exact (drawable_iff rfl rfl rfl rfl).mpr ⟨hcolor, hemoji⟩

/-! ### Building a lobby -/

/-- Joins of the app by players whose uid is not a bot's key, and bots of the host as long as
    there is a color for the next one. -/
def BuildsDrawable (lobbyId : LobbyId) (room : Room) : RoomInput → Prop
  | .call _ (.addPlayerToLobby player uid) => AppProfile player ∧ ∀ n, uid ≠ botKey n
  | .call now (.addBot requesterId) =>
    ∀ lobby, updateLobby lobbyId (addBot lobbyId requesterId) now (some room.lobby) = .ok lobby →
      numExistingBots room.lobby < colors.length
  | _ => False

variable {lobbyId : LobbyId} {room : Room}

/-- **Step lemma.** -/
theorem Sound.step (h : Sound room.lobby) {i : RoomInput} (hG : BuildsDrawable lobbyId room i) :
    Sound (room.step lobbyId i).lobby := by
  have hstep := Room.step_cases lobbyId room i
  generalize room.step lobbyId i = room' at hstep
  cases hstep with
  | rejected => exact h
  | failed => exact absurd hG id
  | delivered => exact absurd hG id
  | redelivered => exact absurd hG id
  | called now c lobby hok heffect =>
    cases c with
    | addPlayerToLobby player uid =>
      have hplayers : lobby.players = room.lobby.players.set uid player.seat :=
        players_entered heffect rfl
      refine ⟨?_, h.counted.entered hplayers hG.2⟩
      show ∀ uid player, lobby.players.get? uid = some player → Drawable uid player
      rw [hplayers]
      exact Drawable.set h.drawable (hG.1.drawable uid)
    | addBot requesterId =>
      have hplayers : lobby.players = room.lobby.players.set
          (botKey (numExistingBots room.lobby + 1)) (botPlayer (numExistingBots room.lobby)) :=
        players_entered heffect rfl
      refine ⟨?_, h.counted.botEntered hplayers⟩
      show ∀ uid player, lobby.players.get? uid = some player → Drawable uid player
      rw [hplayers]
      exact Drawable.set h.drawable ((drawable_botPlayer _ _).mpr (hG lobby hok))
    | startGame playerId gameSettings random => exact absurd hG id
    | submitWord playerId word => exact absurd hG id
    | requestNewWords playerId random => exact absurd hG id
    | voteOnWord playerId vote => exact absurd hG id

/-- **Run lemma.** -/
theorem sound_of_reachable (h : Room.Reachable lobbyId (BuildsDrawable lobbyId) room) :
    Sound room.lobby := by
  refine h.invariant (I := fun room => Sound room.lobby) ?_ (fun _ _ hsound hG => hsound.step hG)
  intro hostId
  refine ⟨?_, ?_⟩
  · intro uid player hget
    cases hget
  · intro n hkey
    cases hkey

/-- **Every player can be drawn as long as there are colors for the bots.**  In a lobby built by
    the app, with no more bots than colors, every player's numbers are valid indices.  A bot that
    is added to it is a new player, and can be drawn exactly if there is a color left. -/
theorem players_drawable (h : Room.Reachable lobbyId (BuildsDrawable lobbyId) room) :
    (∀ uid player, room.lobby.players.get? uid = some player → Drawable uid player) ∧
    ∀ now requesterId lobby,
      updateLobby lobbyId (addBot lobbyId requesterId) now (some room.lobby) = .ok lobby →
      (∃ key player, key ∉ room.lobby.players.keys ∧
        lobby.players.entries = room.lobby.players.entries ++ [(key, player)]) ∧
      ((∀ uid player, lobby.players.get? uid = some player → Drawable uid player) ↔
        numExistingBots room.lobby < colors.length) := by
  have hsound := sound_of_reachable h
  refine ⟨hsound.drawable, fun now requesterId lobby hok => ?_⟩
  have heffect : CallEffect now room.lobby (.addBot requesterId) lobby := call_ok hok
  have hplayers : lobby.players = room.lobby.players.set
      (botKey (numExistingBots room.lobby + 1)) (botPlayer (numExistingBots room.lobby)) :=
    players_entered heffect rfl
  have hnew := hsound.counted.newBot
  refine ⟨⟨_, botPlayer (numExistingBots room.lobby), hnew, ?_⟩, ?_⟩
  · rw [hplayers, Dict.entries_set_of_not_mem _ hnew]
  · rw [hplayers]
    constructor
    · intro hall
      exact (drawable_botPlayer _ _).mp (hall _ _ (Dict.get?_set_self _ _ _))
    · intro hlt
      exact Drawable.set hsound.drawable ((drawable_botPlayer _ _).mpr hlt)

/-- The profile of a host whose draws are `0`. -/
def sampleHost : PlayerInfo := ⟨some (.str "Ann"), some (.num 0), some (.num 1), true⟩

theorem sampleHost_appProfile : AppProfile sampleHost := by
  have hdata : AppData (randomizeIcon ⟨"Ann", 0, 0, 0, ""⟩ Draw.zero Draw.zero)
      (newGameData (randomizeIcon ⟨"Ann", 0, 0, 0, ""⟩ Draw.zero Draw.zero)) := Or.inl rfl
  refine ⟨_, _, _, _, hdata, ?_⟩
  rw [getPlayerInfo_appData hdata]
  simp [randomizeIcon, Draw.index, Draw.zero, sampleHost]

/-- The host joins and adds bots. -/
def sampleBots (count : ℕ) : List RoomInput :=
  .call 1 (.addPlayerToLobby sampleHost "ann") :: List.replicate count (.call 2 (.addBot "ann"))

/-- Seven bots are drawn. -/
theorem players_drawable_seven : Drawable "bot7" (botPlayer 6) := by
  have hann : ∀ n, "ann" ≠ botKey n := by
    intro n heq
    have hbot : isBot "ann" = true := by
      rw [heq]
      exact isBot_bot _
    cases hbot
  have hreach : Room.Reachable "L" (BuildsDrawable "L")
      ((roomMachine "L").run (Room.initial "ann") (sampleBots 7)) := by
    refine ⟨"ann", sampleBots 7, ⟨⟨sampleHost_appProfile, hann⟩, ?_⟩, rfl⟩
    refine ⟨?_, ?_, ?_, ?_, ?_, ?_, ?_, trivial⟩ <;>
    · intro lobby _
      decide +kernel
  exact (players_drawable hreach).1 "bot7" (botPlayer 6) rfl

/-- Joins of the app, and bots. -/
def AppInput (_ : Room) : RoomInput → Prop
  | .call _ (.addPlayerToLobby player _) => AppProfile player
  | .call _ (.addBot _) => True
  | _ => False

/-- There is no color for the eighth bot. -/
theorem eighth_bot_undrawable :
    ¬ ∀ (lobbyId : LobbyId) (room : Room), Room.Reachable lobbyId AppInput room →
      ∀ uid player, room.lobby.players.get? uid = some player → Drawable uid player := by
  intro hall
  have hbot : Drawable "bot8" (botPlayer 7) := by
    refine hall "L" ((roomMachine "L").run (Room.initial "ann") (sampleBots 8)) ?_ "bot8" _ rfl
    exact ⟨"ann", sampleBots 8, ⟨sampleHost_appProfile, trivial, trivial, trivial, trivial, trivial,
      trivial, trivial, trivial, trivial⟩, rfl⟩
  rw [drawable_botPlayer] at hbot
  exact absurd hbot (by decide)

end PasswordApp
