import PasswordApp.Game.Words

namespace PasswordApp

/-!
# Game — the sizes of the word banks

`assignNewWords` takes the fresh bank from the front of the pool and returns the old one
only afterwards, so it needs a whole bank there; the deal checks one start word and one
bank a player only.  With room for one bank more every bank stays full and every exchange
works; without it, the first exchange already goes wrong (`banks_full_iff`).
-/

/-- Every bank of the lobby has the size `s`. -/
def Lobby.BanksOfSize (lobby : Lobby) (s : ℕ) : Prop :=
  ∀ uid bank, lobby.targetWords.get? uid = some bank → bank.length = s

/-- The pool has what the start word and the full banks leave. -/
theorem WordsShared.length_pool {lobby : Lobby} (h : WordsShared lobby) {s : ℕ}
    (hsize : lobby.BanksOfSize s) :
    lobby.targetWords.size * s + 1 + lobby.availableWords.length = wordList.length := by
  obtain ⟨startWord, hstart⟩ := Option.ne_none_iff_exists'.mp h.startWord
  have hlengths : lobby.targetWords.values.map List.length
      = List.replicate lobby.targetWords.size s := by
    rw [List.eq_replicate_iff, List.length_map, Dict.length_values]
    refine ⟨rfl, ?_⟩
    intro n hn
    obtain ⟨bank, hbank, rfl⟩ := List.mem_map.mp hn
    obtain ⟨uid, hget⟩ := Dict.mem_values_iff.mp hbank
    exact hsize uid bank hget
  -- the banks hold `s` words each
  have hbanks : lobby.targetWords.values.flatten.length = lobby.targetWords.size * s := by
    rw [List.length_flatten, hlengths, List.sum_replicate_nat]
  have htotal : lobby.gameWords.length = wordList.length := h.perm.length_eq
  rw [Lobby.gameWords, hstart, Option.toList_some, List.length_append, List.length_append,
    List.length_singleton, hbanks] at htotal
  omega

namespace Scheduled

variable {settings : Settings} {lobby : Lobby}

theorem size_banks (h : Scheduled settings lobby) :
    lobby.targetWords.size = lobby.players.size := by
  rw [Dict.size, Dict.size, h.banks_keys]

/-- A player has a bank. -/
theorem bank (h : Scheduled settings lobby) {uid : Uid} (huid : uid ∈ lobby.players.keys) :
    ∃ bank, lobby.targetWords.get? uid = some bank :=
  Dict.mem_keys_iff.mp (h.banks_keys ▸ huid)

end Scheduled

/-! ### Exchanges that fail -/

/-- A player's exchange is a run through the pool. -/
theorem Scheduled.assignNewWords {settings : Settings} {lobby : Lobby}
    (h : Scheduled settings lobby) {uid : Uid} (huid : uid ∈ lobby.players.keys)
    (random : ℕ → Draw) :
    (lobby.availableWords = [] → PasswordApp.assignNewWords lobby uid random = .error .typeError) ∧
    (lobby.availableWords ≠ [] →
      ∃ lobby', PasswordApp.assignNewWords lobby uid random = .ok lobby') := by
  obtain ⟨bank, hbank⟩ := h.bank huid
  unfold PasswordApp.assignNewWords
  rw [h.settings_eq, orThrow_some, ok_bind, hbank, orThrow_some, ok_bind]
  constructor
  · intro hempty
    rw [if_pos hempty]
  · intro hpool
    -- the charge needs the player to be seated, nothing else can throw
    obtain ⟨players, hcharged⟩ := addScore_isOk (-1) huid
    rw [if_neg hpool, hcharged]
    exact ⟨_, rfl⟩

/-- The validation of `requestNewWords` never throws in a started game. -/
theorem Scheduled.requestNewWords_valid {settings : Settings} {lobby : Lobby}
    (h : Scheduled settings lobby) (lobbyId : LobbyId) (uid : Uid) (random : ℕ → Draw) :
    ∃ verdict, (requestNewWords lobbyId uid random).validateLobbyFn lobby = .ok verdict := by
  obtain ⟨done, t, hturns⟩ := h.turns_eq
  have hcurr : lobby.currTurn = .ok t := currTurn_eq_ok.mpr ⟨done, hturns⟩
  simp only [requestNewWords, hcurr, ok_bind]
  split
  · split
    · exact ⟨_, rfl⟩
    · exact ⟨_, rfl⟩
  · split
    · exact ⟨_, rfl⟩
    · exact ⟨_, rfl⟩

/-! ### Full banks -/

/-- Every player's bank has `wordBankSize` words. -/
def Lobby.BanksFull (lobby : Lobby) : Prop :=
  ∃ settings, lobby.settings = some settings ∧
    ∀ uid ∈ lobby.players.keys, ∃ bank, lobby.targetWords.get? uid = some bank ∧
      bank.length = settings.wordBankSize

/-- No player's `requestNewWords` fails with an exception. -/
def Lobby.ExchangesWork (lobbyId : LobbyId) (lobby : Lobby) : Prop :=
  ∀ uid ∈ lobby.players.keys, ∀ random now e,
    updateLobby lobbyId (requestNewWords lobbyId uid random) now (some lobby)
      ≠ .error (.exception e)

/-- A game with full banks and room for one bank more. -/
structure Roomy (settings : Settings) (lobby : Lobby) : Prop where
  scheduled : Scheduled settings lobby
  words : WordsShared lobby
  banks : lobby.BanksOfSize settings.wordBankSize
  capacity : (lobby.players.size + 1) * settings.wordBankSize + 1 ≤ wordList.length

namespace Roomy

variable {settings : Settings} {lobby lobby' : Lobby}

theorem pool (h : Roomy settings lobby) :
    settings.wordBankSize ≤ lobby.availableWords.length := by
  have hlen := h.words.length_pool h.banks
  have hcap := h.capacity
  rw [h.scheduled.size_banks] at hlen
  rw [Nat.add_mul] at hcap
  omega

theorem banksFull (h : Roomy settings lobby) : lobby.BanksFull := by
  refine ⟨settings, h.scheduled.settings_eq, ?_⟩
  intro uid huid
  obtain ⟨bank, hbank⟩ := h.scheduled.bank huid
  exact ⟨bank, hbank, h.banks uid bank hbank⟩

theorem exchangesWork (h : Roomy settings lobby) (lobbyId : LobbyId) :
    lobby.ExchangesWork lobbyId := by
  intro uid huid random now e
  obtain ⟨verdict, hvalid⟩ := h.scheduled.requestNewWords_valid lobbyId uid random
  cases verdict with
  | some error =>
    rw [updateLobby_refuses lobbyId hvalid]
    simp
  | none =>
    -- the pool holds a whole bank, so there is something to splice
    have hpool : lobby.availableWords ≠ [] := by
      have hlen := h.pool
      have hpos := settings.wordBankSize_pos
      apply List.ne_nil_of_length_pos
      omega
    obtain ⟨next, hnext⟩ := ((h.scheduled.stamp now).assignNewWords huid random).2 hpool
    rw [updateLobby_commits lobbyId hvalid hnext]
    simp

theorem congr (h : Roomy settings lobby) (hs : Scheduled settings lobby')
    (hwords : WordsShared lobby') (hsame : SameWords lobby lobby')
    (hplayers : lobby'.players.keys = lobby.players.keys) : Roomy settings lobby' where
  scheduled := hs
  words := hwords
  banks := by
    intro uid bank hget
    rw [hsame.banks] at hget
    exact h.banks uid bank hget
  capacity := by
    rw [Dict.size, hplayers]
    exact h.capacity

/-- An exchange in a roomy game gives a full bank. -/
theorem rerolled (h : Roomy settings lobby) {playerId : Uid}
    (hrolled : Rerolled playerId lobby lobby') : Roomy settings lobby' := by
  refine ⟨h.scheduled.rerolled hrolled, h.words.rerolled hrolled, ?_, ?_⟩
  · obtain ⟨settings', hsettings, ditched, hbank, _, players, _, pool, _⟩ := hrolled
    obtain rfl : settings = settings' := by
      rw [h.scheduled.settings_eq] at hsettings
      exact Option.some.inj hsettings
    intro uid bank hget
    by_cases hu : uid = playerId
    · subst hu
      rw [Dict.get?_set_self] at hget
      obtain rfl := Option.some.inj hget
      rw [List.length_take]
      exact Nat.min_eq_left h.pool
    · rw [Dict.get?_set_ne _ _ hu] at hget
      exact h.banks uid bank hget
  · rw [Dict.size, hrolled.seats.players]
    exact h.capacity

theorem step {room : Room} (h : Roomy settings room.lobby) (lobbyId : LobbyId) (i : RoomInput) :
    Roomy settings (room.step lobbyId i).lobby := by
  have hstamp : ∀ now, Roomy settings (room.lobby.stamp now) := fun now =>
    h.congr (h.scheduled.stamp now) (h.words.congr ⟨rfl, rfl, rfl⟩) ⟨rfl, rfl, rfl⟩ rfl
  refine (Room.step_cases lobbyId room i).move_induction h.scheduled.started ?_ ?_ ?_ ?_ ?_ ?_ h
  · intro now word next hplayed
    exact (hstamp now).congr ((hstamp now).scheduled.wordPlayed hplayed)
      ((hstamp now).words.congr hplayed.words) hplayed.words hplayed.seats.players
  · intro now votes tallied next hcast
    exact (hstamp now).congr ((hstamp now).scheduled.votesCast hcast)
      ((hstamp now).words.congr hcast.words) hcast.words hcast.seats.players
  · exact fun now playerId next hrolled => (hstamp now).rerolled hrolled
  · exact fun next hnext => hnext.congr (hnext.scheduled.flags [] next.awaitingBotTurn)
      (hnext.words.congr ⟨rfl, rfl, rfl⟩) ⟨rfl, rfl, rfl⟩ rfl
  · exact fun next hnext => hnext.congr (hnext.scheduled.flags next.awaitingBotVotes false)
      (hnext.words.congr ⟨rfl, rfl, rfl⟩) ⟨rfl, rfl, rfl⟩ rfl
  · exact fun next hnext => hnext.congr hnext.scheduled.stored
      (hnext.words.congr ⟨rfl, rfl, rfl⟩) ⟨rfl, rfl, rfl⟩ rfl

end Roomy

/-! ### When banks stay full -/

theorem Dealt.players_keys {settings : Settings} {lobby next : Lobby}
    (h : Dealt settings lobby next) :
    next.players = lobby.players ∧ next.status = .submission := by
  obtain ⟨_, _, _, _, _, _, _, _, _, _⟩ := h
  exact ⟨rfl, rfl⟩

/-- Full banks and a working exchange need a whole bank in the pool: at the first submission
    a player may exchange, and gets what is there. -/
theorem pool_of_banksFull {lobbyId : LobbyId} {settings : Settings} {room : Room}
    (hs : Scheduled settings room.lobby) (hstatus : room.lobby.status = .submission)
    (hkept : ∀ room', (roomMachine lobbyId).Reaches anyInput room room' →
      room'.lobby.BanksFull ∧ room'.lobby.ExchangesWork lobbyId) :
    settings.wordBankSize ≤ room.lobby.availableWords.length := by
  -- somebody plays, so there is somebody to ask for an exchange
  have hne : room.lobby.players.keys ≠ [] := by
    intro hnil
    have hperm := hs.order_perm
    rw [hnil] at hperm
    exact hs.order_ne_nil (List.perm_nil.mp hperm)
  obtain ⟨uid, rest, hcons⟩ := List.exists_cons_of_ne_nil hne
  have huid : uid ∈ room.lobby.players.keys := by rw [hcons]; exact List.mem_cons_self
  have hvalid : (requestNewWords lobbyId uid zeroDraws).validateLobbyFn room.lobby = .ok none := by
    simp [requestNewWords, hstatus]
  have hexchange := (hs.stamp 0).assignNewWords huid zeroDraws
  -- from an empty pool the exchange would throw
  have hpool : room.lobby.availableWords ≠ [] := by
    intro hempty
    have hthrows := updateLobby_throws lobbyId hvalid (hexchange.1 hempty)
    exact (hkept room (.refl room)).2 uid huid zeroDraws 0 .typeError hthrows
  obtain ⟨next, hnext⟩ := hexchange.2 hpool
  -- the exchange commits, and its bank must be full
  have hstep : (room.step lobbyId (.call 0 (.requestNewWords uid zeroDraws))).lobby
      = next.stored := by
    have hok := updateLobby_commits lobbyId hvalid hnext
    show (room.commit lobbyId (requestNewWords lobbyId uid zeroDraws) 0).lobby = next.stored
    rw [Room.commit, hok]
  have hreach : (roomMachine lobbyId).Reaches anyInput room
      (room.step lobbyId (.call 0 (.requestNewWords uid zeroDraws))) :=
    room.reaches_step trivial
  have hfull := (hkept _ hreach).1
  rw [hstep] at hfull
  obtain ⟨settings', hsettings', hfull⟩ := hfull
  have hrolled := assignNewWords_ok hnext
  obtain rfl : settings = settings' := by
    have hnext_settings : next.settings = some settings' := hsettings'
    rw [hrolled.seats.settings, (hs.stamp 0).settings_eq] at hnext_settings
    exact Option.some.inj hnext_settings
  obtain ⟨bank, hbank, hlen⟩ := hfull uid (by
    show uid ∈ next.players.keys
    rw [hrolled.seats.players]; exact huid)
  obtain ⟨settings', hsettings, _, _, _, _, _, _, _⟩ := hrolled
  obtain rfl : settings = settings' :=
      Option.some.inj ((hs.stamp 0).settings_eq.symm.trans hsettings)
  have hbank : (Dict.set _ uid _).get? uid = some bank := hbank
  rw [Dict.get?_set_self] at hbank
  obtain rfl := Option.some.inj hbank
  rw [List.length_take] at hlen
  have hlen : min settings.wordBankSize room.lobby.availableWords.length
    = settings.wordBankSize := hlen
  omega

/-- **Banks stay full exactly if one bank more would fit.**  After `startGame` is accepted for
    `n` players, every later state has full banks and working exchanges if and only if
    `n + 1` banks and the start word fit into the word list; `startGame` itself only checks
    that `n` do. -/
theorem banks_full_iff {lobbyId : LobbyId} {room : Room} {now : ℕ} {hostId : Uid}
    {settings : Settings} {random : GameDraws} {lobby : Lobby}
    (haccepted : updateLobby lobbyId (startGame lobbyId hostId settings random) now
      (some room.lobby) = .ok lobby) :
    (∀ room', (roomMachine lobbyId).Reaches anyInput
        (room.step lobbyId (.call now (.startGame hostId settings random))) room' →
      room'.lobby.BanksFull ∧ room'.lobby.ExchangesWork lobbyId) ↔
    (room.lobby.players.size + 1) * settings.wordBankSize + 1 ≤ wordList.length := by
  have hcall : updateLobby lobbyId ((Call.startGame hostId settings random).transaction lobbyId) now
      (some room.lobby) = .ok lobby := haccepted
  obtain ⟨_, _, next, hdealt, rfl⟩ := call_ok hcall
  have hstep : (room.step lobbyId (.call now (.startGame hostId settings random))).lobby
      = next.stored := by
    show (room.commit lobbyId (startGame lobbyId hostId settings random) now).lobby = next.stored
    rw [Room.commit, haccepted]
  have hs : Scheduled settings next.stored := (Scheduled.dealt hdealt).stored
  have hwords : WordsShared next.stored := hdealt.shared.1.congr ⟨rfl, rfl, rfl⟩
  have hbanks : next.stored.BanksOfSize settings.wordBankSize := hdealt.shared.2
  obtain ⟨hplayers, hstatus⟩ := hdealt.players_keys
  have hsize : next.stored.players.size = room.lobby.players.size := by
    show next.players.size = room.lobby.players.size
    rw [hplayers]; rfl
  constructor
  · intro hkept
    -- a whole bank is in the pool, and the rest of the word list is dealt
    have hpool := pool_of_banksFull (hstep ▸ hs)
      (by rw [hstep]; exact hstatus) hkept
    have hlen := hwords.length_pool hbanks
    rw [hstep] at hpool
    rw [hs.size_banks, hsize] at hlen
    rw [Nat.add_mul]
    omega
  · intro hcapacity room' hreach
    -- the deal leaves a whole bank in the pool, and every step keeps that
    have hroomy : Roomy settings room'.lobby := by
      refine Machine.Reaches.invariant (I := fun room => Roomy settings room.lobby)
        (fun room i hroomy _ => hroomy.step lobbyId i) ?_ hreach
      rw [hstep]
      exact ⟨hs, hwords, hbanks, by rw [hsize]; exact hcapacity⟩
    exact ⟨hroomy.banksFull, hroomy.exchangesWork lobbyId⟩

/-- `ann`, `ben` and a bot at the default settings, after `startGame`. -/
def sampleFullBanks : Room :=
  (sampleRoom (sampleEntry ["ben"] 1)).step "L"
    (.call 0 (.startGame "ann" defaultSettings ⟨zeroDraws, zeroDraws⟩))

theorem banks_full_iff_sample :
    (sampleFullBanks.step "L" (.call 1 (.requestNewWords "ann" zeroDraws))).lobby.BanksFull := by
  have haccepted : ∃ lobby, updateLobby "L"
      (startGame "L" "ann" defaultSettings ⟨zeroDraws, zeroDraws⟩) 0
      (some (sampleRoom (sampleEntry ["ben"] 1)).lobby) = .ok lobby :=
    exists_of_isOk (by decide +kernel)
  obtain ⟨lobby, haccepted⟩ := haccepted
  have hkept := (banks_full_iff haccepted).mpr (by decide +kernel)
  exact (hkept _ (Room.reaches_step sampleFullBanks trivial)).1

/-- Sixteen players at the default settings leave two words in the pool; the host exchanges. -/
def sampleShortPool : List RoomInput :=
  sampleStart [] 15 defaultSettings ++ [.call 0 (.requestNewWords "ann" zeroDraws)]

/-- The new bank of the host has two words. -/
theorem banks_run_short :
    ¬ ∀ (lobbyId : LobbyId) (room : Room), Room.Reachable lobbyId anyInput room →
      room.lobby.status ≠ .lobby → room.lobby.BanksFull ∧ room.lobby.ExchangesWork lobbyId := by
  intro hallFull
  have hreach : Room.Reachable "L" anyInput (sampleRoom sampleShortPool) :=
    sampleRoom_reachable (admissible_anyInput _ sampleShortPool)
  obtain ⟨⟨settings, hsettings, hfull⟩, _⟩ := hallFull "L" _ hreach (by decide +kernel)
  obtain ⟨bank, hbank, hlen⟩ := hfull "ann" (by decide +kernel)
  have hsize : (sampleRoom sampleShortPool).lobby.settings.map Settings.wordBankSize = some 6 := by
    decide +kernel
  have hshort : ((sampleRoom sampleShortPool).lobby.targetWords.get? "ann").map List.length
      = some 2 := by
    decide +kernel
  rw [hsettings] at hsize
  rw [hbank] at hshort
  simp only [Option.map_some, Option.some.injEq] at hsize hshort
  omega

end PasswordApp
