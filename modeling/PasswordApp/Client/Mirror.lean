import PasswordApp.Client.Session
import PasswordApp.Game.Words

namespace PasswordApp

/-!
# Client — the game screen mirrors the game

Whatever versions a device is told of, and whenever its game screen loads, the screen shows the
turns of the version told of last, with their words and players, the user's own bank on the
buttons, and the word the game starts with.  An app that can read the lobby does not stop.

* `ShowsTurns` — the list of words is that of some values of the turns;
* `Legible` — the app can read the lobby;
* `Synced` — what an app that has not stopped has on its screens;
* `screen_mirrors_game` — in every session.
-/

variable {n : ℕ} {game : Timeline n} {words : List Word} {value : ℕ → Option Json}

/-! ### The list of words -/

/-- The turns have the times of the timeline. -/
def Timeline.Holds (game : Timeline n) (lobby : Lobby) : Prop :=
  ∀ (k : ℕ) (turn : Turn), lobby.turns[k]? = some turn →
    ∃ hk : k < n, turn.created = some (game.created ⟨k, hk⟩)

/-- The words are those of the turns, when `value k` is what was told of turn `k`. -/
def ShowsTurns (game : Timeline n) (words : List Word) (value : ℕ → Option Json) : Prop :=
  ∃ events row, Mirrors game events row words ∧
    ∀ k : Fin n, (k ∈ turnsAdded events ↔ value k ≠ none) ∧
      ∀ v, value k = some v → ∃ e, latest events k = some e ∧ v = .obj e.turn.snapshot ∧
        (getUserFromID e.users e.turn.player).map User.userID = some e.turn.player

/-- The turn can be told of: it is on the timeline, and its player is listed. -/
def Tellable (game : Timeline n) (users : List User) (k : Fin n) (turn : Turn) : Prop :=
  turn.created = some (game.created k) ∧
    (getUserFromID users turn.player).map User.userID = some turn.player

namespace ShowsTurns

theorem nothing (game : Timeline n) : ShowsTurns game [] (fun _ => none) := by
  refine ⟨[], fun _ => ⟨0, none, none, none, none, none⟩, ⟨?_, ?_⟩, fun k => ⟨?_, ?_⟩⟩
  · simp [Keyed.entries, turnsAdded]
  · intro k hk
    cases hk
  · simp [turnsAdded]
  · intro v hv
    cases hv

/-- One more event. -/
theorem append {events : List (TurnEvent n)} {row : Fin n → Word}
    (hvalue : ∀ k : Fin n, (k ∈ turnsAdded events ↔ value k ≠ none) ∧
      ∀ v, value k = some v → ∃ e, latest events k = some e ∧ v = .obj e.turn.snapshot ∧
        (getUserFromID e.users e.turn.player).map User.userID = some e.turn.player)
    {e : TurnEvent n} (htellable : Tellable game e.users e.k e.turn)
    (hturns : turnsAdded (events ++ [e]) = insert e.k (turnsAdded events))
    (hmirrors : Mirrors game (events ++ [e]) row words) :
    ShowsTurns game words (Function.update value e.k (some (.obj e.turn.snapshot))) := by
  refine ⟨_, _, hmirrors, fun k => ?_⟩
  rw [hturns, Finset.mem_insert]
  by_cases hk : k = e.k
  · subst hk
    refine ⟨by simp, fun v hv => ⟨e, latest_append_self events e, ?_, htellable.2⟩⟩
    rw [Function.update_self] at hv
    exact (Option.some.inj hv).symm
  · have hne : (k : ℕ) ≠ e.k := fun heq => hk (Fin.ext heq)
    rw [Function.update_of_ne hne, or_iff_right hk, latest_append_ne events (Ne.symm hk)]
    exact hvalue k

/-- A turn is added. -/
theorem added (h : ShowsTurns game words value) {users : List User} {k : Fin n} {turn : Turn}
    (htellable : Tellable game users k turn) (hnew : value k = none) :
    ∃ words', turnAdded users words (.obj turn.snapshot) = some words' ∧
      ShowsTurns game words' (Function.update value k (some (.obj turn.snapshot))) := by
  obtain ⟨events, row, hmirrors, hvalue⟩ := h
  have hk : k ∉ turnsAdded events := fun hmem => (hvalue k).1.mp hmem hnew
  obtain ⟨words', hobserve, hmirrors'⟩ := hmirrors.added users hk htellable.1
  exact ⟨words', hobserve,
    append hvalue (e := ⟨.childAdded, k, users, turn⟩) htellable (turnsAdded_added ..) hmirrors'⟩

/-- A turn changes. -/
theorem changed (h : ShowsTurns game words value) {users : List User} {k : Fin n} {turn : Turn}
    (htellable : Tellable game users k turn) (hold : value k ≠ none) :
    ∃ words', turnChanged users words (.obj turn.snapshot) = some words' ∧
      ShowsTurns game words' (Function.update value k (some (.obj turn.snapshot))) := by
  obtain ⟨events, row, hmirrors, hvalue⟩ := h
  have hk : k ∈ turnsAdded events := (hvalue k).1.mpr hold
  obtain ⟨words', hobserve, hmirrors'⟩ := hmirrors.changed users hk htellable.1
  refine ⟨words', hobserve,
    append hvalue (e := ⟨.childChanged, k, users, turn⟩) htellable ?_ hmirrors'⟩
  rw [turnsAdded_changed]
  exact (Finset.insert_eq_of_mem hk).symm

/-- All the turns of a version that an observer is told of. -/
theorem fold {f : List Word → Json → Option (List Word)} {P : Option Json → Prop}
    {users : List User}
    (hf : ∀ words value (k : Fin n) turn, ShowsTurns game words value →
      Tellable game users k turn → P (value k) →
      ∃ words', f words (.obj turn.snapshot) = some words' ∧
        ShowsTurns game words' (Function.update value k (some (.obj turn.snapshot))))
    {children : Children} (hnodup : (children.map Prod.fst).Nodup)
    (htold : ∀ e ∈ children, ∃ (k : Fin n) (turn : Turn),
      e = (toString (k : ℕ), .obj turn.snapshot) ∧ Tellable game users k turn ∧ P (value k))
    (h : ShowsTurns game words value) :
    ∃ words', children.foldlM (fun words e => f words e.2) words = some words' ∧
      ShowsTurns game words' (fun k => (assocGet (toString k) children).or (value k)) := by
  induction children generalizing words value with
  | nil => exact ⟨words, rfl, h⟩
  | cons e children ih =>
    rw [List.map_cons, List.nodup_cons] at hnodup
    obtain ⟨k, turn, rfl, htellable, hP⟩ := htold e List.mem_cons_self
    obtain ⟨mid, hfirst, hmid⟩ := hf words value k turn h htellable hP
    have hrest : ∀ e ∈ children, ∃ (j : Fin n) (turn' : Turn),
        e = (toString (j : ℕ), .obj turn'.snapshot) ∧ Tellable game users j turn' ∧
          P (Function.update value k (some (.obj turn.snapshot)) j) := by
      intro e he
      obtain ⟨j, turn', rfl, htellable', hP'⟩ := htold e (List.mem_cons_of_mem _ he)
      refine ⟨j, turn', rfl, htellable', ?_⟩
      rwa [Function.update_of_ne]
      intro heq
      have hkey : toString (j : ℕ) ∈ children.map Prod.fst := List.mem_map_of_mem he
      exact hnodup.1 (heq ▸ hkey)
    obtain ⟨words', hlater, hshows⟩ := ih hnodup.2 hrest hmid
    refine ⟨words', ?_, ?_⟩
    · rw [List.foldlM_cons, hfirst]
      exact hlater
    · have hsame : (fun j => (assocGet (toString j) children).or
          (Function.update value (k : ℕ) (some (.obj turn.snapshot)) j)) =
          fun j => (assocGet (toString j) ((toString (k : ℕ), Json.obj turn.snapshot)
            :: children)).or (value j) := by
        ext j : 1
        by_cases hj : j = k
        · subst hj
          have hnone : assocGet (toString (k : ℕ)) children = none :=
            (assocGet_eq_none_iff _ _).mpr hnodup.1
          rw [hnone, Function.update_self]
          simp [assocGet]
        · have hkey : toString (k : ℕ) ≠ toString j := fun heq => hj (numeral_injective heq).symm
          rw [Function.update_of_ne hj, assocGet, if_neg hkey]
      rw [← hsame]
      exact hshows

end ShowsTurns

/-! ### The turns of a lobby -/

/-- What an observer is told of turn `k`. -/
def turnValue (lobby : Lobby) (k : ℕ) : Option Json := assocGet (toString k) lobby.turnChildren

theorem turnValue_eq (lobby : Lobby) (k : ℕ) :
    turnValue lobby k = (lobby.turns[k]?).map (fun turn => .obj turn.snapshot) :=
  lobby.assocGet_turnChildren k

/-- The players of the turns are in the list of users. -/
def TurnsListed (users : List User) (lobby : Lobby) : Prop :=
  ∀ turn ∈ lobby.turns, (getUserFromID users turn.player).map User.userID = some turn.player

theorem Timeline.Holds.tellable {lobby : Lobby} (h : game.Holds lobby) {users : List User}
    (hlisted : TurnsListed users lobby) {e : String × Json} (he : e ∈ lobby.turnChildren) :
    ∃ (k : Fin n) (turn : Turn), e = (toString (k : ℕ), .obj turn.snapshot) ∧
      Tellable game users k turn := by
  obtain ⟨k, turn, hturn, rfl⟩ := (lobby.mem_turnChildren).mp he
  obtain ⟨hk, hcreated⟩ := h k turn hturn
  exact ⟨⟨k, hk⟩, turn, rfl, hcreated, hlisted turn (List.mem_of_getElem? hturn)⟩

/-- The game screen loads. -/
theorem ShowsTurns.load (device : Device) {lobby : Lobby} (h : game.Holds lobby)
    {users : List User} (hlisted : TurnsListed users lobby) :
    ∃ words, (device.arrange lobby.turnChildren).foldlM
      (fun words e => turnAdded users words e.2) [] = some words ∧
      ShowsTurns game words (turnValue lobby) := by
  have hperm := device.arrange_perm lobby.turnChildren
  have hnodup := (hperm.map Prod.fst).nodup_iff.mpr lobby.turnChildren_nodup
  obtain ⟨words, hwords, hshows⟩ := ShowsTurns.fold (P := (· = none))
    (fun words value k turn h htellable hP => h.added htellable hP) hnodup
    (fun e he => by
      obtain ⟨k, turn, heq, htellable⟩ := h.tellable hlisted (hperm.mem_iff.mp he)
      exact ⟨k, turn, heq, htellable, rfl⟩) (.nothing game)
  refine ⟨words, hwords, ?_⟩
  have hsame : turnValue lobby =
      fun k => (assocGet (toString k) (device.arrange lobby.turnChildren)).or none := by
    ext k : 1
    rw [Option.or_none, turnValue, assocGet_perm hperm lobby.turnChildren_nodup]
  rw [hsame]
  exact hshows

/-- The game screen is told of the next version. -/
theorem ShowsTurns.hear (device : Device) {old new : Lobby}
    (h : ShowsTurns game words (turnValue old)) (hnew : game.Holds new) {users : List User}
    (hlisted : TurnsListed users new) (hlen : old.turns.length ≤ new.turns.length) :
    ∃ mid words', (device.arrange (childrenAdded old.turnChildren new.turnChildren)).foldlM
        (fun words e => turnAdded users words e.2) words = some mid ∧
      (device.arrange (childrenChanged old.turnChildren new.turnChildren)).foldlM
        (fun words e => turnChanged users words e.2) mid = some words' ∧
      ShowsTurns game words' (turnValue new) := by
  have hadded := device.arrange_perm (childrenAdded old.turnChildren new.turnChildren)
  have hchanged := device.arrange_perm (childrenChanged old.turnChildren new.turnChildren)
  have haddedKeys : ((childrenAdded old.turnChildren new.turnChildren).map Prod.fst).Nodup :=
    new.turnChildren_nodup.sublist (List.filter_sublist.map _)
  have hchangedKeys : ((childrenChanged old.turnChildren new.turnChildren).map Prod.fst).Nodup :=
    new.turnChildren_nodup.sublist (List.filter_sublist.map _)
  obtain ⟨mid, hmid, hshows⟩ := h.fold (P := (· = none))
    (fun words value k turn h htellable hP => h.added htellable hP)
    ((hadded.map Prod.fst).nodup_iff.mpr haddedKeys) (fun e he => by
      obtain ⟨hin, hnone⟩ := mem_childrenAdded.mp (hadded.mem_iff.mp he)
      obtain ⟨k, turn, rfl, htellable⟩ := hnew.tellable hlisted hin
      exact ⟨k, turn, rfl, htellable, hnone⟩)
  obtain ⟨words', hwords', hshows'⟩ := hshows.fold (P := (· ≠ none))
    (fun words value k turn h htellable hP => h.changed htellable hP)
    ((hchanged.map Prod.fst).nodup_iff.mpr hchangedKeys) (fun e he => by
      obtain ⟨hin, hthere, _⟩ := mem_childrenChanged.mp (hchanged.mem_iff.mp he)
      obtain ⟨k, turn, rfl, htellable⟩ := hnew.tellable hlisted hin
      refine ⟨k, turn, rfl, htellable, ?_⟩
      rw [ne_eq, Option.or_eq_none_iff, not_and]
      exact fun _ => hthere)
  refine ⟨mid, words', hmid, hwords', ?_⟩
  have hsub : ∀ key, assocGet key old.turnChildren ≠ none →
      assocGet key new.turnChildren ≠ none := by
    intro key hkey
    rw [ne_eq, assocGet_eq_none_iff, not_not] at hkey ⊢
    obtain ⟨e, he, rfl⟩ := List.mem_map.mp hkey
    obtain ⟨k, turn, hturn, rfl⟩ := (old.mem_turnChildren).mp he
    obtain ⟨hk, _⟩ := List.getElem?_eq_some_iff.mp hturn
    have hget : new.turns[k]? = some new.turns[k] := List.getElem?_eq_getElem (by omega)
    exact List.mem_map.mpr ⟨_, (new.mem_turnChildren).mpr ⟨k, _, hget, rfl⟩, rfl⟩
  have hsame : turnValue new = fun k =>
      (assocGet (toString k) (device.arrange
        (childrenChanged old.turnChildren new.turnChildren))).or
      ((assocGet (toString k) (device.arrange
        (childrenAdded old.turnChildren new.turnChildren))).or (turnValue old k)) := by
    ext k : 1
    rw [assocGet_perm hchanged hchangedKeys, assocGet_perm hadded haddedKeys]
    exact (assocGet_told new.turnChildren_nodup hsub (toString k)).symm
  rw [hsame]
  exact hshows'

/-- A word of the list is that of a turn. -/
def Word.ShowsTurn (w : Word) (turn : Turn) : Prop :=
  w.created = turn.created.map (fun created : ℕ => (created : ℤ)) ∧
    w.word = turn.submittedWord.bind Json.asString ∧ w.player.map User.userID = some turn.player

/-- Then the list shows the turns, one by one. -/
theorem ShowsTurns.forall₂ {lobby : Lobby} {game : Timeline lobby.turns.length}
    (hholds : game.Holds lobby) (h : ShowsTurns game words (turnValue lobby)) :
    List.Forall₂ Word.ShowsTurn words lobby.turns := by
  obtain ⟨events, row, hmirrors, hvalue⟩ := h
  have hall : turnsAdded events = Finset.univ := by
    ext k
    rw [(hvalue k).1, turnValue_eq, List.getElem?_eq_getElem k.2]
    simp
  have hwords : words = List.ofFn row := by
    rw [hmirrors.words_eq, hall, Keyed.entries, List.ofFn_eq_map]
    congr 1
    exact Fin.sort_univ lobby.turns.length
  rw [List.forall₂_iff_get]
  refine ⟨by rw [hwords, List.length_ofFn], fun k hk hk' => ?_⟩
  have hmem : (⟨k, hk'⟩ : Fin lobby.turns.length) ∈ turnsAdded events := by
    rw [hall]
    exact Finset.mem_univ _
  have hturn : lobby.turns[k]? = some lobby.turns[k] := List.getElem?_eq_getElem hk'
  obtain ⟨e, hlatest, hsnapshot, hlisted⟩ := (hvalue ⟨k, hk'⟩).2 (.obj lobby.turns[k].snapshot)
    (by rw [turnValue_eq, hturn]; rfl)
  obtain ⟨e', hlatest', _, _, hrow⟩ := hmirrors.delivered _ hmem
  obtain rfl := Option.some.inj (hlatest.symm.trans hlatest')
  have hget : words.get ⟨k, hk⟩ = e.word := by
    simp only [List.get_eq_getElem, hwords, List.getElem_ofFn]
    exact hrow
  have hsame : e.word = TurnEvent.word ⟨e.event, e.k, e.users, lobby.turns[k]⟩ := by
    have hinit := Word.init_snapshot e
    rw [← Json.obj.inj hsnapshot] at hinit
    have hinit' := Word.init_snapshot ⟨e.event, e.k, e.users, lobby.turns[k]⟩
    exact Option.some.inj (hinit.symm.trans hinit')
  have hplayer : e.turn.player = lobby.turns[k].player := by
    have hfield := congrArg (assocGet "player") (Json.obj.inj hsnapshot)
    simp (disch := simp) only [Turn.snapshot, assocGet_presentFields] at hfield
    exact (Json.str.inj (Option.some.inj hfield)).symm
  rw [hget]
  refine ⟨?_, ?_, ?_⟩
  · obtain ⟨_, hcreated⟩ := hholds k _ hturn
    rw [hsame, List.get_eq_getElem, hcreated]
    exact TurnEvent.word_created (e := ⟨e.event, ⟨k, hk'⟩, e.users, lobby.turns[k]⟩) hcreated
  · rw [hsame]
    rfl
  · rw [hsame]
    show (getUserFromID e.users lobby.turns[k].player).map User.userID = _
    rw [← hplayer, hlisted, hplayer]
    rfl

/-! ### The other observers of the game screen -/

variable {device : Device} {lobbyId : LobbyId}

/-- The app can read the lobby: the players are users, six words are on every bank, and the number
    of votes and the times fit an `Int`. -/
structure Legible (lobby : Lobby) : Prop where
  users : AllUsers lobby.players
  banks : ∀ uid words, lobby.targetWords.get? uid = some words → 6 ≤ words.length
  votes : ∀ n, lobby.votesTallied = some n → (n : ℤ) ≤ Json.intMax
  times : ∀ time, lobby.transactionTime = some time → (time : ℤ) ≤ Json.intMax

instance (lobby : Lobby) : Decidable (Legible lobby) :=
  decidable_of_iff ((∀ e ∈ lobby.players.entries, (e.2.user e.1).isSome) ∧
    (∀ e ∈ lobby.targetWords.entries, 6 ≤ e.2.length) ∧
    (∀ n ∈ lobby.votesTallied, (n : ℤ) ≤ Json.intMax) ∧
    ∀ time ∈ lobby.transactionTime, (time : ℤ) ≤ Json.intMax) (by
      constructor
      · rintro ⟨husers, hbanks, hvotes, htimes⟩
        refine ⟨fun uid player hget => ?_, fun uid words hget => ?_, hvotes, htimes⟩
        · exact Option.isSome_iff_exists.mp (husers _ (Dict.get?_eq_some_iff.mp hget))
        · exact hbanks _ (Dict.get?_eq_some_iff.mp hget)
      · rintro ⟨husers, hbanks, hvotes, htimes⟩
        refine ⟨fun e he => ?_, fun e he => ?_, hvotes, htimes⟩
        · exact Option.isSome_iff_exists.mpr (husers e.1 e.2 (Dict.get?_eq_some_iff.mpr he))
        · exact hbanks e.1 e.2 (Dict.get?_eq_some_iff.mpr he))

/-- The word bank on the buttons. -/
def bankShown : Option (List String) → WordBank
  | none => {}
  | some words => ⟨words, words.take 6⟩

theorem asStrings_words (words : List String) :
    Json.asStrings (.arr (words.map .str)) = some words := by
  rw [Json.asStrings]
  induction words with
  | nil => rfl
  | cons w words ih =>
    rw [List.map_cons, List.mapM_cons, ih]
    rfl

theorem wordBankSet_words {words : List String} (hlen : 6 ≤ words.length) (bank : WordBank)
    (key : String) :
    wordBankSet bank (key, .arr (words.map .str)) = some ⟨words, words.take 6⟩ := by
  rw [wordBankSet, asStrings_words]
  simp only [setWordBankText]
  rw [if_neg (by omega)]

/-- The children of a bank of six words or more. -/
theorem privateChildren_eq {lobby : Lobby} {uid : Uid} {words : List String}
    (h : lobby.targetWords.get? uid = some words) (hlen : 6 ≤ words.length) :
    lobby.privateChildren uid = [("targetWords", .arr (words.map .str))] := by
  have hleaf : (Json.arr (words.map .str)).stored = some (.arr (words.map .str)) := by
    cases words with
    | nil => simp at hlen
    | cons w words => simp [Json.stored, Json.hasLeaf, Json.anyLeaf]
  simp [Lobby.privateChildren, h, presentFields, hleaf]

theorem bank_load (device : Device) {lobby : Lobby} (hlegible : Legible lobby) (uid : Uid) :
    (device.arrange (lobby.privateChildren uid)).foldlM wordBankSet {}
      = some (bankShown (lobby.targetWords.get? uid)) := by
  cases hget : lobby.targetWords.get? uid with
  | none =>
    have hnone : lobby.privateChildren uid = [] := by simp [Lobby.privateChildren, hget]
    rw [hnone, List.perm_nil.mp (device.arrange_perm [])]
    rfl
  | some words =>
    have hlen := hlegible.banks uid words hget
    rw [privateChildren_eq hget hlen, List.perm_singleton.mp (device.arrange_perm _)]
    show (wordBankSet {} _).bind some = _
    rw [wordBankSet_words hlen]
    rfl

/-- The bank is set anew, or it is the same. -/
theorem bank_hear (device : Device) {old new : Lobby} (uid : Uid) (hold : Legible old)
    (hnew : Legible new) (hkeys : new.targetWords.keys = old.targetWords.keys) :
    (device.arrange (childrenAdded (old.privateChildren uid) (new.privateChildren uid))).foldlM
        wordBankSet (bankShown (old.targetWords.get? uid))
      = some (bankShown (old.targetWords.get? uid)) ∧
    (device.arrange (childrenChanged (old.privateChildren uid) (new.privateChildren uid))).foldlM
        wordBankSet (bankShown (old.targetWords.get? uid))
      = some (bankShown (new.targetWords.get? uid)) := by
  have hnothing : ∀ bank : WordBank, (device.arrange []).foldlM wordBankSet bank = some bank := by
    intro bank
    rw [List.perm_nil.mp (device.arrange_perm [])]
    rfl
  cases hget : new.targetWords.get? uid with
  | none =>
    have hget' : old.targetWords.get? uid = none := by
      rw [Dict.get?_eq_none_iff, ← hkeys]
      exact Dict.get?_eq_none_iff.mp hget
    have hnone : new.privateChildren uid = [] := by simp [Lobby.privateChildren, hget]
    rw [hget', hnone]
    exact ⟨hnothing _, hnothing _⟩
  | some words =>
    have hmem : uid ∈ old.targetWords.keys := hkeys ▸ Dict.mem_keys_of_get? hget
    obtain ⟨oldWords, hget'⟩ := Dict.mem_keys_iff.mp hmem
    rw [hget', privateChildren_eq hget (hnew.banks uid words hget),
      privateChildren_eq hget' (hold.banks uid oldWords hget')]
    have hadded : childrenAdded [("targetWords", Json.arr (oldWords.map .str))]
        [("targetWords", .arr (words.map .str))] = [] := by simp [childrenAdded, assocGet]
    refine ⟨by rw [hadded]; exact hnothing _, ?_⟩
    by_cases hsame : oldWords = words
    · subst hsame
      rw [childrenChanged_self (by simp)]
      exact hnothing _
    · have hne : Json.arr (oldWords.map .str) ≠ .arr (words.map .str) := by
        intro heq
        have hwords := congrArg Json.asStrings heq
        rw [asStrings_words, asStrings_words] at hwords
        exact hsame (Option.some.inj hwords)
      have hchanged : childrenChanged [("targetWords", Json.arr (oldWords.map .str))]
          [("targetWords", .arr (words.map .str))] = [("targetWords", .arr (words.map .str))] := by
        simp only [childrenChanged, assocGet]
        simpa using hne
      rw [hchanged, List.perm_singleton.mp (device.arrange_perm _)]
      show (wordBankSet _ _).bind some = _
      rw [wordBankSet_words (hnew.banks uid words hget)]
      rfl

/-- Every added player is read. -/
theorem playersAdded_isSome {lobby : Lobby} (hlegible : Legible lobby) {children : Children}
    (hchildren : ∀ e ∈ children, e ∈ lobby.playerChildren) (users : List User) :
    ∃ users', children.foldlM playerAdded users = some users' := by
  induction children generalizing users with
  | nil => exact ⟨users, rfl⟩
  | cons e children ih =>
    obtain ⟨entry, hentry, rfl⟩ := List.mem_map.mp (hchildren e List.mem_cons_self)
    obtain ⟨user, huser⟩ := hlegible.users entry.1 entry.2 (Dict.get?_eq_some_iff.mpr hentry)
    have hadded : playerAdded users (entry.1, .obj entry.2.snapshot) = some (users ++ [user]) := by
      have hinit : User.init entry.2.snapshot entry.1 = some user := huser
      simp [playerAdded, Json.asDictionary, hinit]
    obtain ⟨users', hrest⟩ := ih (fun e he => hchildren e (List.mem_cons_of_mem _ he))
      (users ++ [user])
    exact ⟨users', by rw [List.foldlM_cons, hadded]; exact hrest⟩

/-- Every changed score is read. -/
theorem scoresChanged_isSome {lobby : Lobby} (hlegible : Legible lobby) {children : Children}
    (hchildren : ∀ e ∈ children, e ∈ lobby.playerChildren) {users : List User}
    (hlisted : ∀ uid ∈ lobby.players.keys, uid ∈ users.map User.userID) :
    ∃ users', children.foldlM scoreChanged users = some users' := by
  induction children generalizing users with
  | nil => exact ⟨users, rfl⟩
  | cons e children ih =>
    obtain ⟨entry, hentry, rfl⟩ := List.mem_map.mp (hchildren e List.mem_cons_self)
    have hget : lobby.players.get? entry.1 = some entry.2 := Dict.get?_eq_some_iff.mpr hentry
    obtain ⟨user, huser⟩ := hlegible.users entry.1 entry.2 hget
    obtain ⟨score, hscore⟩ : ∃ score, Json.asInt (.num entry.2.score) = some score := by
      rw [Player.user_eq] at huser
      simp only [Option.bind_eq_bind, Option.bind_eq_some_iff] at huser
      obtain ⟨_, _, _, _, _, _, score, hscore, _⟩ := huser
      exact ⟨score, hscore⟩
    obtain ⟨listed, hindex, _⟩ := retrieveUserIndex_spec (hlisted _ (Dict.mem_keys_of_get? hget))
    have hfield : assocGet "score" entry.2.snapshot = some (.num entry.2.score) := by
      simp (disch := simp) only [Player.snapshot, assocGet_presentFields]
      rfl
    have hchanged : ∃ mid, scoreChanged users (entry.1, .obj entry.2.snapshot) = some mid := by
      simp [scoreChanged, Json.asDictionary, hfield, hscore, hindex]
    obtain ⟨mid, hmid⟩ := hchanged
    obtain ⟨users', hrest⟩ := ih (fun e he => hchildren e (List.mem_cons_of_mem _ he))
      (fun uid huid => by rw [userIDs_scoreChanged hmid]; exact hlisted uid huid)
    exact ⟨users', by rw [List.foldlM_cons, hmid]; exact hrest⟩

/-- Every number of votes is read. -/
theorem votesChanged_isSome {lobby : Lobby} (hlegible : Legible lobby) {children : Children}
    (hchildren : ∀ e ∈ children, e ∈ lobby.publicChildren) (users : List User) (votes : ℤ) :
    ∃ votes', children.foldlM (votesChanged users) votes = some votes' := by
  induction children generalizing votes with
  | nil => exact ⟨votes, rfl⟩
  | cons e children ih =>
    have hread : ∃ votes', votesChanged users votes e = some votes' := by
      unfold votesChanged
      split
      · rename_i hkey
        have hmem := hchildren e List.mem_cons_self
        simp only [Lobby.publicChildren, presentFields, List.mem_filterMap, List.mem_cons,
          List.not_mem_nil, or_false] at hmem
        obtain ⟨field, hfield, hentry⟩ := hmem
        obtain ⟨v, hv, rfl⟩ := Option.map_eq_some_iff.mp hentry
        clear hentry
        -- the other children have another key
        rcases hfield with rfl | rfl | rfl | rfl | rfl | rfl | rfl <;> simp at hkey
        obtain ⟨tallied, htallied, rfl⟩ := Option.map_eq_some_iff.mp hv
        exact ⟨_, by simp [Json.asInt_natCast (hlegible.votes tallied htallied)]; rfl⟩
      · exact ⟨0, rfl⟩
    obtain ⟨mid, hmid⟩ := hread
    obtain ⟨votes', hrest⟩ := ih (fun e he => hchildren e (List.mem_cons_of_mem _ he)) mid
    exact ⟨votes', by rw [List.foldlM_cons, hmid]; exact hrest⟩

/-! ### Sessions -/

/-- The clock goes on, and the app can read what is stored. -/
def Readable (lobbyId : LobbyId) (room : Room) (i : RoomInput) : Prop :=
  ClockRuns room i ∧ Legible (room.step lobbyId i).lobby

instance (room : Room) (i : RoomInput) : Decidable (Readable lobbyId room i) :=
  inferInstanceAs (Decidable (_ ∧ _))

theorem legible_of_reachable {room : Room}
    (h : Room.Reachable lobbyId (Readable lobbyId) room) : Legible room.lobby := by
  refine h.invariant (I := fun room => Legible room.lobby) ?_ (fun room i _ hG => hG.2)
  intro hostId
  refine ⟨?_, ?_, ?_, ?_⟩
  · rintro uid other ⟨⟩
  · rintro uid words ⟨⟩
  · rintro n ⟨⟩
  · rintro time ⟨⟩

/-- An app that has not stopped, and what its screens have. -/
structure Synced (app : App) (room : Room) : Prop where
  tracks : app.Tracks room
  idle : app.screen ≠ .game → app.words = [] ∧ app.bank = {}
  turns : app.screen = .game → ∀ (n : ℕ) (game : Timeline n), game.Holds room.lobby →
    ShowsTurns game app.words (turnValue room.lobby)
  bank : app.screen = .game → app.bank = bankShown (room.lobby.targetWords.get? app.userID)
  startWord : app.screen = .game → room.lobby.startWord = some app.startingWord

/-- Every player of a turn is in the list of the lobby's players. -/
theorem Lists.turnsListed {users : List User} {lobby : Lobby} (h : Lists users lobby)
    {settings : Settings} (hs : Scheduled settings lobby) : TurnsListed users lobby := by
  intro turn hturn
  obtain ⟨user, huser, hid⟩ := List.mem_map.mp (h.mem_iff.mpr (hs.player_mem hturn))
  have hfound : (getUserFromID users turn.player).isSome = true := by
    rw [getUserFromID, List.find?_isSome]
    exact ⟨user, huser, by simpa using hid⟩
  obtain ⟨found, hfind⟩ := Option.isSome_iff_exists.mp hfound
  rw [hfind, Option.map_some]
  have hsame := List.find?_some hfind
  simpa using hsame

theorem reaches_anyInput {G : Room → RoomInput → Prop} {old new : Room}
    (h : (roomMachine lobbyId).Reaches G old new) :
    (roomMachine lobbyId).Reaches anyInput old new :=
  h.mono (fun _ _ _ => trivial)

/-- What a later version of a started game has in common with an earlier one. -/
theorem later_version {old new : Room} (hold : Room.Reachable lobbyId (Readable lobbyId) old)
    (hreach : (roomMachine lobbyId).Reaches (Readable lobbyId) old new)
    (hstarted : old.lobby.status ≠ .lobby) :
    ∃ settings, Scheduled settings new.lobby ∧ SameSeats old.lobby new.lobby ∧
      old.lobby.turns.length ≤ new.lobby.turns.length ∧
      new.lobby.startWord = old.lobby.startWord ∧
      ∀ (n : ℕ) (game : Timeline n), game.Holds new.lobby → game.Holds old.lobby := by
  obtain ⟨settings, hs⟩ := scheduled_of_reachable hold hstarted
  have hfree := reaches_anyInput hreach
  obtain ⟨hs', hseats⟩ := hs.kept hfree
  have hprefix := creationTimes_of_reaches hs hreach
  have hlen := hprefix.length_le
  simp only [Lobby.creationTimes, List.length_map] at hlen
  refine ⟨settings, hs', hseats, hlen, startWord_of_reaches hs hfree, ?_⟩
  intro n game hholds k turn hturn
  -- the turn has the time it has later
  obtain ⟨later, hlater⟩ := hprefix
  have hk := (List.getElem?_eq_some_iff.mp hturn).1
  have hnew : new.lobby.turns[k]? = some new.lobby.turns[k] := List.getElem?_eq_getElem (by omega)
  obtain ⟨hkn, hcreated⟩ := hholds k _ hnew
  refine ⟨hkn, ?_⟩
  have htime : new.lobby.creationTimes[k]? = old.lobby.creationTimes[k]? := by
    rw [← hlater, List.getElem?_append_left (by simpa [Lobby.creationTimes] using hk)]
  simp only [Lobby.creationTimes, List.getElem?_map, hturn, hnew, Option.map_some] at htime
  rw [← Option.some.inj htime, hcreated]

/-- A lobby the clock ran in has a timeline of its own. -/
theorem exists_timeline {room : Room} (h : Room.Reachable lobbyId (Readable lobbyId) room)
    (hstarted : room.lobby.status ≠ .lobby) :
    ∃ game : Timeline room.lobby.turns.length, game.Holds room.lobby := by
  obtain ⟨hostId, hreach⟩ := h
  have hclock : Room.Reachable lobbyId ClockRuns room := ⟨hostId, hreach.mono (fun _ _ hG => hG.1)⟩
  obtain ⟨game, hgame⟩ := timeline_of_run hclock hstarted
    (legible_of_reachable ⟨hostId, hreach⟩).times
  exact ⟨game, fun k turn hturn => hgame room hclock hstarted (.refl _) k turn hturn⟩

namespace Synced

variable {app : App} {old new : Room}

/-- **Step lemma, the game screen is told of a version.** -/
theorem hearGame (device : Device) (h : Synced app old) (hscreen : app.screen = .game)
    (hold : Room.Reachable lobbyId (Readable lobbyId) old)
    (hreach : (roomMachine lobbyId).Reaches (Readable lobbyId) old new) :
    ∃ app', App.hearGame device app old.lobby new.lobby = some app' ∧ app'.screen = .game ∧
      app'.userID = app.userID ∧
      (∀ (n : ℕ) (game : Timeline n), game.Holds new.lobby →
        ShowsTurns game app'.words (turnValue new.lobby)) ∧
      app'.bank = bankShown (new.lobby.targetWords.get? app'.userID) ∧
      new.lobby.startWord = some app'.startingWord := by
  have htracks := h.tracks
  rw [App.Tracks, hscreen] at htracks
  obtain ⟨hlists, hstarted⟩ := htracks
  obtain ⟨settings, hs, hseats, hlen, hword, hholds⟩ := later_version hold hreach hstarted
  have hlegible := legible_of_reachable (hold.trans hreach)
  obtain ⟨hbank, hbank'⟩ :=
    bank_hear device app.userID (legible_of_reachable hold) hlegible hseats.banks
  have hplayers := device.arrange_perm
    (childrenChanged old.lobby.playerChildren new.lobby.playerChildren)
  have hlisted : ∀ uid ∈ new.lobby.players.keys, uid ∈ app.users.map User.userID := by
    intro uid huid
    rwa [hlists.mem_iff, ← hseats.players]
  obtain ⟨users, husers⟩ := scoresChanged_isSome hlegible
    (fun e he => (mem_childrenChanged.mp (hplayers.mem_iff.mp he)).1) hlisted
  have hlists' : Lists users new.lobby := by
    rw [Lists, hseats.players, userIDs_scoresChanged husers]
    exact hlists
  have hturns : ∀ (n : ℕ) (game : Timeline n), game.Holds new.lobby → _ :=
    fun n game hgame => (h.turns hscreen n game (hholds n game hgame)).hear device hgame
      (hlists'.turnsListed hs) hlen
  obtain ⟨game, hgame⟩ := exists_timeline (hold.trans hreach) hs.started
  obtain ⟨mid, words, hmid, hwords, _⟩ := hturns _ game hgame
  have hpublic := device.arrange_perm
    (childrenChanged old.lobby.publicChildren new.lobby.publicChildren)
  obtain ⟨numberOfVotes, hvotes⟩ := votesChanged_isSome hlegible
    (fun e he => (mem_childrenChanged.mp (hpublic.mem_iff.mp he)).1) users app.numberOfVotes
  refine ⟨{ app with
    users := users
    bank := bankShown (new.lobby.targetWords.get? app.userID)
    words := words
    numberOfVotes := numberOfVotes
    flags := (device.arrange (childrenChanged old.lobby.publicChildren
      new.lobby.publicChildren)).foldl statusChanged app.flags },
    ?_, hscreen, rfl, ?_, rfl, hword.trans (h.startWord hscreen)⟩
  · simp only [App.hearGame, h.bank hscreen, hbank, hbank', husers, hmid, hwords, hvotes,
      Option.bind_eq_bind, Option.bind_some]
  · intro n game' hgame'
    obtain ⟨mid', words', hmid', hwords', hshows⟩ := hturns n game' hgame'
    obtain rfl := Option.some.inj (hmid.symm.trans hmid')
    obtain rfl := Option.some.inj (hwords.symm.trans hwords')
    exact hshows

/-- **Step lemma, a version is told of.** -/
theorem hear (h : Synced app old) (hold : Room.Reachable lobbyId (Readable lobbyId) old)
    (hreach : (roomMachine lobbyId).Reaches (Readable lobbyId) old new) :
    ∃ app', app.hear device old.lobby new.lobby = some app' ∧ Synced app' new := by
  have htracks : ∀ {app'}, app.hear device old.lobby new.lobby = some app' → app'.Tracks new := by
    intro app' hhear
    obtain ⟨hostId, hold⟩ := hold
    exact h.tracks.hear ⟨hostId, reaches_anyInput hold⟩ (reaches_anyInput hreach) hhear
  have hkept : app.screen ≠ .game → app.hear device old.lobby new.lobby = some app →
      Synced app new := fun hscreen hhear =>
    ⟨htracks hhear, h.idle, fun hgame => absurd hgame hscreen, fun hgame => absurd hgame hscreen,
      fun hgame => absurd hgame hscreen⟩
  cases hscreen : app.screen with
  | newGame =>
    have hhear : app.hear device old.lobby new.lobby = some app := by rw [App.hear, hscreen]
    exact ⟨app, hhear, hkept (by simp [hscreen]) hhear⟩
  | segueStartGame =>
    have hhear : app.hear device old.lobby new.lobby = some app := by rw [App.hear, hscreen]
    exact ⟨app, hhear, hkept (by simp [hscreen]) hhear⟩
  | lobby =>
    have hplayers := device.arrange_perm
      (childrenAdded old.lobby.playerChildren new.lobby.playerChildren)
    obtain ⟨users, husers⟩ := playersAdded_isSome (legible_of_reachable (hold.trans hreach))
      (fun e he => (mem_childrenAdded.mp (hplayers.mem_iff.mp he)).1) app.users
    have hhear : app.hear device old.lobby new.lobby = some { app with
        users := users
        screen := (device.arrange (childrenChanged old.lobby.publicChildren
          new.lobby.publicChildren)).foldl gameStatus app.screen } := by
      rw [App.hear, hscreen]
      simp only [App.hearLobby, husers, Option.bind_eq_bind, Option.bind_some, hscreen]
    refine ⟨_, hhear, htracks hhear, fun _ => h.idle (by simp [hscreen]), ?_, ?_, ?_⟩
    all_goals
      intro hgame
      simp only at hgame
      rcases foldl_gameStatus _ app.screen with hsame | ⟨hsegue, _⟩
      · rw [hsame, hscreen] at hgame
        cases hgame
      · rw [hsegue] at hgame
        cases hgame
  | game =>
    obtain ⟨app', hhear, hgame, _, hturns, hbank, hword⟩ := h.hearGame device hscreen hold hreach
    have hhear' : app.hear device old.lobby new.lobby = some app' := by
      rw [App.hear, hscreen, hhear]
    exact ⟨app', hhear', htracks hhear', fun hother => absurd hgame hother, fun _ => hturns,
      fun _ => hbank, fun _ => hword⟩

/-- The voting buttons and the counter are apart from the rest. -/
theorem of_flags (h : Synced app old) (flags : Flags) (numberOfVotes : ℤ) :
    Synced { app with flags := flags, numberOfVotes := numberOfVotes } old :=
  ⟨h.tracks, h.idle, h.turns, h.bank, h.startWord⟩

/-- The lobby screen loads. -/
theorem loadLobby (h : Synced app old) (hold : Room.Reachable lobbyId (Readable lobbyId) old)
    (hscreen : app.screen = .newGame) :
    ∃ app', app.act device old.lobby .loadLobby = some app' ∧ Synced app' old := by
  have hplayers := device.arrange_perm old.lobby.playerChildren
  obtain ⟨users, husers⟩ :=
    playersAdded_isSome (legible_of_reachable hold) (fun e he => hplayers.mem_iff.mp he) app.users
  have hact : app.act device old.lobby .loadLobby =
      some { app with screen := .lobby, users := users } := by
    simp only [App.act, if_pos hscreen, App.loadLobby, husers, Option.bind_eq_bind,
      Option.bind_some]
  refine ⟨_, hact, h.tracks.act hact, fun _ => h.idle (by simp [hscreen]), ?_, ?_, ?_⟩ <;>
    rintro ⟨⟩

/-- The game screen loads. -/
theorem loadGame (h : Synced app old) (hold : Room.Reachable lobbyId (Readable lobbyId) old)
    (hscreen : app.screen = .segueStartGame) :
    ∃ app', app.act device old.lobby .loadGame = some app' ∧ Synced app' old := by
  have hseen := h.tracks
  rw [App.Tracks, hscreen] at hseen
  obtain ⟨hlists, hstarted⟩ := hseen
  obtain ⟨settings, hs⟩ := scheduled_of_reachable hold hstarted
  obtain ⟨hwords, hbank⟩ := h.idle (by simp [hscreen])
  obtain ⟨word, hword⟩ := Option.ne_none_iff_exists'.mp
    (wordsShared_of_reachable hold hstarted).startWord
  have hturns : ∀ (n : ℕ) (game : Timeline n), game.Holds old.lobby → _ :=
    fun n game hgame => ShowsTurns.load device hgame (hlists.turnsListed hs)
  obtain ⟨game, hgame⟩ := exists_timeline hold hstarted
  obtain ⟨words, hloaded, _⟩ := hturns _ game hgame
  have hact : app.act device old.lobby .loadGame = some { app with
      screen := .game
      userID := retrieveUserID device.canonical app.users device.user
      bank := bankShown (old.lobby.targetWords.get?
        (retrieveUserID device.canonical app.users device.user))
      words := words
      startingWord := word } := by
    simp only [App.act, if_pos hscreen, App.loadGame, hbank,
      bank_load device (legible_of_reachable hold), hwords, hloaded, hword, Option.bind_eq_bind,
      Option.bind_some]
  refine ⟨_, hact, h.tracks.act hact, fun hother => absurd rfl hother, fun _ n game' hgame' => ?_,
    fun _ => rfl, fun _ => hword⟩
  obtain ⟨words', hloaded', hshows⟩ := hturns n game' hgame'
  obtain rfl := Option.some.inj (hloaded.symm.trans hloaded')
  exact hshows

/-- **Step lemma, the user acts.** -/
theorem act (h : Synced app old) (hold : Room.Reachable lobbyId (Readable lobbyId) old)
    (action : AppAction) :
    ∃ app', app.act device old.lobby action = some app' ∧ Synced app' old := by
  cases action with
  | loadLobby =>
    by_cases hscreen : app.screen = .newGame
    · exact h.loadLobby hold hscreen
    · exact ⟨app, by rw [App.act, if_neg hscreen], h⟩
  | loadGame =>
    by_cases hscreen : app.screen = .segueStartGame
    · exact h.loadGame hold hscreen
    · exact ⟨app, by rw [App.act, if_neg hscreen], h⟩
  | vote =>
    by_cases hscreen : app.screen = .game
    · exact ⟨_, by rw [App.act, if_pos hscreen],
        h.of_flags { app.flags with hasVoted := true } app.numberOfVotes⟩
    · exact ⟨app, by rw [App.act, if_neg hscreen], h⟩
  | chatChanged =>
    by_cases hscreen : app.screen = .game
    · exact ⟨_, by rw [App.act, if_pos hscreen], h.of_flags app.flags 0⟩
    · exact ⟨app, by rw [App.act, if_neg hscreen], h⟩

theorem start (hostId : Uid) : Synced {} (Room.initial hostId) := by
  refine ⟨rfl, fun _ => ⟨rfl, rfl⟩, ?_, ?_, ?_⟩ <;> rintro ⟨⟩

end Synced

/-- **Run lemma.**  An app that can read its lobby does not stop. -/
theorem synced_of_reaches {hostId : Uid} {s : Session}
    (h : (session device lobbyId).machine.Reaches (Follower.Guard (Readable lobbyId))
      (Session.start hostId) s) : ∃ app, s.view = some app ∧ Synced app s.seen := by
  have hstart : InOrder (roomMachine lobbyId) (Readable lobbyId) (Room.initial hostId)
      (Session.start hostId) := Follower.inOrder_start (f := session device lobbyId) _ _
  refine Follower.follows (V := fun view seen => ∃ app, view = some app ∧ Synced app seen) ?_ ?_
    hstart ⟨{}, rfl, Synced.start hostId⟩ h
  · rintro view old new hold hreach ⟨app, rfl, hsynced⟩
    exact hsynced.hear ⟨hostId, hold⟩ hreach
  · rintro view old action hold ⟨app, rfl, hsynced⟩
    exact hsynced.act ⟨hostId, hold⟩ action

theorem inOrder_of_readable {hostId : Uid} {s : Session}
    (h : (session device lobbyId).machine.Reaches (Follower.Guard (Readable lobbyId))
      (Session.start hostId) s) :
    InOrder (roomMachine lobbyId) (Readable lobbyId) (Room.initial hostId) s :=
  Follower.inOrder_of_reaches (f := session device lobbyId) (Follower.inOrder_start _ _) h

/-- The list of users and the rows of the game screen. -/
theorem Synced.onGame {app : App} {room : Room} (h : Synced app room)
    (hreach : Room.Reachable lobbyId (Readable lobbyId) room) (hgame : app.screen = .game) :
    Lists app.users room.lobby ∧ room.lobby.status ≠ .lobby ∧
      List.Forall₂ Word.ShowsTurn app.words room.lobby.turns := by
  have htracks := h.tracks
  rw [App.Tracks, hgame] at htracks
  obtain ⟨game, hholds⟩ := exists_timeline hreach htracks.2
  exact ⟨htracks.1, htracks.2, (h.turns hgame _ game hholds).forall₂ hholds⟩

/-- **The game screen mirrors the game.**  An app that can read its lobby never stops, and its game
    screen shows the version of the lobby it was told of last. -/
theorem screen_mirrors_game {hostId : Uid} {s : Session}
    (h : (session device lobbyId).machine.Reaches (Follower.Guard (Readable lobbyId))
      (Session.start hostId) s) :
    ∃ app, s.view = some app ∧ (app.screen = .game →
      (app.users.map User.userID).Perm s.seen.lobby.players.keys ∧
      List.Forall₂ Word.ShowsTurn app.words s.seen.lobby.turns ∧
      app.bank = bankShown (s.seen.lobby.targetWords.get? app.userID) ∧
      s.seen.lobby.startWord = some app.startingWord ∧
      (s.pending = [] → s.seen = s.source)) := by
  obtain ⟨app, happ, hsynced⟩ := synced_of_reaches h
  have horder := inOrder_of_readable h
  refine ⟨app, happ, fun hgame => ?_⟩
  obtain ⟨hlists, _, hwords⟩ := hsynced.onGame ⟨hostId, horder.start⟩ hgame
  exact ⟨hlists, hwords, hsynced.bank hgame, hsynced.startWord hgame, horder.up_to_date⟩

theorem screen_mirrors_game_sample :
    ∃ app, (sampleSession (sampleLoading ++ samplePlay)).view = some app ∧ app.screen = .game ∧
      List.Forall₂ Word.ShowsTurn app.words
        (sampleSession (sampleLoading ++ samplePlay)).seen.lobby.turns := by
  have hreach : (session sampleDevice "L").machine.Reaches (Follower.Guard (Readable "L"))
      (Session.start "ann") (sampleSession (sampleLoading ++ samplePlay)) :=
    ⟨_, by decide +kernel, rfl⟩
  obtain ⟨app, happ, hshown⟩ := screen_mirrors_game hreach
  have hscreen : (sampleSession (sampleLoading ++ samplePlay)).view.map App.screen
      = some .game := by
    decide +kernel
  rw [happ, Option.map_some, Option.some.injEq] at hscreen
  exact ⟨app, happ, hscreen, (hshown hscreen).2.1⟩

end PasswordApp
