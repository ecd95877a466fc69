import Mathlib.Data.Int.ConditionallyCompleteOrder
import PasswordApp.Client.Users
import PasswordApp.Game.Clock
import PasswordApp.Library.Keyed

namespace PasswordApp

/-!
# Client — the turns on the game screen

The game screen lists the words played.  One observer appends the turns that are added, another
one replaces those that are changed; a turn is found by the time it was created, which is its id,
and both observers sort the list by that time.

* `Word.init` / `sortWords` / `turnAdded` / `turnChanged` — the screen;
* `Timeline` / `Delivered` — the turns of a game, and the events a screen may be told of them;
* `Mirrors` — the list is the table of the turns added, each as it was delivered last;
* `words_mirror_turns` — so it is after every event;
* `timeline_of_run` — the turns of a game have such a timeline.
-/

/-! ### The game screen -/

/-- `Word.swift`. -/
structure Word where
  id : ℤ
  word : Option String
  created : Option ℤ
  player : Option User
  wasChallenged : Option Bool
  wasSubmittersWord : Option Bool
  deriving DecidableEq

/-- `Word(dictionary:)`; a turn without a player stops the app.  The key of the last field is
    the one the source reads. -/
def Word.init (users : List User) (dictionary : List (String × Json)) : Option Word := do
  let created := (assocGet "created" dictionary).bind Json.asInt
  let id ← (assocGet "player" dictionary).bind Json.asString
  some {
    id := created.getD 0
    word := (assocGet "submittedWord" dictionary).bind Json.asString
    created := created
    player := getUserFromID users id
    wasChallenged := (assocGet "wasChallenged" dictionary).bind Json.asBool
    wasSubmittersWord := (assocGet "wasSubmiiteresWord" dictionary).bind Json.asBool }

/-- `left.created! < right.created!`: comparing a word without a time stops the app. -/
def sortWords (words : List Word) : Option (List Word) :=
  if 2 ≤ words.length ∧ ∃ w ∈ words, w.created = none then none
  else some (Keyed.sort (fun w => w.created.getD 0) words)

/-- The observer of added turns. -/
def turnAdded (users : List User) (words : List Word) : Json → Option (List Word)
  | .obj wordDetails => do
    let newWord ← Word.init users wordDetails
    sortWords (words ++ [newWord])
  | _ => sortWords words

/-- The observer of changed turns. -/
def turnChanged (users : List User) (words : List Word) : Json → Option (List Word)
  | .obj wordDetails => do
    let newWord ← Word.init users wordDetails
    match words.findIdx? (fun w => w.id == newWord.id) with
    | some index => sortWords (words.eraseIdx index ++ [newWord])
    | none => sortWords words
  | _ => sortWords words

/-- The fields at `public/turns/$n`. -/
def Turn.snapshot (turn : Turn) : List (String × Json) :=
  presentFields [("player", some (.str turn.player)),
    ("created", turn.created.map (fun created : ℕ => Json.num created)),
    ("submittedWord", turn.submittedWord),
    ("votes", (Json.obj turn.votes.entries).stored),
    ("wasSubmittersWord", turn.wasSubmittersWord.map Json.bool),
    ("wasOthersWord", if turn.wasOthersWord then some (.bool true) else none),
    ("otherId", turn.otherId.map Json.str)]

/-! ### Events -/

/-- The times the turns of a game were created, in milliseconds. -/
structure Timeline (n : ℕ) where
  created : Fin n → ℕ
  increasing : StrictMono created
  fits : ∀ k, (created k : ℤ) ≤ Json.intMax

inductive ChildEvent where
  | childAdded
  | childChanged
  deriving DecidableEq

/-- The screen is told of turn `k`, when the users it knows are `users`. -/
structure TurnEvent (n : ℕ) where
  event : ChildEvent
  k : Fin n
  users : List User
  turn : Turn

variable {n : ℕ} {game : Timeline n}

def TurnEvent.observe (words : List Word) (e : TurnEvent n) : Option (List Word) :=
  match e.event with
  | .childAdded => turnAdded e.users words (.obj e.turn.snapshot)
  | .childChanged => turnChanged e.users words (.obj e.turn.snapshot)

/-- The list of words after the events. -/
def observed (events : List (TurnEvent n)) : Option (List Word) :=
  events.foldlM TurnEvent.observe []

/-- A turn is added once and changes later; the time it was created stays. -/
inductive Delivered (game : Timeline n) : List (TurnEvent n) → Prop
  | nothing : Delivered game []
  | added {events : List (TurnEvent n)} (h : Delivered game events) (k : Fin n)
      (users : List User) (turn : Turn) (hnew : ∀ e ∈ events, e.k ≠ k)
      (hcreated : turn.created = some (game.created k)) :
      Delivered game (events ++ [⟨.childAdded, k, users, turn⟩])
  | changed {events : List (TurnEvent n)} (h : Delivered game events) (k : Fin n)
      (users : List User) (turn : Turn) (hold : ∃ e ∈ events, e.event = .childAdded ∧ e.k = k)
      (hcreated : turn.created = some (game.created k)) :
      Delivered game (events ++ [⟨.childChanged, k, users, turn⟩])

/-- The turns added so far. -/
def turnsAdded (events : List (TurnEvent n)) : Finset (Fin n) :=
  ((events.filter (fun e => e.event = .childAdded)).map TurnEvent.k).toFinset

/-- The last event of turn `k`. -/
def latest (events : List (TurnEvent n)) (k : Fin n) : Option (TurnEvent n) :=
  (events.filter (fun e => e.k = k)).getLast?

theorem mem_turnsAdded {events : List (TurnEvent n)} {k : Fin n} :
    k ∈ turnsAdded events ↔ ∃ e ∈ events, e.event = .childAdded ∧ e.k = k := by
  simp [turnsAdded, and_assoc]

theorem turnsAdded_added (events : List (TurnEvent n)) (k : Fin n) (users : List User)
    (turn : Turn) :
    turnsAdded (events ++ [⟨.childAdded, k, users, turn⟩]) = insert k (turnsAdded events) := by
  ext j
  simp only [mem_turnsAdded, Finset.mem_insert, List.mem_append, List.mem_singleton]
  constructor
  · rintro ⟨e, he | rfl, hadded, rfl⟩
    · exact Or.inr ⟨e, he, hadded, rfl⟩
    · exact Or.inl rfl
  · rintro (rfl | ⟨e, he, hadded, rfl⟩)
    · exact ⟨_, Or.inr rfl, rfl, rfl⟩
    · exact ⟨e, Or.inl he, hadded, rfl⟩

theorem turnsAdded_changed (events : List (TurnEvent n)) (k : Fin n) (users : List User)
    (turn : Turn) :
    turnsAdded (events ++ [⟨.childChanged, k, users, turn⟩]) = turnsAdded events := by
  simp [turnsAdded]

theorem latest_append_self (events : List (TurnEvent n)) (e : TurnEvent n) :
    latest (events ++ [e]) e.k = some e := by
  simp [latest]

theorem latest_append_ne (events : List (TurnEvent n)) {e : TurnEvent n} {k : Fin n}
    (h : e.k ≠ k) : latest (events ++ [e]) k = latest events k := by
  simp [latest, h]

theorem observed_append (events : List (TurnEvent n)) (e : TurnEvent n) :
    observed (events ++ [e]) = (observed events).bind (fun words => e.observe words) := by
  simp [observed, List.foldlM_append]

/-! ### The list mirrors the turns -/

/-- The time of turn `k`, as the app reads it. -/
def Timeline.stamp (game : Timeline n) (k : Fin n) : ℤ := game.created k

theorem Timeline.stamp_strictMono (game : Timeline n) : StrictMono game.stamp := by
  intro j k hjk
  exact Int.ofNat_lt.mpr (game.increasing hjk)

/-- The word the screen makes of an event. -/
def TurnEvent.word (e : TurnEvent n) : Word where
  id := ((e.turn.created.map (fun created : ℕ => Json.num created)).bind Json.asInt).getD 0
  word := e.turn.submittedWord.bind Json.asString
  created := (e.turn.created.map (fun created : ℕ => Json.num created)).bind Json.asInt
  player := getUserFromID e.users e.turn.player
  wasChallenged := none
  wasSubmittersWord := none

theorem Word.init_snapshot (e : TurnEvent n) :
    Word.init e.users e.turn.snapshot = some e.word := by
  simp (disch := simp) only [Word.init, Turn.snapshot, assocGet_presentFields]
  rfl

theorem TurnEvent.word_created {e : TurnEvent n}
    (hcreated : e.turn.created = some (game.created e.k)) :
    e.word.created = some (game.stamp e.k) := by
  simp only [TurnEvent.word, hcreated, Option.map_some, Option.bind_some,
    Json.asInt_natCast (game.fits e.k), Timeline.stamp]

theorem TurnEvent.word_id {e : TurnEvent n}
    (hcreated : e.turn.created = some (game.created e.k)) : e.word.id = game.stamp e.k := by
  show e.word.created.getD 0 = _
  rw [TurnEvent.word_created hcreated, Option.getD_some]

/-- The order of the screen. -/
def Word.time (w : Word) : ℤ := w.created.getD 0

theorem sortWords_of_created {words : List Word} (h : ∀ w ∈ words, w.created ≠ none) :
    sortWords words = some (Keyed.sort Word.time words) := by
  rw [sortWords, if_neg]
  · rfl
  · rintro ⟨_, w, hw, hnone⟩
    exact h w hw hnone

/-- The list shows each turn added, as it was delivered last, in the order of the turns. -/
structure Mirrors (game : Timeline n) (events : List (TurnEvent n)) (row : Fin n → Word)
    (words : List Word) : Prop where
  words_eq : words = Keyed.entries (turnsAdded events) row
  delivered : ∀ k ∈ turnsAdded events, ∃ e, latest events k = some e ∧ e.k = k ∧
    e.turn.created = some (game.created k) ∧ row k = e.word

namespace Mirrors

variable {events : List (TurnEvent n)} {row : Fin n → Word} {words : List Word}

theorem row_created (h : Mirrors game events row words) {k : Fin n} (hk : k ∈ turnsAdded events) :
    (row k).created = some (game.stamp k) := by
  obtain ⟨e, _, rfl, hcreated, hrow⟩ := h.delivered k hk
  rw [hrow, TurnEvent.word_created hcreated]

theorem row_id (h : Mirrors game events row words) {k : Fin n} (hk : k ∈ turnsAdded events) :
    (row k).id = game.stamp k := by
  obtain ⟨e, _, rfl, hcreated, hrow⟩ := h.delivered k hk
  rw [hrow, TurnEvent.word_id hcreated]

theorem fits_time (h : Mirrors game events row words) :
    Keyed.Fits Word.time game.stamp (turnsAdded events) row := by
  intro k hk
  rw [Word.time, h.row_created hk, Option.getD_some]

theorem fits_id (h : Mirrors game events row words) :
    Keyed.Fits Word.id game.stamp (turnsAdded events) row :=
  fun _ hk => h.row_id hk

theorem created_ne_none (h : Mirrors game events row words) : ∀ w ∈ words, w.created ≠ none := by
  intro w hw
  rw [h.words_eq] at hw
  obtain ⟨k, hk, rfl⟩ := Keyed.mem_entries.mp hw
  rw [h.row_created hk]
  exact Option.some_ne_none _

/-- Every entry has a time, so sorting never fails. -/
theorem sortWords_concat (h : Mirrors game events row words) {kept : List Word}
    (hkept : ∀ w ∈ kept, w ∈ words) {e : TurnEvent n}
    (hcreated : e.turn.created = some (game.created e.k)) :
    sortWords (kept ++ [e.word]) = some (Keyed.sort Word.time (kept ++ [e.word])) := by
  apply sortWords_of_created
  intro w hw
  rcases List.mem_append.mp hw with hold | hlast
  · exact h.created_ne_none w (hkept w hold)
  · rw [List.mem_singleton.mp hlast, TurnEvent.word_created hcreated]
    exact Option.some_ne_none _

/-- What was delivered of the turns after one more event. -/
theorem delivered_append (h : Mirrors game events row words) {e : TurnEvent n}
    (hcreated : e.turn.created = some (game.created e.k))
    (hadded : ∀ k ∈ turnsAdded (events ++ [e]), k = e.k ∨ k ∈ turnsAdded events) :
    ∀ k ∈ turnsAdded (events ++ [e]), ∃ e', latest (events ++ [e]) k = some e' ∧ e'.k = k ∧
      e'.turn.created = some (game.created k) ∧ Function.update row e.k e.word k = e'.word := by
  intro k hk
  by_cases hke : k = e.k
  · subst hke
    exact ⟨e, latest_append_self events e, rfl, hcreated, Function.update_self _ _ _⟩
  · obtain ⟨e', hlatest, hk', hcreated', hrow⟩ :=
      h.delivered k ((hadded k hk).resolve_left hke)
    refine ⟨e', ?_, hk', hcreated', ?_⟩
    · rw [latest_append_ne events (Ne.symm hke), hlatest]
    · rw [Function.update_of_ne hke, hrow]

/-- **Step lemma, a turn is added.** -/
theorem added (h : Mirrors game events row words) {k : Fin n} (users : List User) {turn : Turn}
    (hnew : k ∉ turnsAdded events) (hcreated : turn.created = some (game.created k)) :
    ∃ words', TurnEvent.observe words ⟨.childAdded, k, users, turn⟩ = some words' ∧
      Mirrors game (events ++ [⟨.childAdded, k, users, turn⟩])
        (Function.update row k (TurnEvent.word ⟨.childAdded, k, users, turn⟩)) words' := by
  generalize he : (⟨.childAdded, k, users, turn⟩ : TurnEvent n) = e
  obtain ⟨rfl, rfl, rfl⟩ : e.k = k ∧ e.users = users ∧ e.turn = turn := by subst he; simp
  have hword : e.word.created = some (game.stamp e.k) := TurnEvent.word_created hcreated
  have hturns : turnsAdded (events ++ [e]) = insert e.k (turnsAdded events) := by
    rw [← he, turnsAdded_added]
  refine ⟨Keyed.sort Word.time (words ++ [e.word]), ?_, ?_, ?_⟩
  · have hobserve : TurnEvent.observe words e = turnAdded e.users words (.obj e.turn.snapshot) := by
      rw [TurnEvent.observe, ← he]
    rw [hobserve, turnAdded, Word.init_snapshot, Option.bind_eq_bind, Option.bind_some]
    exact h.sortWords_concat (fun _ hw => hw) hcreated
  · rw [h.words_eq, hturns]
    refine Keyed.sort_append game.stamp_strictMono h.fits_time hnew ?_
    rw [Word.time, hword, Option.getD_some]
  · refine h.delivered_append hcreated (fun k hk => ?_)
    rw [hturns] at hk
    exact Finset.mem_insert.mp hk

/-- **Step lemma, a turn changes.** -/
theorem changed (h : Mirrors game events row words) {k : Fin n} (users : List User) {turn : Turn}
    (hold : k ∈ turnsAdded events) (hcreated : turn.created = some (game.created k)) :
    ∃ words', TurnEvent.observe words ⟨.childChanged, k, users, turn⟩ = some words' ∧
      Mirrors game (events ++ [⟨.childChanged, k, users, turn⟩])
        (Function.update row k (TurnEvent.word ⟨.childChanged, k, users, turn⟩)) words' := by
  generalize he : (⟨.childChanged, k, users, turn⟩ : TurnEvent n) = e
  obtain ⟨rfl, rfl, rfl⟩ : e.k = k ∧ e.users = users ∧ e.turn = turn := by subst he; simp
  have hword : e.word.created = some (game.stamp e.k) := TurnEvent.word_created hcreated
  have hid : e.word.id = game.stamp e.k := TurnEvent.word_id hcreated
  have hturns : turnsAdded (events ++ [e]) = turnsAdded events := by
    rw [← he, turnsAdded_changed]
  obtain ⟨index, hfind, hindex⟩ := Keyed.findIdx?_entries game.stamp_strictMono h.fits_id hold
  rw [← h.words_eq] at hfind hindex
  refine ⟨Keyed.sort Word.time (words.eraseIdx index ++ [e.word]), ?_, ?_, ?_⟩
  · have hobserve :
        TurnEvent.observe words e = turnChanged e.users words (.obj e.turn.snapshot) := by
      rw [TurnEvent.observe, ← he]
    rw [hobserve, turnChanged, Word.init_snapshot, Option.bind_eq_bind, Option.bind_some, hid,
      hfind]
    exact h.sortWords_concat (fun _ hw => List.mem_of_mem_eraseIdx hw) hcreated
  · rw [h.words_eq] at hindex ⊢
    rw [hturns]
    refine Keyed.sort_replace game.stamp_strictMono h.fits_time hold ?_ hindex
    rw [Word.time, hword, Option.getD_some]
  · refine h.delivered_append hcreated (fun k hk => ?_)
    rw [hturns] at hk
    exact Or.inr hk

end Mirrors

/-- Only turns that were added change. -/
theorem Delivered.mem_turnsAdded {events : List (TurnEvent n)} (h : Delivered game events)
    {e : TurnEvent n} (he : e ∈ events) : e.k ∈ turnsAdded events := by
  induction h with
  | nothing => cases he
  | added h k users turn hnew hcreated ih =>
    rw [turnsAdded_added, Finset.mem_insert]
    rcases List.mem_append.mp he with hold | hlast
    · exact Or.inr (ih hold)
    · rw [List.mem_singleton.mp hlast]
      exact Or.inl rfl
  | changed h k users turn hold hcreated ih =>
    rw [turnsAdded_changed]
    rcases List.mem_append.mp he with hbefore | hlast
    · exact ih hbefore
    · rw [List.mem_singleton.mp hlast]
      exact PasswordApp.mem_turnsAdded.mpr hold

/-- **Run lemma.** -/
theorem Delivered.mirrors {events : List (TurnEvent n)} (h : Delivered game events) :
    ∃ row words, observed events = some words ∧ Mirrors game events row words := by
  induction h with
  | nothing =>
    refine ⟨fun k => ⟨0, none, none, none, none, none⟩, [], rfl, ?_, ?_⟩
    · simp [Keyed.entries, turnsAdded]
    intro k hk
    cases hk
  | @added events h k users turn hnew hcreated ih =>
    obtain ⟨row, words, hobserved, hmirrors⟩ := ih
    have hk : k ∉ turnsAdded events := by
      intro hk
      obtain ⟨e, he, _, hek⟩ := PasswordApp.mem_turnsAdded.mp hk
      exact hnew e he hek
    obtain ⟨words', hobserve, hmirrors'⟩ := hmirrors.added users hk hcreated
    exact ⟨_, words', by rw [observed_append, hobserved, Option.bind_some, hobserve], hmirrors'⟩
  | changed h k users turn hold hcreated ih =>
    obtain ⟨row, words, hobserved, hmirrors⟩ := ih
    obtain ⟨words', hobserve, hmirrors'⟩ :=
      hmirrors.changed users (PasswordApp.mem_turnsAdded.mpr hold) hcreated
    exact ⟨_, words', by rw [observed_append, hobserved, Option.bind_some, hobserve], hmirrors'⟩

/-- **The list of turns mirrors the server's.**  After each event the screen has one entry for
    each turn added so far, by increasing time, and the entry of a turn shows the word that was
    delivered of it last. -/
theorem words_mirror_turns (game : Timeline n) {events : List (TurnEvent n)}
    (h : Delivered game events) : ∃ words, observed events = some words ∧
      words.map Word.created
        = (turnsAdded events).sort.map (fun k => some (game.created k : ℤ)) ∧
      words.Pairwise (fun left right => left.id < right.id) ∧
      ∀ k ∈ turnsAdded events, ∃ e, latest events k = some e ∧ ∃ w ∈ words,
        w.created = some (game.created k : ℤ) ∧
        w.word = e.turn.submittedWord.bind Json.asString := by
  obtain ⟨row, words, hobserved, hmirrors⟩ := h.mirrors
  have hwords := hmirrors.words_eq
  refine ⟨words, hobserved, ?_, ?_, ?_⟩
  · rw [hwords, Keyed.entries, List.map_map]
    apply List.map_congr_left
    intro k hk
    exact hmirrors.row_created ((Finset.mem_sort _).mp hk)
  · rw [hwords]
    exact hmirrors.fits_id.pairwise game.stamp_strictMono
  · intro k hk
    obtain ⟨e, hlatest, _, _, hrow⟩ := hmirrors.delivered k hk
    refine ⟨e, hlatest, row k, ?_, hmirrors.row_created hk, ?_⟩
    · rw [hwords]
      exact Keyed.mem_entries.mpr ⟨k, hk, rfl⟩
    · rw [hrow, TurnEvent.word]

/-- Two turns, a minute apart. -/
def sampleTimeline : Timeline 2 where
  created k := 1590986719532 + 60000 * k
  increasing := by decide
  fits := by decide

/-- A turn of the sample. -/
def sampleTurn (k : Fin 2) (submittedWord : Option Json) : Turn where
  player := "ann"
  created := some (sampleTimeline.created k)
  submittedWord := submittedWord

/-- An event of the sample. -/
def sampleEvent (event : ChildEvent) (k : Fin 2) (submittedWord : Option Json) : TurnEvent 2 :=
  ⟨event, k, [], sampleTurn k submittedWord⟩

/-- The second turn is added before the first one, whose word comes with a change. -/
def sampleEvents : List (TurnEvent 2) := [
  sampleEvent .childAdded ⟨1, Nat.one_lt_two⟩ none,
  sampleEvent .childAdded ⟨0, Nat.two_pos⟩ none,
  sampleEvent .childChanged ⟨0, Nat.two_pos⟩ (some (.str "zebra"))]

theorem words_mirror_turns_sample : ∃ words, observed sampleEvents = some words ∧
    words.map Word.created = (turnsAdded sampleEvents).sort.map
      (fun k => some (sampleTimeline.created k : ℤ)) := by
  have hdelivered : Delivered sampleTimeline sampleEvents :=
    .changed (.added (.added .nothing _ _ _ (by decide) rfl) _ _ _ (by simp) rfl) _ _ _
      ⟨_, List.mem_append_right _ (List.mem_singleton_self _), rfl, rfl⟩ rfl
  obtain ⟨words, hobserved, hcreated, _⟩ := words_mirror_turns sampleTimeline hdelivered
  exact ⟨words, hobserved, hcreated⟩

/-! ### The turns of a room -/

/-- **The turns of a game are on one timeline.**  If the clock goes on from commit to commit, a
    screen that is told of a turn of any room passed is told the time the timeline has. -/
theorem timeline_of_run {lobbyId : LobbyId} {room : Room}
    (h : Room.Reachable lobbyId ClockRuns room) (hstarted : room.lobby.status ≠ .lobby)
    (hfits : ∀ time, room.lobby.transactionTime = some time → (time : ℤ) ≤ Json.intMax) :
    ∃ game : Timeline room.lobby.turns.length,
      ∀ passed : Room, Room.Reachable lobbyId ClockRuns passed → passed.lobby.status ≠ .lobby →
        (roomMachine lobbyId).Reaches ClockRuns passed room →
        ∀ (k : ℕ) (turn : Turn), passed.lobby.turns[k]? = some turn →
          ∃ hk : k < room.lobby.turns.length, turn.created = some (game.created ⟨k, hk⟩) := by
  obtain ⟨times, htimes, hincreasing, hpast⟩ := clocked_of_reachable h hstarted
  have hlen : times.length = room.lobby.turns.length := by
    have hmap := congrArg List.length htimes
    rwa [Lobby.creationTimes, List.length_map, List.length_map, eq_comm] at hmap
  let game : Timeline room.lobby.turns.length := {
    created := fun k => times[k.1]
    increasing := fun j k hjk =>
      List.pairwise_iff_getElem.mp hincreasing j.1 k.1 (by omega) (by omega) hjk
    fits := by
      intro k
      obtain ⟨now, hnow, hle⟩ := hpast _ (List.getElem_mem (show k.1 < times.length by omega))
      exact le_trans (Int.ofNat_le.mpr hle) (hfits now hnow) }
  refine ⟨game, ?_⟩
  intro passed hpassed hplaying hrun k turn hturn
  obtain ⟨settings, hs⟩ := scheduled_of_reachable hpassed hplaying
  -- the time the turn had then is the one it has now
  have hprefix := creationTimes_of_reaches hs hrun
  have hthen : passed.lobby.creationTimes[k]? = some turn.created := by
    rw [Lobby.creationTimes, List.getElem?_map, hturn]
    rfl
  have hnow : room.lobby.creationTimes[k]? = some turn.created := by
    obtain ⟨later, hlater⟩ := hprefix
    rw [← hlater, List.getElem?_append_left (List.getElem?_eq_some_iff.mp hthen).1]
    exact hthen
  rw [htimes, List.getElem?_map, Option.map_eq_some_iff] at hnow
  obtain ⟨time, htime, hcreated⟩ := hnow
  obtain ⟨hk, heq⟩ := List.getElem?_eq_some_iff.mp htime
  refine ⟨by omega, ?_⟩
  rw [← hcreated, ← heq]

end PasswordApp
