import PasswordApp.Backend.Room
import PasswordApp.Library.Retry

namespace PasswordApp

/-!
# Backend — `updateLobby` under retries

Firebase runs the callback of a transaction on a value it believes to be stored, and again on
fresher values until a result stands.  The runs share the variables the callback captured:
`transactionError`, and the request's `player` object, whose `score` a join overwrites.

* `lobbyCallback`, `lobbyPromise` — one run, and what `.then` makes of the last one;
* `Capturing`, `Call.capturing` — the functions of a callable with the objects they captured;
* `lobbyPromise_eq` — the promise is that of a single run on the last value;
* `updateLobby_settles` — when and how the promise of a callable settles, and what is stored.
-/

open ErrorCode

/-! ### The callback -/

/-- One run of a lobby transaction: the value it is run on, the time, and its own draws. -/
structure LobbyAttempt where
  lobby : Option Lobby
  now : ℕ
  game : GameDraws
  reroll : ℕ → Draw

/-- What the callback returns. -/
inductive Returned where
  | null
  | undefined
  | lobby (lobby : Lobby)

/-- The two functions handed to `updateLobby`, with the objects they captured: an update may
    write to them. -/
structure Capturing (κ : Type) where
  validateLobbyFn : Lobby → Except JsException (Option HttpsError)
  updateLobbyFn : κ → Lobby → Except JsException Lobby × κ

section Callback

variable {κ : Type}

/-- The `not-found` error of `updateLobby`. -/
def notFoundError (lobbyId : LobbyId) : HttpsError :=
  ⟨notFound, "Lobby with id " ++ lobbyId ++ " not found."⟩

/-- The callback of `updateLobby`; captured are `transactionError` and the objects of the
    functions. -/
def lobbyCallback (lobbyId : LobbyId) (t : LobbyAttempt → Capturing κ)
    (captured : Option HttpsError × κ) (a : LobbyAttempt) :
    Except JsException Returned × Option HttpsError × κ :=
  match a.lobby with
  | none => (.ok .null, some (notFoundError lobbyId), captured.2)
  | some lobby =>
    match (t a).validateLobbyFn lobby with
    | .error e => (.error e, captured)
    | .ok (some transactionError) => (.ok .undefined, some transactionError, captured.2)
    | .ok none =>
      let updated := (t a).updateLobbyFn captured.2 { lobby with transactionTime := some a.now }
      (updated.1.map .lobby, none, updated.2)

/-- The promise, given the last run: `!result.committed || !result.snapshot.exists()` throws
    `transactionError`.  A fulfilled promise is shown with the lobby that was stored. -/
def lobbyPromise : Except JsException Returned × Option HttpsError × κ →
    Except (Option Failure) Lobby
  | (.error e, _) => .error (some (.exception e))
  | (.ok .undefined, transactionError, _) => .error (transactionError.map Failure.https)
  | (.ok .null, transactionError, _) => .error (transactionError.map Failure.https)
  | (.ok (.lobby lobby), _) => .ok lobby.stored

/-- The last run commits what it returned. -/
def Commits (run : Except JsException Returned × Option HttpsError × κ) : Prop :=
  run.1 = .ok .null ∨ ∃ lobby, run.1 = .ok (.lobby lobby)

/-- What is stored after the last run, where `stored` was. -/
def storedAfter (stored : Option Lobby) :
    Except JsException Returned × Option HttpsError × κ → Option Lobby
  | (.error _, _) => stored
  | (.ok .undefined, _) => stored
  | (.ok .null, _) => none
  | (.ok (.lobby lobby), _) => some lobby.stored

/-- The functions do to a lobby what those of `u` do, on captured objects in `I`, and leave these
    in `I`. -/
structure Capturing.Simulates (t : Capturing κ) (u : LobbyTransaction) (I : κ → Prop) : Prop where
  validates : ∀ lobby, t.validateLobbyFn lobby = u.validateLobbyFn lobby
  updates : ∀ k lobby, I k → (t.updateLobbyFn k lobby).1 = u.updateLobbyFn lobby
  keeps : ∀ k lobby, I k → I (t.updateLobbyFn k lobby).2

variable {lobbyId : LobbyId} {t : LobbyAttempt → Capturing κ} {u : LobbyAttempt → LobbyTransaction}
  {I : κ → Prop}

/-- One run leaves the captured objects in order. -/
theorem lobbyCallback_keeps (hsim : ∀ a, (t a).Simulates (u a) I)
    (captured : Option HttpsError × κ) (a : LobbyAttempt) (hI : I captured.2) :
    I (lobbyCallback lobbyId t captured a).2.2 := by
  unfold lobbyCallback
  split
  · exact hI
  · split
    · exact hI
    · exact hI
    · exact (hsim a).keeps _ _ hI

/-- The promise of one run is the single-run `updateLobby`, whatever `transactionError` was. -/
theorem lobbyPromise_run (hsim : ∀ a, (t a).Simulates (u a) I)
    (captured : Option HttpsError × κ) (a : LobbyAttempt) (hI : I captured.2) :
    lobbyPromise (lobbyCallback lobbyId t captured a)
      = (updateLobby lobbyId (u a) a.now a.lobby).mapError some := by
  unfold lobbyCallback updateLobby
  cases a.lobby with
  | none => rfl
  | some lobby =>
    simp only [(hsim a).validates]
    cases (u a).validateLobbyFn lobby with
    | error e => rfl
    | ok error =>
      cases error with
      | some transactionError => rfl
      | none =>
        simp only [(hsim a).updates _ _ hI]
        cases (u a).updateLobbyFn { lobby with transactionTime := some a.now } with
        | error e => rfl
        | ok next => rfl

/-- **Retries do not show.**  The promise is that of a single run on the last value. -/
theorem lobbyPromise_eq (hsim : ∀ a, (t a).Simulates (u a) I)
    {captured : Option HttpsError × κ} (hI : I captured.2) (earlier : List LobbyAttempt)
    (last : LobbyAttempt) :
    lobbyPromise (Retry.outcome (lobbyCallback lobbyId t) captured earlier last)
      = (updateLobby lobbyId (u last) last.now last.lobby).mapError some :=
  Retry.outcome_eq (I := fun k => I k.2)
    (g := fun a => (updateLobby lobbyId (u a) a.now a.lobby).mapError some)
    (lobbyCallback_keeps hsim) (lobbyPromise_run hsim) hI earlier last

end Callback

/-! ### The callables -/

/-- The `player` object of a join as the callable captured it; `score` is what the client sent,
    until a run overwrites it. -/
structure PlayerObject extends PlayerInfo where
  score : Option Json

/-- The entry written for the object. -/
def PlayerObject.entry (player : PlayerObject) : Player where
  displayName := player.displayName
  colorNumber := player.colorNumber
  emojiNumber := player.emojiNumber
  score := match player.score with
    | some (.num q) => q.num
    | _ => 0

/-- The call with the draws of one run. -/
def Call.redrawn (a : LobbyAttempt) : Call → Call
  | .startGame playerId gameSettings _ => .startGame playerId gameSettings a.game
  | .requestNewWords playerId _ => .requestNewWords playerId a.reroll
  | c => c

/-- The functions of a callable: a join writes `player.score = 0` and the captured object itself;
    the others only read what they captured. -/
def Call.capturing (lobbyId : LobbyId) (c : Call) (a : LobbyAttempt) : Capturing PlayerObject where
  validateLobbyFn := ((c.redrawn a).transaction lobbyId).validateLobbyFn
  updateLobbyFn player lobby :=
    match c with
    | .addPlayerToLobby _ playerId =>
      let player := { player with score := some (.num 0) }
      let next : Except JsException Lobby := do
        checkStorable player.storable
        .ok { lobby with players := lobby.players.set playerId player.entry }
      (next, player)
    | c => (((c.redrawn a).transaction lobbyId).updateLobbyFn lobby, player)

/-- The object a call captured describes the player of the request. -/
def Call.Captured (c : Call) (player : PlayerObject) : Prop :=
  ∀ info playerId, c = .addPlayerToLobby info playerId → player.toPlayerInfo = info

theorem Call.capturing_simulates (lobbyId : LobbyId) (c : Call) (a : LobbyAttempt) :
    (c.capturing lobbyId a).Simulates ((c.redrawn a).transaction lobbyId) c.Captured where
  validates _ := rfl
  updates player lobby hplayer := by
    cases c with
    | addPlayerToLobby info playerId =>
      obtain rfl := hplayer info playerId rfl
      rfl
    | addBot requesterId => rfl
    | startGame playerId gameSettings random => rfl
    | submitWord playerId word => rfl
    | requestNewWords playerId random => rfl
    | voteOnWord playerId vote => rfl
  keeps player lobby hplayer := by
    cases c with
    | addPlayerToLobby info playerId => exact hplayer
    | addBot requesterId => exact hplayer
    | startGame playerId gameSettings random => exact hplayer
    | submitWord playerId word => exact hplayer
    | requestNewWords playerId random => exact hplayer
    | voteOnWord playerId vote => exact hplayer

/-- The object a call captured; only a join has one that is written to. -/
def Call.playerObject (score : Option Json) : Call → PlayerObject
  | .addPlayerToLobby info _ => { info with score := score }
  | _ => { displayName := none, colorNumber := none, emojiNumber := none, score := score }

theorem Call.captured_playerObject (score : Option Json) (c : Call) :
    c.Captured (c.playerObject score) := by
  rintro info playerId rfl
  rfl

/-- The last run of a callable's transaction, after the runs `earlier`. -/
def Call.lastRun (lobbyId : LobbyId) (c : Call) (score : Option Json)
    (earlier : List LobbyAttempt) (last : LobbyAttempt) :
    Except JsException Returned × Option HttpsError × PlayerObject :=
  Retry.outcome (lobbyCallback lobbyId (c.capturing lobbyId)) (none, c.playerObject score)
    earlier last

/-- The promise of a callable is that of a single run on the last value. -/
theorem Call.promise_eq (lobbyId : LobbyId) (c : Call) (score : Option Json)
    (earlier : List LobbyAttempt) (last : LobbyAttempt) :
    lobbyPromise (c.lastRun lobbyId score earlier last)
      = (updateLobby lobbyId ((c.redrawn last).transaction lobbyId) last.now last.lobby).mapError
          some :=
  lobbyPromise_eq (I := c.Captured) (fun a => c.capturing_simulates lobbyId a)
    (c.captured_playerObject score) earlier last

/-! ### How the promise settles -/

theorem preconditionError_code {message : String} {error : HttpsError}
    (h : preconditionError message = some error) : error.code ≠ notFound := by
  obtain rfl := Option.some.inj h
  exact ErrorCode.noConfusion

theorem hostError_code {lobbyId : LobbyId} {error : HttpsError}
    (h : hostError lobbyId = some error) : error.code ≠ notFound := by
  obtain rfl := Option.some.inj h
  exact ErrorCode.noConfusion

/-- No validation function reports a lobby as missing. -/
theorem validation_code {lobbyId : LobbyId} {c : Call} {lobby : Lobby} {error : HttpsError}
    (h : (c.transaction lobbyId).validateLobbyFn lobby = .ok (some error)) :
    error.code ≠ notFound := by
  cases c with
  | addPlayerToLobby player playerId =>
    simp only [Call.transaction, addPlayerToLobby] at h
    split at h
    · exact preconditionError_code (Except.ok.inj h)
    · cases h
  | addBot requesterId =>
    simp only [Call.transaction, addBot] at h
    split at h
    · exact hostError_code (Except.ok.inj h)
    · split at h
      · exact preconditionError_code (Except.ok.inj h)
      · cases h
  | startGame playerId gameSettings random =>
    simp only [Call.transaction, startGame] at h
    split at h
    · exact hostError_code (Except.ok.inj h)
    · split at h
      · exact preconditionError_code (Except.ok.inj h)
      · cases h
  | submitWord playerId word =>
    simp only [Call.transaction, submitWord] at h
    split at h
    · exact preconditionError_code (Except.ok.inj h)
    · obtain ⟨currTurn, _, h⟩ := bind_eq_ok.mp h
      split at h
      · obtain ⟨activePlayer, _, h⟩ := bind_eq_ok.mp h
        exact preconditionError_code (Except.ok.inj h)
      · cases h
  | requestNewWords playerId random =>
    simp only [Call.transaction, requestNewWords] at h
    split at h
    · obtain ⟨currTurn, _, h⟩ := bind_eq_ok.mp h
      split at h
      · exact preconditionError_code (Except.ok.inj h)
      · cases h
    · split at h
      · exact preconditionError_code (Except.ok.inj h)
      · cases h
  | voteOnWord playerId vote =>
    simp only [Call.transaction, voteOnWord] at h
    split at h
    · exact preconditionError_code (Except.ok.inj h)
    · obtain ⟨currTurn, _, h⟩ := bind_eq_ok.mp h
      split at h
      · exact preconditionError_code (Except.ok.inj h)
      · split at h
        · exact preconditionError_code (Except.ok.inj h)
        · cases h

/-- How a single run ends. -/
inductive SingleRun (lobbyId : LobbyId) (t : LobbyTransaction) (now : ℕ) :
    Option Lobby → Except Failure Lobby → Prop
  | missing : SingleRun lobbyId t now none (.error (.https (notFoundError lobbyId)))
  | refused (lobby : Lobby) (error : HttpsError)
      (hvalid : t.validateLobbyFn lobby = .ok (some error)) :
      SingleRun lobbyId t now (some lobby) (.error (.https error))
  | thrown (lobby : Lobby) (e : JsException)
      (hthrown : t.validateLobbyFn lobby = .error e ∨ t.validateLobbyFn lobby = .ok none ∧
        t.updateLobbyFn { lobby with transactionTime := some now } = .error e) :
      SingleRun lobbyId t now (some lobby) (.error (.exception e))
  | committed (lobby next : Lobby) (hvalid : t.validateLobbyFn lobby = .ok none)
      (hupdate : t.updateLobbyFn { lobby with transactionTime := some now } = .ok next) :
      SingleRun lobbyId t now (some lobby) (.ok next.stored)

theorem updateLobby_cases (lobbyId : LobbyId) (t : LobbyTransaction) (now : ℕ)
    (value : Option Lobby) :
    SingleRun lobbyId t now value (updateLobby lobbyId t now value) := by
  cases value with
  | none => exact .missing
  | some lobby =>
    cases hvalid : t.validateLobbyFn lobby with
    | error e =>
      simp only [updateLobby, hvalid]
      exact .thrown lobby e (Or.inl hvalid)
    | ok error =>
      cases error with
      | some error =>
        simp only [updateLobby, hvalid]
        exact .refused lobby error hvalid
      | none =>
        cases hupdate : t.updateLobbyFn { lobby with transactionTime := some now } with
        | error e =>
          simp only [updateLobby, hvalid, hupdate]
          exact .thrown lobby e (Or.inr ⟨hvalid, hupdate⟩)
        | ok next =>
          simp only [updateLobby, hvalid, hupdate]
          exact .committed lobby next hvalid hupdate

/-- A fulfilled promise shows what was stored. -/
theorem storedAfter_ok {κ : Type} {run : Except JsException Returned × Option HttpsError × κ}
    {lobby : Lobby} (h : lobbyPromise run = .ok lobby) (stored : Option Lobby) :
    storedAfter stored run = some lobby := by
  obtain ⟨returned, transactionError, objects⟩ := run
  match returned, h with
  | .ok (.lobby next), h => rw [storedAfter, Except.ok.inj h]

/-- A rejected promise stored nothing, if a `null` was only put where there was one. -/
theorem storedAfter_error {κ : Type} {run : Except JsException Returned × Option HttpsError × κ}
    {failure : Option Failure} (h : lobbyPromise run = .error failure) {stored : Option Lobby}
    (hnull : run.1 = .ok .null → stored = none) : storedAfter stored run = stored := by
  obtain ⟨returned, transactionError, objects⟩ := run
  match returned, h with
  | .error e, _ => rfl
  | .ok .undefined, _ => rfl
  | .ok .null, _ => exact (hnull rfl).symm

/-- `null` is returned on `null` only. -/
theorem lobbyCallback_null {κ : Type} {lobbyId : LobbyId} {t : LobbyAttempt → Capturing κ}
    {captured : Option HttpsError × κ} {a : LobbyAttempt}
    (h : (lobbyCallback lobbyId t captured a).1 = .ok .null) : a.lobby = none := by
  unfold lobbyCallback at h
  split at h
  · assumption
  · split at h
    · cases h
    · cases h
    · -- an updated lobby is no `null`
      have hmap : ∀ x : Except JsException Lobby, x.map Returned.lobby ≠ .ok .null := by
        intro x
        cases x <;> simp [Except.map]
      exact absurd h (hmap _)

section SingleRun

variable {lobbyId : LobbyId} {t : LobbyTransaction} {now : ℕ} {value : Option Lobby}
  {result : Except Failure Lobby}

theorem SingleRun.ok_iff (h : SingleRun lobbyId t now value result) :
    (∃ lobby, result = .ok lobby) ↔ ∃ lobby next, value = some lobby ∧
      t.validateLobbyFn lobby = .ok none ∧
      t.updateLobbyFn { lobby with transactionTime := some now } = .ok next := by
  cases h with
  | missing => simp
  | refused lobby error hvalid => simp [hvalid]
  | thrown lobby e hthrown =>
    rcases hthrown with hvalid | ⟨hvalid, hupdate⟩
    · simp [hvalid]
    · simp [hvalid, hupdate]
  | committed lobby next hvalid hupdate =>
    exact iff_of_true ⟨_, rfl⟩ ⟨lobby, next, rfl, hvalid, hupdate⟩

theorem SingleRun.missing_iff (h : SingleRun lobbyId t now value result)
    (hcode : ∀ lobby error, t.validateLobbyFn lobby = .ok (some error) → error.code ≠ notFound) :
    result = .error (.https (notFoundError lobbyId)) ↔ value = none := by
  cases h with
  | missing => simp
  | refused lobby error hvalid =>
    refine iff_of_false ?_ (by simp)
    intro heq
    obtain rfl := Failure.https.inj (Except.error.inj heq)
    exact hcode lobby _ hvalid rfl
  | thrown lobby e hthrown => simp
  | committed lobby next hvalid hupdate => simp

theorem SingleRun.refused_eq (h : SingleRun lobbyId t now value result) {lobby : Lobby}
    {error : HttpsError} (hvalue : value = some lobby)
    (hvalid : t.validateLobbyFn lobby = .ok (some error)) : result = .error (.https error) := by
  subst hvalue
  cases h with
  | refused _ error' hvalid' =>
    rw [hvalid] at hvalid'
    rw [Option.some.inj (Except.ok.inj hvalid')]
  | thrown _ e hthrown => rcases hthrown with h | ⟨h, _⟩ <;> rw [hvalid] at h <;> cases h
  | committed _ next h hupdate => rw [hvalid] at h; cases h

theorem SingleRun.thrown_eq (h : SingleRun lobbyId t now value result) {lobby : Lobby}
    {e : JsException} (hvalue : value = some lobby)
    (hthrown : t.validateLobbyFn lobby = .error e ∨ t.validateLobbyFn lobby = .ok none ∧
      t.updateLobbyFn { lobby with transactionTime := some now } = .error e) :
    result = .error (.exception e) := by
  subst hvalue
  cases h with
  | refused _ error hvalid =>
    rcases hthrown with h | ⟨h, _⟩ <;> rw [hvalid] at h <;> cases h
  | thrown _ e' hthrown' =>
    rcases hthrown with h | ⟨h, h'⟩ <;> rcases hthrown' with k | ⟨k, k'⟩ <;> simp_all
  | committed _ next hvalid hupdate =>
    rcases hthrown with h | ⟨_, h⟩
    · rw [hvalid] at h; cases h
    · rw [hupdate] at h; cases h

end SingleRun

/-- A run of a transaction on `value`, with the draws `0`. -/
def sampleAttempt (value : Option Lobby) : LobbyAttempt :=
  ⟨value, 5, ⟨fun _ => Draw.zero, fun _ => Draw.zero⟩, fun _ => Draw.zero⟩

/-- The lobby of `ann`, who is alone in it. -/
def sampleOpenLobby : Lobby where
  hostId := "ann"
  players := Dict.set ∅ "ann" ⟨some (.str "Ann"), some (.num 0), some (.num 1), 0⟩

end PasswordApp
