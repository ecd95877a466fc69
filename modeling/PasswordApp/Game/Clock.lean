import PasswordApp.Game.Schedule

namespace PasswordApp

/-!
# Game — when the turns are created

`updateLobby` writes its time to `internal.transactionTime` before the update function runs, and
a new turn takes it over as `created`.

* `Timed` — a commit keeps the times of the turns, and may add a turn of its own time;
* `creationTimes_of_reaches` — so no turn of a started game is ever given another time;
* `Clocked` — with a clock that goes on from commit to commit, each turn is later than the one
  before (`clocked_of_reachable`).
-/

/-- The times at which the turns were created. -/
def Lobby.creationTimes (lobby : Lobby) : List (Option ℕ) := lobby.turns.map Turn.created

theorem creationTimes_stored (lobby : Lobby) :
    lobby.stored.creationTimes = lobby.creationTimes := by
  rw [Lobby.creationTimes, Lobby.stored, List.map_map]
  rfl

/-- Rewriting the current turn keeps the times. -/
theorem map_created_concat {done : List Turn} {t t' : Turn} (h : t'.created = t.created) :
    (done ++ [t']).map Turn.created = (done ++ [t]).map Turn.created := by
  simp [h]

/-! ### What a commit does -/

/-- A commit at the time `now`. -/
structure Timed (now : ℕ) (lobby lobby' : Lobby) : Prop where
  transactionTime : lobby'.transactionTime = some now
  turns : lobby'.creationTimes = lobby.creationTimes ∨
    lobby'.creationTimes = lobby.creationTimes ++ [some now]

theorem Advances.timed {lobby mid lobby' : Lobby} {status : Status} {now : ℕ}
    (h : Advances mid lobby' status) (hnow : mid.transactionTime = some now)
    (hturns : mid.creationTimes = lobby.creationTimes) :
    Timed now lobby { lobby' with status := status } := by
  cases h with
  | gameOver settings hsettings hlen => exact ⟨hnow, Or.inl hturns⟩
  | nextTurn settings nextPlayer hsettings hlen hnext =>
    refine ⟨hnow, Or.inr ?_⟩
    show (mid.turns ++ [_]).map Turn.created = _
    rw [List.map_append, List.map_singleton, hnow, ← hturns]
    rfl

theorem WordPlayed.timed {word : Json} {lobby next : Lobby} {now : ℕ}
    (h : WordPlayed word lobby next) (hnow : lobby.transactionTime = some now) :
    Timed now lobby next := by
  cases h with
  | awaitsVotes done t hturns hnone =>
    refine ⟨hnow, Or.inl ?_⟩
    rw [Lobby.creationTimes, Lobby.creationTimes, hturns]
    exact map_created_concat rfl
  | othersWord done t hturns otherId hother players hscored lobby' status hadvances =>
    refine hadvances.timed hnow ?_
    rw [Lobby.creationTimes, Lobby.creationTimes, hturns]
    exact map_created_concat rfl

theorem VotesCast.timed {votes : Votes} {tallied : ℕ} {lobby next : Lobby} {now : ℕ}
    (h : VotesCast votes tallied lobby next) (hnow : lobby.transactionTime = some now) :
    Timed now lobby next := by
  cases h with
  | stillOpen hopen => exact ⟨hnow, Or.inl rfl⟩
  | tally hquorum done t hturns bank hbank hpayable players hscored lobby' status hadvances =>
    refine hadvances.timed hnow ?_
    rw [Lobby.creationTimes, Lobby.creationTimes, hturns]
    exact map_created_concat rfl

theorem Timed.stored {lobby next : Lobby} {now : ℕ} (h : Timed now lobby next) :
    Timed now lobby next.stored where
  transactionTime := h.transactionTime
  turns := by
    rw [creationTimes_stored]
    exact h.turns

theorem CallEffect.timed {now : ℕ} {lobby lobby' : Lobby} {c : Call}
    (h : CallEffect now lobby c lobby') (hstarted : lobby.status ≠ .lobby) :
    Timed now lobby lobby' := by
  cases c with
  | addPlayerToLobby player playerId => exact absurd h.1 hstarted
  | addBot requesterId => exact absurd h.2.1 hstarted
  | startGame playerId gameSettings random => exact absurd h.2.1 hstarted
  | submitWord playerId word =>
    obtain ⟨_, _, next, hplayed, rfl⟩ := h
    have htimed : Timed now lobby next := ⟨(hplayed.timed rfl).1, (hplayed.timed rfl).2⟩
    exact htimed.stored
  | requestNewWords playerId random =>
    obtain ⟨_, next, hrolled, rfl⟩ := h
    obtain ⟨_, _, _, _, _, _, _, _, _⟩ := hrolled
    exact Timed.stored ⟨rfl, Or.inl rfl⟩
  | voteOnWord playerId vote =>
    obtain ⟨_, _, _, k, next, _, hcast, rfl⟩ := h
    have htimed : Timed now lobby next := ⟨(hcast.timed rfl).1, (hcast.timed rfl).2⟩
    exact htimed.stored

theorem TriggerEffect.timed {now : ℕ} {answer : BotAnswer} {lobby lobby' : Lobby}
    {trigger : BotTrigger} (h : TriggerEffect now answer lobby trigger lobby') :
    Timed now lobby lobby' := by
  cases trigger with
  | watchForBotVotes turn votingBotIds =>
    obtain ⟨k, next, _, hcast, rfl⟩ := h
    exact Timed.stored ⟨(hcast.timed rfl).1, (hcast.timed rfl).2⟩
  | watchForBotTurns turn =>
    obtain ⟨next, hplayed, rfl⟩ := h
    exact Timed.stored ⟨(hplayed.timed rfl).1, (hplayed.timed rfl).2⟩

/-- The time of an input. -/
def RoomInput.now : RoomInput → ℕ
  | .call now _ => now
  | .deliver now _ _ => now
  | .redeliver now _ _ => now

/-- A step of a started game commits at its time, or changes nothing. -/
theorem RoomStep.timed {lobbyId : LobbyId} {room room' : Room} {i : RoomInput}
    (h : RoomStep lobbyId room i room') (hstarted : room.lobby.status ≠ .lobby) :
    room'.lobby = room.lobby ∨ Timed i.now room.lobby room'.lobby := by
  cases h with
  | rejected => exact Or.inl rfl
  | called now c lobby hok heffect => exact Or.inr (heffect.timed hstarted)
  | failed => exact Or.inl rfl
  | delivered now i answer trigger hpending lobby heffect => exact Or.inr heffect.timed
  | redelivered now i answer trigger hdelivered lobby heffect => exact Or.inr heffect.timed

/-! ### Along a run -/

/-- **The time of a turn is final.**  In a started game turns are added at the end, and none is
    given another time. -/
theorem creationTimes_of_reaches {lobbyId : LobbyId} {G : Room → RoomInput → Prop}
    {settings : Settings} {room room' : Room} (hs : Scheduled settings room.lobby)
    (h : (roomMachine lobbyId).Reaches G room room') :
    room.lobby.creationTimes <+: room'.lobby.creationTimes := by
  refine h.relates (I := fun room => Scheduled settings room.lobby)
    (R := fun room room' => room.lobby.creationTimes <+: room'.lobby.creationTimes)
    (fun _ => List.prefix_refl _) (fun _ _ _ => List.IsPrefix.trans) ?_ hs
  intro room i hs _
  refine ⟨hs.step i, ?_⟩
  show room.lobby.creationTimes <+: (room.step lobbyId i).lobby.creationTimes
  rcases (Room.step_cases lobbyId room i).timed hs.started with hsame | htimed
  · exact ⟨[], by rw [List.append_nil, hsame]⟩
  · rcases htimed.turns with hkept | hadded
    · exact ⟨[], by rw [List.append_nil, hkept]⟩
    · exact ⟨[some i.now], hadded.symm⟩

/-- The guard of runs in which the clock goes on from commit to commit. -/
def ClockRuns (room : Room) (i : RoomInput) : Prop :=
  ∀ time ∈ room.lobby.transactionTime, time < i.now

instance (room : Room) (i : RoomInput) : Decidable (ClockRuns room i) :=
  inferInstanceAs (Decidable (∀ time ∈ room.lobby.transactionTime, _))

/-- Each turn was created after the one before it, and none after the last commit. -/
def Clocked (lobby : Lobby) : Prop :=
  ∃ times : List ℕ, lobby.creationTimes = times.map some ∧ times.Pairwise (· < ·) ∧
    ∀ time ∈ times, ∃ now, lobby.transactionTime = some now ∧ time ≤ now

/-- A commit after the last one. -/
theorem Timed.clocked {now : ℕ} {lobby lobby' : Lobby} (h : Timed now lobby lobby')
    (hclock : ∀ time, lobby.transactionTime = some time → time < now) (hclocked : Clocked lobby) :
    Clocked lobby' := by
  obtain ⟨times, htimes, hincreasing, hpast⟩ := hclocked
  have hbefore : ∀ time ∈ times, time < now := by
    intro time hmem
    obtain ⟨last, hlast, hle⟩ := hpast time hmem
    exact lt_of_le_of_lt hle (hclock last hlast)
  rcases h.turns with hkept | hadded
  · refine ⟨times, hkept.trans htimes, hincreasing, fun time hmem => ?_⟩
    exact ⟨now, h.transactionTime, (hbefore time hmem).le⟩
  · refine ⟨times ++ [now], ?_, ?_, ?_⟩
    · rw [hadded, htimes, List.map_append, List.map_singleton]
    · rw [List.pairwise_append]
      refine ⟨hincreasing, List.pairwise_singleton _ now, ?_⟩
      intro time hmem last hlast
      rw [List.mem_singleton.mp hlast]
      exact hbefore time hmem
    · intro time hmem
      refine ⟨now, h.transactionTime, ?_⟩
      rcases List.mem_append.mp hmem with hold | hnew
      · exact (hbefore time hold).le
      · rw [List.mem_singleton.mp hnew]

/-- **The turns are in the order of their times**, if the clock goes on. -/
theorem clocked_of_reachable {lobbyId : LobbyId} {room : Room}
    (h : Room.Reachable lobbyId ClockRuns room) (hstarted : room.lobby.status ≠ .lobby) :
    Clocked room.lobby := by
  have hphase : Phase (fun _ room => Clocked room.lobby) room := by
    refine h.phase ?_ ?_
    · intro room now settings next _ hdealt
      cases hdealt with
      | intro gameWords random hplayers hwords banks hbanks order horder firstPlayer hfirst =>
        -- the first turn has the time of the deal
        refine ⟨[now], rfl, List.pairwise_singleton _ now, ?_⟩
        intro time hmem
        exact ⟨now, rfl, (List.mem_singleton.mp hmem).le⟩
    · intro settings room i room' hs hclocked hG hstep
      rcases hstep.timed hs.started with hsame | htimed
      · rw [hsame]
        exact hclocked
      · exact htimed.clocked hG hclocked
  obtain ⟨_, _, hclocked⟩ := hphase.game hstarted
  exact hclocked

/-- `ann` and `ben` play; `ben` has the first turn, and a word passes. -/
def sampleTimes : List RoomInput :=
  [.call 1 (.addPlayerToLobby samplePlayer "ann"), .call 2 (.addPlayerToLobby samplePlayer "ben"),
   .call 3 (.startGame "ann" defaultSettings ⟨zeroDraws, zeroDraws⟩),
   .call 4 (.submitWord "ben" (.str "zebra")), .call 5 (.voteOnWord "ann" (.bool false))]

example : (roomMachine "L").Admissible ClockRuns (Room.initial "ann") sampleTimes ∧
    (sampleRoom sampleTimes).lobby.creationTimes = [some 3, some 5] := by decide +kernel

end PasswordApp
