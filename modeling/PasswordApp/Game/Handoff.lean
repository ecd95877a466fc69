import PasswordApp.Game.Ballots

namespace PasswordApp

/-!
# Game — handing the turn to a bot

`startNextTurnOrEndGame` raises `awaitingBotTurn` for a bot's turn, and the trigger that plays
a turn clears it at the end of its own update.  If that update has already pushed the turn
of another bot, the flag it clears is the new one and no event is ever fired for it.

* `Room.HandedOff` — a bot's turn has the flag raised and its event outstanding;
* `Room.DropsFlag` — a trigger plays another player's word and the next turn is a bot's;
* `Handed.step` — the hand-off is kept by every other step;
* `bot_handoff_iff` — and by no such one.
-/

/-- On a bot's turn the flag is raised and the event of this turn outstanding. -/
def Room.HandedOff (room : Room) : Prop :=
  room.lobby.status = .submission → ∀ done t, room.lobby.turns = done ++ [t] →
    isBot t.player = true →
      room.lobby.awaitingBotTurn = true ∧
      .watchForBotTurns room.lobby.turns.length ∈ room.pending

/-! ### The step that loses a turn -/

/-- Does the event play a turn? -/
def BotTrigger.playsTurn : BotTrigger → Bool
  | .watchForBotTurns _ => true
  | .watchForBotVotes _ _ => false

/-- The player of the next turn, unless the game ends. -/
def Lobby.nextPlayer (lobby : Lobby) : Option Uid :=
  match lobby.settings with
  | none => none
  | some settings =>
    if lobby.turns.length = settings.numRounds * lobby.playerOrder.length then none
    else lobby.playerOrder[lobby.turns.length % lobby.playerOrder.length]?

/-- Is the word in the bank of a player who is not on turn? -/
def Lobby.ownedByOther (lobby : Lobby) (word : Json) : Bool :=
  lobby.turns.getLast?.any (fun t => (findOther lobby t.player (some word)).isSome)

/-- A turn trigger lands, its word is another player's and the next turn is a bot's. -/
def Room.DropsFlag (room : Room) : RoomInput → Prop
  | .deliver _ i answer =>
      room.pending[i]?.any BotTrigger.playsTurn = true ∧
      room.lobby.ownedByOther (.str answer.word) = true ∧
      room.lobby.nextPlayer.any isBot = true
  | _ => False

/-- The guard of runs in which only players vote and no flag is dropped. -/
def KeepsFlag (room : Room) (i : RoomInput) : Prop := PlayersOnly room i ∧ ¬ room.DropsFlag i

instance (room : Room) : ∀ i, Decidable (room.DropsFlag i)
  | .deliver _ _ _ => inferInstanceAs (Decidable (_ ∧ _ ∧ _))
  | .redeliver _ _ _ => inferInstanceAs (Decidable False)
  | .call _ _ => inferInstanceAs (Decidable False)

instance (room : Room) (i : RoomInput) : Decidable (KeepsFlag room i) :=
  inferInstanceAs (Decidable (_ ∧ _))

theorem ownedByOther_iff {lobby : Lobby} {done : List Turn} {t : Turn}
    (hturns : lobby.turns = done ++ [t]) (word : Json) :
    lobby.ownedByOther word = true ↔
      ∃ otherId, findOther lobby t.player (some word) = some otherId := by
  rw [Lobby.ownedByOther, hturns, List.getLast?_concat]
  exact Option.isSome_iff_exists

theorem nextPlayer_eq {lobby : Lobby} {settings : Settings} {nextPlayer : Uid}
    (hsettings : lobby.settings = some settings)
    (hopen : lobby.turns.length ≠ settings.numRounds * lobby.playerOrder.length)
    (hnext : lobby.playerOrder[lobby.turns.length % lobby.playerOrder.length]? = some nextPlayer) :
    lobby.nextPlayer = some nextPlayer := by
  rw [Lobby.nextPlayer, hsettings]
  simp only [if_neg hopen, hnext]

theorem nextPlayer_none {lobby : Lobby} {settings : Settings}
    (hsettings : lobby.settings = some settings)
    (hfull : lobby.turns.length = settings.numRounds * lobby.playerOrder.length) :
    lobby.nextPlayer = none := by
  rw [Lobby.nextPlayer, hsettings]
  simp only [if_pos hfull]

/-! ### The hand-off is kept -/

/-- The flag is raised exactly on a bot's turn, and its event is outstanding there. -/
structure Handed (room : Room) : Prop where
  submission : room.lobby.status = .submission → ∀ done t, room.lobby.turns = done ++ [t] →
    room.lobby.awaitingBotTurn = isBot t.player ∧
    (isBot t.player = true → room.pending = [.watchForBotTurns room.lobby.turns.length])
  voting : room.lobby.status = .voting → room.lobby.awaitingBotTurn = false

theorem Handed.handedOff {room : Room} (h : Handed room) : room.HandedOff := by
  intro hstatus done t hturns hbot
  obtain ⟨hflag, hevent⟩ := h.submission hstatus done t hturns
  refine ⟨hflag.trans hbot, ?_⟩
  rw [hevent hbot]
  exact List.mem_singleton.mpr rfl

/-- Only humans submit. -/
theorem PlayersOnly.human {room : Room} {now : ℕ} {uid : Uid} {word : Json}
    (hP : PlayersOnly room (.call now (.submitWord uid word)))
    (hstatus : room.lobby.status = .submission) (hturn : room.lobby.OnTurn uid) {done : List Turn}
    {t : Turn} (hturns : room.lobby.turns = done ++ [t]) : isBot t.player = false := by
  have hhuman : isBot uid = false := hP hstatus hturn
  obtain ⟨done', t', hlast, rfl⟩ := hturn
  obtain ⟨_, rfl⟩ := List.append_singleton_inj (hturns.symm.trans hlast)
  exact hhuman

/-- A turn resolved while the flag is down hands the next one over. -/
theorem Resolves.handed {room room' : Room} {done : List Turn} {t t' : Turn}
    (hres : Resolves room done t t' false room') (hflag : room.lobby.awaitingBotTurn = false) :
    Handed room' := by
  cases hres.next with
  | gameOver hstatus =>
    refine ⟨?_, ?_⟩
    · simp [hstatus]
    · simp [hstatus]
  | nextTurn nextPlayer created hopen hnext hstatus hturns hawaiting hpending =>
    -- from a lowered flag, pushing a bot's turn raises it, which fires the event
    have hraised : room'.lobby.awaitingBotTurn = isBot nextPlayer := by
      rw [hawaiting, hflag]; rfl
    refine ⟨?_, ?_⟩
    · intro _ done' u hu
      rw [hturns] at hu
      obtain ⟨_, rfl⟩ := List.append_singleton_inj hu
      refine ⟨hraised, fun hbot => ?_⟩
      rw [hpending, if_pos ⟨hflag, hraised.trans hbot⟩]
    · simp [hstatus]

/-- A word of a player, or of a bot before a human's turn, hands the turn over. -/
theorem PlaysWord.handed {room room' : Room} {i : RoomInput} {word : Json} {cleared : Bool}
    (hby : PlaysWord room i word cleared) (h : Handed room) {settings : Settings}
    (hs : Scheduled settings room.lobby) (hG : KeepsFlag room i)
    (hstatus : room.lobby.status = .submission) {done : List Turn} {t : Turn} {otherId : Uid}
    (hother : findOther room.lobby t.player (some word) = some otherId)
    (hres : Resolves room done t ((t.submit word).stolen otherId) cleared room') :
    Handed room' := by
  cases hby with
  | player now uid word hturn hpending =>
    apply hres.handed
    rw [(h.submission hstatus done t hres.turns).1, hG.1.human hstatus hturn hres.turns]
  | bot now i answer turn hevent hpending =>
    cases hres.next with
    | gameOver hstatus' =>
      refine ⟨?_, ?_⟩
      · simp [hstatus']
      · simp [hstatus']
    | nextTurn nextPlayer created hopen hnext hstatus' hturns hawaiting =>
      have hlen : room.lobby.turns.length
          = (done ++ [((t.submit (.str answer.word)).stolen otherId).stored]).length := by
        rw [hres.turns, List.length_append, List.length_append]; rfl
      -- the trigger lowers the flag after the push, so the next player must be human
      have hhuman : isBot nextPlayer = false := by
        by_contra hbot
        rw [Bool.not_eq_false] at hbot
        -- otherwise the step would drop the flag
        refine hG.2 ⟨?_, ?_, ?_⟩
        · rw [hevent]; rfl
        · exact (ownedByOther_iff hres.turns _).mpr ⟨otherId, hother⟩
        · rw [nextPlayer_eq hs.settings_eq ?_ ?_]
          · exact hbot
          · rw [hlen]; exact hopen settings hs.settings_eq
          · rw [hlen]; exact hnext
      refine ⟨?_, ?_⟩
      · intro _ done' u hu
        rw [hturns] at hu
        obtain ⟨_, rfl⟩ := List.append_singleton_inj hu
        refine ⟨hawaiting.trans hhuman.symm, fun hbot => ?_⟩
        rw [hhuman] at hbot
        cases hbot
      · simp [hstatus']

/-- **A step that drops no flag hands the next turn over.** -/
theorem Handed.step {lobbyId : LobbyId} {settings : Settings} {room room' : Room} {i : RoomInput}
    (h : Handed room) (hfair : Fair room) (hs : Scheduled settings room.lobby)
    (hG : KeepsFlag room i) (hstep : RoomStep lobbyId room i room') : Handed room' := by
  cases hfair.toTidy.gameStep hs (hfair.orderly hs hG.1) hstep with
  | idle i hrejected room' hlobby hpending =>
    refine ⟨?_, by rw [hlobby]; exact h.voting⟩
    rw [hlobby]
    rcases hpending with hsame | ⟨hstatus, _⟩
    · rw [hsame]; exact h.submission
    · simp [hstatus]
  | exchanged now playerId random hallowed room' hok hstatus hturns hvotes hawaiting hcharged
      hpending =>
    refine ⟨?_, ?_⟩
    · rw [hstatus, hturns, hawaiting, hpending]; exact h.submission
    · rw [hstatus, hawaiting]; exact h.voting
  | opened i word cleared hby hstatus done t hturns room' hstatus' hturns' hvotes hplayers hawaiting
      hpending =>
    refine ⟨?_, fun _ => ?_⟩
    · simp [hstatus']
    · rw [hawaiting]
      cases hby with
      | bot => rfl
      | player now uid word hturn hnone =>
        rw [(h.submission hstatus done t hturns).1, hG.1.human hstatus hturn hturns]
        rfl
  | stolen i word cleared hby hstatus done t otherId hother room' hvotes hres =>
    exact hby.handed h hs hG hstatus hother hres
  | counted i votes left hby hstatus hopen room' hstatus' hturns hvotes hplayers hawaiting hpending
      =>
    refine ⟨?_, fun _ => by rw [hawaiting]; exact h.voting hstatus⟩
    simp [hstatus']
  | tallied i votes left hby hstatus hquorum done t bank room' hvotes hres =>
    exact hres.handed (h.voting hstatus)

/-- The first turn is handed over when the game is dealt. -/
theorem FreshGame.handed {room : Room} {firstPlayer : Uid} {created : Option ℕ}
    (h : FreshGame room firstPlayer created) : Handed room := by
  refine ⟨?_, ?_⟩
  · intro _ done t hturns
    rw [h.turns] at hturns
    obtain ⟨_, rfl⟩ := List.append_singleton_inj (l := []) hturns
    refine ⟨h.awaitingBotTurn, fun hbot => ?_⟩
    rw [h.pending, if_pos hbot, h.turns]
    rfl
  · simp [h.status]

theorem handed_of_reachable {lobbyId : LobbyId} {room : Room}
    (h : Room.Reachable lobbyId KeepsFlag room) :
    Phase (fun _ room => Fair room ∧ Handed room) room := by
  refine h.phase ?_ ?_
  · intro room now settings next hun hdealt
    obtain ⟨firstPlayer, created, hfresh⟩ := hdealt.fresh hun
    exact ⟨hfresh.fair, hfresh.handed⟩
  · rintro settings room i room' hs ⟨hfair, hhanded⟩ hG hstep
    exact ⟨hfair.step hs hG.1 hstep, hhanded.step hfair hs hG hstep⟩

/-! ### The hand-off is lost -/

/-- A turn trigger that lands commits. -/
theorem Room.step_turnTrigger (lobbyId : LobbyId) {settings : Settings} {room : Room}
    (hs : Scheduled settings room.lobby) (now : ℕ) {i : ℕ} (answer : BotAnswer) {turn : ℕ}
    (hevent : room.pending[i]? = some (.watchForBotTurns turn)) :
    ∃ lobby', TriggerEffect now answer room.lobby (.watchForBotTurns turn) lobby' ∧
      (room.step lobbyId (.deliver now i answer)).lobby = lobby' := by
  obtain ⟨lobby', hok⟩ := hs.watchForBotTurns_commits lobbyId now answer.word
  have heffect : TriggerEffect now answer room.lobby (.watchForBotTurns turn) lobby' :=
    trigger_ok hok
  refine ⟨lobby', heffect, ?_⟩
  have hstep : room.step lobbyId (.deliver now i answer)
      = (room.take i (.watchForBotTurns turn)).commit lobbyId
        (watchForBotTurns answer.word) now := by
    simp only [Room.step, hevent, BotTrigger.transaction]
  rcases Room.commit_cases lobbyId (watchForBotTurns answer.word) now
      (room.take i (.watchForBotTurns turn)) with ⟨_, hfailed⟩ | ⟨stored, hstored, hcommit⟩
  · exact absurd hok (hfailed lobby')
  · rw [hstep, hcommit]
    exact Except.ok.inj (hstored.symm.trans hok)

/-- **A dropped flag loses the next turn**: it is a bot's, and nothing is awaited. -/
theorem Room.DropsFlag.lost {lobbyId : LobbyId} {settings : Settings} {room : Room} {i : RoomInput}
    (h : room.DropsFlag i) (hs : Scheduled settings room.lobby) :
    ¬ (room.step lobbyId i).HandedOff := by
  cases i with
  | call now c => exact h.elim
  | redeliver now i answer => exact h.elim
  | deliver now i answer =>
    obtain ⟨hpending, howned, hbot⟩ := h
    cases hevent : room.pending[i]? with
    | none => rw [hevent] at hpending; cases hpending
    | some trigger =>
      cases trigger with
      | watchForBotVotes turn ids => rw [hevent] at hpending; cases hpending
      | watchForBotTurns turn =>
        obtain ⟨lobby', ⟨next, hplayed, rfl⟩, hlobby⟩ :=
          Room.step_turnTrigger lobbyId hs now answer hevent
        cases hplayed with
        | awaitsVotes done t hturns hnone =>
          have hturns : room.lobby.turns = done ++ [t] := hturns
          obtain ⟨otherId, hother⟩ := (ownedByOther_iff hturns _).mp howned
          have hnone : findOther room.lobby t.player (some (.str answer.word)) = none := hnone
          rw [hother] at hnone
          cases hnone
        | othersWord done t hturns otherId hother players hscored mid status hadvances =>
          have hlen : room.lobby.turns.length
              = (done ++ [(t.submit (.str answer.word)).stolen otherId]).length := by
            rw [show room.lobby.turns = done ++ [t] from hturns, List.length_append,
              List.length_append]
            rfl
          cases hadvances with
          | gameOver settings' hsettings hfull =>
            -- at the end of the game there is no next player
            have hover : room.lobby.nextPlayer = none :=
              nextPlayer_none hsettings (hlen.trans hfull)
            rw [hover] at hbot
            cases hbot
          | nextTurn settings' nextPlayer hsettings hopen hnext =>
            have hnextPlayer : room.lobby.nextPlayer = some nextPlayer :=
              nextPlayer_eq hsettings (by rw [hlen]; exact hopen) (by rw [hlen]; exact hnext)
            rw [hnextPlayer] at hbot
            -- the update has pushed the bot's turn, and then lowers the flag
            intro hhanded
            rw [Room.HandedOff, hlobby] at hhanded
            obtain ⟨hflag, _⟩ := hhanded rfl
              ((done ++ [(t.submit (.str answer.word)).stolen otherId]).map Turn.stored)
              (Turn.stored { player := nextPlayer, created := some now }) (List.map_append ..) hbot
            cases hflag

/-- `bot1`, `bot2` and `ann` play one round, and `bot1` plays `word`. -/
def sampleBotWord (word : String) : List RoomInput :=
  sampleStart [] 2 sampleSettings ++ [.deliver 1 0 (sampleAnswer false word)]

end PasswordApp
