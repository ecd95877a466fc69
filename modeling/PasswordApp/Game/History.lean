import PasswordApp.Backend.Server
import PasswordApp.Game.Triggers

namespace PasswordApp

/-!
# Game — resolved turns are history

In an orderly run the resolved turns are a log: a step appends at most one turn to it and
pays exactly the appended turn (`GameStep.ledger`); a finished game does not change at all
(`GameStep.over`).  A stale batch of bot votes breaks both (`history_rewritten`).
-/

/-! ### The log of resolved turns -/

/-- The turns whose outcome is recorded. -/
def Lobby.resolvedTurns (lobby : Lobby) : List Turn := lobby.turns.filter (fun t => t.Resolved)

theorem resolvedTurns_nil {lobby : Lobby} (h : lobby.turns = []) : lobby.resolvedTurns = [] := by
  rw [Lobby.resolvedTurns, h]; rfl

theorem filter_resolved {turns : List Turn} (h : ∀ t ∈ turns, t.Resolved) :
    turns.filter (fun t => t.Resolved) = turns := by
  rw [List.filter_eq_self]
  intro t ht
  exact decide_eq_true (h t ht)

/-- The log of a game in progress: all turns before the current one. -/
theorem Scheduled.resolvedTurns_current {settings : Settings} {lobby : Lobby}
    (h : Scheduled settings lobby) {done : List Turn} {t : Turn}
    (hturns : lobby.turns = done ++ [t])
    (hopen : ¬ t.Resolved) : lobby.resolvedTurns = done := by
  rw [Lobby.resolvedTurns, hturns, List.filter_append, filter_resolved (h.resolved_of_turns hturns)]
  simp [hopen]

/-- A resolved turn keeps its index in the log. -/
theorem Scheduled.resolvedTurns_getElem? {settings : Settings} {lobby : Lobby}
    (h : Scheduled settings lobby) {k : ℕ} {t : Turn} :
    lobby.resolvedTurns[k]? = some t ↔ lobby.turns[k]? = some t ∧ t.Resolved := by
  obtain ⟨done, last, hturns⟩ := h.turns_eq
  have hdone := h.resolved_of_turns hturns
  by_cases hlast : last.Resolved
  · -- the log is the whole list
    have hall : ∀ u ∈ lobby.turns, u.Resolved := by
      rw [hturns]
      intro u hu
      rcases List.mem_append.mp hu with hu | hu
      · exact hdone u hu
      · rw [List.mem_singleton.mp hu]; exact hlast
    rw [Lobby.resolvedTurns, filter_resolved hall]
    exact ⟨fun hk => ⟨hk, hall t (List.mem_of_getElem? hk)⟩, fun hk => hk.1⟩
  · -- the log stops before the current turn
    rw [h.resolvedTurns_current hturns hlast, hturns]
    constructor
    · intro hk
      obtain ⟨hlt, _⟩ := List.getElem?_eq_some_iff.mp hk
      exact ⟨by rw [List.getElem?_append_left hlt]; exact hk, hdone t (List.mem_of_getElem? hk)⟩
    · rintro ⟨hk, hres⟩
      rcases Nat.lt_or_ge k done.length with hlt | hge
      · rwa [List.getElem?_append_left hlt] at hk
      · rw [List.getElem?_append_right hge] at hk
        have hmem := List.mem_of_getElem? hk
        rw [List.mem_singleton.mp hmem] at hres
        exact absurd hres hlast

/-! ### Exchanges -/

/-- Does the input charge `uid` for an exchange of words? -/
def Room.exchange (lobbyId : LobbyId) (uid : Uid) (room : Room) : RoomInput → ℤ
  | .call now (.requestNewWords playerId random) =>
    match updateLobby lobbyId (requestNewWords lobbyId playerId random) now (some room.lobby) with
    | .ok _ => if playerId = uid then 1 else 0
    | .error _ => 0
  | _ => 0

theorem exchange_of_rejected {lobbyId : LobbyId} {uid : Uid} {room : Room} {i : RoomInput}
    (h : i.Rejected lobbyId room) : room.exchange lobbyId uid i = 0 := by
  unfold Room.exchange
  split
  · rename_i now playerId random
    split
    · rename_i lobby hok
      exact absurd hok (h now (.requestNewWords playerId random) lobby rfl)
    · rfl
  · rfl

/-- Only `requestNewWords` exchanges words. -/
def RoomInput.IsExchange : RoomInput → Prop
  | .call _ (.requestNewWords _ _) => True
  | _ => False

theorem exchange_of_not {lobbyId : LobbyId} {uid : Uid} {room : Room} {i : RoomInput}
    (h : ¬ i.IsExchange) : room.exchange lobbyId uid i = 0 := by
  unfold Room.exchange
  split
  · exact absurd trivial h
  · rfl

theorem PlaysWord.not_exchange {room : Room} {i : RoomInput} {word : Json} {cleared : Bool}
    (h : PlaysWord room i word cleared) : ¬ i.IsExchange := by
  cases h <;> exact id

theorem CastsVotes.not_exchange {room : Room} {i : RoomInput} {votes : Votes}
    {left : List BotTrigger} (h : CastsVotes room i votes left) : ¬ i.IsExchange := by
  cases h <;> exact id

/-! ### One step -/

/-- A step extends the log by `news` and pays it, less the charges for exchanged words. -/
structure Extends (lobbyId : LobbyId) (room : Room) (i : RoomInput) (room' : Room)
    (news : List Turn) : Prop where
  log : room'.lobby.resolvedTurns = room.lobby.resolvedTurns ++ news.map Turn.stored
  paid : ∀ uid, scoreOf room'.lobby.players uid
    = scoreOf room.lobby.players uid + (news.map (turnDelta · uid)).sum
      - room.exchange lobbyId uid i

theorem Extends.none {lobbyId : LobbyId} {room room' : Room} {i : RoomInput}
    (hturns : room'.lobby.turns = room.lobby.turns)
    (hscores : ∀ uid, scoreOf room'.lobby.players uid
      = scoreOf room.lobby.players uid - room.exchange lobbyId uid i) :
    Extends lobbyId room i room' [] := by
  refine ⟨?_, fun uid => ?_⟩
  · rw [Lobby.resolvedTurns, Lobby.resolvedTurns, hturns, List.map_nil, List.append_nil]
  · rw [hscores, List.map_nil, List.sum_nil, add_zero]

theorem Resolves.extends {lobbyId : LobbyId} {settings : Settings} {room room' : Room}
    {i : RoomInput} {done : List Turn} {t t' : Turn} {cleared : Bool}
    (hres : Resolves room done t t' cleared room') (hs : Scheduled settings room.lobby)
    (hopen : ¬ t.Resolved) (hno : ∀ uid, room.exchange lobbyId uid i = 0) :
    Extends lobbyId room i room' [t'] := by
  -- the log was `done` and becomes `done` with the resolved turn
  have hdone : ∀ u ∈ done ++ [t'.stored], u.Resolved := by
    intro u hu
    rcases List.mem_append.mp hu with hu | hu
    · exact hs.resolved_of_turns hres.turns u hu
    · rw [List.mem_singleton.mp hu]; exact hres.resolved
  refine ⟨?_, fun uid => ?_⟩
  · rw [hs.resolvedTurns_current hres.turns hopen]
    show room'.lobby.turns.filter _ = done ++ [t'.stored]
    cases hres.next with
    | gameOver hstatus hturns => rw [hturns, filter_resolved hdone]
    | nextTurn nextPlayer created hfull hnext hstatus hturns =>
      rw [hturns, List.filter_append, filter_resolved hdone]
      simp [not_resolved_fresh]
  · rw [hres.scored.score, hno]
    simp

/-- **A step resolves at most one turn and pays it once.** -/
theorem GameStep.ledger {lobbyId : LobbyId} {settings : Settings} {room room' : Room}
    {i : RoomInput} (hstep : GameStep lobbyId room i room') (h : Tidy room)
    (hs : Scheduled settings room.lobby) :
    ∃ news, news.length ≤ 1 ∧ Extends lobbyId room i room' news ∧
      ∀ t' ∈ news, (t'.wasOthersWord = true ∧ t'.stored = t') ∨
        ∃ votes left done t, CastsVotes room i votes left ∧ room.lobby.status = .voting ∧
          room.lobby.turns = done ++ [t] ∧ t'.votes = votes := by
  -- tidiness: the current turn of a game in progress has no outcome, so it is not logged
  have hopen : room.lobby.status ≠ .done → ∀ done t, room.lobby.turns = done ++ [t] →
      ¬ t.Resolved := by
    intro hstatus done t hturns ht
    exact hstatus ((h.current done t hturns).mp ht)
  cases hstep with
  | idle i hrejected room' hlobby hpending =>
    refine ⟨[], by simp, .none (by rw [hlobby]) ?_, by simp⟩
    intro uid
    rw [hlobby, exchange_of_rejected hrejected, sub_zero]
  | exchanged now playerId random hallowed room' hok hstatus hturns hvotes hawaiting hcharged
      hpending =>
    refine ⟨[], by simp, .none hturns ?_, by simp⟩
    intro uid
    -- the exchange commits, so it is charged
    have hcharge : room.exchange lobbyId uid (.call now (.requestNewWords playerId random))
        = if playerId = uid then 1 else 0 := by
      simp only [Room.exchange, hok]
    rw [hcharge, hcharged]
  | opened i word cleared hby hstatus done t hturns room' hstatus' hturns' hvotes hplayers hawaiting
      hpending =>
    have hfresh : ¬ t.Resolved := hopen (by rw [hstatus]; simp) done t hturns
    refine ⟨[], by simp, ⟨?_, ?_⟩, by simp⟩
    · rw [hs.resolvedTurns_current hturns hfresh, List.map_nil, List.append_nil]
      show room'.lobby.turns.filter _ = done
      rw [hturns', List.filter_append, filter_resolved (hs.resolved_of_turns hturns)]
      -- a submitted word is no outcome
      have hsubmit : ¬ (t.submit word).Resolved := hfresh
      simp [hsubmit]
    · intro uid
      rw [hplayers, exchange_of_not hby.not_exchange]
      simp
  | stolen i word cleared hby hstatus done t otherId hother room' hvotes hres =>
    have hfresh : ¬ t.Resolved := hopen (by rw [hstatus]; simp) done t hres.turns
    refine ⟨[(t.submit word).stolen otherId], by simp,
      hres.extends hs hfresh (fun uid => exchange_of_not hby.not_exchange), ?_⟩
    intro t' ht'
    rw [List.mem_singleton.mp ht']
    have hall := stored_turns h.stored
    rw [hres.turns, List.map_append] at hall
    -- the stolen turn has no ballots to prune
    have ht : t.stored = t := (List.append_singleton_inj hall).2
    refine Or.inl ⟨rfl, ?_⟩
    show Turn.stolen (t.stored.submit word) otherId = _
    rw [ht]
  | counted i votes left hby hstatus hquorum room' hstatus' hturns hvotes hplayers hawaiting
      hpending =>
    refine ⟨[], by simp, .none hturns ?_, by simp⟩
    intro uid
    rw [hplayers, exchange_of_not hby.not_exchange, sub_zero]
  | tallied i votes left hby hstatus hquorum done t bank room' hvotes hres =>
    have hfresh : ¬ t.Resolved := hopen (by rw [hstatus]; simp) done t hres.turns
    refine ⟨[t.tally votes bank], by simp,
      hres.extends hs hfresh (fun uid => exchange_of_not hby.not_exchange), ?_⟩
    intro t' ht'
    rw [List.mem_singleton.mp ht']
    exact Or.inr ⟨votes, left, done, t, hby, hstatus, hres.turns, rfl⟩

/-- **A finished game is left alone.** -/
theorem GameStep.over {lobbyId : LobbyId} {room room' : Room} {i : RoomInput}
    (hstep : GameStep lobbyId room i room') (hdone : room.lobby.status = .done) :
    room'.lobby = room.lobby := by
  cases hstep with
  | idle i hrejected room' hlobby hpending => exact hlobby
  | exchanged now playerId random hallowed =>
    rcases hallowed with hst | ⟨hst, _⟩ <;> rw [hdone] at hst <;> cases hst
  | opened i word cleared hby hstatus => rw [hdone] at hstatus; cases hstatus
  | stolen i word cleared hby hstatus => rw [hdone] at hstatus; cases hstatus
  | counted i votes left hby hstatus => rw [hdone] at hstatus; cases hstatus
  | tallied i votes left hby hstatus => rw [hdone] at hstatus; cases hstatus

/-! ### Runs -/

theorem exchange_of_lobby {lobbyId : LobbyId} {uid : Uid} {room : Room} {i : RoomInput}
    (h : room.lobby.status = .lobby) : room.exchange lobbyId uid i = 0 := by
  unfold Room.exchange
  split
  · rename_i now playerId random
    have hrefused : (requestNewWords lobbyId playerId random).validateLobbyFn room.lobby
        = .ok (preconditionError ("Cannot request new words in lobby " ++ lobbyId ++
          " at this time.")) := by
      simp [requestNewWords, h]
    rw [updateLobby_refuses lobbyId hrefused]
  · rfl

/-- Before the first turn nothing is logged and nobody is paid. -/
theorem Unstarted.extends {lobbyId : LobbyId} {room room' : Room} {i : RoomInput}
    (h : Unstarted room) (hstep : RoomStep lobbyId room i room') :
    Extends lobbyId room i room' [] := by
  have hnone : room.lobby.resolvedTurns = [] := resolvedTurns_nil h.turns
  rcases h.step hstep with h' | ⟨now, settings, next, hdealt, rfl⟩
  · refine ⟨by rw [hnone, resolvedTurns_nil h'.turns]; rfl, fun uid => ?_⟩
    rw [h.scores, h'.scores, exchange_of_lobby h.status]
    rfl
  · obtain ⟨firstPlayer, created, hfresh⟩ := hdealt.fresh h
    refine ⟨?_, fun uid => ?_⟩
    · rw [hnone, Lobby.resolvedTurns, hfresh.turns]
      simp [not_resolved_fresh]
    · rw [h.scores, hfresh.scores, exchange_of_lobby h.status]
      rfl

/-- Every orderly step extends the log by at most one turn and pays what it appends. -/
theorem extends_of_reachable {lobbyId : LobbyId} {room : Room} {i : RoomInput}
    (h : Room.Reachable lobbyId Orderly room) (hG : Orderly room i) :
    ∃ news, news.length ≤ 1 ∧ Extends lobbyId room i (room.step lobbyId i) news := by
  have hstep := Room.step_cases lobbyId room i
  cases tidy_of_reachable h with
  | unstarted hun => exact ⟨[], by simp, hun.extends hstep⟩
  | started settings hs htidy =>
    obtain ⟨news, hlen, hext, _⟩ := (htidy.gameStep hs hG hstep).ledger htidy hs
    exact ⟨news, hlen, hext⟩

/-- The log grows at its end, and a finished lobby stays what it is. -/
theorem log_of_reaches {lobbyId : LobbyId} {room room' : Room}
    (h : Room.Reachable lobbyId Orderly room)
    (hreach : (roomMachine lobbyId).Reaches Orderly room room') :
    room.lobby.resolvedTurns <+: room'.lobby.resolvedTurns ∧
      (room.lobby.status = .done → room'.lobby = room.lobby) := by
  refine Machine.Reaches.relates (I := Room.Reachable lobbyId Orderly)
    (R := fun room room' => room.lobby.resolvedTurns <+: room'.lobby.resolvedTurns ∧
      (room.lobby.status = .done → room'.lobby = room.lobby)) ?_ ?_ ?_ h hreach
  · intro room
    exact ⟨List.prefix_rfl, fun _ => rfl⟩
  · rintro a b c ⟨hab, hab'⟩ ⟨hbc, hbc'⟩
    refine ⟨hab.trans hbc, fun hdone => ?_⟩
    -- the middle state is over too
    have hb := hab' hdone
    rw [hbc' (by rw [hb]; exact hdone), hb]
  · intro room i hreachable hG
    refine ⟨hreachable.trans (room.reaches_step hG), ?_, ?_⟩
    · obtain ⟨news, _, hext⟩ := extends_of_reachable hreachable hG
      show room.lobby.resolvedTurns <+: (room.step lobbyId i).lobby.resolvedTurns
      rw [hext.log]
      exact List.prefix_append _ _
    · intro hdone
      obtain ⟨settings, hs, htidy⟩ :=
        (tidy_of_reachable hreachable).game (by rw [hdone]; simp)
      exact (htidy.gameStep hs hG (Room.step_cases lobbyId room i)).over hdone

/-- The later lobby has the resolved turns of the earlier one as they were, and if the
    earlier game was over, nothing of it changed. -/
structure HistoryKept (lobby lobby' : Lobby) : Prop where
  records : ∀ (k : ℕ) (t : Turn), lobby.turns[k]? = some t → t.Resolved →
    t.submittedWord ≠ none ∧ lobby'.turns[k]? = some t
  finished : lobby.status = .done → lobby'.status = .done ∧ lobby'.turns = lobby.turns ∧
    ∀ uid, scoreOf lobby'.players uid = scoreOf lobby.players uid

theorem historyKept_of_reaches {lobbyId : LobbyId} {room room' : Room}
    (h : Room.Reachable lobbyId Orderly room)
    (hreach : (roomMachine lobbyId).Reaches Orderly room room') :
    HistoryKept room.lobby room'.lobby := by
  obtain ⟨hlog, hover⟩ := log_of_reaches h hreach
  refine ⟨?_, fun hdone => ?_⟩
  · intro k t hk hres
    cases tidy_of_reachable h with
    | unstarted hun => rw [hun.turns] at hk; cases hk
    | started settings hs htidy =>
      -- the record is in the log, the log only grows, and keeps its indices
      have hlogged : room.lobby.resolvedTurns[k]? = some t :=
        hs.resolvedTurns_getElem?.mpr ⟨hk, hres⟩
      have hlogged' : room'.lobby.resolvedTurns[k]? = some t := by
        obtain ⟨hlt, _⟩ := List.getElem?_eq_some_iff.mp hlogged
        obtain ⟨news, hnews⟩ := hlog
        rw [← hnews, List.getElem?_append_left hlt]
        exact hlogged
      refine ⟨htidy.submitted t (List.mem_of_getElem? hk) hres, ?_⟩
      cases tidy_of_reachable (h.trans hreach) with
      | unstarted hun' => rw [resolvedTurns_nil hun'.turns] at hlogged'; cases hlogged'
      | started settings' hs' _ => exact (hs'.resolvedTurns_getElem?.mp hlogged').1
  · rw [hover hdone]
    exact ⟨hdone, rfl, fun _ => rfl⟩

/-- **Resolved turns are history**, in every orderly run: their records never change again, a
    finished game does not change, and a step pays only the turn it resolves and charges only
    exchanges of words. -/
theorem resolved_turns_final {lobbyId : LobbyId} {room : Room}
    (h : Room.Reachable lobbyId Orderly room) :
    (∀ room', (roomMachine lobbyId).Reaches Orderly room room' →
      HistoryKept room.lobby room'.lobby) ∧
    (∀ i, Orderly room i → ∃ news : List Turn, news.length ≤ 1 ∧
      (room.step lobbyId i).lobby.resolvedTurns
        = room.lobby.resolvedTurns ++ news.map Turn.stored ∧
      ∀ uid, scoreOf (room.step lobbyId i).lobby.players uid
        = scoreOf room.lobby.players uid + (news.map (turnDelta · uid)).sum
          - room.exchange lobbyId uid i) := by
  refine ⟨fun room' hreach => historyKept_of_reaches h hreach, fun i hG => ?_⟩
  obtain ⟨news, hlen, hext⟩ := extends_of_reachable h hG
  exact ⟨news, hlen, hext.log, hext.paid⟩

/-! ### The failing runs -/

/-- Every event runs at most once. -/
def DeliveredOnce (_ : Room) : RoomInput → Prop
  | .redeliver _ _ _ => False
  | _ => True

instance (room : Room) : ∀ i, Decidable (DeliveredOnce room i)
  | .redeliver _ _ _ => inferInstanceAs (Decidable False)
  | .call _ _ => inferInstanceAs (Decidable True)
  | .deliver _ _ _ => inferInstanceAs (Decidable True)

/-- An answer of the bot server. -/
def sampleAnswer (challenge : Bool) (word : String) : BotAnswer := ⟨challenge, word, Draw.zero⟩

/-- `bot1` and `ann` play one round; `ann`'s word waits for the vote of `bot1`, whose batch is
    in flight. -/
def sampleLastVote : List RoomInput :=
  sampleStart [] 1 sampleSettings ++
  [.deliver 1 0 (sampleAnswer false "zebra"),
   .call 2 (.voteOnWord "ann" (.bool false)),
   .call 3 (.submitWord "ann" (.str "lemur"))]

theorem resolved_turns_final_sample :
    HistoryKept (sampleRoom (sampleLastVote ++ [.deliver 4 0 (sampleAnswer true "")])).lobby
      (sampleRoom (sampleLastVote ++ [.deliver 4 0 (sampleAnswer true "")] ++
        [.call 5 (.voteOnWord "ann" (.bool true))])).lobby := by
  have hreach : Room.Reachable "L" Orderly
      (sampleRoom (sampleLastVote ++ [.deliver 4 0 (sampleAnswer true "")])) :=
    sampleRoom_reachable (by decide +kernel)
  refine (resolved_turns_final hreach).1 _ ?_
  exact ⟨[.call 5 (.voteOnWord "ann" (.bool true))], by decide +kernel,
    ((roomMachine "L").run_append _ _ _).symm⟩

/-! ### The same on the server -/

/-- The `player` of a request. -/
def sampleProfile : String × Json :=
  ("player", .obj [("displayName", .str "Ann"), ("colorNumber", .num 1), ("emojiNumber", .num 1)])

/-- `ann` creates a lobby and enters it. -/
def sampleCreation : List ServerInput :=
  [.request (.createLobby (some "ann") (.obj [sampleProfile]) "L" (fun _ => zeroDraws)),
   .perform 1 0, .perform 2 0, .perform 3 0, .perform 4 0]

/-- `uid` asks to join the lobby with the code `AAAA`. -/
def sampleJoin (uid : Uid) : ServerInput :=
  .request (.joinLobby (some uid) (.obj [("lobbyCode", .str "AAAA"), sampleProfile]))

/-- `uid` submits a word. -/
def sampleSubmit (uid : Uid) (word : String) : List ServerInput :=
  [.request (.submitWord (some uid) (.obj [("word", .str word)])), .perform 10 0]

/-- `uid` votes. -/
def sampleVote (uid : Uid) (challenge : Bool) : List ServerInput :=
  [.request (.voteOnWord (some uid) (.obj [("challenge", .bool challenge)])), .perform 11 0]

/-- The server after some inputs. -/
def sampleServer (inputs : List ServerInput) : Server := serverMachine.run {} inputs

theorem sampleServer_reachable {G : Server → ServerInput → Prop} {inputs : List ServerInput}
    (h : serverMachine.Admissible G {} inputs) : Server.Reachable G (sampleServer inputs) :=
  ⟨inputs, h, rfl⟩

/-- The same game; `eve` asks to join, which is refused, but her current lobby is set. -/
def sampleServerGame : List ServerInput :=
  sampleCreation ++
  [.request (.addBot (some "ann")), .perform 5 0,
   .request (.startGame (some "ann")
     (.obj [("settings", .obj [("numRounds", .num 1), ("wordBankSize", .num 6)])])
     ⟨zeroDraws, zeroDraws⟩), .perform 6 0,
   sampleJoin "eve", .perform 7 0, .perform 8 0,
   .deliver "L" 9 0 (sampleAnswer false "zebra")] ++
  sampleVote "ann" false ++ sampleSubmit "ann" "lemur"

/-- The outsider `eve` completes the ballots while the batch of `bot1` is in flight. -/
def sampleOutsiderVote : List ServerInput := sampleServerGame ++ sampleVote "eve" false

/-- The batch of `bot1`, landing last. -/
def sampleLateBatch : List ServerInput := [.deliver "L" 12 0 (sampleAnswer false "")]

/-- What the server shows of its lobby: is the game over, and who voted on which turn? -/
def Server.shown (server : Server) : Option (Bool × List (List Uid)) :=
  (server.rooms.get? "L").map
    (fun room => (room.lobby.status = .done, room.lobby.turns.map (fun t => t.votes.keys)))

/-- The late batch rewrites the last turn of the finished game. -/
theorem history_rewritten :
    ¬ ∀ (server server' : Server), Server.Reachable (Server.lift DeliveredOnce) server →
      serverMachine.Reaches (Server.lift DeliveredOnce) server server' →
      ∀ lobbyId room room', server.rooms.get? lobbyId = some room →
        server'.rooms.get? lobbyId = some room' → HistoryKept room.lobby room'.lobby := by
  intro hfinal
  have hreach : Server.Reachable (Server.lift DeliveredOnce) (sampleServer sampleOutsiderVote) :=
    sampleServer_reachable (by decide +kernel)
  have hlate : serverMachine.Reaches (Server.lift DeliveredOnce) (sampleServer sampleOutsiderVote)
      (sampleServer (sampleOutsiderVote ++ sampleLateBatch)) :=
    ⟨sampleLateBatch, by decide +kernel, (serverMachine.run_append _ _ _).symm⟩
  have hshown : (sampleServer sampleOutsiderVote).shown = some (true, [["ann"], ["eve"]]) := by
    decide +kernel
  have hshown' : (sampleServer (sampleOutsiderVote ++ sampleLateBatch)).shown
      = some (true, [["ann"], ["bot1"]]) := by
    decide +kernel
  obtain ⟨room, hroom, hroomShown⟩ := Option.map_eq_some_iff.mp hshown
  obtain ⟨room', hroom', hroomShown'⟩ := Option.map_eq_some_iff.mp hshown'
  have hdone : room.lobby.status = .done := of_decide_eq_true (congrArg Prod.fst hroomShown)
  have hvoters : room.lobby.turns.map (fun t => t.votes.keys) = [["ann"], ["eve"]] :=
    congrArg Prod.snd hroomShown
  have hvoters' : room'.lobby.turns.map (fun t => t.votes.keys) = [["ann"], ["bot1"]] :=
    congrArg Prod.snd hroomShown'
  -- the game was over, so its turns would have to be the same
  have hsame := ((hfinal _ _ hreach hlate "L" room room' hroom hroom').finished hdone).2.1
  rw [hsame, hvoters] at hvoters'
  revert hvoters'
  decide

end PasswordApp
