import PasswordApp.Backend.Requests
import PasswordApp.Bot.Answers

namespace PasswordApp

/-!
# Bot — which words are submitted

Two paths write `submittedWord`: the requests, whose payload passes an expression on its
string form, and the bot, whose dictionary was cleaned of ASCII digits and punctuation.

* `Json.LegalWord` — a string of ASCII letters;
* `getWord_legal_iff` — what the validation accepts is legal exactly if it is a string;
* `legal_iff_printable` — a word that survives the cleaning is legal exactly if it is ASCII;
* `Server.LegalSources` — string payloads, and bots with ASCII dictionaries;
* `submitted_words_legal` — then every submitted word is legal.
-/

/-! ### Legal words -/

/-- The string matches `^[A-Za-z]+$`. -/
def isLegalWord (s : String) : Bool := s.toList ≠ [] && s.toList.all isLetter

/-- A string that is a legal word. -/
def Json.LegalWord (word : Json) : Prop := ∃ s, word = .str s ∧ isLegalWord s = true

/-- **What `getWord` accepts** is legal exactly if it is a string. -/
theorem getWord_legal_iff {data word : Json} (h : getWord data = .ok word) :
    word.LegalWord ↔ ∃ s, word = .str s := by
  obtain ⟨_, hexec⟩ := getWord_ok h
  constructor
  · rintro ⟨s, rfl, _⟩
    exact ⟨s, rfl⟩
  · rintro ⟨s, rfl⟩
    exact ⟨s, rfl, hexec⟩

/-- A word of ASCII letters, digits and punctuation marks. -/
def PrintableAscii (word : String) : Prop :=
  word.toList ≠ [] ∧ ∀ c ∈ word.toList, 33 ≤ c.toNat ∧ c.toNat ≤ 126

theorem isLetter_iff (c : Char) :
    isLetter c = true ↔ 97 ≤ c.toNat ∧ c.toNat ≤ 122 ∨ 65 ≤ c.toNat ∧ c.toNat ≤ 90 := by
  simp only [isLetter, Bool.or_eq_true, Bool.and_eq_true, decide_eq_true_eq, Char.le_def,
    UInt32.le_iff_toNat_le]
  exact Iff.rfl

theorem isDigit_iff (c : Char) : c.isDigit = true ↔ 48 ≤ c.toNat ∧ c.toNat ≤ 57 := by
  simp only [Char.isDigit, Bool.and_eq_true, decide_eq_true_eq, ge_iff_le, UInt32.le_iff_toNat_le]
  exact Iff.rfl

theorem isPunctuation_iff (c : Char) : isPunctuation c = true ↔
    33 ≤ c.toNat ∧ c.toNat ≤ 47 ∨ 58 ≤ c.toNat ∧ c.toNat ≤ 64 ∨
    91 ≤ c.toNat ∧ c.toNat ≤ 96 ∨ 123 ≤ c.toNat ∧ c.toNat ≤ 126 := by
  simp only [isPunctuation, Bool.or_eq_true, Bool.and_eq_true, decide_eq_true_eq, or_assoc]

/-- **What the cleaning leaves** is legal exactly if it is ASCII. -/
theorem legal_iff_printable {V D : Type} {tools : Tools V D} {word : String}
    (hnumbers : hasNumbers tools word = false) (hpunctuation : hasPunctuation word = false) :
    isLegalWord word = true ↔ PrintableAscii word := by
  simp only [isLegalWord, PrintableAscii, Bool.and_eq_true, decide_eq_true_eq, List.all_eq_true,
    ne_eq]
  refine and_congr_right (fun _ => forall₂_congr (fun c hc => ?_))
  have hdigit : tools.isDigit c = false := by
    simpa using List.any_eq_false.mp hnumbers c hc
  have hmark : isPunctuation c ≠ true := List.any_eq_false.mp hpunctuation c hc
  rw [ne_eq, isPunctuation_iff] at hmark
  rw [isLetter_iff]
  constructor
  · intro hletter
    omega
  · intro hrange
    have hnodigit : c.isDigit ≠ true := by
      rw [← tools.isDigit_ascii c (by omega), hdigit]
      exact Bool.false_ne_true
    rw [ne_eq, isDigit_iff] at hnodigit
    omega

/-! ### Where submitted words come from -/

/-- Every submitted word of the lobby satisfies `P`. -/
def Lobby.Submitted (P : Json → Prop) (lobby : Lobby) : Prop :=
  ∀ t ∈ lobby.turns, ∀ word, t.submittedWord = some word → P word

namespace Lobby.Submitted

variable {P : Json → Prop} {lobby next : Lobby}

theorem concat {turns done : List Turn} {t t' : Turn}
    (h : ∀ u ∈ turns, ∀ word, u.submittedWord = some word → P word) (hturns : turns = done ++ [t])
    (ht' : ∀ word, t'.submittedWord = some word → P word) :
    ∀ u ∈ done ++ [t'], ∀ word, u.submittedWord = some word → P word := by
  intro u hu
  rcases List.mem_append.mp hu with hu | hu
  · exact h u (by rw [hturns]; exact List.mem_append_left _ hu)
  · rw [List.mem_singleton.mp hu]
    exact ht'

theorem advances {status : Status} (h : lobby.Submitted P)
    (hadvances : Advances lobby next status) : next.Submitted P := by
  cases hadvances with
  | gameOver => exact h
  | nextTurn settings nextPlayer =>
    intro t ht word hword
    rcases List.mem_append.mp ht with ht | ht
    · exact h t ht word hword
    · -- a new turn has no word yet
      rw [List.mem_singleton.mp ht] at hword
      cases hword

theorem wordPlayed {word : Json} (h : lobby.Submitted P) (hword : P word)
    (hplayed : WordPlayed word lobby next) : next.Submitted P := by
  have hsubmit : ∀ (t : Turn) (w : Json), (t.submit word).submittedWord = some w → P w := by
    intro t w hw
    obtain rfl : word = w := Option.some.inj hw
    exact hword
  cases hplayed with
  | awaitsVotes done t hturns hnone => exact concat h hturns (hsubmit t)
  | othersWord done t hturns otherId hother players hscored lobby' status hadvances =>
    have hmid : Lobby.Submitted P { lobby with
        turns := done ++ [(t.submit word).stolen otherId]
        votesTallied := some 0
        players := players } := concat h hturns (hsubmit t)
    have hnext := hmid.advances hadvances
    exact hnext

theorem votesCast {votes : Votes} {tallied : ℕ} (h : lobby.Submitted P)
    (hcast : VotesCast votes tallied lobby next) : next.Submitted P := by
  cases hcast with
  | stillOpen => exact h
  | tally hquorum done t hturns bank hbank hpayable players hscored lobby' status hadvances =>
    have hsame : ∀ word, (t.tally votes bank).submittedWord = some word → P word :=
      h t (by rw [hturns]; simp)
    have hmid : Lobby.Submitted P { lobby with
        turns := done ++ [t.tally votes bank]
        votesTallied := some tallied
        players := players
        votes := ∅ } := concat h hturns hsame
    have hnext := hmid.advances hadvances
    exact hnext

theorem stored (h : lobby.Submitted P) : lobby.stored.Submitted P := by
  intro t ht
  obtain ⟨u, hu, rfl⟩ := List.mem_map.mp ht
  exact h u hu

/-- A callable submits the word of its payload, if any. -/
theorem call {now : ℕ} {c : Call} (h : lobby.Submitted P)
    (hword : ∀ uid word, c = .submitWord uid word → P word)
    (heffect : CallEffect now lobby c next) : next.Submitted P := by
  have hstamp : (lobby.stamp now).Submitted P := h
  cases c with
  | addPlayerToLobby player playerId =>
    obtain ⟨_, rfl⟩ := heffect
    apply stored
    exact h
  | addBot requesterId =>
    obtain ⟨_, _, _, rfl⟩ := heffect
    apply stored
    exact h
  | startGame playerId gameSettings random =>
    obtain ⟨_, _, mid, hdealt, rfl⟩ := heffect
    obtain ⟨_, _, _, _, _, _, _, _, _, _⟩ := hdealt
    intro t ht word hword
    obtain ⟨u, hu, rfl⟩ := List.mem_map.mp ht
    rw [List.mem_singleton.mp hu] at hword
    cases hword
  | submitWord playerId word =>
    obtain ⟨_, _, mid, hplayed, rfl⟩ := heffect
    exact (hstamp.wordPlayed (hword playerId word rfl) hplayed).stored
  | requestNewWords playerId random =>
    obtain ⟨_, mid, hrolled, rfl⟩ := heffect
    obtain ⟨_, _, _, _, _, _, _, _, _⟩ := hrolled
    apply stored
    exact h
  | voteOnWord playerId vote =>
    obtain ⟨_, _, _, k, mid, _, hcast, rfl⟩ := heffect
    exact (hstamp.votesCast hcast).stored

/-- A turn trigger submits the word of the bot. -/
theorem trigger {now : ℕ} {answer : BotAnswer} {trigger : BotTrigger} (h : lobby.Submitted P)
    (hword : ∀ turn, trigger = .watchForBotTurns turn → P (.str answer.word))
    (heffect : TriggerEffect now answer lobby trigger next) : next.Submitted P := by
  have hstamp : (lobby.stamp now).Submitted P := h
  cases trigger with
  | watchForBotVotes turn ids =>
    obtain ⟨k, mid, _, hcast, rfl⟩ := heffect
    have hmid := hstamp.votesCast hcast
    apply stored
    exact hmid
  | watchForBotTurns turn =>
    obtain ⟨mid, hplayed, rfl⟩ := heffect
    have hmid := hstamp.wordPlayed (hword turn rfl) hplayed
    apply stored
    exact hmid

end Lobby.Submitted

/-! ### Runs with legal sources -/

/-- A word some bot plays whose dictionary has only words that satisfy `P`. -/
def BotWord (P : String → Prop) (word : String) : Prop :=
  ∃ (V D : Type) (bot : PasswordBot V D) (targetWords : List String) (previousWord : Option Json),
    (∀ w ∈ bot.embeddings.keys, P w) ∧ bot.playTurn targetWords previousWord = .ok word

/-- A word with an accented letter survives the cleaning, and is played. -/
example : (PasswordBot.init sampleTools [("lemur", 0), ("naïve", 5), ("apple", 10)] 6 7).playTurn
    ["apple"] (some (.str "lemur")) = .ok "naïve" ∧ isLegalWord "naïve" = false := by
  decide +kernel

/-- The guard of runs in which the turn triggers are answered with such words. -/
def PlaysBotWords (P : String → Prop) (room : Room) : RoomInput → Prop
  | .deliver _ i answer =>
      ∀ turn, room.pending[i]? = some (.watchForBotTurns turn) → BotWord P answer.word
  | .redeliver _ i answer =>
      ∀ turn, room.delivered[i]? = some (.watchForBotTurns turn) → BotWord P answer.word
  | .call _ _ => True

/-- The guard of rooms that are also sent legal words only. -/
def LegalInputs (room : Room) (i : RoomInput) : Prop :=
  (∀ now uid word, i = .call now (.submitWord uid word) → word.LegalWord) ∧
  PlaysBotWords PrintableAscii room i

/-- The word of a `submitWord` request, if it has one the validation accepts, is a string. -/
def ServerInput.stringWord : ServerInput → Bool
  | .request (.submitWord _ data) =>
    match getWord data with
    | .ok (.str _) => true
    | .ok _ => false
    | .error _ => true
  | _ => true

/-- The guard of runs in which submitted payloads are strings and the bots' dictionaries have
    ASCII words only. -/
def Server.LegalSources (server : Server) (i : ServerInput) : Prop :=
  i.stringWord = true ∧ Server.lift (PlaysBotWords PrintableAscii) server i

/-- Words of a cleaned ASCII dictionary are legal. -/
theorem BotWord.legal {word : String} (h : BotWord PrintableAscii word) :
    (Json.str word).LegalWord := by
  obtain ⟨V, D, bot, targetWords, previousWord, hascii, hplayed⟩ := h
  have hmem := PasswordBot.playTurn_mem hplayed
  obtain ⟨hnumbers, hpunctuation⟩ := bot.clean word hmem
  exact ⟨word, rfl, (legal_iff_printable hnumbers hpunctuation).mpr (hascii word hmem)⟩

/-- **Step lemma.** -/
theorem Lobby.Submitted.step {lobbyId : LobbyId} {room : Room} {i : RoomInput}
    (h : room.lobby.Submitted Json.LegalWord) (hG : LegalInputs room i) :
    (room.step lobbyId i).lobby.Submitted Json.LegalWord := by
  obtain ⟨hcalls, hbots⟩ := hG
  have hstep := Room.step_cases lobbyId room i
  generalize room.step lobbyId i = room' at hstep
  cases hstep with
  | rejected => exact h
  | called now c lobby hok heffect =>
    refine h.call (fun uid word hc => ?_) heffect
    exact hcalls now uid word (by rw [hc])
  | failed => exact h
  | delivered now k answer trigger hpending lobby heffect =>
    refine h.trigger (fun turn hturn => ?_) heffect
    exact (hbots turn (by rw [hpending, hturn])).legal
  | redelivered now k answer trigger hdelivered lobby heffect =>
    refine h.trigger (fun turn hturn => ?_) heffect
    exact (hbots turn (by rw [hdelivered, hturn])).legal

theorem submitted_of_reachable {lobbyId : LobbyId} {room : Room}
    (h : Room.Reachable lobbyId LegalInputs room) : room.lobby.Submitted Json.LegalWord := by
  refine h.invariant (I := fun room => room.lobby.Submitted Json.LegalWord) ?_ ?_
  · intro hostId t ht
    cases ht
  · intro room i hI hG
    exact hI.step hG

/-! ### From the requests to the lobbies -/

/-- Every submission in flight is of a legal word. -/
def Server.LegalTasks (server : Server) : Prop :=
  ∀ lobbyId uid word, .call lobbyId (.submitWord uid word) ∈ server.tasks → word.LegalWord

/-- The submission a request issues carries the accepted payload. -/
theorem issue_submits {server : Server} {request : Request} {tasks : List Task}
    (h : server.issue request = .ok tasks) {lobbyId : LobbyId} {uid : Uid} {word : Json}
    (hmem : .call lobbyId (.submitWord uid word) ∈ tasks) :
    ∃ auth data, request = .submitWord auth data ∧ getWord data = .ok word := by
  cases Server.issue_ok h with
  | createLobby u data key random info => simp at hmem
  | joinLobby u data lobbyCode info id => simp [Server.addPlayerTasks] at hmem
  | call u r c id hcall =>
    simp only [List.mem_singleton, Task.call.injEq] at hmem
    obtain ⟨_, rfl⟩ := hmem
    cases hcall with
    | submitWord data word hword => exact ⟨some uid, data, rfl, hword⟩

namespace Server.LegalTasks

variable {server : Server}

theorem step (h : server.LegalTasks) {i : ServerInput} (hstring : i.stringWord = true) :
    (server.step i).LegalTasks := by
  intro lobbyId uid word hmem
  rcases Server.mem_tasks_step hmem with hold | ⟨r, tasks, rfl, hissued, hnew, _⟩ |
    ⟨id, host, info, _, hnew⟩
  · exact h lobbyId uid word hold
  · obtain ⟨auth, data, rfl, hword⟩ := issue_submits hissued hnew
    rw [getWord_legal_iff hword]
    simp only [ServerInput.stringWord, hword] at hstring
    split at hstring
    · rename_i s heq
      exact ⟨s, Except.ok.inj heq⟩
    · cases hstring
    · rename_i heq
      cases heq
  · simp [Server.addPlayerTasks] at hnew

/-- A submission that lands is one of those in flight. -/
theorem legalInputs (h : server.LegalTasks) {i : ServerInput}
    (hbots : Server.lift (PlaysBotWords PrintableAscii) server i) :
    Server.lift LegalInputs server i := by
  unfold Server.lift at hbots ⊢
  split
  · trivial
  · rename_i lobbyId input hinput
    rw [hinput] at hbots
    simp only [] at hbots
    split
    · trivial
    · rename_i room hroom
      rw [hroom] at hbots
      refine ⟨?_, hbots⟩
      rintro now uid word rfl
      cases i with
      | request r => cases hinput
      | perform now' k =>
        simp only [Server.roomInput] at hinput
        split at hinput
        · rename_i id c htask
          obtain ⟨rfl, heq⟩ := Prod.mk.inj (Option.some.inj hinput)
          obtain ⟨_, rfl⟩ := RoomInput.call.inj heq
          exact h id uid word (List.mem_of_getElem? htask)
        · cases hinput
      | deliver id now' k answer => cases hinput
      | redeliver id now' k answer => cases hinput

end Server.LegalTasks

/-- **Submitted words are legal.**  If the payloads sent to `submitWord` are strings and the
    dictionaries of the bots have only ASCII words, every submitted word of every lobby is a
    string of ASCII letters, whatever else happens on the server. -/
theorem submitted_words_legal {server : Server} (h : Server.Reachable Server.LegalSources server)
    {lobbyId : LobbyId} {room : Room} (hroom : server.rooms.get? lobbyId = some room) :
    ∀ t ∈ room.lobby.turns, t.submittedWord = none ∨
      ∃ s, t.submittedWord = some (.str s) ∧ isLegalWord s = true := by
  have hlegal : Server.Reachable (Server.lift LegalInputs) server :=
    Machine.Reaches.strengthen (I := Server.LegalTasks)
      (fun _ _ hI hG => hI.step hG.1) (fun _ _ hI hG => hI.legalInputs hG.2)
      (fun _ _ _ hmem => by cases hmem) h
  have hsubmitted := submitted_of_reachable (Server.room_reachable hlegal hroom)
  intro t ht
  cases hword : t.submittedWord with
  | none => exact Or.inl rfl
  | some word =>
    obtain ⟨s, rfl, hs⟩ := hsubmitted t ht word hword
    exact Or.inr ⟨s, rfl, hs⟩

/-- Does the input come from a client of the app? -/
def ServerInput.fromClient : ServerInput → Bool
  | .request _ => true
  | .perform _ _ => true
  | .deliver _ _ _ _ => false
  | .redeliver _ _ _ _ => false

/-- No bot plays by such an input. -/
theorem Server.lift_playsBotWords {P : String → Prop} (server : Server) {i : ServerInput}
    (h : i.fromClient = true) : Server.lift (PlaysBotWords P) server i := by
  unfold Server.lift
  cases i with
  | request r => trivial
  | perform now k =>
    simp only [Server.roomInput]
    split
    · trivial
    · rename_i hinput
      split at hinput
      · obtain ⟨rfl, rfl⟩ := Prod.mk.inj (Option.some.inj hinput)
        split
        · trivial
        · trivial
      · cases hinput
  | deliver lobbyId now k answer => cases h
  | redeliver lobbyId now k answer => cases h

/-- A bot's word comes with such an input. -/
theorem Server.lift_playsBotWords_deliver {P : String → Prop} (server : Server)
    (lobbyId : LobbyId) (now k : ℕ) {answer : BotAnswer} (h : BotWord P answer.word) :
    Server.lift (PlaysBotWords P) server (.deliver lobbyId now k answer) := by
  unfold Server.lift
  simp only [Server.roomInput]
  split
  · trivial
  · exact fun _ _ => h

/-- The bot plays a target that is nearby. -/
theorem botWord_zebra : BotWord PrintableAscii "zebra" := by
  refine ⟨ℤ, ℤ, PasswordBot.init sampleTools [("lemur", 0), ("zebra", 5)] 6 7, ["zebra"],
    some (.str "lemur"), ?_, by decide +kernel⟩
  have hkeys : (PasswordBot.init sampleTools [("lemur", 0), ("zebra", 5)] 6 7).embeddings.keys
      = ["lemur", "zebra"] := by decide +kernel
  rw [hkeys]
  have hall : ∀ w ∈ ["lemur", "zebra"],
      w.toList ≠ [] ∧ w.toList.all (fun c => 33 ≤ c.toNat ∧ c.toNat ≤ 126) = true := by
    decide +kernel
  intro w hw
  obtain ⟨hne, hchars⟩ := hall w hw
  exact ⟨hne, by simpa using hchars⟩

/-- `ann` adds a bot and starts; the bot plays, and `ann` after it. -/
def sampleAnnAndBot : List ServerInput :=
  sampleCreation ++ [.request (.addBot (some "ann")), .perform 5 0,
    .request (.startGame (some "ann") .null ⟨zeroDraws, zeroDraws⟩), .perform 7 0]

def sampleBothPlay : List ServerInput :=
  sampleAnnAndBot ++ .deliver "L" 8 0 (sampleAnswer false "zebra") ::
    (sampleVote "ann" false ++ sampleSubmit "ann" "lemur")

theorem submitted_words_legal_sample :
    ∃ room, (sampleServer sampleBothPlay).rooms.get? "L" = some room ∧
      room.lobby.turns.map (fun t => (t.player, t.submittedWord))
        = [("bot1", some (.str "zebra")), ("ann", some (.str "lemur"))] ∧
      ∀ t ∈ room.lobby.turns, t.submittedWord = none ∨
        ∃ s, t.submittedWord = some (.str s) ∧ isLegalWord s = true := by
  have hwords : ((sampleServer sampleBothPlay).rooms.get? "L").map
      (fun room => room.lobby.turns.map (fun t => (t.player, t.submittedWord)))
      = some [("bot1", some (.str "zebra")), ("ann", some (.str "lemur"))] := by
    decide +kernel
  have hsources : ∀ i ∈ sampleAnnAndBot ++ (sampleVote "ann" false ++ sampleSubmit "ann" "lemur"),
      i.fromClient = true ∧ i.stringWord = true := by
    decide +kernel
  obtain ⟨room, hroom, hwords⟩ := Option.map_eq_some_iff.mp hwords
  refine ⟨room, hroom, hwords, submitted_words_legal (sampleServer_reachable ?_) hroom⟩
  apply Machine.admissible_of_forall
  intro i hi server
  rcases List.mem_append.mp hi with hclient | hrest
  · obtain ⟨hfrom, hstring⟩ := hsources i (List.mem_append_left _ hclient)
    exact ⟨hstring, server.lift_playsBotWords hfrom⟩
  · rcases List.mem_cons.mp hrest with rfl | hclient
    · exact ⟨rfl, server.lift_playsBotWords_deliver "L" 8 0 botWord_zebra⟩
    · obtain ⟨hfrom, hstring⟩ := hsources i (List.mem_append_right _ hclient)
      exact ⟨hstring, server.lift_playsBotWords hfrom⟩

/-- `ben` submits `true` instead of a word: the expression matches its string form. -/
def sampleBoolean : List ServerInput :=
  sampleServerStart ["ben"] ++
    [.request (.submitWord (some "ben") (.obj [("word", .bool true)])), .perform 10 0]

theorem boolean_submitted :
    ¬ ∀ (server : Server),
      Server.Reachable (Server.lift (PlaysBotWords (fun _ => True))) server →
      ∀ lobbyId room, server.rooms.get? lobbyId = some room →
        ∀ t ∈ room.lobby.turns, t.submittedWord = none ∨
          ∃ s, t.submittedWord = some (.str s) ∧ isLegalWord s = true := by
  intro hallLegal
  have hwords : ((sampleServer sampleBoolean).rooms.get? "L").map
      (fun room => room.lobby.turns.map (fun t => t.submittedWord.map Json.isBool))
      = some [some true] := by
    decide +kernel
  have hclient : ∀ i ∈ sampleBoolean, i.fromClient = true := by decide +kernel
  have hreach : Server.Reachable (Server.lift (PlaysBotWords (fun _ => True)))
      (sampleServer sampleBoolean) := by
    apply sampleServer_reachable
    apply Machine.admissible_of_forall
    intro i hi server
    exact server.lift_playsBotWords (hclient i hi)
  obtain ⟨room, hroom, hwords⟩ := Option.map_eq_some_iff.mp hwords
  obtain ⟨t, hturns, hsubmitted⟩ := List.map_eq_singleton_iff.mp hwords
  have hlegal := hallLegal _ hreach "L" room hroom t (by rw [hturns]; exact List.mem_singleton_self t)
  rcases hlegal with hnone | ⟨s, hs, _⟩
  · rw [hnone] at hsubmitted
    cases hsubmitted
  · rw [hs] at hsubmitted
    cases hsubmitted

end PasswordApp
