import PasswordApp.Backend.Requests
import PasswordApp.Library.Lockstep
import PasswordApp.Library.Retry

namespace PasswordApp

/-!
# Backend — lobby codes

A lobby code is drawn, written to `/lobbyCodeMap` and read back from the key `mostRecent` of the
value the transaction committed.  The test for an outdated code reads the undeclared `now`, so a
drawn code that is in the map throws: no mapping is ever replaced.

* `createLobbyCodeMapping_ok` — if the transaction succeeds, its first code was unused;
* `allocates_iff` — when the transaction does what it is written to do;
* `createLobbyCodeMapping_retried` — a retried transaction is its last run alone;
* `Server.returned` — what a `createLobby` call returns, at the landing that decides it;
* `lobbyCodeMap_step` — what a step does to the map;
* `returned_codes` — a returned code names its lobby from then on, and no code is returned twice.
-/

open ErrorCode

/-! ### Letters -/

/-- The letters of a code. -/
def codeLetters : List Char := "ABCDEFGHIJKLMNOPQRSTUVWXYZ".toList

/-- The same letters in any case. -/
def SameLetters (chars letters : List Char) : Prop :=
  List.Forall₂ (fun a b => a = b ∨ a = b.toLower) chars letters

/-- `code` is `c` with each letter in either case. -/
def AnyCase (code c : String) : Prop := SameLetters code.toList c.toList

/-- What is read of one letter of a code, in either case. -/
theorem codeLetter_cases {a b : Char} (hb : b ∈ codeLetters) (hab : a = b ∨ a = b.toLower) :
    upperChars a = [b] ∧ a.toNat < 0x10000 := by
  have hall : codeLetters.all (fun b => decide ((upperChars b = [b] ∧ b.toNat < 0x10000) ∧
      upperChars b.toLower = [b] ∧ b.toLower.toNat < 0x10000)) = true := by decide
  have hletter := of_decide_eq_true (List.all_eq_true.mp hall b hb)
  rcases hab with rfl | rfl
  · exact hletter.1
  · exact hletter.2

theorem SameLetters.upper {chars letters : List Char} (h : SameLetters chars letters)
    (hletters : ∀ b ∈ letters, b ∈ codeLetters) :
    chars.flatMap upperChars = letters := by
  induction h with
  | nil => rfl
  | cons hab _ ih =>
    rw [List.flatMap_cons, ih (fun b hb => hletters b (List.mem_cons_of_mem _ hb)),
      (codeLetter_cases (hletters _ List.mem_cons_self) hab).1]
    rfl

theorem SameLetters.units {chars letters : List Char} (h : SameLetters chars letters)
    (hletters : ∀ b ∈ letters, b ∈ codeLetters) :
    (chars.map (fun c => if c.toNat < 0x10000 then 1 else 2)).sum = letters.length := by
  induction h with
  | nil => rfl
  | cons hab _ ih =>
    rw [List.map_cons, List.sum_cons, List.length_cons,
      ih (fun b hb => hletters b (List.mem_cons_of_mem _ hb)),
      if_pos (codeLetter_cases (hletters _ List.mem_cons_self) hab).2, Nat.add_comm]

/-- A code is made of four letters of the alphabet. -/
theorem generateLobbyCode_letters (random : ℕ → Draw) :
    (generateLobbyCode random).toList.length = 4 ∧
    ∀ b ∈ (generateLobbyCode random).toList, b ∈ codeLetters := by
  rw [generateLobbyCode, String.toList_ofList]
  refine ⟨by simp, ?_⟩
  intro b hb
  obtain ⟨i, _, rfl⟩ := List.mem_map.mp hb
  have hindex : (random i).index 26 < codeLetters.length := (random i).index_lt (by decide)
  show codeLetters.getD ((random i).index 26) 'A' ∈ codeLetters
  rw [List.getD_eq_getElem?_getD, List.getElem?_eq_getElem hindex]
  exact List.getElem_mem hindex

/-- In any letter case, a code is looked up as it was written. -/
theorem toUpperCase_anyCase {code : String} {random : ℕ → Draw}
    (h : AnyCase code (generateLobbyCode random)) :
    toUpperCase code = generateLobbyCode random := by
  rw [toUpperCase, SameLetters.upper h (generateLobbyCode_letters random).2, String.ofList_toList]

/-- In any letter case, a code passes the validation of a join. -/
theorem getLobbyCode_anyCase {code : String} {random : ℕ → Draw}
    (h : AnyCase code (generateLobbyCode random)) {data : Json}
    (hdata : readField data "lobbyCode" = .ok (some (.str code))) :
    getLobbyCode data = .ok (.str code) := by
  obtain ⟨hfour, hletters⟩ := generateLobbyCode_letters random
  have hunits : utf16Length code = 4 := (SameLetters.units h hletters).trans hfour
  have hne : code ≠ "" := by
    rintro rfl
    exact absurd hunits (by decide)
  unfold getLobbyCode
  rw [hdata, ok_bind]
  simp [Json.truthy, hasLengthFour, hne, hunits]

/-! ### One code -/

theorem findFreeCode_free {codes : Dict String CodeMapping} {random : ℕ → ℕ → Draw} {i : ℕ}
    (n : ℕ) (hfree : generateLobbyCode (random i) ∉ codes.keys) :
    findFreeCode codes random (n + 1) i = .ok (some (generateLobbyCode (random i))) := by
  rw [findFreeCode, if_pos hfree, ok_bind]
  rfl

theorem findFreeCode_taken {codes : Dict String CodeMapping} {random : ℕ → ℕ → Draw} {i : ℕ}
    (n : ℕ) (htaken : generateLobbyCode (random i) ∈ codes.keys) :
    findFreeCode codes random (n + 1) i = .error .referenceError := by
  rw [findFreeCode, if_neg (not_not.mpr htaken)]
  rfl

/-- The map after `code` was assigned. -/
def LobbyCodeMap.assign (map : LobbyCodeMap) (code : String) (lobbyId : LobbyId) (now : ℕ) :
    LobbyCodeMap where
  codes := map.codes.set code ⟨lobbyId, now⟩
  mostRecent := some code

/-- The first code drawn is taken, if it is free. -/
theorem createLobbyCodeMapping_free {map : LobbyCodeMap} (lobbyId : LobbyId) (now : ℕ)
    {random : ℕ → ℕ → Draw} (hfree : generateLobbyCode (random 0) ∉ map.codes.keys) :
    createLobbyCodeMapping map lobbyId now random
      = .ok (map.assign (generateLobbyCode (random 0)) lobbyId now) := by
  have hcode := findFreeCode_free 999 hfree
  simp only [createLobbyCodeMapping, hcode]
  rfl

/-- If it is not, the test for an outdated code throws. -/
theorem createLobbyCodeMapping_taken {map : LobbyCodeMap} (lobbyId : LobbyId) (now : ℕ)
    {random : ℕ → ℕ → Draw} (htaken : generateLobbyCode (random 0) ∈ map.codes.keys) :
    createLobbyCodeMapping map lobbyId now random = .error (.exception .referenceError) := by
  have hcode := findFreeCode_taken 999 htaken
  simp only [createLobbyCodeMapping, hcode]

/-- **Inversion of the code transaction**: if it succeeds, its first code was unused. -/
theorem createLobbyCodeMapping_ok {map map' : LobbyCodeMap} {lobbyId : LobbyId} {now : ℕ}
    {random : ℕ → ℕ → Draw} (h : createLobbyCodeMapping map lobbyId now random = .ok map') :
    generateLobbyCode (random 0) ∉ map.codes.keys ∧
    map' = map.assign (generateLobbyCode (random 0)) lobbyId now := by
  by_cases htaken : generateLobbyCode (random 0) ∈ map.codes.keys
  · rw [createLobbyCodeMapping_taken lobbyId now htaken] at h
    cases h
  · rw [createLobbyCodeMapping_free lobbyId now htaken] at h
    exact ⟨htaken, (Except.ok.inj h).symm⟩

/-! ### Allocation as it is written to work -/

def ONE_HOUR_MS : ℕ := 3600000

/-- The code is unused, or was mapped at least one hour ago. -/
def LobbyCodeMap.Usable (map : LobbyCodeMap) (now : ℕ) (code : String) : Prop :=
  code ∉ map.codes.keys ∨
    ∃ mapping, map.codes.get? code = some mapping ∧ mapping.created + ONE_HOUR_MS ≤ now

/-- The first usable one of 1000 drawn codes is assigned, and nothing else happens; if there is
    none, the transaction aborts. -/
structure AllocatesFirstUsable (map : LobbyCodeMap) (lobbyId : LobbyId) (now : ℕ)
    (random : ℕ → ℕ → Draw) : Prop where
  assigns : ∀ i < 1000, map.Usable now (generateLobbyCode (random i)) →
    (∀ j < i, ¬ map.Usable now (generateLobbyCode (random j))) →
    ∃ map', createLobbyCodeMapping map lobbyId now random = .ok map' ∧
      map'.codes.get? (generateLobbyCode (random i)) = some ⟨lobbyId, now⟩ ∧
      ∀ code ≠ generateLobbyCode (random i), map'.codes.get? code = map.codes.get? code
  keepsYoung : ∀ map', createLobbyCodeMapping map lobbyId now random = .ok map' →
    ∀ code mapping, map.codes.get? code = some mapping → now < mapping.created + ONE_HOUR_MS →
      map'.codes.get? code = some mapping
  exhausts : (∀ i < 1000, ¬ map.Usable now (generateLobbyCode (random i))) →
    createLobbyCodeMapping map lobbyId now random
      = httpsError resourceExhausted "Could not find a free lobby code in 1000 attempts."
  failsOnly : ∀ failure, createLobbyCodeMapping map lobbyId now random = .error failure →
    ∀ i < 1000, ¬ map.Usable now (generateLobbyCode (random i))

/-- **Allocation works exactly if the first code is unused.**  A first code that is in the map,
    young or old, makes the transaction throw instead of drawing on or taking it over. -/
theorem allocates_iff (map : LobbyCodeMap) (lobbyId : LobbyId) (now : ℕ)
    (random : ℕ → ℕ → Draw) :
    AllocatesFirstUsable map lobbyId now random ↔
      generateLobbyCode (random 0) ∉ map.codes.keys := by
  constructor
  · intro halloc htaken
    have hthrows := createLobbyCodeMapping_taken lobbyId now htaken
    -- the exception is the abort of an exhausted search, or there was nothing usable to find
    have hnone := halloc.failsOnly _ hthrows
    have habort := halloc.exhausts hnone
    rw [hthrows] at habort
    cases habort
  · intro hfree
    have hok := createLobbyCodeMapping_free lobbyId now hfree
    have husable : map.Usable now (generateLobbyCode (random 0)) := Or.inl hfree
    refine ⟨?_, ?_, ?_, ?_⟩
    · intro i hi _ hfirst
      obtain rfl : i = 0 := by
        by_contra hpos
        exact hfirst 0 (Nat.pos_of_ne_zero hpos) husable
      exact ⟨_, hok, Dict.get?_set_self _ _ _, fun code hne => Dict.get?_set_ne _ _ hne⟩
    · intro map' hmap' code mapping hget _
      obtain rfl := Except.ok.inj (hok.symm.trans hmap')
      rw [LobbyCodeMap.assign, Dict.get?_set_ne]
      · exact hget
      · rintro rfl
        exact hfree (Dict.mem_keys_of_get? hget)
    · intro hnone
      exact absurd husable (hnone 0 (by decide))
    · intro failure hfails
      rw [hok] at hfails
      cases hfails

/-- An outdated code is drawn: the transaction throws. -/
theorem outdated_code_throws :
    ¬ ∀ (map : LobbyCodeMap) (lobbyId : LobbyId) (now : ℕ) (random : ℕ → ℕ → Draw),
      AllocatesFirstUsable map lobbyId now random := by
  intro hall
  have halloc := hall { codes := Dict.set ∅ "AAAA" ⟨"L", 0⟩, mostRecent := some "AAAA" } "M"
    7200000 (fun _ _ => Draw.zero)
  obtain ⟨map', hok, _⟩ := halloc.assigns 0 (by decide)
    (Or.inr ⟨⟨"L", 0⟩, by decide +kernel, by decide⟩) (by omega)
  rw [createLobbyCodeMapping_taken "M" 7200000 (by decide +kernel)] at hok
  cases hok

/-! ### Retries -/

/-- One run of the code transaction: the value it is run on, the time, and its own draws. -/
structure CodeAttempt where
  lobbyCodeMap : Option LobbyCodeMap
  now : ℕ
  random : ℕ → ℕ → Draw

/-- The update function of the transaction, with the captured `transactionError`; `none` is
    `undefined`. -/
def codeCallback (lobbyId : LobbyId) (transactionError : Option HttpsError) (a : CodeAttempt) :
    Except JsException (Option LobbyCodeMap) × Option HttpsError :=
  let lobbyCodeMap := a.lobbyCodeMap.getD {}
  match findFreeCode lobbyCodeMap.codes a.random 1000 0 with
  | .error e => (.error e, transactionError)
  | .ok none =>
    (.ok none,
      some ⟨resourceExhausted, "Could not find a free lobby code in 1000 attempts."⟩)
  | .ok (some freeCode) =>
    (.ok (some (lobbyCodeMap.assign freeCode lobbyId a.now)), transactionError)

/-- The promise of `createLobbyCodeMapping`: the snapshot is the committed value.  A rejection
    with `none` throws `undefined`. -/
def codePromise : Except JsException (Option LobbyCodeMap) × Option HttpsError →
    Except (Option Failure) (Option String)
  | (.error e, _) => .error (some (.exception e))
  | (.ok none, transactionError) => .error (transactionError.map Failure.https)
  | (.ok (some lobbyCodeMap), _) => .ok lobbyCodeMap.mostRecent

/-- **A retried code transaction is its last run alone**, whatever the earlier runs were on and
    drew. -/
theorem createLobbyCodeMapping_retried (lobbyId : LobbyId) (transactionError : Option HttpsError)
    (earlier : List CodeAttempt) (last : CodeAttempt) :
    codePromise (Retry.outcome (codeCallback lobbyId) transactionError earlier last)
      = ((createLobbyCodeMapping (last.lobbyCodeMap.getD {}) lobbyId last.now last.random).map
          LobbyCodeMap.mostRecent).mapError some := by
  refine Retry.outcome_eq (I := fun _ => True) (g := fun a : CodeAttempt =>
    ((createLobbyCodeMapping (a.lobbyCodeMap.getD {}) lobbyId a.now a.random).map
      LobbyCodeMap.mostRecent).mapError some) (fun _ _ _ => trivial) ?_ trivial earlier last
  intro k a _
  simp only [codeCallback, createLobbyCodeMapping]
  cases findFreeCode (a.lobbyCodeMap.getD {}).codes a.random 1000 0 with
  | error e => rfl
  | ok found =>
    cases found with
    | none => rfl
    | some freeCode => rfl

/-! ### Returned codes -/

/-- What a `createLobby` call returns, at the landing of its code transaction: the key of its
    lobby, and `mostRecent` of the committed value.  `earlier` are the runs of the transaction
    before the one that lands. -/
def Server.returned (earlier : Server → ServerInput → List CodeAttempt) (server : Server)
    (i : ServerInput) : Option (LobbyId × String) :=
  match i with
  | .perform now k =>
    match server.tasks[k]? with
    | some (.createLobbyCodeMapping lobbyId random) =>
      match codePromise (Retry.outcome (codeCallback lobbyId) none (earlier server i)
        ⟨some server.lobbyCodeMap, now, random⟩) with
      | .ok (some lobbyCode) => some (lobbyId, lobbyCode)
      | _ => none
    | _ => none
  | _ => none

section Returned

variable {earlier : Server → ServerInput → List CodeAttempt}

/-- What a step does to the code map. -/
inductive CodeStep (earlier : Server → ServerInput → List CodeAttempt) (server : Server)
    (i : ServerInput) : Prop
  | kept (hnone : server.returned earlier i = none)
      (hmap : (server.step i).lobbyCodeMap = server.lobbyCodeMap)
  | assigned (lobbyId : LobbyId) (random : ℕ → Draw) (now : ℕ)
      (hreturned : server.returned earlier i = some (lobbyId, generateLobbyCode random))
      (hfresh : generateLobbyCode random ∉ server.lobbyCodeMap.codes.keys)
      (hmap : (server.step i).lobbyCodeMap
        = server.lobbyCodeMap.assign (generateLobbyCode random) lobbyId now)

theorem Server.feed_lobbyCodeMap (server : Server) (lobbyId : LobbyId) (i : RoomInput) :
    (server.feed lobbyId i).lobbyCodeMap = server.lobbyCodeMap := by
  unfold Server.feed
  split <;> rfl

theorem lobbyCodeMap_step (earlier : Server → ServerInput → List CodeAttempt) (server : Server)
    (i : ServerInput) : CodeStep earlier server i := by
  cases i with
  | request r =>
    refine .kept rfl ?_
    have hstep := server.step_cases (.request r)
    generalize server.step (.request r) = server' at hstep
    cases hstep with
    | idle => rfl
    | issued => rfl
  | perform now k =>
    cases htask : server.tasks[k]? with
    | none =>
      exact .kept (by simp only [Server.returned, htask]) (by simp only [Server.step, htask])
    | some task =>
      cases task with
      | createLobbyCodeMapping lobbyId random =>
        cases hrun : createLobbyCodeMapping server.lobbyCodeMap lobbyId now random with
        | error failure =>
          refine .kept ?_ (by simp only [Server.step, htask, Server.land, hrun])
          simp only [Server.returned, htask, createLobbyCodeMapping_retried, Option.getD_some, hrun]
          rfl
        | ok map' =>
          obtain ⟨hfresh, rfl⟩ := createLobbyCodeMapping_ok hrun
          refine .assigned lobbyId (random 0) now ?_ hfresh
            (by simp only [Server.step, htask, Server.land, hrun])
          simp only [Server.returned, htask, createLobbyCodeMapping_retried, Option.getD_some, hrun]
          rfl
      | pushLobby lobbyId hostId player =>
        exact .kept (by simp only [Server.returned, htask])
          (by simp only [Server.step, htask, Server.land])
      | setPlayerLobby playerId lobbyId =>
        exact .kept (by simp only [Server.returned, htask])
          (by simp only [Server.step, htask, Server.land])
      | call lobbyId c =>
        refine .kept (by simp only [Server.returned, htask]) ?_
        simp only [Server.step, htask, Server.land]
        exact Server.feed_lobbyCodeMap _ lobbyId _
  | deliver lobbyId now k answer => exact .kept rfl (server.feed_lobbyCodeMap lobbyId _)
  | redeliver lobbyId now k answer => exact .kept rfl (server.feed_lobbyCodeMap lobbyId _)

/-- A mapping is never replaced. -/
theorem mapping_step {server : Server} {code : String} {mapping : CodeMapping}
    (h : server.lobbyCodeMap.codes.get? code = some mapping) (i : ServerInput) :
    (server.step i).lobbyCodeMap.codes.get? code = some mapping := by
  rcases lobbyCodeMap_step (fun _ _ => []) server i with
    ⟨_, hmap⟩ | ⟨lobbyId, random, now, _, hfresh, hmap⟩
  · rwa [hmap]
  · rw [hmap, LobbyCodeMap.assign, Dict.get?_set_ne]
    · exact h
    · rintro rfl
      exact hfresh (Dict.mem_keys_of_get? h)

theorem mapping_run {server : Server} {code : String} {mapping : CodeMapping}
    (h : server.lobbyCodeMap.codes.get? code = some mapping) (is : List ServerInput) :
    (serverMachine.run server is).lobbyCodeMap.codes.get? code = some mapping := by
  induction is generalizing server with
  | nil => exact h
  | cons i is ih => exact ih (mapping_step h i)

/-- The codes the steps of a run return. -/
def returnedCodes (earlier : Server → ServerInput → List CodeAttempt) (server : Server)
    (is : List ServerInput) : List String :=
  (serverMachine.outputs (Server.returned earlier) server is).filterMap
    (fun shown => shown.map Prod.snd)

theorem returnedCodes_cons_none {server : Server} {i : ServerInput}
    (h : server.returned earlier i = none) (is : List ServerInput) :
    returnedCodes earlier server (i :: is) = returnedCodes earlier (server.step i) is := by
  unfold returnedCodes
  rw [Machine.outputs, List.filterMap_cons_none (by rw [h]; rfl)]
  rfl

theorem returnedCodes_cons_some {server : Server} {i : ServerInput} {lobbyId : LobbyId}
    {lobbyCode : String} (h : server.returned earlier i = some (lobbyId, lobbyCode))
    (is : List ServerInput) :
    returnedCodes earlier server (i :: is)
      = lobbyCode :: returnedCodes earlier (server.step i) is := by
  unfold returnedCodes
  rw [Machine.outputs, List.filterMap_cons_some (by rw [h]; rfl)]
  rfl

/-- A code in the map is not returned again. -/
theorem not_mem_returnedCodes {server : Server} {code : String}
    (h : code ∈ server.lobbyCodeMap.codes.keys) (is : List ServerInput) :
    code ∉ returnedCodes earlier server is := by
  induction is generalizing server with
  | nil => exact List.not_mem_nil
  | cons i is ih =>
    obtain ⟨mapping, hget⟩ := Dict.mem_keys_iff.mp h
    have hnext := ih (Dict.mem_keys_of_get? (mapping_step hget i))
    rcases lobbyCodeMap_step earlier server i with
      ⟨hnone, _⟩ | ⟨lobbyId, random, now, hreturned, hfresh, _⟩
    · rwa [returnedCodes_cons_none hnone]
    · rw [returnedCodes_cons_some hreturned, List.mem_cons, not_or]
      refine ⟨?_, hnext⟩
      rintro rfl
      exact hfresh h

/-- All codes returned in a run differ. -/
theorem returnedCodes_nodup (server : Server) (is : List ServerInput) :
    (returnedCodes earlier server is).Nodup := by
  induction is generalizing server with
  | nil => exact List.nodup_nil
  | cons i is ih =>
    rcases lobbyCodeMap_step earlier server i with
      ⟨hnone, _⟩ | ⟨lobbyId, random, now, hreturned, _, hmap⟩
    · rw [returnedCodes_cons_none hnone]
      exact ih (server.step i)
    · rw [returnedCodes_cons_some hreturned, List.nodup_cons]
      refine ⟨not_mem_returnedCodes ?_ is, ih (server.step i)⟩
      rw [hmap]
      exact Dict.mem_keys_set.mpr (Or.inl rfl)

end Returned

/-- **A returned code opens its own lobby**, in any letter case, from the moment it is committed
    and for good, and no code is returned twice: for every order of the requests and of the
    operations they issue, and every history of retries. -/
theorem returned_codes (earlier : Server → ServerInput → List CodeAttempt) (server : Server)
    (is : List ServerInput) :
    (∀ i lobbyId lobbyCode, server.returned earlier i = some (lobbyId, lobbyCode) →
      ∀ code, AnyCase code lobbyCode →
        (∀ data, readField data "lobbyCode" = .ok (some (.str code)) →
          getLobbyCode data = .ok (.str code)) ∧
        findLobbyIdFromCode (serverMachine.run (server.step i) is).lobbyCodeMap (.str code)
          = .ok lobbyId) ∧
    (returnedCodes earlier server is).Nodup := by
  refine ⟨?_, returnedCodes_nodup server is⟩
  intro i lobbyId lobbyCode hi code hcode
  rcases lobbyCodeMap_step earlier server i with
    ⟨hnone, _⟩ | ⟨lobbyId', random, now, hreturned, _, hmap⟩
  · rw [hi] at hnone
    cases hnone
  · rw [hi] at hreturned
    obtain ⟨rfl, rfl⟩ := Prod.mk.inj (Option.some.inj hreturned)
    refine ⟨fun data hdata => getLobbyCode_anyCase hcode hdata, ?_⟩
    have hget : (server.step i).lobbyCodeMap.codes.get? (generateLobbyCode random)
        = some ⟨lobbyId, now⟩ := by
      rw [hmap, LobbyCodeMap.assign, Dict.get?_set_self]
    rw [findLobbyIdFromCode, toUpperCase_anyCase hcode, mapping_run hget is]

/-- The data of a request by `ann` for a lobby. -/
def sampleHostData : Json :=
  .obj [("player", .obj [("displayName", .str "Ann"), ("colorNumber", .num 0),
    ("emojiNumber", .num 1)])]

/-- `ann` has asked for a lobby; its code will be drawn as `AAAA`. -/
def sampleCodeServer : Server :=
  serverMachine.run {} [.request (.createLobby (some "ann") sampleHostData "L"
    (fun _ _ => Draw.zero))]

theorem returned_codes_sample :
    findLobbyIdFromCode (serverMachine.run (sampleCodeServer.step (.perform 0 1))
      [.perform 0 0]).lobbyCodeMap (.str "aAaA") = .ok "L" :=
  ((returned_codes (fun _ _ => []) sampleCodeServer [.perform 0 0]).1 (.perform 0 1) "L" "AAAA"
    (by decide +kernel) "aAaA" (by unfold AnyCase SameLetters; decide)).2

end PasswordApp
