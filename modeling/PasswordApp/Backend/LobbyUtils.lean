import PasswordApp.Backend.Validation

namespace PasswordApp

/-!
# Backend — `lobby-utils.js`

Lobby codes (`/lobbyCodeMap`) and the lobby a user is in (`/playerLobbyMap`).
-/

open ErrorCode

/-- An entry of `/lobbyCodeMap`. -/
structure CodeMapping where
  lobbyId : LobbyId
  created : ℕ
  deriving DecidableEq

/-- `/lobbyCodeMap`: the codes in use, and the key `mostRecent` next to them. -/
structure LobbyCodeMap where
  codes : Dict String CodeMapping := ∅
  mostRecent : Option String := none
  deriving DecidableEq

/-- `generateLobbyCode()`: four letters drawn from the alphabet. -/
def generateLobbyCode (random : ℕ → Draw) : String :=
  let chars := "ABCDEFGHIJKLMNOPQRSTUVWXYZ".toList
  String.ofList ((List.range 4).map (fun i => chars.getD ((random i).index 26) 'A'))

/-- The loop of `createLobbyCodeMapping` over at most `attempts` further codes.  Its test is
    `!(currCode in lobbyCodeMap) || now - created < ONE_HOUR_MS`, where `now` is declared
    nowhere: reading it throws. -/
def findFreeCode (codes : Dict String CodeMapping) (random : ℕ → ℕ → Draw) :
    ℕ → ℕ → Except JsException (Option String)
  | 0, _ => .ok none
  | attempts + 1, i => do
    let currCode := generateLobbyCode (random i)
    let free ← if currCode ∉ codes.keys then .ok true else .error .referenceError
    if free then .ok (some currCode) else findFreeCode codes random attempts (i + 1)

/-- The transaction of `createLobbyCodeMapping(lobbyId, timestamp)`. -/
def createLobbyCodeMapping (lobbyCodeMap : LobbyCodeMap) (lobbyId : LobbyId) (timestamp : ℕ)
    (random : ℕ → ℕ → Draw) : Except Failure LobbyCodeMap :=
  match findFreeCode lobbyCodeMap.codes random 1000 0 with
  | .error e => .error (.exception e)
  | .ok none =>
    httpsError resourceExhausted "Could not find a free lobby code in 1000 attempts."
  | .ok (some freeCode) =>
    .ok { codes := lobbyCodeMap.codes.set freeCode ⟨lobbyId, timestamp⟩, mostRecent := freeCode }

/-- Upper case of one character; outside ASCII only what becomes ASCII letters matters for a
    lookup among codes. -/
def upperChars : Char → List Char
  | 'ı' => ['I']
  | 'ſ' => ['S']
  | 'ß' => ['S', 'S']
  | 'ﬀ' => ['F', 'F']
  | 'ﬁ' => ['F', 'I']
  | 'ﬂ' => ['F', 'L']
  | 'ﬃ' => ['F', 'F', 'I']
  | 'ﬄ' => ['F', 'F', 'L']
  | 'ﬅ' => ['S', 'T']
  | 'ﬆ' => ['S', 'T']
  | c => [c.toUpper]

/-- `code.toUpperCase()`. -/
def toUpperCase (code : String) : String := String.ofList (code.toList.flatMap upperChars)

/-- `findLobbyIdFromCode(lobbyCode)`; only strings have `toUpperCase`. -/
def findLobbyIdFromCode (lobbyCodeMap : LobbyCodeMap) (lobbyCode : Json) :
    Except Failure LobbyId :=
  match lobbyCode with
  | .str code =>
    match lobbyCodeMap.codes.get? (toUpperCase code) with
    | none => httpsError notFound ("Mapping for lobby code " ++ code ++ " not found.")
    | some mapping => .ok mapping.lobbyId
  | _ => .error (.exception .typeError)

/-- `findLobbyIdFromUID(uid)`. -/
def findLobbyIdFromUID (playerLobbyMap : Dict Uid LobbyId) (uid : Uid) : Except Failure LobbyId :=
  match playerLobbyMap.get? uid with
  | none => httpsError internal ("Could not find current lobby for user " ++ uid ++ ".")
  | some lobbyId => .ok lobbyId

end PasswordApp
