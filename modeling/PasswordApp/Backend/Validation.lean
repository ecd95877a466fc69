import PasswordApp.Backend.Lobby

namespace PasswordApp

/-!
# Backend — `validation.js`

Every callable gets untyped JSON `data`.  A reader either gives the part the callable
uses or rejects; reading a property of `null` throws.
-/

open ErrorCode

/-- `value.field`: `undefined` on values without such a field, an exception on `null`. -/
def Json.get (field : String) : Json → Except JsException (Option Json)
  | .null => .error .typeError
  | .obj fields => .ok (assocGet field fields)
  | _ => .ok none

/-- A property read inside a callable: an exception becomes the call's rejection. -/
def readField (value : Json) (field : String) : Except Failure (Option Json) :=
  (value.get field).mapError Failure.exception

/-- A rejection with an `HttpsError`. -/
def httpsError {α : Type} (code : ErrorCode) (message : String) : Except Failure α :=
  .error (.https ⟨code, message⟩)

/-- Truthiness of a property, `undefined` being falsy. -/
def truthy? (value : Option Json) : Bool := value.any Json.truthy

/-- An object without one of its fields. -/
def Json.without (key : String) : Json → Json
  | .obj fields => .obj (fields.filter (fun e => e.1 ≠ key))
  | v => v

/-- The profile a client sends, as the database keeps it; its `score` is overwritten.  The whole
    object is written: of the fields that nothing reads, only whether the database takes them is
    of any effect. -/
structure PlayerInfo where
  displayName : Option Json
  colorNumber : Option Json
  emojiNumber : Option Json
  /-- Does the database take the object? -/
  storable : Bool := true

/-- `getPlayerInfo(data)`. -/
def getPlayerInfo (data : Json) : Except Failure PlayerInfo := do
  match ← readField data "player" with
  | none => httpsError invalidArgument "Missing player object."
  | some playerInfo =>
    if !playerInfo.truthy then httpsError invalidArgument "Missing player object." else
    let displayName ← readField playerInfo "displayName"
    if !truthy? displayName then httpsError invalidArgument "Missing player.displayName." else
    let colorNumber ← readField playerInfo "colorNumber"
    if colorNumber.isNone then httpsError invalidArgument "Missing player.colorNumber." else
    let emojiNumber ← readField playerInfo "emojiNumber"
    if emojiNumber.isNone then httpsError invalidArgument "Missing player.emojiNumber." else
    .ok {
      displayName := displayName.bind Json.stored
      colorNumber := colorNumber.bind Json.stored
      emojiNumber := emojiNumber.bind Json.stored
      storable := (playerInfo.without "score").storable }

/-- `getUid(context)`; `auth` is the uid of the request's authentication, if any. -/
def getUid (auth : Option Uid) : Except Failure Uid :=
  match auth with
  | some uid =>
    if uid = "" then
      httpsError unauthenticated "Missing Firebase authentication information in request."
    else .ok uid
  | none => httpsError unauthenticated "Missing Firebase authentication information in request."

/-- A letter of the class `[a-z]` with the flag `i`. -/
def isLetter (c : Char) : Bool := ('a' ≤ c && c ≤ 'z') || ('A' ≤ c && c ≤ 'Z')

/-- `alphabet.exec(value)`: the expression `/^[a-z]+$/i` on the value as a string.  `true` and
    `Infinity` are words, `-Infinity` has a sign, an array of one value is that value, any longer
    array has a comma, an object has brackets and a number has digits. -/
def alphabetExec : Json → Bool
  | .null => true
  | .bool _ => true
  | .num _ => false
  | .infinity negative => !negative
  | .str s => s.toList ≠ [] && s.toList.all isLetter
  | .arr [.null] => false
  | .arr [v] => alphabetExec v
  | .arr _ => false
  | .obj _ => false

/-- `getWord(data)`. -/
def getWord (data : Json) : Except Failure Json := do
  match ← readField data "word" with
  | none => httpsError invalidArgument "Missing word in submitWord request."
  | some word =>
    if !word.truthy then httpsError invalidArgument "Missing word in submitWord request."
    else if !alphabetExec word then
      httpsError invalidArgument "Submitted word contains disallowed characters."
    else .ok word

/-- `getVote(data)`. -/
def getVote (data : Json) : Except Failure Json := do
  match ← readField data "challenge" with
  | none => httpsError invalidArgument "Missing vote in voteOnWord request."
  | some vote => .ok vote

/-- The `length` of a string: its UTF-16 units. -/
def utf16Length (s : String) : ℕ :=
  (s.toList.map (fun c => if c.toNat < 0x10000 then 1 else 2)).sum

/-- `value.length !== 4` fails. -/
def hasLengthFour : Json → Bool
  | .str s => utf16Length s = 4
  | .arr elems => elems.length = 4
  | .obj fields => match assocGet "length" fields with
    | some (.num q) => q = 4
    | _ => false
  | _ => false

/-- `getLobbyCode(data)`. -/
def getLobbyCode (data : Json) : Except Failure Json := do
  match ← readField data "lobbyCode" with
  | none => httpsError invalidArgument "Missing or invalid lobby code."
  | some lobbyCode =>
    if !lobbyCode.truthy || !hasLengthFour lobbyCode then
      httpsError invalidArgument "Missing or invalid lobby code."
    else .ok lobbyCode

/-- A settings field: present, truthy and a positive integer. -/
def getPositiveInteger (settings : Json) (field : String) : Except Failure { n : ℕ // 1 ≤ n } := do
  let value ← readField settings field
  if !truthy? value then
    httpsError invalidArgument ("Missing " ++ field ++ " in submitted settings.")
  else
    match value with
    | some (.num q) =>
      if h : q.den = 1 ∧ 1 ≤ q.num.toNat then .ok ⟨q.num.toNat, h.2⟩
      else httpsError invalidArgument (field ++ " should be a positive integer.")
    | _ => httpsError invalidArgument (field ++ " should be a positive integer.")

/-- The settings used when the request has none. -/
def defaultSettings : Settings where
  numRounds := 8
  wordBankSize := 6
  numRounds_pos := by decide
  wordBankSize_pos := by decide

/-- `getGameSettings(data)`; the client's own object is written, of which only the two
    validated fields are ever read. -/
def getGameSettings (data : Json) : Except Failure Settings := do
  if !data.truthy then .ok defaultSettings else
  match ← readField data "settings" with
  | none => .ok defaultSettings
  | some settings =>
    if !settings.truthy then .ok defaultSettings else
    let numRounds ← getPositiveInteger settings "numRounds"
    let wordBankSize ← getPositiveInteger settings "wordBankSize"
    .ok ⟨numRounds.1, wordBankSize.1, numRounds.2, wordBankSize.2, settings.storable⟩

/-- An accepted word is truthy and matches the expression. -/
theorem getWord_ok {data word : Json} (h : getWord data = .ok word) :
    word.truthy = true ∧ alphabetExec word = true := by
  unfold getWord at h
  obtain ⟨value, _, h⟩ := bind_eq_ok.mp h
  cases value with
  | none => cases h
  | some w =>
    by_cases htruthy : w.truthy = true
    · by_cases hexec : alphabetExec w = true
      · simp only [htruthy, hexec, Bool.not_true, Bool.false_eq_true, if_false] at h
        cases h
        exact ⟨htruthy, hexec⟩
      · simp [htruthy, hexec, httpsError] at h
    · simp [htruthy, httpsError] at h

end PasswordApp
