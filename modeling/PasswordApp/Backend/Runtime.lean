import Mathlib.Data.Rat.Floor
import PasswordApp.Library.Dict

namespace PasswordApp

/-!
# Backend — the script and database facilities the functions rest on

* `Json` — request payloads and stored values, with the script's truthiness and texts, what the
  database refuses to take and its pruning of empty values;
* `JsException`, `HttpsError`, `Failure` — the ways a callable can reject;
* `Draw` — one result of `Math.random()`.

`undefined` is `none` throughout.
-/

/-! ### Values -/

/-- A JSON value, as a client may send it and the database may hold it.  A number too large for
    the script, such as `1e999`, is parsed to `Infinity`. -/
inductive Json where
  | null
  | bool (b : Bool)
  | num (q : ℚ)
  | infinity (negative : Bool)
  | str (s : String)
  | arr (elems : List Json)
  | obj (fields : List (String × Json))

namespace Json

mutual
/-- Values can be compared. -/
def decEq : (v w : Json) → Decidable (v = w)
  | .null, .null => .isTrue rfl
  | .bool b, .bool c => decidable_of_iff (b = c) (by simp)
  | .num q, .num r => decidable_of_iff (q = r) (by simp)
  | .infinity s, .infinity t => decidable_of_iff (s = t) (by simp)
  | .str s, .str t => decidable_of_iff (s = t) (by simp)
  | .arr vs, .arr ws =>
    have := decEqElems vs ws
    decidable_of_iff (vs = ws) (by simp)
  | .obj vs, .obj ws =>
    have := decEqFields vs ws
    decidable_of_iff (vs = ws) (by simp)
  | .null, .bool _ | .null, .num _ | .null, .infinity _ | .null, .str _ | .null, .arr _
  | .null, .obj _
  | .bool _, .null | .bool _, .num _ | .bool _, .infinity _ | .bool _, .str _ | .bool _, .arr _
  | .bool _, .obj _
  | .num _, .null | .num _, .bool _ | .num _, .infinity _ | .num _, .str _ | .num _, .arr _
  | .num _, .obj _
  | .infinity _, .null | .infinity _, .bool _ | .infinity _, .num _ | .infinity _, .str _
  | .infinity _, .arr _ | .infinity _, .obj _
  | .str _, .null | .str _, .bool _ | .str _, .num _ | .str _, .infinity _ | .str _, .arr _
  | .str _, .obj _
  | .arr _, .null | .arr _, .bool _ | .arr _, .num _ | .arr _, .infinity _ | .arr _, .str _
  | .arr _, .obj _
  | .obj _, .null | .obj _, .bool _ | .obj _, .num _ | .obj _, .infinity _ | .obj _, .str _
  | .obj _, .arr _ =>
    .isFalse (by simp)

def decEqElems : (vs ws : List Json) → Decidable (vs = ws)
  | [], [] => .isTrue rfl
  | [], _ :: _ | _ :: _, [] => .isFalse (by simp)
  | v :: vs, w :: ws =>
    have := decEq v w
    have := decEqElems vs ws
    decidable_of_iff (v = w ∧ vs = ws) (by simp)

def decEqFields : (vs ws : List (String × Json)) → Decidable (vs = ws)
  | [], [] => .isTrue rfl
  | [], _ :: _ | _ :: _, [] => .isFalse (by simp)
  | (s, v) :: vs, (t, w) :: ws =>
    have := decEq v w
    have := decEqFields vs ws
    decidable_of_iff ((s = t ∧ v = w) ∧ vs = ws) (by simp)
end

instance : DecidableEq Json := decEq

/-- Truthiness of a value in a condition (`if (v)`, `!v`). -/
def truthy : Json → Bool
  | .null => false
  | .bool b => b
  | .num q => q ≠ 0
  | .infinity _ => true
  | .str s => s ≠ ""
  | .arr _ => true
  | .obj _ => true

/-- The decimal digits of a fraction below `1`, at most as many as `fuel`. -/
def fractionDigits : ℕ → ℚ → List ℕ
  | 0, _ => []
  | fuel + 1, r =>
    if r = 0 then [] else ⌊10 * r⌋₊ :: fractionDigits fuel (10 * r - ⌊10 * r⌋₊)

/-- `String(q)` of a number whose text has no exponent. -/
def numberText (q : ℚ) : String :=
  let whole := ⌊|q|⌋₊
  let digits := (fractionDigits 17 (|q| - whole)).map toString
  (if q < 0 then "-" else "") ++ toString whole ++
    (if digits = [] then "" else "." ++ String.join digits)

mutual
/-- `String(v)`: an array's elements with commas between them, `null` among them being empty. -/
def text : Json → String
  | .null => "null"
  | .bool b => toString b
  | .num q => numberText q
  | .infinity negative => if negative then "-Infinity" else "Infinity"
  | .str s => s
  | .arr elems => ",".intercalate (texts elems)
  | .obj _ => "[object Object]"

/-- `text` of every element. -/
def texts : List Json → List String
  | [] => []
  | .null :: vs => "" :: texts vs
  | v :: vs => v.text :: texts vs
end

/-- A key the database takes.  Its own keys `.value`, `.priority` and `.sv`, under which it keeps
    something else than what is sent, are not told apart from the other keys with a dot. -/
def isValidKey (key : String) : Bool :=
  key ≠ "" && key.toList.all (fun c =>
    0x20 ≤ c.toNat && c.toNat ≠ 0x7f && c ∉ ['.', '#', '$', '/', '[', ']'])

mutual
/-- Does the database take the value?  It refuses an infinite number and an object with a key that
    is not valid, wherever in the value they are, and even under keys it would prune.  It also
    limits the depth and the size of a value; values are taken to keep within these limits. -/
def storable : Json → Bool
  | .null => true
  | .bool _ => true
  | .num _ => true
  | .infinity _ => false
  | .str _ => true
  | .arr elems => allStorable elems
  | .obj fields => fieldsStorable fields

/-- `storable` of every element. -/
def allStorable : List Json → Bool
  | [] => true
  | v :: vs => v.storable && allStorable vs

/-- `storable` of every field, under a valid key. -/
def fieldsStorable : List (String × Json) → Bool
  | [] => true
  | (key, v) :: fields => isValidKey key && v.storable && fieldsStorable fields
end

mutual
/-- Does the value hold anything the database keeps?  `null`, `[]`, `{}` and containers
    of only such values are the same as an absent path. -/
def hasLeaf : Json → Bool
  | .null => false
  | .bool _ => true
  | .num _ => true
  | .infinity _ => true
  | .str _ => true
  | .arr elems => anyLeaf elems
  | .obj fields => anyFieldLeaf fields

/-- `hasLeaf` of some element. -/
def anyLeaf : List Json → Bool
  | [] => false
  | v :: vs => v.hasLeaf || anyLeaf vs

/-- `hasLeaf` of some field. -/
def anyFieldLeaf : List (String × Json) → Bool
  | [] => false
  | (_, v) :: fields => v.hasLeaf || anyFieldLeaf fields
end

/-- What reading a value back after writing it gives: an empty value is absent. -/
def stored (v : Json) : Option Json := if v.hasLeaf then some v else none

@[simp] theorem stored_bool (b : Bool) : stored (.bool b) = some (.bool b) := rfl

theorem stored_eq_some {v w : Json} (h : v.stored = some w) : w = v ∧ w.stored = some w := by
  unfold stored at h
  split at h
  · rename_i hl
    cases h
    exact ⟨rfl, if_pos hl⟩
  · cases h

/-- The one value that is a cast challenge among boolean votes. -/
def isTrue : Json → Bool
  | .bool true => true
  | _ => false

end Json

/-! ### Failures -/

/-- An exception thrown by the script itself. -/
inductive JsException where
  /-- A property of `undefined` is read or written. -/
  | typeError
  /-- An undeclared name is read. -/
  | referenceError
  /-- `throw new Error(message)`. -/
  | error (message : String)
  /-- The database refuses a value: `undefined`, `NaN`, or one that is not `Json.storable`. -/
  | unstorable
  deriving DecidableEq

/-- The error codes the callables use. -/
inductive ErrorCode where
  | unauthenticated
  | invalidArgument
  | failedPrecondition
  | permissionDenied
  | notFound
  | resourceExhausted
  | internal
  deriving DecidableEq

/-- `functions.https.HttpsError`. -/
structure HttpsError where
  code : ErrorCode
  message : String
  deriving DecidableEq

/-- The reason a call rejects. -/
inductive Failure where
  | https (error : HttpsError)
  | exception (e : JsException)
  deriving DecidableEq

/-- A value that must be present, or the script throws. -/
def orThrow {α : Type} (e : JsException) : Option α → Except JsException α
  | none => .error e
  | some a => .ok a

@[simp] theorem orThrow_some {α : Type} (e : JsException) (a : α) :
    orThrow e (some a) = .ok a := rfl

theorem orThrow_eq_ok {α : Type} {e : JsException} {o : Option α} {a : α} :
    orThrow e o = .ok a ↔ o = some a := by
  cases o <;> simp [orThrow]

/-- A sequence of two fallible steps succeeds exactly if both do. -/
theorem bind_eq_ok {ε α β : Type} {x : Except ε α} {f : α → Except ε β} {b : β} :
    (x >>= f) = .ok b ↔ ∃ a, x = .ok a ∧ f a = .ok b := by
  cases x with
  | error e => simp [bind, Except.bind]
  | ok a => simp [bind, Except.bind]

@[simp] theorem ok_bind {ε α β : Type} (a : α) (f : α → Except ε β) :
    (Except.ok a >>= f) = f a := rfl

theorem exists_of_isOk {ε α : Type} {x : Except ε α} (h : x.isOk = true) : ∃ a, x = .ok a := by
  cases x with
  | error e => cases h
  | ok a => exact ⟨a, rfl⟩

/-! ### Randomness -/

/-- One result of `Math.random()`: at least `0`, less than `1`. -/
structure Draw where
  val : ℚ
  nonneg : 0 ≤ val
  lt_one : val < 1

namespace Draw

/-- `Math.floor(Math.random() * n)`. -/
def index (r : Draw) (n : ℕ) : ℕ := ⌊r.val * n⌋₊

/-- The draw `0`. -/
def zero : Draw := ⟨0, le_refl 0, zero_lt_one⟩

instance : Inhabited Draw := ⟨zero⟩

theorem index_lt (r : Draw) {n : ℕ} (hn : 0 < n) : r.index n < n := by
  have hn' : (0 : ℚ) < n := Nat.cast_pos.mpr hn
  rw [index, Nat.floor_lt (mul_nonneg r.nonneg hn'.le)]
  calc r.val * n < 1 * n := mul_lt_mul_of_pos_right r.lt_one hn'
    _ = n := one_mul _

end Draw

end PasswordApp
