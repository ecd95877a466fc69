import Mathlib.Data.List.Sort
import PasswordApp.Library.Dict
import PasswordApp.Library.Machine

namespace PasswordApp

/-!
# Client — the chat of the game screen

The game screen writes a message to the child `message<n>` of the chat, where `n` is the number of
messages on that screen, and lists the children its observer is told of.  The observer hears of a
child once, when it is added; a write is visible to its own client at once.

* `submitChat` / `childAdded` — the submit button with the chat toggle on, and the observer;
* `Chat` / `chatMachine` — the screens of a lobby, the writes and child events under way, and the
  stored children;
* `Chat.step_cases` — what a step does.
-/

/-! ### The game screen -/

/-- A chat message.  Its text is a list of characters, as the client counts them. -/
structure Message (Character : Type) where
  userID : String
  message : List Character
  timeStamp : String
  deriving DecidableEq

/-- What a tap on the submit button amounts to. -/
inductive ChatAction (Character : Type) where
  | nothing
  | alert (title message : String)
  | updateChildValues (child : String) (value : Message Character)

/-- A child of the chat and its value. -/
abbrev Child (Character : Type) := String × Message Character

variable {Client Character : Type}

/-- `message\(messages.count)`. -/
def chatKey (count : ℕ) : String := "message" ++ toString count

/-- The submit button with the chat toggle on. -/
def submitChat (userID : String) (messages : List (Message Character))
    (text : Option (List Character)) (date : String) : ChatAction Character :=
  match text with
  | none => .nothing
  | some text =>
    if text.length = 0 then .nothing
    else if 100 < text.length then
      .alert ("Message contains " ++ toString text.length ++ " characters.")
        "Please limit your message to 100 characters."
    else
      let textPrefix := text.take 100
      .updateChildValues (chatKey messages.length) ⟨userID, textPrefix, date⟩

/-- The observer of added children. -/
def childAdded (messages : List (Message Character)) (newMessage : Message Character) :
    List (Message Character) :=
  (messages ++ [newMessage]).insertionSort (fun left right => left.timeStamp ≤ right.timeStamp)

/-- A game screen and the database connection of its client. -/
structure ChatClient (Character : Type) where
  userID : String
  /-- Is the screen loaded, and its observer attached? -/
  observing : Bool := false
  messages : List (Message Character) := []
  /-- The children the client has heard of. -/
  children : List String := []
  /-- Own writes on the way to the database. -/
  outgoing : List (Child Character) := []
  /-- Child events on the way to the client. -/
  inbox : List (Child Character) := []

/-- The client hears of a child: the observer fires if the child is new. -/
def ChatClient.hear (client : ChatClient Character) (e : Child Character) : ChatClient Character :=
  if e.1 ∈ client.children then client
  else { client with
    children := client.children ++ [e.1]
    messages := childAdded client.messages e.2 }

theorem chatKey_injective : Function.Injective chatKey :=
  numberedKey_injective "message"

theorem childAdded_perm (messages : List (Message Character)) (newMessage : Message Character) :
    (childAdded messages newMessage).Perm (messages ++ [newMessage]) :=
  List.perm_insertionSort _ _

theorem submitChat_key {userID : String} {messages : List (Message Character)}
    {text : Option (List Character)} {date child : String} {value : Message Character}
    (h : submitChat userID messages text date = .updateChildValues child value) :
    child = chatKey messages.length := by
  unfold submitChat at h
  split at h
  · cases h
  · split at h
    · cases h
    · split at h
      · cases h
      · exact (ChatAction.updateChildValues.inj h).1.symm

/-! ### The screens of a lobby -/

/-- The chat of a lobby. -/
structure Chat (Client Character : Type) where
  client : Client → ChatClient Character
  /-- The children under `public/chat`. -/
  stored : Dict String (Message Character) := ∅
  /-- What was sent so far, with the keys it was written to. -/
  sent : List (Child Character) := []

/-- One event of a client or of its connection. -/
inductive ChatInput (Client Character : Type) where
  /-- The screen loads, and attaches its observer. -/
  | viewDidLoad (c : Client)
  /-- A tap on the submit button. -/
  | submitButton (c : Client) (text : Option (List Character)) (date : String)
  /-- The oldest write of the client reaches the database. -/
  | land (c : Client)
  /-- The oldest child event reaches the client. -/
  | childEvent (c : Client)

namespace Chat

/-- No screen is loaded yet. -/
def initial (userID : Client → String) : Chat Client Character where
  client c := { userID := userID c }

/-- The child a tap on the submit button writes, if any. -/
def written (chat : Chat Client Character) (c : Client) (text : Option (List Character))
    (date : String) : Option (Child Character) :=
  if (chat.client c).observing then
    match submitChat (chat.client c).userID (chat.client c).messages text date with
    | .updateChildValues child value => some (child, value)
    | .alert _ _ => none
    | .nothing => none
  else none

theorem written_key {chat : Chat Client Character} {c : Client} {text : Option (List Character)}
    {date : String} {e : Child Character} (h : chat.written c text date = some e) :
    e.1 = chatKey (chat.client c).messages.length := by
  unfold written at h
  split at h
  · split at h
    · rename_i child value hsubmit
      obtain rfl := Option.some.inj h
      exact submitChat_key hsubmit
    · cases h
    · cases h
  · cases h

variable [DecidableEq Client]

/-- A loaded screen is told of the stored children. -/
def load (chat : Chat Client Character) (c : Client) : Chat Client Character :=
  { chat with
    client := Function.update chat.client c
      { chat.client c with observing := true, inbox := chat.stored.entries } }

/-- A write is visible to its own client at once. -/
def send (chat : Chat Client Character) (c : Client) (e : Child Character) :
    Chat Client Character :=
  { chat with
    client := Function.update chat.client c
      { (chat.client c).hear e with outgoing := (chat.client c).outgoing ++ [e] }
    sent := chat.sent ++ [e] }

/-- A write overwrites the child, and the other screens are told. -/
def store (chat : Chat Client Character) (c : Client) (e : Child Character)
    (rest : List (Child Character)) : Chat Client Character :=
  { chat with
    client := fun d =>
      if d = c then { chat.client d with outgoing := rest }
      else if (chat.client d).observing then
        { chat.client d with inbox := (chat.client d).inbox ++ [e] }
      else chat.client d
    stored := chat.stored.set e.1 e.2 }

/-- A child event is taken from the inbox. -/
def receive (chat : Chat Client Character) (c : Client) (e : Child Character)
    (rest : List (Child Character)) : Chat Client Character :=
  { chat with
    client := Function.update chat.client c { (chat.client c).hear e with inbox := rest } }

section Clients

variable (chat : Chat Client Character) (c : Client) (e : Child Character)
  (rest : List (Child Character)) {d : Client}

@[simp] theorem client_load : (chat.load c).client c =
    { chat.client c with observing := true, inbox := chat.stored.entries } :=
  Function.update_self ..

theorem client_load_of_ne (h : d ≠ c) : (chat.load c).client d = chat.client d :=
  Function.update_of_ne h ..

@[simp] theorem client_send : (chat.send c e).client c =
    { (chat.client c).hear e with outgoing := (chat.client c).outgoing ++ [e] } :=
  Function.update_self ..

theorem client_send_of_ne (h : d ≠ c) : (chat.send c e).client d = chat.client d :=
  Function.update_of_ne h ..

@[simp] theorem client_store : (chat.store c e rest).client c =
    { chat.client c with outgoing := rest } :=
  if_pos rfl

theorem client_store_of_ne (h : d ≠ c) : (chat.store c e rest).client d =
    if (chat.client d).observing then
      { chat.client d with inbox := (chat.client d).inbox ++ [e] }
    else chat.client d :=
  if_neg h

@[simp] theorem client_receive : (chat.receive c e rest).client c =
    { (chat.client c).hear e with inbox := rest } :=
  Function.update_self ..

theorem client_receive_of_ne (h : d ≠ c) : (chat.receive c e rest).client d = chat.client d :=
  Function.update_of_ne h ..

end Clients

def step (chat : Chat Client Character) : ChatInput Client Character → Chat Client Character
  | .viewDidLoad c => if (chat.client c).observing then chat else chat.load c
  | .submitButton c text date =>
    match chat.written c text date with
    | none => chat
    | some e => chat.send c e
  | .land c =>
    match (chat.client c).outgoing with
    | [] => chat
    | e :: rest => chat.store c e rest
  | .childEvent c =>
    match (chat.client c).inbox with
    | [] => chat
    | e :: rest => chat.receive c e rest

end Chat

/-- The machine of the chat. -/
def chatMachine (Client Character : Type) [DecidableEq Client] :
    Machine (Chat Client Character) (ChatInput Client Character) where
  step := Chat.step

section Runs

variable [DecidableEq Client]

/-! ### What a step does -/

/-- What an input does to the chat. -/
inductive ChatStep (chat : Chat Client Character) : Chat Client Character → Prop where
  | idle : ChatStep chat chat
  | loaded (c : Client) : ChatStep chat (chat.load c)
  | sent (c : Client) (e : Child Character)
      (hkey : e.1 = chatKey (chat.client c).messages.length) : ChatStep chat (chat.send c e)
  | landed (c : Client) (e : Child Character) (rest : List (Child Character))
      (hout : (chat.client c).outgoing = e :: rest) : ChatStep chat (chat.store c e rest)
  | heard (c : Client) (e : Child Character) (rest : List (Child Character))
      (hin : (chat.client c).inbox = e :: rest) : ChatStep chat (chat.receive c e rest)

namespace Chat

/-- The cases of a step. -/
theorem step_cases (chat : Chat Client Character) (i : ChatInput Client Character) :
    ChatStep chat (chat.step i) := by
  cases i with
  | viewDidLoad c =>
    simp only [step]
    split
    · exact .idle
    · exact .loaded c
  | submitButton c text date =>
    simp only [step]
    split
    · exact .idle
    · rename_i e hwritten
      exact .sent c e (written_key hwritten)
  | land c =>
    simp only [step]
    split
    · exact .idle
    · rename_i e rest hout
      exact .landed c e rest hout
  | childEvent c =>
    simp only [step]
    split
    · exact .idle
    · rename_i e rest hin
      exact .heard c e rest hin

end Chat

end Runs

end PasswordApp
