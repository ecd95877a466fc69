import Mathlib.Data.List.Perm.Subperm
import PasswordApp.Client.Deliveries

namespace PasswordApp

/-!
# Client — chat messages that are lost

The keys of the children count the messages of the sender's screen, so two senders with as many
messages write to one child.

* `Chat.Accounted.stored_perm` / `Chat.Accounted.messages_perm` — with distinct keys, the database
  and every loaded screen end up with everything sent;
* `Chat.CaughtUp` — the sender has as many messages as were sent;
* `Chat.nodup_iff_caughtUp` — the keys of a run are distinct exactly if every sender was caught up;
* `chat_complete_iff` — no message is lost exactly in these runs.
-/

variable {Client Character : Type}

section Runs

variable [DecidableEq Client]

namespace Chat

variable {chat : Chat Client Character}

/-! ### After all deliveries -/

/-- No write and no child event is under way. -/
def Quiet (chat : Chat Client Character) : Prop :=
  ∀ c, (chat.client c).outgoing = [] ∧ (chat.client c).inbox = []

omit [DecidableEq Client] in
theorem Quiet.not_underway (h : chat.Quiet) (key : String) : ¬ chat.Underway key := by
  rintro ⟨c, hc⟩
  rw [(h c).1] at hc
  cases hc

section Complete

omit [DecidableEq Client]

/-- With distinct keys, everything sent is stored. -/
theorem Accounted.stored_perm (h : chat.Accounted) (hquiet : chat.Quiet)
    (hnodup : (chat.sent.map Prod.fst).Nodup) :
    chat.stored.values.Perm (chat.sent.map Prod.snd) := by
  have hall : chat.stored.entries.Perm (Dict.mk chat.sent hnodup).entries := by
    apply Dict.entries_perm_of_subset
    · exact h.stored
    · intro key hkey
      exact (h.kept key hkey).resolve_right (hquiet.not_underway key)
  exact hall.map Prod.snd

/-- With distinct keys, every loaded screen lists everything sent. -/
theorem Accounted.messages_perm (h : chat.Accounted) (hquiet : chat.Quiet)
    (hnodup : (chat.sent.map Prod.fst).Nodup) {c : Client}
    (hobs : (chat.client c).observing = true) :
    (chat.client c).messages.Perm (chat.sent.map Prod.snd) := by
  obtain ⟨added, hkeys, hmessages, hadded⟩ := (h.clients c).listed
  have hall : added.entries.Perm (Dict.mk chat.sent hnodup).entries := by
    apply Dict.entries_perm_of_subset
    · exact hadded
    · intro key hkey
      rcases h.told c hobs key hkey with hhere | hin | hunder
      · rwa [hkeys]
      · rw [(hquiet c).2] at hin
        cases hin
      · exact absurd hunder (hquiet.not_underway key)
  exact hmessages.trans (hall.map Prod.snd)

/-- If everything sent is stored, the keys are distinct. -/
theorem Accounted.nodup_of_stored (h : chat.Accounted)
    (hstored : chat.stored.values.Perm (chat.sent.map Prod.snd)) :
    (chat.sent.map Prod.fst).Nodup := by
  have hsub : chat.stored.keys ⊆ chat.sent.map Prod.fst := by
    intro key hkey
    obtain ⟨e, he, rfl⟩ := List.mem_map.mp hkey
    exact List.mem_map_of_mem (h.stored e he)
  have hlength : (chat.sent.map Prod.fst).length ≤ chat.stored.keys.length := by
    have heq := hstored.length_eq
    rw [Dict.length_values, Dict.size, List.length_map] at heq
    rw [List.length_map, heq]
  have hperm : chat.stored.keys.Perm (chat.sent.map Prod.fst) :=
    (chat.stored.keys_nodup.subperm hsub).perm_of_length_le hlength
  exact hperm.nodup_iff.mp chat.stored.keys_nodup

/-- Two states of a run: children are only sent and stored, never taken back. -/
structure Extends (chat chat' : Chat Client Character) : Prop where
  sent : chat.sent ⊆ chat'.sent
  stored : chat.stored.keys ⊆ chat'.stored.keys

end Complete

theorem extends_step (chat : Chat Client Character) (i : ChatInput Client Character) :
    chat.Extends (chat.step i) := by
  have hstep := chat.step_cases i
  generalize chat.step i = chat' at hstep
  cases hstep with
  | idle => exact ⟨List.Subset.refl _, List.Subset.refl _⟩
  | loaded c => exact ⟨List.Subset.refl _, List.Subset.refl _⟩
  | sent c e hkey => exact ⟨List.subset_append_left _ _, List.Subset.refl _⟩
  | landed c e rest hout =>
    exact ⟨List.Subset.refl _, fun key hkey => Dict.mem_keys_set.mpr (Or.inr hkey)⟩
  | heard c e rest hin => exact ⟨List.Subset.refl _, List.Subset.refl _⟩

theorem extends_run (chat : Chat Client Character) (inputs : List (ChatInput Client Character)) :
    chat.Extends ((chatMachine Client Character).run chat inputs) := by
  refine Machine.Reaches.relates (I := fun _ => True) (R := Extends)
    (fun _ => ⟨List.Subset.refl _, List.Subset.refl _⟩) ?_ ?_ trivial
    (Machine.Reaches.of_run (chatMachine Client Character) chat inputs)
  · intro s t u h₁ h₂
    exact ⟨List.Subset.trans h₁.sent h₂.sent, List.Subset.trans h₁.stored h₂.stored⟩
  · intro s i _ _
    exact ⟨trivial, extends_step s i⟩

omit [DecidableEq Client] in
/-- With distinct keys, what is stored stays stored. -/
theorem stays_stored {earlier later : Chat Client Character} (hearlier : earlier.Accounted)
    (hlater : later.Accounted) (hextends : earlier.Extends later)
    (hnodup : (later.sent.map Prod.fst).Nodup) {e : Child Character}
    (he : e ∈ earlier.stored.entries) : e ∈ later.stored.entries := by
  have hkey : e.1 ∈ later.stored.keys := hextends.stored (List.mem_map_of_mem he)
  obtain ⟨d, hd, hsame⟩ := List.mem_map.mp hkey
  have heq : d = e :=
    List.inj_on_of_nodup_map hnodup (hlater.stored d hd)
      (hextends.sent (hearlier.stored e he)) hsame
  rwa [← heq]

/-! ### Which runs write distinct keys -/

/-- If the input sends a message, its sender has as many messages as were sent. -/
def CaughtUp (chat : Chat Client Character) : ChatInput Client Character → Prop
  | .submitButton c text date =>
    (chat.written c text date).isSome → (chat.client c).messages.length = chat.sent.length
  | .viewDidLoad _ => True
  | .land _ => True
  | .childEvent _ => True

instance (chat : Chat Client Character) (i : ChatInput Client Character) :
    Decidable (chat.CaughtUp i) := by
  unfold CaughtUp
  split
  · exact inferInstance
  · exact instDecidableTrue
  · exact instDecidableTrue
  · exact instDecidableTrue

/-- The children are numbered in the order they were sent. -/
def Numbered (chat : Chat Client Character) : Prop :=
  chat.sent.map Prod.fst = (List.range chat.sent.length).map chatKey

omit [DecidableEq Client] in
theorem Numbered.nodup (h : chat.Numbered) : (chat.sent.map Prod.fst).Nodup := by
  rw [h]
  exact List.nodup_range.map chatKey_injective

/-- Only a message changes what was sent. -/
theorem sent_step (chat : Chat Client Character) (i : ChatInput Client Character) :
    (chat.step i).sent = chat.sent ∨
      ∃ c text date e, i = .submitButton c text date ∧ chat.written c text date = some e ∧
        (chat.step i).sent = chat.sent ++ [e] := by
  cases i with
  | viewDidLoad c => left; simp only [step]; split <;> rfl
  | submitButton c text date =>
    cases hwritten : chat.written c text date with
    | none => left; simp only [step, hwritten]
    | some e => exact Or.inr ⟨c, text, date, e, rfl, hwritten, by simp only [step, hwritten]; rfl⟩
  | land c => left; simp only [step]; split <;> rfl
  | childEvent c => left; simp only [step]; split <;> rfl

/-- A sender that is caught up writes the next number. -/
theorem Numbered.step (h : chat.Numbered) {i : ChatInput Client Character}
    (hG : chat.CaughtUp i) : (chat.step i).Numbered := by
  unfold Numbered
  rcases chat.sent_step i with hsame | ⟨c, text, date, e, rfl, hwritten, hsent⟩
  · rw [hsame]
    exact h
  · have hcount : (chat.client c).messages.length = chat.sent.length := hG (by rw [hwritten]; rfl)
    rw [hsent, List.map_append, h, List.length_append, List.length_singleton, List.range_succ,
      List.map_append, List.map_singleton, List.map_singleton, written_key hwritten, hcount]

/-- Any other sender writes a number that was used. -/
theorem Numbered.reused (h : chat.Numbered) (hacc : chat.Accounted)
    {i : ChatInput Client Character} (hG : ¬ chat.CaughtUp i) :
    ¬ ((chat.step i).sent.map Prod.fst).Nodup := by
  cases i with
  | submitButton c text date =>
    obtain ⟨hsome, hcount⟩ := Classical.not_imp.mp hG
    obtain ⟨e, hwritten⟩ := Option.isSome_iff_exists.mp hsome
    have hclient := hacc.clients c
    -- the sender has heard of fewer children than were sent
    have hle : (chat.client c).messages.length ≤ chat.sent.length := by
      have hsubperm := hclient.children_nodup.subperm hclient.children_sent
      have hlength := hsubperm.length_le
      rw [List.length_map] at hlength
      rw [hclient.length_messages]
      exact hlength
    have hused : e.1 ∈ chat.sent.map Prod.fst := by
      rw [h, written_key hwritten]
      apply List.mem_map_of_mem
      rw [List.mem_range]
      omega
    have hsent : (chat.step (.submitButton c text date)).sent = chat.sent ++ [e] := by
      simp only [Chat.step, hwritten]
      rfl
    rw [hsent, List.map_append]
    intro hnodup
    exact (List.nodup_append.mp hnodup).2.2 e.1 hused e.1 List.mem_cons_self rfl
  | viewDidLoad c => exact absurd trivial hG
  | land c => exact absurd trivial hG
  | childEvent c => exact absurd trivial hG

theorem nodup_of_step {i : ChatInput Client Character}
    (h : ((chat.step i).sent.map Prod.fst).Nodup) : (chat.sent.map Prod.fst).Nodup := by
  rcases chat.sent_step i with hsame | ⟨_, _, _, e, _, _, hsent⟩
  · rwa [hsame] at h
  · rw [hsent, List.map_append] at h
    exact h.of_append_left

/-- The keys of a run are distinct exactly if every sender is caught up. -/
theorem nodup_iff_caughtUp (userID : Client → String)
    (inputs : List (ChatInput Client Character)) :
    (((chatMachine Client Character).run (initial userID) inputs).sent.map Prod.fst).Nodup ↔
      (chatMachine Client Character).Admissible CaughtUp (initial userID) inputs := by
  symm
  refine Machine.admissible_iff (I := fun chat => Accounted chat ∧ Numbered chat)
    (B := fun chat : Chat Client Character => (chat.sent.map Prod.fst).Nodup)
    ?_ ?_ ?_ ?_ ⟨accounted_initial userID, rfl⟩ inputs
  · intro chat i hI hG
    exact ⟨hI.1.step i, hI.2.step hG⟩
  · intro chat i hI hG
    exact hI.2.reused hI.1 hG
  · intro chat i hnot h
    exact hnot (nodup_of_step h)
  · intro chat hI
    exact hI.2.nodup

end Chat

/-- No message of a run is lost: what was stored still is, and both the database and every loaded
    screen have each message that was sent once. -/
structure NoMessageLost (userID : Client → String) (inputs : List (ChatInput Client Character)) :
    Prop where
  stays : ∀ earlier later, earlier ++ later = inputs →
    ∀ e ∈ ((chatMachine Client Character).run (Chat.initial userID) earlier).stored.entries,
      e ∈ ((chatMachine Client Character).run (Chat.initial userID) inputs).stored.entries
  stored : ((chatMachine Client Character).run (Chat.initial userID) inputs).stored.values.Perm
    (((chatMachine Client Character).run (Chat.initial userID) inputs).sent.map Prod.snd)
  listed : ∀ c,
    (((chatMachine Client Character).run (Chat.initial userID) inputs).client c).observing = true →
    (((chatMachine Client Character).run (Chat.initial userID) inputs).client c).messages.Perm
      (((chatMachine Client Character).run (Chat.initial userID) inputs).sent.map Prod.snd)

/-- **No message is lost**, after all deliveries, exactly if every message was sent by a client
    that had all messages sent before. -/
theorem chat_complete_iff (userID : Client → String) (inputs : List (ChatInput Client Character))
    (hquiet : ((chatMachine Client Character).run (Chat.initial userID) inputs).Quiet) :
    NoMessageLost userID inputs ↔
      (chatMachine Client Character).Admissible Chat.CaughtUp (Chat.initial userID) inputs := by
  have hacc := Chat.accounted_of_run userID inputs
  rw [← Chat.nodup_iff_caughtUp]
  constructor
  · intro hcomplete
    exact hacc.nodup_of_stored hcomplete.stored
  · intro hnodup
    refine ⟨?_, hacc.stored_perm hquiet hnodup, fun c hobs => hacc.messages_perm hquiet hnodup hobs⟩
    rintro earlier later rfl e he
    have hextends := Chat.extends_run
      ((chatMachine Client Character).run (Chat.initial userID) earlier) later
    rw [← Machine.run_append] at hextends
    exact Chat.stays_stored (Chat.accounted_of_run userID earlier) hacc hextends hnodup he

end Runs

/-! ### Two screens -/

/-- Both screens load, and the first player says hello. -/
def sampleHello : List (ChatInput (Fin 2) Char) :=
  [.viewDidLoad 0, .viewDidLoad 1, .submitButton 0 (some ['h', 'i']) "2020-06-01 10:00:00",
   .land 0, .childEvent 1]

/-- The second player answers after the message has arrived. -/
def sampleAnswered : List (ChatInput (Fin 2) Char) :=
  sampleHello ++ [.submitButton 1 (some ['h', 'o']) "2020-06-01 10:00:05", .land 1, .childEvent 0]

/-- Both players write before either message has arrived. -/
def sampleCrossed : List (ChatInput (Fin 2) Char) :=
  [.viewDidLoad 0, .viewDidLoad 1, .submitButton 0 (some ['h', 'i']) "2020-06-01 10:00:00",
   .submitButton 1 (some ['h', 'o']) "2020-06-01 10:00:00", .land 0, .land 1, .childEvent 1,
   .childEvent 0]

/-- The users of the two screens. -/
def sampleUsers : Fin 2 → String := fun c => if c = 0 then "ann" else "ben"

instance (chat : Chat (Fin 2) Char) : Decidable chat.Quiet :=
  inferInstanceAs (Decidable (∀ _, _ ∧ _))

theorem chat_complete_iff_sample : NoMessageLost sampleUsers sampleAnswered :=
  (chat_complete_iff sampleUsers sampleAnswered (by decide +kernel)).mpr (by decide +kernel)

theorem crossed_message_lost :
    ¬ ∀ inputs : List (ChatInput (Fin 2) Char),
      ((chatMachine (Fin 2) Char).run (Chat.initial sampleUsers) inputs).Quiet →
      NoMessageLost sampleUsers inputs := by
  intro hconverges
  have hcomplete := hconverges sampleCrossed (by decide +kernel)
  -- two messages were sent, and one is stored
  have hsent : ((chatMachine (Fin 2) Char).run (Chat.initial sampleUsers) sampleCrossed).sent.length
      = 2 := by decide +kernel
  have hstored : ((chatMachine (Fin 2) Char).run (Chat.initial sampleUsers)
      sampleCrossed).stored.values.length = 1 := by decide +kernel
  have hlength := hcomplete.stored.length_eq
  rw [List.length_map, hsent, hstored] at hlength
  exact absurd hlength (by decide)

end PasswordApp
