import PasswordApp.Client.GameScreen

namespace PasswordApp

/-!
# Client — where the sent messages are

A message passes through three places: the queue of writes of its sender, the database, and the
inbox of every client that observes the chat.  No place loses it.

* `ChatClient.Faithful` — a screen lists what its client has heard of, and only what was sent;
* `Chat.Underway` — a write that has not reached the database;
* `Chat.Accounted` — a sent child is stored or on its way to the database, and every loaded screen
  has heard of it or will;
* `Accounted.load`, `Accounted.send`, `Accounted.store`, `Accounted.receive` — one step lemma for
  each thing that can happen;
* `Chat.accounted_of_run` — this holds in every run.

A child is known by its key.  Two children with one key count as one here: what becomes of the
second is a matter of `Chat`.
-/

variable {Client Character : Type}

section Runs

variable [DecidableEq Client]

/-! ### Where sent children are -/

/-- What a client has heard of, or will, was sent; its list has what it has heard of. -/
structure ChatClient.Faithful (sent : List (Child Character)) (client : ChatClient Character) :
    Prop where
  outgoing : ∀ e ∈ client.outgoing, e ∈ sent ∧ e.1 ∈ client.children
  inbox : ∀ e ∈ client.inbox, e ∈ sent
  listed : ∃ added : Dict String (Message Character), added.keys = client.children ∧
    client.messages.Perm added.values ∧ ∀ e ∈ added.entries, e ∈ sent

namespace ChatClient

variable {client : ChatClient Character} {sent sent' : List (Child Character)}

/-- Sending more does not make a screen less faithful. -/
theorem Faithful.mono (h : client.Faithful sent) (hsub : sent ⊆ sent') :
    client.Faithful sent' := by
  obtain ⟨added, hkeys, hmessages, hadded⟩ := h.listed
  refine ⟨fun e he => ?_, fun e he => hsub (h.inbox e he), added, hkeys, hmessages,
    fun e he => hsub (hadded e he)⟩
  exact ⟨hsub (h.outgoing e he).1, (h.outgoing e he).2⟩

/-- A client that hears of a child knows its key from then on. -/
theorem mem_children_hear {e : Child Character} {key : String} :
    key ∈ (client.hear e).children ↔ key = e.1 ∨ key ∈ client.children := by
  unfold hear
  split
  · constructor
    · exact Or.inr
    · rintro (rfl | hmem) <;> assumption
  · rw [List.mem_append, List.mem_singleton, or_comm]

@[simp] theorem outgoing_hear (e : Child Character) :
    (client.hear e).outgoing = client.outgoing := by
  unfold hear; split <;> rfl

@[simp] theorem inbox_hear (e : Child Character) : (client.hear e).inbox = client.inbox := by
  unfold hear; split <;> rfl

@[simp] theorem observing_hear (e : Child Character) :
    (client.hear e).observing = client.observing := by
  unfold hear; split <;> rfl

/-- Hearing of a sent child. -/
theorem Faithful.hear {e : Child Character} (h : client.Faithful sent) (hsent : e ∈ sent) :
    (client.hear e).Faithful sent := by
  refine ⟨fun d hd => ?_, fun d hd => ?_, ?_⟩
  · rw [outgoing_hear] at hd
    exact ⟨(h.outgoing d hd).1, mem_children_hear.mpr (Or.inr (h.outgoing d hd).2)⟩
  · rw [inbox_hear] at hd
    exact h.inbox d hd
  · obtain ⟨added, hkeys, hmessages, hadded⟩ := h.listed
    unfold ChatClient.hear
    split
    · exact ⟨added, hkeys, hmessages, hadded⟩
    · rename_i hnew
      rw [← hkeys] at hnew
      -- a new child goes to the end of what was added
      have hentries := Dict.entries_set_of_not_mem e.2 hnew
      refine ⟨added.set e.1 e.2, ?_, ?_, ?_⟩
      · rw [Dict.keys_set, if_neg hnew, hkeys]
      · have hvalues : (added.set e.1 e.2).values = added.values ++ [e.2] := by
          rw [Dict.values, hentries, List.map_append]
          rfl
        rw [hvalues]
        exact (childAdded_perm _ _).trans (hmessages.append_right [e.2])
      · intro d hd
        rw [hentries, List.mem_append, List.mem_singleton] at hd
        rcases hd with hd | rfl
        · exact hadded d hd
        · exact hsent

/-- Sending a child. -/
theorem Faithful.send (h : client.Faithful sent) (e : Child Character) :
    Faithful (sent ++ [e])
      { client.hear e with outgoing := client.outgoing ++ [e] } := by
  have hnew : e ∈ sent ++ [e] := List.mem_append_right _ (List.mem_singleton_self e)
  have hheard := (h.mono (List.subset_append_left sent [e])).hear hnew
  refine ⟨fun o ho => ?_, hheard.inbox, hheard.listed⟩
  rcases List.mem_append.mp ho with hold | hlast
  · exact hheard.outgoing o (by rwa [outgoing_hear])
  · -- the own write is visible at once
    obtain rfl := List.mem_singleton.mp hlast
    exact ⟨hnew, mem_children_hear.mpr (Or.inl rfl)⟩

/-- A client lists as many messages as it has heard of children. -/
theorem Faithful.length_messages (h : client.Faithful sent) :
    client.messages.length = client.children.length := by
  obtain ⟨added, hkeys, hmessages, _⟩ := h.listed
  rw [hmessages.length_eq, ← hkeys, Dict.length_values, Dict.size]

/-- No child is listed twice. -/
theorem Faithful.children_nodup (h : client.Faithful sent) : client.children.Nodup := by
  obtain ⟨added, hkeys, _⟩ := h.listed
  exact hkeys ▸ added.keys_nodup

/-- A client knows of no child that nobody sent. -/
theorem Faithful.children_sent (h : client.Faithful sent) :
    client.children ⊆ sent.map Prod.fst := by
  obtain ⟨added, hkeys, _, hadded⟩ := h.listed
  intro key hkey
  rw [← hkeys] at hkey
  obtain ⟨e, he, rfl⟩ := List.mem_map.mp hkey
  exact List.mem_map_of_mem (hadded e he)

end ChatClient

/-- A write to the child is on its way to the database. -/
def Chat.Underway (chat : Chat Client Character) (key : String) : Prop :=
  ∃ c, key ∈ (chat.client c).outgoing.map Prod.fst

/-- Where the sent children are. -/
structure Chat.Accounted (chat : Chat Client Character) : Prop where
  clients : ∀ c, (chat.client c).Faithful chat.sent
  stored : ∀ e ∈ chat.stored.entries, e ∈ chat.sent
  kept : ∀ key ∈ chat.sent.map Prod.fst, key ∈ chat.stored.keys ∨ chat.Underway key
  told : ∀ c, (chat.client c).observing = true → ∀ key ∈ chat.sent.map Prod.fst,
    key ∈ (chat.client c).children ∨ key ∈ (chat.client c).inbox.map Prod.fst ∨ chat.Underway key

namespace Chat

variable {chat : Chat Client Character}

omit [DecidableEq Client] in
/-- Before anybody loads a screen nothing is sent, stored or heard of. -/
theorem accounted_initial (userID : Client → String) :
    (initial userID : Chat Client Character).Accounted := by
  refine ⟨fun c => ⟨?_, ?_, ∅, rfl, List.Perm.refl _, ?_⟩, ?_, ?_, ?_⟩
  · intro e he; cases he
  · intro e he; cases he
  · intro e he; cases he
  · intro e he; cases he
  · intro key hkey; cases hkey
  · intro c hobs; cases hobs

/-- Loading a screen leaves the writes under way. -/
theorem underway_load {c : Client} {key : String} (h : chat.Underway key) :
    (chat.load c).Underway key := by
  obtain ⟨d, hd⟩ := h
  refine ⟨d, ?_⟩
  by_cases hdc : d = c
  · subst hdc
    simpa using hd
  · rwa [client_load_of_ne chat c hdc]

/-- Loading a screen: its observer is told of what is stored, the rest is still to come. -/
theorem Accounted.load (h : chat.Accounted) (c : Client) : (chat.load c).Accounted := by
  refine ⟨fun d => ?_, h.stored, fun key hkey => (h.kept key hkey).imp_right underway_load,
    fun d hobs key hkey => ?_⟩
  · by_cases hdc : d = c
    · subst hdc
      rw [client_load]
      exact ⟨(h.clients d).outgoing, h.stored, (h.clients d).listed⟩
    · rw [client_load_of_ne chat c hdc]
      exact h.clients d
  · by_cases hdc : d = c
    · subst hdc
      rw [client_load]
      -- the stored children are on their way
      rcases h.kept key hkey with hstored | hout
      · exact Or.inr (Or.inl hstored)
      · exact Or.inr (Or.inr (underway_load hout))
    · rw [client_load_of_ne chat c hdc] at hobs ⊢
      exact (h.told d hobs key hkey).imp_right (Or.imp_right underway_load)

/-- A sent child is under way, with those that were before. -/
theorem underway_send {c : Client} {e : Child Character} {key : String}
    (h : key = e.1 ∨ chat.Underway key) : (chat.send c e).Underway key := by
  rcases h with rfl | ⟨d, hd⟩
  · exact ⟨c, by simp⟩
  · refine ⟨d, ?_⟩
    by_cases hdc : d = c
    · subst hdc
      rw [client_send, List.map_append]
      exact List.mem_append_left _ hd
    · rwa [client_send_of_ne chat c e hdc]

/-- Sending: the child is the sender's at once, and under way for the others. -/
theorem Accounted.send (h : chat.Accounted) (c : Client) (e : Child Character) :
    (chat.send c e).Accounted := by
  have hsub : chat.sent ⊆ chat.sent ++ [e] := List.subset_append_left _ _
  have hsent : ∀ key ∈ (chat.send c e).sent.map Prod.fst,
      key ∈ chat.sent.map Prod.fst ∨ key = e.1 := by
    intro key hkey
    simpa [Chat.send] using hkey
  refine ⟨fun d => ?_, fun d hd => hsub (h.stored d hd), fun key hkey => ?_,
    fun d hobs key hkey => ?_⟩
  · by_cases hdc : d = c
    · subst hdc
      rw [client_send]
      exact (h.clients d).send e
    · rw [client_send_of_ne chat c e hdc]
      exact (h.clients d).mono hsub
  · rcases hsent key hkey with hold | hlast
    · exact (h.kept key hold).imp_right (fun hout => underway_send (Or.inr hout))
    · exact Or.inr (underway_send (Or.inl hlast))
  · rcases hsent key hkey with hold | hlast
    · by_cases hdc : d = c
      · subst hdc
        rw [client_send] at hobs ⊢
        rcases h.told d (by simpa using hobs) key hold with hhere | hin | hout
        · exact Or.inl (ChatClient.mem_children_hear.mpr (Or.inr hhere))
        · exact Or.inr (Or.inl (by simpa using hin))
        · exact Or.inr (Or.inr (underway_send (Or.inr hout)))
      · rw [client_send_of_ne chat c e hdc] at hobs ⊢
        exact (h.told d hobs key hold).imp_right
          (Or.imp_right (fun hout => underway_send (Or.inr hout)))
    · exact Or.inr (Or.inr (underway_send (Or.inl hlast)))

/-- What was under way still is, or has been stored. -/
theorem underway_store {c : Client} {e : Child Character} {rest : List (Child Character)}
    (hout : (chat.client c).outgoing = e :: rest) {key : String} (h : chat.Underway key) :
    key = e.1 ∨ (chat.store c e rest).Underway key := by
  obtain ⟨d, hd⟩ := h
  by_cases hdc : d = c
  · subst hdc
    rw [hout, List.map_cons, List.mem_cons] at hd
    exact hd.imp_right (fun hrest => ⟨d, by rwa [client_store]⟩)
  · refine Or.inr ⟨d, ?_⟩
    rw [client_store_of_ne chat c e rest hdc]
    split
    · exact hd
    · exact hd

/-- Storing: what was under way is in the database, and on its way to every observer. -/
theorem Accounted.store (h : chat.Accounted) {c : Client} {e : Child Character}
    {rest : List (Child Character)} (hout : (chat.client c).outgoing = e :: rest) :
    (chat.store c e rest).Accounted := by
  have hhead := (h.clients c).outgoing e (by rw [hout]; exact List.mem_cons_self)
  refine ⟨fun d => ?_, fun o ho => ?_, fun key hkey => ?_, fun d hobs key hkey => ?_⟩
  · by_cases hdc : d = c
    · subst hdc
      rw [client_store]
      refine ⟨fun o ho => (h.clients d).outgoing o ?_, (h.clients d).inbox, (h.clients d).listed⟩
      rw [hout]
      exact List.mem_cons_of_mem e ho
    · rw [client_store_of_ne chat c e rest hdc]
      split
      · refine ⟨(h.clients d).outgoing, fun o ho => ?_, (h.clients d).listed⟩
        rcases List.mem_append.mp ho with hold | hlast
        · exact (h.clients d).inbox o hold
        · obtain rfl := List.mem_singleton.mp hlast
          exact hhead.1
      · exact h.clients d
  · have hget : (chat.stored.set e.1 e.2).get? o.1 = some o.2 := Dict.get?_eq_some_iff.mpr ho
    rw [Dict.get?_set] at hget
    split at hget
    · rename_i hsame
      obtain rfl : o = e := Prod.ext hsame (Option.some.inj hget).symm
      exact hhead.1
    · exact h.stored o (Dict.get?_eq_some_iff.mp hget)
  · rcases h.kept key hkey with hold | hunder
    · exact Or.inl (Dict.mem_keys_set.mpr (Or.inr hold))
    · exact (underway_store hout hunder).imp_left (fun heq => Dict.mem_keys_set.mpr (Or.inl heq))
  · by_cases hdc : d = c
    · subst hdc
      rw [client_store] at hobs ⊢
      rcases h.told d hobs key hkey with hhere | hin | hunder
      · exact Or.inl hhere
      · exact Or.inr (Or.inl hin)
      · rcases underway_store hout hunder with rfl | hunder
        · exact Or.inl hhead.2
        · exact Or.inr (Or.inr hunder)
    · have hwas : (chat.client d).observing = true := by
        rw [client_store_of_ne chat c e rest hdc] at hobs
        split at hobs
        · assumption
        · exact hobs
      rw [client_store_of_ne chat c e rest hdc, if_pos hwas, List.map_append]
      rcases h.told d hwas key hkey with hhere | hin | hunder
      · exact Or.inl hhere
      · exact Or.inr (Or.inl (List.mem_append_left _ hin))
      · rcases underway_store hout hunder with rfl | hunder
        · exact Or.inr (Or.inl (List.mem_append_right _ List.mem_cons_self))
        · exact Or.inr (Or.inr hunder)

/-- Child events leave the writes under way. -/
theorem underway_receive {c : Client} {e : Child Character} {rest : List (Child Character)}
    {key : String} (h : chat.Underway key) : (chat.receive c e rest).Underway key := by
  obtain ⟨d, hd⟩ := h
  refine ⟨d, ?_⟩
  by_cases hdc : d = c
  · subst hdc
    simpa using hd
  · rwa [client_receive_of_ne chat c e rest hdc]

/-- Receiving: what was on its way is listed. -/
theorem Accounted.receive (h : chat.Accounted) {c : Client} {e : Child Character}
    {rest : List (Child Character)} (hin : (chat.client c).inbox = e :: rest) :
    (chat.receive c e rest).Accounted := by
  have hsent := (h.clients c).inbox
  rw [hin] at hsent
  refine ⟨fun d => ?_, h.stored, fun key hkey => (h.kept key hkey).imp_right underway_receive,
    fun d hobs key hkey => ?_⟩
  · by_cases hdc : d = c
    · subst hdc
      rw [client_receive]
      have hheard := (h.clients d).hear (hsent e List.mem_cons_self)
      exact ⟨hheard.outgoing, fun o ho => hsent o (List.mem_cons_of_mem e ho), hheard.listed⟩
    · rw [client_receive_of_ne chat c e rest hdc]
      exact h.clients d
  · by_cases hdc : d = c
    · subst hdc
      rw [client_receive] at hobs ⊢
      rcases h.told d (by simpa using hobs) key hkey with hhere | hmem | hunder
      · exact Or.inl (ChatClient.mem_children_hear.mpr (Or.inr hhere))
      · rw [hin, List.map_cons, List.mem_cons] at hmem
        rcases hmem with rfl | hrest
        · exact Or.inl (ChatClient.mem_children_hear.mpr (Or.inl rfl))
        · exact Or.inr (Or.inl hrest)
      · exact Or.inr (Or.inr (underway_receive hunder))
    · rw [client_receive_of_ne chat c e rest hdc] at hobs ⊢
      exact (h.told d hobs key hkey).imp_right (Or.imp_right underway_receive)

/-- **Step lemma.** -/
theorem Accounted.step (h : chat.Accounted) (i : ChatInput Client Character) :
    (chat.step i).Accounted := by
  have hstep := chat.step_cases i
  generalize chat.step i = chat' at hstep
  cases hstep with
  | idle => exact h
  | loaded c => exact h.load c
  | sent c e hkey => exact h.send c e
  | landed c e rest hout => exact h.store hout
  | heard c e rest hin => exact h.receive hin

/-- **Run lemma.** However sends, writes and deliveries interleave. -/
theorem accounted_of_run (userID : Client → String) (inputs : List (ChatInput Client Character)) :
    ((chatMachine Client Character).run (initial userID) inputs).Accounted :=
  Machine.Reaches.invariant (fun _ i hI _ => hI.step i) (accounted_initial userID)
    (Machine.Reaches.of_run _ _ inputs)

end Chat

end Runs

end PasswordApp
