import PasswordApp.Client.Turns

namespace PasswordApp

/-!
# Client — what an observer is told

A screen observes paths of the lobby.  When the value it knows of a path gives way to another one,
its observers are told of the children that are new, or of those that have another value.  A child
that is told of carries its whole value, so an observer never has to ask for the rest.

* `childrenAdded` / `childrenChanged` — the children an observer is told of;
* `assocGet_told` — what it has been told is what there is, as long as no child is taken away;
* `Lobby.playerChildren` and its kin — the children of the paths that are observed;
* `Lobby.assocGet_playerChildren`, `Lobby.assocGet_turnChildren` — reading one of them.

The path of a lobby that the app observes is `public`, with `public/players` and `public/turns` of
their own, and `private/$uid` of the user.
-/

/-! ### Children -/

/-- The children of a path, by key. -/
abbrev Children := List (String × Json)

/-- What `observe(.childAdded)` is told of. -/
def childrenAdded (old new : Children) : Children :=
  new.filter (fun e => assocGet e.1 old = none)

/-- What `observe(.childChanged)` is told of. -/
def childrenChanged (old new : Children) : Children :=
  new.filter (fun e => assocGet e.1 old ≠ none ∧ assocGet e.1 old ≠ some e.2)

/-- New children are those with a new key. -/
theorem mem_childrenAdded {old new : Children} {e : String × Json} :
    e ∈ childrenAdded old new ↔ e ∈ new ∧ assocGet e.1 old = none := by
  simp [childrenAdded]

/-- Changed children are those whose key had another value. -/
theorem mem_childrenChanged {old new : Children} {e : String × Json} :
    e ∈ childrenChanged old new ↔
      e ∈ new ∧ assocGet e.1 old ≠ none ∧ assocGet e.1 old ≠ some e.2 := by
  simp [childrenChanged]

/-- A value that stays is not told of again. -/
theorem childrenChanged_self {children : Children} (h : (children.map Prod.fst).Nodup) :
    childrenChanged children children = [] := by
  rw [childrenChanged, List.filter_eq_nil_iff]
  intro e he
  have hget : assocGet e.1 children = some e.2 := (assocGet_eq_some_iff h _ _).mpr he
  simp [hget]

/-- The order of children does not matter. -/
theorem assocGet_perm {children children' : Children} (h : children.Perm children')
    (hnodup : (children'.map Prod.fst).Nodup) (key : String) :
    assocGet key children = assocGet key children' := by
  have hnodup' : (children.map Prod.fst).Nodup := (h.map Prod.fst).nodup_iff.mpr hnodup
  ext v
  rw [assocGet_eq_some_iff hnodup', assocGet_eq_some_iff hnodup, h.mem_iff]

/-- **Nothing is missed.**  If no child goes, a child has the value it was told of last, or the
    one it had. -/
theorem assocGet_told {old new : Children} (hnew : (new.map Prod.fst).Nodup)
    (hsub : ∀ key, assocGet key old ≠ none → assocGet key new ≠ none) (key : String) :
    ((assocGet key (childrenChanged old new)).or
      ((assocGet key (childrenAdded old new)).or (assocGet key old))) = assocGet key new := by
  have hchanged : ((childrenChanged old new).map Prod.fst).Nodup :=
    hnew.sublist (List.filter_sublist.map _)
  have hadded : ((childrenAdded old new).map Prod.fst).Nodup :=
    hnew.sublist (List.filter_sublist.map _)
  cases hget : assocGet key new with
  | none =>
    have hold : assocGet key old = none := by
      by_contra hne
      exact hsub key hne hget
    have hnone : ∀ v, (key, v) ∉ new := fun v hmem => by
      rw [(assocGet_eq_some_iff hnew key v).mpr hmem] at hget
      cases hget
    have hchangedNone : assocGet key (childrenChanged old new) = none := by
      rw [assocGet_eq_none_iff]
      intro hmem
      obtain ⟨e, he, rfl⟩ := List.mem_map.mp hmem
      exact hnone e.2 (mem_childrenChanged.mp he).1
    have haddedNone : assocGet key (childrenAdded old new) = none := by
      rw [assocGet_eq_none_iff]
      intro hmem
      obtain ⟨e, he, rfl⟩ := List.mem_map.mp hmem
      exact hnone e.2 (mem_childrenAdded.mp he).1
    rw [hchangedNone, haddedNone, hold]
    rfl
  | some v =>
    have hin : (key, v) ∈ new := (assocGet_eq_some_iff hnew key v).mp hget
    have honly : ∀ w, (key, w) ∈ new → w = v := fun w hmem =>
      Option.some.inj (((assocGet_eq_some_iff hnew key w).mpr hmem).symm.trans hget)
    cases htold : assocGet key (childrenChanged old new) with
    | some w =>
      have hmem := (assocGet_eq_some_iff hchanged key w).mp htold
      rw [Option.some_or, honly w (mem_childrenChanged.mp hmem).1]
    | none =>
      have hnot : (key, v) ∉ childrenChanged old new := fun hmem => by
        rw [(assocGet_eq_some_iff hchanged key v).mpr hmem] at htold
        cases htold
      rw [mem_childrenChanged, not_and, not_and, not_not] at hnot
      rw [Option.none_or]
      by_cases hold : assocGet key old = none
      · rw [(assocGet_eq_some_iff hadded key v).mpr (mem_childrenAdded.mpr ⟨hin, hold⟩)]
        rfl
      · have haddedNone : assocGet key (childrenAdded old new) = none := by
          rw [assocGet_eq_none_iff]
          intro hmem
          obtain ⟨e, he, rfl⟩ := List.mem_map.mp hmem
          exact hold (mem_childrenAdded.mp he).2
        rw [haddedNone, Option.none_or, hnot hin hold]

/-! ### The paths that are observed -/

/-- The status as the database spells it. -/
def Status.text : Status → String
  | .lobby => "LOBBY"
  | .submission => "SUBMISSION"
  | .voting => "VOTING"
  | .done => "DONE"

namespace Lobby

/-- The children of `public/players`. -/
def playerChildren (lobby : Lobby) : Children :=
  lobby.players.entries.map (fun e => (e.1, .obj e.2.snapshot))

/-- The children of `public/turns`. -/
def turnChildren (lobby : Lobby) : Children :=
  lobby.turns.mapIdx (fun k turn => (toString k, .obj turn.snapshot))

/-- The children of `private/$uid`. -/
def privateChildren (lobby : Lobby) (uid : Uid) : Children :=
  match lobby.targetWords.get? uid with
  | none => []
  | some words => presentFields [("targetWords", (Json.arr (words.map .str)).stored)]

/-- The children of `public`, apart from the chat. -/
def publicChildren (lobby : Lobby) : Children :=
  presentFields [
    ("playerOrder", (Json.arr (lobby.playerOrder.map .str)).stored),
    ("players", (Json.obj lobby.playerChildren).stored),
    ("settings", lobby.settings.map (fun settings =>
      .obj [("numRounds", .num settings.numRounds), ("wordBankSize", .num settings.wordBankSize)])),
    ("startWord", lobby.startWord.map .str),
    ("status", some (.str lobby.status.text)),
    ("turns", (Json.arr (lobby.turns.map (fun turn => .obj turn.snapshot))).stored),
    ("votesTallied", lobby.votesTallied.map (fun n : ℕ => .num n))]

variable (lobby : Lobby)

/-- The children of the players are the players, in their order. -/
theorem playerChildren_keys : lobby.playerChildren.map Prod.fst = lobby.players.keys := by
  rw [playerChildren, List.map_map]
  rfl

theorem playerChildren_nodup : (lobby.playerChildren.map Prod.fst).Nodup := by
  rw [playerChildren_keys]
  exact lobby.players.keys_nodup

/-- The child of a player is all the database shows of the player. -/
theorem assocGet_playerChildren (uid : Uid) : assocGet uid lobby.playerChildren =
    (lobby.players.get? uid).map (fun player => .obj player.snapshot) := by
  cases hget : lobby.players.get? uid with
  | none =>
    rw [Option.map_none, assocGet_eq_none_iff, playerChildren_keys]
    exact Dict.get?_eq_none_iff.mp hget
  | some player =>
    rw [Option.map_some, assocGet_eq_some_iff lobby.playerChildren_nodup, playerChildren,
      List.mem_map]
    exact ⟨(uid, player), Dict.get?_eq_some_iff.mp hget, rfl⟩

/-- Turns are numbered, so no two share a key. -/
theorem turnChildren_nodup : (lobby.turnChildren.map Prod.fst).Nodup := by
  rw [List.nodup_iff_pairwise_ne, List.pairwise_iff_getElem]
  intro j k hj hk hjk
  simp only [turnChildren, List.getElem_map, List.getElem_mapIdx]
  intro heq
  exact absurd (numeral_injective heq) (by omega)

/-- The children of the turns are the turns under their numbers. -/
theorem mem_turnChildren {e : String × Json} : e ∈ lobby.turnChildren ↔
    ∃ (k : ℕ) (turn : Turn), lobby.turns[k]? = some turn ∧
      e = (toString k, .obj turn.snapshot) := by
  rw [turnChildren, List.mem_mapIdx]
  constructor
  · rintro ⟨k, hk, rfl⟩
    exact ⟨k, lobby.turns[k], List.getElem?_eq_getElem hk, rfl⟩
  · rintro ⟨k, turn, hturn, rfl⟩
    obtain ⟨hk, rfl⟩ := List.getElem?_eq_some_iff.mp hturn
    exact ⟨k, hk, rfl⟩

/-- The child under the `k`-th number is the `k`-th turn. -/
theorem assocGet_turnChildren (k : ℕ) : assocGet (toString k) lobby.turnChildren =
    (lobby.turns[k]?).map (fun turn => .obj turn.snapshot) := by
  cases hturn : lobby.turns[k]? with
  | none =>
    rw [Option.map_none, assocGet_eq_none_iff]
    intro hmem
    obtain ⟨e, he, hkey⟩ := List.mem_map.mp hmem
    obtain ⟨j, turn, hj, rfl⟩ := (lobby.mem_turnChildren).mp he
    obtain rfl : j = k := numeral_injective hkey
    rw [hturn] at hj
    cases hj
  | some turn =>
    rw [Option.map_some, assocGet_eq_some_iff lobby.turnChildren_nodup]
    exact (lobby.mem_turnChildren).mpr ⟨k, turn, hturn, rfl⟩

end Lobby

end PasswordApp
