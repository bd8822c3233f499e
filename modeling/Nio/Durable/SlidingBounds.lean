import Nio.Durable.SlidingTenure
import Nio.Py.JsonSize
import Mathlib.Data.List.Induction

/-!
# The bounds of what a Sliding source collects

`SlidingSource.commit` raises when the checkpoint of a room or the account data that waits for
rooms is too long. Both may hold what earlier responses brought: the ids of the windows since the
token of the room last changed, and the account data of rooms that the client has not discovered.

* `Collected` — what a source keeps from one commit to the next
* `commitTurn_isOk_iff` — when a commit raises nothing
* `ledger_grows` — a token that stays adds the new ids of the window to those that are held
* `commits_unaccumulated_iff` — when no commit of a run raises because of earlier responses
-/

namespace Nio.Durable

open Nio.Py
open Nio.Events
open Nio.Lib

/-! ## Sizes -/

/-- The bytes of ids, each with a comma -/
abbrev idBytes (ids : List Json) : Nat := itemBytes strict ids

namespace Checkpoint

/-- Every part of the checkpoint has a text. -/
structure Written (c : Checkpoint) : Prop where
  token : Writes strict (optional .str c.token)
  membership : Writes strict c.membership
  eventIds : ∀ id ∈ c.eventIds, Writes strict id
  windowIds : ∀ id ∈ c.windowIds, Writes strict id

/-- The bytes of a checkpoint with ids of these lengths -/
def sizeWith (token : Option Str) (membership : Json) (eventBytes windowBytes : Nat) : Nat :=
  55 + bytes strict (optional .str token) + bytes strict membership + (eventBytes - 1) +
    (windowBytes - 1)

def size (c : Checkpoint) : Nat :=
  sizeWith c.token c.membership (idBytes c.eventIds) (idBytes c.windowIds)

/-- A checkpoint is encoded to its size when its parts can be written. -/
theorem encodedJsonSize_json {c : Checkpoint} {n : Nat} :
    encodedJsonSize c.json = .ok n ↔ c.Written ∧ n = c.size := by
  have htoken : Takes strict (.str (py "token")) 7 := ⟨_, rfl, _, rfl, rfl⟩
  have hmembership : Takes strict (.str (py "membership")) 12 := ⟨_, rfl, _, rfl, rfl⟩
  have heventIds : Takes strict (.str (py "event_ids")) 11 := ⟨_, rfl, _, rfl, rfl⟩
  have hwindowIds : Takes strict (.str (py "window_ids")) 12 := ⟨_, rfl, _, rfl, rfl⟩
  rw [encodedJsonSize_eq_ok, json, takes_obj]
  simp only [List.forall_mem_cons, pairBytes, List.map_cons, List.map_nil, List.sum_cons,
    List.sum_nil, htoken.bytes_eq, hmembership.bytes_eq, heventIds.bytes_eq, hwindowIds.bytes_eq]
  constructor
  · rintro ⟨⟨⟨-, ht⟩, ⟨-, hm⟩, ⟨-, he⟩, ⟨-, hw⟩, -⟩, rfl⟩
    obtain ⟨ne, he⟩ := he
    obtain ⟨nw, hw⟩ := hw
    rw [he.bytes_eq, hw.bytes_eq]
    obtain ⟨hevents, rfl⟩ := takes_arr.mp he
    obtain ⟨hwindow, rfl⟩ := takes_arr.mp hw
    refine ⟨⟨ht, hm, hevents, hwindow⟩, ?_⟩
    simp only [size, sizeWith, idBytes, comma, colon]
    omega
  · rintro ⟨⟨ht, hm, he, hw⟩, rfl⟩
    have he' := takes_arr.mpr ⟨he, rfl⟩
    have hw' := takes_arr.mpr ⟨hw, rfl⟩
    rw [he'.bytes_eq, hw'.bytes_eq]
    refine ⟨⟨⟨⟨_, htoken⟩, ht⟩, ⟨⟨_, hmembership⟩, hm⟩, ⟨⟨_, heventIds⟩, _, he'⟩,
      ⟨⟨_, hwindowIds⟩, _, hw'⟩, fun _ h => by cases h⟩, ?_⟩
    simp only [size, sizeWith, idBytes, comma, colon]
    omega

end Checkpoint

/-- `{**event.source, "type": kind}` -/
def typedSource (kind : Str) (event : Event) : Json :=
  match event.source with
  | .obj kvs => .obj (dictSet kvs (py "type") (.str kind))
  | v => v

/-- The account data of a room has a text. -/
def AccountWritten (events : List (Str × Event)) : Prop :=
  ∀ p ∈ events, p.2.source.isObj ∧ Writes strict (.str p.1) ∧ Writes strict (typedSource p.1 p.2)

/-- The bytes of the account data that waits for its rooms -/
def accountBytes (pending : List (Str × List (Str × Event))) : Nat :=
  (pending.map fun p =>
    2 + (pairBytes strict (p.2.map fun q => (q.1, typedSource q.1 q.2)) - 1)).sum

/-- Account data is read back from the sources of its events. -/
theorem accountDataJson_eq_ok {events : List (Str × Event)} {v : Json} :
    accountDataJson events = .ok v ↔ (∀ p ∈ events, p.2.source.isObj) ∧
      v = .obj (events.map fun p => (p.1, typedSource p.1 p.2)) := by
  have hpair : ∀ p : Str × Event, ∀ q : Str × Json,
      (match p.2.source with
        | .obj kvs => .ok (p.1, Json.obj (dictSet kvs (py "type") (.str p.1)))
        | _ => .error .type : Except SessionError (Str × Json)) = .ok q ↔
      p.2.source.isObj ∧ q = (p.1, typedSource p.1 p.2) := by
    intro p q
    unfold typedSource
    cases p.2.source <;> simp [Json.isObj, eq_comm]
  unfold accountDataJson
  constructor
  · intro h
    obtain ⟨pairs, hpairs, hv⟩ := bind_eq_ok.mp h
    cases hv
    obtain ⟨hobj, rfl⟩ := (mapM_eq_ok_map hpair).mp hpairs
    exact ⟨hobj, rfl⟩
  · rintro ⟨hobj, rfl⟩
    exact bind_eq_ok.mpr ⟨_, (mapM_eq_ok_map hpair).mpr ⟨hobj, rfl⟩, rfl⟩

/-- Pending account data is encoded to the bytes of its parts. -/
theorem accountDataSize_eq_ok {pending : List (Str × List (Str × Event))} {n : Nat} :
    accountDataSize pending = .ok n ↔
      (∀ p ∈ pending, AccountWritten p.2) ∧ n = accountBytes pending := by
  have hroom : ∀ (p : Str × List (Str × Event)) (m : Nat),
      (accountDataJson p.2 >>= encodedJsonSize) = .ok m ↔ AccountWritten p.2 ∧
        m = 2 + (pairBytes strict (p.2.map fun q => (q.1, typedSource q.1 q.2)) - 1) := by
    intro p m
    constructor
    · intro h
      obtain ⟨v, hv, hm⟩ := bind_eq_ok.mp h
      obtain ⟨hobj, rfl⟩ := accountDataJson_eq_ok.mp hv
      obtain ⟨hpairs, rfl⟩ := takes_obj.mp (encodedJsonSize_eq_ok.mp hm)
      refine ⟨fun q hq => ⟨hobj q hq, ?_⟩, by rw [comma]⟩
      exact hpairs _ (List.mem_map_of_mem hq)
    · rintro ⟨hwritten, rfl⟩
      refine bind_eq_ok.mpr ⟨_, accountDataJson_eq_ok.mpr ⟨fun q hq => (hwritten q hq).1, rfl⟩, ?_⟩
      refine encodedJsonSize_eq_ok.mpr (takes_obj.mpr ⟨fun q hq => ?_, by rw [comma]⟩)
      obtain ⟨q', hq', rfl⟩ := List.mem_map.mp hq
      exact (hwritten q' hq').2
  unfold accountDataSize accountBytes
  constructor
  · intro h
    obtain ⟨sizes, hsizes, hn⟩ := bind_eq_ok.mp h
    cases hn
    obtain ⟨hwritten, rfl⟩ := (mapM_eq_ok_map hroom).mp hsizes
    exact ⟨hwritten, rfl⟩
  · rintro ⟨hwritten, rfl⟩
    exact bind_eq_ok.mpr ⟨_, (mapM_eq_ok_map hroom).mpr ⟨hwritten, rfl⟩, rfl⟩

/-! ## Ledgers -/

theorem mem_dictSet_iff {α : Type} {d : List (Str × α)} {k : Str} {v : α} {q : Str × α} :
    q ∈ dictSet d k v ↔ q = (k, v) ∨ q ∈ d ∧ q.1 ≠ k := by
  unfold dictSet
  split
  next hany =>
    obtain ⟨p, hp, hk⟩ := List.any_eq_true.mp hany
    rw [List.mem_map]
    constructor
    · rintro ⟨p', hp', rfl⟩
      split
      · exact Or.inl rfl
      next hne => exact Or.inr ⟨hp', hne⟩
    · rintro (rfl | ⟨hq, hne⟩)
      · exact ⟨p, hp, if_pos (by simpa using hk)⟩
      · exact ⟨q, hq, if_neg hne⟩
  next hany =>
    rw [List.mem_append, List.mem_singleton, or_comm]
    refine or_congr_right ⟨fun hq => ⟨hq, fun hk => hany ?_⟩, fun h => h.1⟩
    exact List.any_eq_true.mpr ⟨q, hq, by simpa using hk⟩

/-- New ids are added behind those that are held. -/
theorem foldl_insertNew (ids held : List Json) :
    ids.foldl insertNew held = held ++ (fromKeys ids).filter (· ∉ held) := by
  induction ids using List.reverseRecOn with
  | nil => simp [fromKeys]
  | append_singleton ids id ih =>
    unfold fromKeys at ih ⊢
    rw [List.foldl_append, List.foldl_append, ih]
    generalize List.foldl insertNew [] ids = shown
    change insertNew _ id = _ ++ (insertNew shown id).filter _
    unfold insertNew
    by_cases hheld : id ∈ held
    · rw [if_pos (List.mem_append_left _ hheld)]
      split
      · rfl
      · simp [List.filter_append, hheld]
    · by_cases hshown : id ∈ shown
      · rw [if_pos hshown, if_pos]
        exact List.mem_append_right _ (List.mem_filter.mpr ⟨hshown, by simpa using hheld⟩)
      · rw [if_neg hshown, if_neg]
        · simp [List.filter_append, hheld]
        · intro h
          rcases List.mem_append.mp h with h | h
          · exact hheld h
          · exact hshown (List.mem_filter.mp h).1

/-- The ids of a longer list are those of its parts, each once. -/
theorem fromKeys_append (held shown : List Json) : fromKeys (held ++ shown) =
    fromKeys held ++ (fromKeys shown).filter (· ∉ fromKeys held) := by
  unfold fromKeys
  rw [List.foldl_append]
  exact foldl_insertNew shown _

@[simp] theorem mem_fromKeys {ids : List Json} {id : Json} : id ∈ fromKeys ids ↔ id ∈ ids := by
  induction ids using List.reverseRecOn with
  | nil => simp [fromKeys]
  | append_singleton ids x ih =>
    have hx : id ∈ fromKeys [x] ↔ id ∈ [x] := by simp [fromKeys, insertNew]
    rw [fromKeys_append, List.mem_append, List.mem_append, List.mem_filter, hx]
    by_cases h : id ∈ ids <;> simp [h, ih]

/-- The bytes of the distinct ids that are held, and of those that the window shows first -/
def ledgerBytes (held shown : List Json) : Nat :=
  idBytes (fromKeys held) + idBytes ((fromKeys shown).filter (· ∉ held))

theorem ledger_grows (held shown : List Json) :
    idBytes (fromKeys (held ++ shown)) = ledgerBytes held shown := by
  rw [fromKeys_append]
  unfold ledgerBytes idBytes itemBytes
  rw [List.map_append, List.sum_append]
  simp only [mem_fromKeys]

/-! ## The checkpoint of one room -/

/-- The ids of the window but for the ciphertext that awaits its key -/
def shownIds (room : SlidingRoom) (plan : SlidingRoomPlan) : List Json :=
  (room.timeline.zipIdx.filter fun (event, index) => event.cls ≠ .megolm ∨
    room.timelineProvenance index plan.history plan.recovered plan.historyPrefix = .history).map
      fun p => p.1.sourceId

/-- The ids of the window after its history -/
def shownWindow (room : SlidingRoom) (plan : SlidingRoomPlan) : List Json :=
  (room.timeline.drop plan.historyPrefix).map Event.sourceId

/-- The token from which the room is recovered next -/
def nextToken (held : Option Str) (room : SlidingRoom) (plan : SlidingRoomPlan) : Option Str :=
  if plan.historyPrefix ≠ 0 ∧ plan.recovered ∧ plan.history = false then held
  else if room.initial ∨ room.limited then room.prevBatch
  else (present room.prevBatch).or held

theorem nextCheckpoint_eq (prior : Checkpoint) (proof : Json) (room : SlidingRoom)
    (plan : SlidingRoomPlan) : nextCheckpoint prior proof room plan =
      if nextToken prior.token room plan = prior.token then
        ⟨nextToken prior.token room plan, proof, fromKeys (prior.eventIds ++ shownIds room plan),
          fromKeys (prior.windowIds ++ shownWindow room plan)⟩
      else ⟨nextToken prior.token room plan, proof, shownIds room plan, shownWindow room plan⟩ := rfl

namespace Checkpoint

/-- The checkpoint without the ids that it has collected -/
def bare (c : Checkpoint) : Checkpoint := ⟨c.token, c.membership, [], []⟩

def bound : Nat := 2 * 1024 * 1024

/-- The checkpoint can be stored. -/
def Stores (c : Checkpoint) : Prop := c.Written ∧ c.size ≤ bound

/-- When its token stays, the room has bytes left for the new ids of the window. -/
def Fits (prior : Checkpoint) (proof : Json) (room : SlidingRoom) (plan : SlidingRoomPlan) : Prop :=
  nextToken prior.token room plan = prior.token →
    sizeWith prior.token proof (ledgerBytes prior.eventIds (shownIds room plan))
      (ledgerBytes prior.windowIds (shownWindow room plan)) ≤ bound

variable {prior : Checkpoint} {proof : Json} {room : SlidingRoom} {plan : SlidingRoomPlan}

theorem written_next (hprior : prior.Written)
    (h : (nextCheckpoint prior.bare proof room plan).Written) :
    (nextCheckpoint prior proof room plan).Written := by
  rw [nextCheckpoint_eq] at h ⊢
  change (if nextToken prior.token room plan = prior.token then _ else _ : Checkpoint).Written at h
  split at h
  next htoken =>
    rw [if_pos htoken]
    refine ⟨h.token, h.membership, fun id hid => ?_, fun id hid => ?_⟩
    · rcases List.mem_append.mp (mem_fromKeys.mp hid) with hid | hid
      · exact hprior.eventIds id hid
      · exact h.eventIds id (mem_fromKeys.mpr hid)
    · rcases List.mem_append.mp (mem_fromKeys.mp hid) with hid | hid
      · exact hprior.windowIds id hid
      · exact h.windowIds id (mem_fromKeys.mpr hid)
  next htoken =>
    rw [if_neg htoken]
    exact h

/-- A window that can be stored by itself can be stored when the room has bytes left for it. -/
theorem stores_next_iff (hprior : prior.Written)
    (hbare : (nextCheckpoint prior.bare proof room plan).Stores) :
    (nextCheckpoint prior proof room plan).Stores ↔ prior.Fits proof room plan := by
  by_cases htoken : nextToken prior.token room plan = prior.token
  · have hsize : (nextCheckpoint prior proof room plan).size = sizeWith prior.token proof
        (ledgerBytes prior.eventIds (shownIds room plan))
        (ledgerBytes prior.windowIds (shownWindow room plan)) := by
      rw [nextCheckpoint_eq, if_pos htoken]
      unfold size
      rw [ledger_grows, ledger_grows, htoken]
    unfold Stores Fits
    rw [hsize]
    constructor
    · intro h _
      exact h.2
    · intro h
      exact ⟨written_next hprior hbare.1, h htoken⟩
  · have hsame : nextCheckpoint prior proof room plan = nextCheckpoint prior.bare proof room plan := by
      rw [nextCheckpoint_eq, nextCheckpoint_eq, if_neg htoken]
      exact (if_neg htoken).symm
    rw [hsame]
    exact ⟨fun _ h => absurd h htoken, fun _ => hbare⟩

end Checkpoint

/-! ## The rooms of a commit -/

/-- The proof of a membership needs the held one, but not the ids that are held. -/
theorem slidingMembership_proof {env : Env} {s s' : Session} {roomId : Str} {room : SlidingRoom}
    (h : (s.checkpoint roomId).membership = (s'.checkpoint roomId).membership) :
    (s.slidingMembership env roomId room).1 = (s'.slidingMembership env roomId room).1 := by
  unfold Session.slidingMembership
  dsimp only
  rw [h]
  split
  · rfl
  · cases ((room.requiredState ++ room.live).filter (isOwnMember env.userId)).getLast? with
    | none => rfl
    | some event =>
      dsimp only
      split <;> rfl

/-- The commit of the room stores a checkpoint that is not too long, or none. -/
def RoomStores (env : Env) (crypto : Crypto) (plan : Plan) (w : Work) (entry : Str × SlidingRoom) :
    Prop :=
  let roomPlan := plan.slidingRoom w entry.1
  let room := entry.2.replaced crypto entry.1 roomPlan.suppressIds
  let proof := (w.session.slidingMembership env entry.1 room).1
  proof ≠ .null → (w.session.getMetadata entry.1).baseline →
    (nextCheckpoint (w.session.checkpoint entry.1) proof room roomPlan).Stores

section Rooms

variable {env : Env} {crypto : Crypto} {plan : Plan} {w w' : Work} {entry : Str × SlidingRoom}

theorem commitSlidingRoom_isOk_iff :
    (∃ w', commitSlidingRoom env crypto plan w entry = .ok w') ↔
      RoomStores env crypto plan w entry := by
  unfold commitSlidingRoom RoomStores SlidingRoom.replaced
  dsimp only
  split
  next h =>
    constructor
    · rintro ⟨w', hw⟩ _ _
      obtain ⟨n, hn, hw⟩ := bind_eq_ok.mp hw
      obtain ⟨hwritten, rfl⟩ := Checkpoint.encodedJsonSize_json.mp hn
      split at hw
      · exact (nomatch hw)
      next hsize => exact ⟨hwritten, Nat.le_of_not_lt hsize⟩
    · intro hstores
      obtain ⟨hwritten, hsize⟩ := hstores h.1 h.2
      rw [Checkpoint.encodedJsonSize_json.mpr ⟨hwritten, rfl⟩, ok_bind]
      split
      next hlong => exact absurd hsize (Nat.not_le_of_lt hlong)
      · exact ⟨_, rfl⟩
  next h =>
    refine ⟨fun _ hproof hbaseline => absurd ⟨hproof, hbaseline⟩ h, fun _ => ⟨_, rfl⟩⟩

/-- A room with a proof and a baseline keeps the next checkpoint. -/
theorem commitSlidingRoom_keeps (h : commitSlidingRoom env crypto plan w entry = .ok w') :
    let roomPlan := plan.slidingRoom w entry.1
    let room := entry.2.replaced crypto entry.1 roomPlan.suppressIds
    let proof := (w.session.slidingMembership env entry.1 room).1
    proof ≠ .null → (w.session.getMetadata entry.1).baseline →
      w'.session.checkpoint entry.1 =
        nextCheckpoint (w.session.checkpoint entry.1) proof room roomPlan := by
  intro roomPlan room proof hproof hbaseline
  unfold commitSlidingRoom at h
  dsimp only at h
  rw [if_pos ⟨hproof, hbaseline⟩] at h
  obtain ⟨n, -, h⟩ := bind_eq_ok.mp h
  split at h
  · exact (nomatch h)
  · cases h
    exact Session.checkpoint_setCheckpoint _ _ _

/-- The room keeps its account data, and its checkpoint is stored. -/
theorem commitSlidingRoom_stored (h : commitSlidingRoom env crypto plan w entry = .ok w') :
    w'.session.pendingAccountData = w.session.pendingAccountData ∧
      ((∀ p ∈ w.session.baselines, p.2.Written) → ∀ p ∈ w'.session.baselines, p.2.Written) := by
  unfold commitSlidingRoom at h
  dsimp only at h
  split at h
  · obtain ⟨n, hn, h⟩ := bind_eq_ok.mp h
    split at h
    · exact (nomatch h)
    · cases h
      refine ⟨rfl, fun hall p hp => ?_⟩
      rcases mem_dictSet_iff.mp hp with rfl | ⟨hp, -⟩
      · exact (Checkpoint.encodedJsonSize_json.mp hn).1
      · exact hall p hp
  · cases h
    exact ⟨rfl, fun hall p hp => hall p (List.mem_filter.mp hp).1⟩

/-- A commit of one room leaves those of the others as they are. -/
structure OtherRooms (roomId : Str) (w w' : Work) : Prop where
  metadata : w'.session.metadata = w.session.metadata
  historyRooms : w'.historyRooms = w.historyRooms
  checkpoint : ∀ r, r ≠ roomId → w'.session.checkpoint r = w.session.checkpoint r

theorem commitSlidingRoom_others (h : commitSlidingRoom env crypto plan w entry = .ok w') :
    OtherRooms entry.1 w w' := by
  unfold commitSlidingRoom at h
  dsimp only at h
  split at h
  · obtain ⟨n, -, h⟩ := bind_eq_ok.mp h
    split at h
    · exact (nomatch h)
    · cases h
      refine ⟨rfl, rfl, fun r hr => ?_⟩
      unfold Session.setCheckpoint Session.checkpoint
      rw [dictGet?_dictSet, if_neg hr]
  · cases h
    refine ⟨rfl, rfl, fun r hr => ?_⟩
    unfold Session.forgetRoom Session.checkpoint
    rw [dictGet?_dictErase, if_neg hr]

theorem OtherRooms.stores_iff {roomId : Str} (h : OtherRooms roomId w w') (hne : entry.1 ≠ roomId) :
    RoomStores env crypto plan w' entry ↔ RoomStores env crypto plan w entry := by
  have hplan : plan.slidingRoom w' entry.1 = plan.slidingRoom w entry.1 := by
    unfold Plan.slidingRoom
    rw [h.historyRooms]
  have hcheckpoint := h.checkpoint entry.1 hne
  unfold RoomStores Session.getMetadata
  dsimp only
  rw [hplan, hcheckpoint, h.metadata, slidingMembership_proof (congrArg _ hcheckpoint)]

/-- The rooms of a response commit when each of them does. -/
theorem foldlM_commitSlidingRoom_isOk_iff {entries : List (Str × SlidingRoom)}
    (hnodup : (entries.map (·.1)).Nodup) :
    (∃ w', entries.foldlM (commitSlidingRoom env crypto plan) w = .ok w') ↔
      ∀ entry ∈ entries, RoomStores env crypto plan w entry := by
  induction entries generalizing w with
  | nil => exact ⟨fun _ _ h => (nomatch h), fun _ => ⟨w, rfl⟩⟩
  | cons entry entries ih =>
    rw [List.map_cons, List.nodup_cons] at hnodup
    rw [List.forall_mem_cons]
    have hrest : ∀ w₁, commitSlidingRoom env crypto plan w entry = .ok w₁ →
        ((∃ w', entries.foldlM (commitSlidingRoom env crypto plan) w₁ = .ok w') ↔
          ∀ other ∈ entries, RoomStores env crypto plan w other) := by
      intro w₁ hw₁
      rw [ih hnodup.2]
      refine forall₂_congr fun other hother => (commitSlidingRoom_others hw₁).stores_iff ?_
      rintro heq
      exact hnodup.1 (heq ▸ List.mem_map_of_mem hother)
    constructor
    · rintro ⟨w', hw⟩
      rw [List.foldlM_cons] at hw
      obtain ⟨w₁, hw₁, hw⟩ := bind_eq_ok.mp hw
      exact ⟨commitSlidingRoom_isOk_iff.mp ⟨w₁, hw₁⟩, (hrest w₁ hw₁).mp ⟨w', hw⟩⟩
    · rintro ⟨hentry, hall⟩
      obtain ⟨w₁, hw₁⟩ := commitSlidingRoom_isOk_iff.mpr hentry
      obtain ⟨w', hw⟩ := (hrest w₁ hw₁).mpr hall
      exact ⟨w', by rw [List.foldlM_cons, hw₁]; exact hw⟩

end Rooms

/-! ## One commit -/

/-- What a source keeps from one commit to the next -/
structure Collected where
  baselines : List (Str × Checkpoint)
  accountData : List (Str × List (Str × Event))

namespace Collected

def empty : Collected := ⟨[], []⟩

def checkpoint (c : Collected) (roomId : Str) : Checkpoint :=
  (dictGet? c.baselines roomId).getD .empty

/-- The same tokens and proofs with nothing collected -/
def bare (c : Collected) : Collected := ⟨c.baselines.map fun p => (p.1, p.2.bare), []⟩

/-- The bare collection keeps the checkpoints without their ids. -/
theorem checkpoint_bare (c : Collected) (roomId : Str) :
    c.bare.checkpoint roomId = (c.checkpoint roomId).bare := by
  obtain ⟨baselines, accountData⟩ := c
  unfold bare checkpoint
  dsimp only
  induction baselines with
  | nil => rfl
  | cons p baselines ih =>
    rw [List.map_cons, dictGet?_cons, dictGet?_cons]
    split
    · rfl
    · exact ih

end Collected

/-- A response at its commit; the session is arbitrary but for what the source has collected. -/
structure Turn where
  crypto : Crypto
  plan : Plan
  work : Work
  response : SlidingResponse
  /-- The rooms that were discovered when the account data was delivered -/
  known : List Str
  nodup : (response.rooms.map (·.1)).Nodup

namespace Turn

variable (env : Env) (turn : Turn) (c : Collected)

/-- The account data that waits after the response -/
def waiting : List (Str × List (Str × Event)) :=
  (addAccountData c.accountData turn.response.roomAccountData).filter fun p => p.1 ∉ turn.known

def before : Work :=
  { turn.work with session := { turn.work.session with
    baselines := c.baselines
    pendingAccountData := turn.waiting c } }

/-- `SlidingSource.commit`, and what the source has collected after it -/
def commit : Except SessionError Collected :=
  (commitSliding env turn.crypto turn.plan (turn.before c) turn.response).map fun w =>
    ⟨w.session.baselines, w.session.pendingAccountData⟩

/-- The commit raises only if it would raise for a source that had collected nothing. -/
def Unaccumulated : Prop :=
  ∀ e, turn.commit env c = .error e → ∃ e', turn.commit env c.bare = .error e'

/-- Neither the account data nor a checkpoint is too long. -/
structure Stores : Prop where
  written : ∀ p ∈ turn.waiting c, AccountWritten p.2
  accountData : accountBytes (turn.waiting c) ≤ env.config.maxPendingBytes
  rooms : ∀ entry ∈ turn.response.rooms,
    RoomStores env turn.crypto turn.plan (turn.before c) entry

/-- The commit succeeds exactly when everything it writes is stored. -/
theorem commit_isOk_iff : (∃ c', turn.commit env c = .ok c') ↔ turn.Stores env c := by
  have hmap : (∃ c', turn.commit env c = .ok c') ↔ ∃ w',
      commitSliding env turn.crypto turn.plan (turn.before c) turn.response = .ok w' := by
    unfold commit
    cases commitSliding env turn.crypto turn.plan (turn.before c) turn.response <;> simp [Except.map]
  rw [hmap]
  have hrooms : ∀ accountData, (∀ entry ∈ turn.response.rooms, RoomStores env turn.crypto turn.plan
      { turn.before c with session := { (turn.before c).session with
        disk := { (turn.before c).session.disk with accountData } } } entry) ↔
      ∀ entry ∈ turn.response.rooms,
        RoomStores env turn.crypto turn.plan (turn.before c) entry := fun _ => Iff.rfl
  constructor
  · rintro ⟨w', hw⟩
    obtain ⟨n, hn, hw⟩ := bind_eq_ok.mp hw
    obtain ⟨hwritten, rfl⟩ := accountDataSize_eq_ok.mp hn
    split at hw
    · exact (nomatch hw)
    next hsize =>
      exact ⟨hwritten, Nat.le_of_not_lt hsize, (hrooms _).mp
        ((foldlM_commitSlidingRoom_isOk_iff turn.nodup).mp ⟨w', hw⟩)⟩
  · rintro ⟨hwritten, hsize, hstores⟩
    obtain ⟨w', hw⟩ := (foldlM_commitSlidingRoom_isOk_iff turn.nodup).mpr ((hrooms _).mpr hstores)
    refine ⟨w', bind_eq_ok.mpr ⟨_, accountDataSize_eq_ok.mpr ⟨hwritten, rfl⟩, ?_⟩⟩
    exact (if_neg (Nat.not_lt_of_le hsize)).trans hw

end Turn

/-! ## What a response brings -/

/-- The account data of a room, by type -/
def byType (events : List (Option Str × Event)) (held : List (Str × Event)) : List (Str × Event) :=
  events.foldl (fun byType (type, event) =>
    match type with
    | some type => dictSet byType type event
    | none => byType) held

/-- A later event takes the place of an earlier one of its type. -/
theorem mem_byType {X : Prop} {events : List (Option Str × Event)} {held held' : List (Str × Event)}
    {q : Str × Event} (hq : q ∈ byType events held) (h : q ∈ held → X ∨ q ∈ held') :
    X ∨ q ∈ byType events held' := by
  induction events using List.reverseRecOn with
  | nil => exact h hq
  | append_singleton events p ih =>
    obtain ⟨type, event⟩ := p
    unfold byType at hq ih ⊢
    rw [List.foldl_append] at hq ⊢
    cases type with
    | none => exact ih hq
    | some type =>
      rcases mem_dictSet_iff.mp hq with rfl | ⟨hq, hne⟩
      · exact Or.inr (mem_dictSet_iff.mpr (Or.inl rfl))
      · exact (ih hq).imp_right fun hmem => mem_dictSet_iff.mpr (Or.inr ⟨hmem, hne⟩)

/-- What waits after a response was waiting before it, or the response brings it by itself. -/
theorem mem_addAccountData {pending : List (Str × List (Str × Event))}
    {response : List (Str × List (Option Str × Event))} {p : Str × List (Str × Event)}
    (hp : p ∈ addAccountData pending response) {q : Str × Event} (hq : q ∈ p.2) :
    (∃ p' ∈ pending, q ∈ p'.2) ∨ ∃ p' ∈ addAccountData [] response, p'.1 = p.1 ∧ q ∈ p'.2 := by
  suffices h : (∃ p' ∈ pending, q ∈ p'.2) ∨
      q ∈ (dictGet? (addAccountData [] response) p.1).getD [] by
    refine h.imp_right fun hmem => ?_
    cases hget : dictGet? (addAccountData [] response) p.1 with
    | none => rw [hget] at hmem; exact (nomatch hmem)
    | some events =>
      rw [hget] at hmem
      exact ⟨_, mem_of_dictGet? hget, rfl, hmem⟩
  induction response using List.reverseRecOn generalizing p with
  | nil => exact Or.inl ⟨p, hp, hq⟩
  | append_singleton response entry ih =>
    obtain ⟨roomId, events⟩ := entry
    have hadd : ∀ pending, addAccountData pending (response ++ [(roomId, events)]) =
        dictSet (addAccountData pending response) roomId
          (byType events ((dictGet? (addAccountData pending response) roomId).getD [])) :=
      fun pending => List.foldl_append
    rw [hadd] at hp ⊢
    rw [dictGet?_dictSet]
    rcases mem_dictSet_iff.mp hp with rfl | ⟨hp, hne⟩
    · rw [if_pos rfl]
      refine mem_byType hq fun hheld => ?_
      cases hget : dictGet? (addAccountData pending response) roomId with
      | none => rw [hget] at hheld; exact (nomatch hheld)
      | some held =>
        rw [hget] at hheld
        exact ih (mem_of_dictGet? hget) hheld
    · rw [if_neg hne]
      exact ih hp hq

/-! ## Runs -/

theorem written_empty : Checkpoint.empty.Written :=
  ⟨⟨_, _, rfl, _, rfl, rfl⟩, ⟨_, _, rfl, _, rfl, rfl⟩, fun _ h => (nomatch h), fun _ h => (nomatch h)⟩

/-- Everything that a source has collected was stored. -/
structure Collected.Stored (c : Collected) : Prop where
  baselines : ∀ p ∈ c.baselines, p.2.Written
  accountData : ∀ p ∈ c.accountData, AccountWritten p.2

theorem stored_empty : Collected.empty.Stored :=
  ⟨fun _ h => (nomatch h), fun _ h => (nomatch h)⟩

/-- A stored collection has checkpoints that can be written. -/
theorem Collected.Stored.checkpoint {c : Collected} (h : c.Stored) (roomId : Str) :
    (c.checkpoint roomId).Written := by
  unfold Collected.checkpoint
  cases hget : dictGet? c.baselines roomId with
  | none => exact written_empty
  | some checkpoint => exact h.baselines _ (mem_of_dictGet? hget)

namespace Turn

variable {env : Env} {turn : Turn} {c c' : Collected}

/-- What waits for its room can be written. -/
theorem Stores.waiting (h : turn.Stores env c.bare) (hc : c.Stored) :
    ∀ p ∈ turn.waiting c, AccountWritten p.2 := by
  intro p hp q hq
  obtain ⟨hp, hknown⟩ := List.mem_filter.mp hp
  rcases mem_addAccountData hp hq with ⟨p', hp', hq'⟩ | ⟨p', hp', hroom, hq'⟩
  · exact hc.accountData p' hp' q hq'
  · exact h.written p' (List.mem_filter.mpr ⟨hp', by rw [hroom]; exact hknown⟩) q hq'

/-- The room as the commit sees it -/
def room (turn : Turn) (entry : Str × SlidingRoom) : SlidingRoom :=
  entry.2.replaced turn.crypto entry.1 (turn.plan.slidingRoom turn.work entry.1).suppressIds

/-- The current proof of the membership -/
def proof (env : Env) (turn : Turn) (c : Collected) (entry : Str × SlidingRoom) : Json :=
  ((turn.before c).session.slidingMembership env entry.1 (turn.room entry)).1

/-- What the source has collected leaves bytes for the response: those of the account data that
waits with it, and in each room whose token stays those of the ids that the window shows first. -/
structure Fits (env : Env) (turn : Turn) (c : Collected) : Prop where
  accountData : accountBytes (turn.waiting c) ≤ env.config.maxPendingBytes
  rooms : ∀ entry ∈ turn.response.rooms, turn.proof env c entry ≠ .null →
    (turn.work.session.getMetadata entry.1).baseline →
    (c.checkpoint entry.1).Fits (turn.proof env c entry) (turn.room entry)
      (turn.plan.slidingRoom turn.work entry.1)

theorem proof_bare (entry : Str × SlidingRoom) :
    turn.proof env c.bare entry = turn.proof env c entry := by
  refine slidingMembership_proof ?_
  change (c.bare.checkpoint entry.1).membership = (c.checkpoint entry.1).membership
  rw [Collected.checkpoint_bare]
  rfl

/-- A response that could be committed by itself is committed when the source has the bytes. -/
theorem stores_iff (hc : c.Stored) (hbare : turn.Stores env c.bare) :
    turn.Stores env c ↔ turn.Fits env c := by
  have hroom : ∀ entry ∈ turn.response.rooms, turn.proof env c entry ≠ .null →
      (turn.work.session.getMetadata entry.1).baseline →
      ((nextCheckpoint (c.checkpoint entry.1) (turn.proof env c entry) (turn.room entry)
        (turn.plan.slidingRoom turn.work entry.1)).Stores ↔
        (c.checkpoint entry.1).Fits (turn.proof env c entry) (turn.room entry)
          (turn.plan.slidingRoom turn.work entry.1)) := by
    intro entry hentry hproof hbaseline
    refine Checkpoint.stores_next_iff (hc.checkpoint entry.1) ?_
    have hstores := hbare.rooms entry hentry
    change turn.proof env c.bare entry ≠ .null → _ → (nextCheckpoint (c.bare.checkpoint entry.1)
      (turn.proof env c.bare entry) (turn.room entry) _).Stores at hstores
    rw [proof_bare, Collected.checkpoint_bare] at hstores
    exact hstores hproof hbaseline
  constructor
  · rintro ⟨-, hdata, hstores⟩
    exact ⟨hdata, fun entry hentry hproof hbaseline =>
      (hroom entry hentry hproof hbaseline).mp (hstores entry hentry hproof hbaseline)⟩
  · rintro ⟨hdata, hfits⟩
    exact ⟨hbare.waiting hc, hdata, fun entry hentry hproof hbaseline =>
      (hroom entry hentry hproof hbaseline).mpr (hfits entry hentry hproof hbaseline)⟩

/-- The step is refused for what was accumulated exactly when the bare one is stored and the whole
one does not fit. -/
theorem unaccumulated_iff (hc : c.Stored) :
    turn.Unaccumulated env c ↔ (turn.Stores env c.bare → turn.Fits env c) := by
  have hok : turn.Unaccumulated env c ↔
      ((∃ c', turn.commit env c.bare = .ok c') → ∃ c', turn.commit env c = .ok c') := by
    unfold Unaccumulated
    cases turn.commit env c <;> cases turn.commit env c.bare <;> simp
  rw [hok, commit_isOk_iff, commit_isOk_iff]
  exact forall_congr' fun hbare => stores_iff hc hbare

/-- What a commit collects has been stored. -/
theorem stored_commit (hc : c.Stored) (h : turn.commit env c = .ok c') : c'.Stored := by
  have hwritten := ((commit_isOk_iff env turn c).mp ⟨c', h⟩).written
  unfold commit at h
  cases hrun : commitSliding env turn.crypto turn.plan (turn.before c) turn.response with
  | error e => rw [hrun] at h; exact (nomatch h)
  | ok w =>
    rw [hrun] at h
    cases h
    obtain ⟨n, -, hrun⟩ := bind_eq_ok.mp hrun
    split at hrun
    · exact (nomatch hrun)
    · have hrooms : w.session.pendingAccountData = turn.waiting c ∧
          ∀ p ∈ w.session.baselines, p.2.Written := by
        refine @foldlM_invariant _ _ _ _ (fun w : Work => w.session.pendingAccountData =
          turn.waiting c ∧ ∀ p ∈ w.session.baselines, p.2.Written) _ ?_ _ _ hrun
          ⟨rfl, hc.baselines⟩
        rintro entry - w w' hw ⟨hdata, hall⟩
        obtain ⟨hsame, hstored⟩ := commitSlidingRoom_stored hw
        exact ⟨hsame.trans hdata, hstored hall⟩
      refine ⟨hrooms.2, ?_⟩
      dsimp only
      rw [hrooms.1]
      exact hwritten

end Turn

/-- What happens to a source: the commit of a response, or a room whose tenure ended -/
inductive SourceAction where
  | commit (turn : Turn)
  | forget (roomId : Str)

/-- A commit that raises rolls its transaction back, and the response stays to be committed. -/
def sourceStep (env : Env) (c : Collected) : SourceAction → Collected
  | .commit turn =>
    match turn.commit env c with
    | .ok c' => c'
    | .error _ => c
  | .forget roomId => { c with baselines := dictErase c.baselines roomId }

def SourceAction.Unaccumulated (env : Env) (c : Collected) : SourceAction → Prop
  | .commit turn => turn.Unaccumulated env c
  | .forget _ => True

/-- A response that could be committed by itself fits. -/
def SourceAction.Fits (env : Env) (c : Collected) : SourceAction → Prop
  | .commit turn => turn.Stores env c.bare → turn.Fits env c
  | .forget _ => True

/-- Every action of the source keeps the collection stored. -/
theorem stored_sourceStep (env : Env) (c : Collected) (action : SourceAction) (h : c.Stored) :
    (sourceStep env c action).Stored := by
  cases action with
  | commit turn =>
    unfold sourceStep
    dsimp only
    split
    next hcommit => exact Turn.stored_commit h hcommit
    · exact h
  | forget roomId => exact ⟨fun p hp => h.baselines p (List.mem_filter.mp hp).1, h.accountData⟩

/-! ## The tail of a response -/

def Session.collected (s : Session) : Collected := ⟨s.baselines, s.pendingAccountData⟩

def Work.collected (w : Work) : Collected := w.session.collected

/-- A timeline event leaves the collection as it is, -/
theorem collected_timelineRoom (env : Env) (s : Session) (roomId : Str) (event : Event) :
    (s.timelineRoom env roomId event).collected = s.collected := by
  unfold Session.timelineRoom
  split
  · split <;> rfl
  · rfl

section Tail

variable {env : Env} {w w' : Work}

/-- so does a record, -/
theorem collected_appendRecord {record : SyncRecord} {barrier : Bool}
    (h : appendRecord env w record barrier = .ok w') : w'.collected = w.collected := by
  rcases appendRecord_cases h with ⟨-, rfl⟩ | ⟨bs, rs, pb, rfl, -⟩ <;> rfl

/-- so does a fence, -/
theorem collected_fence (roomId : Str) (change : Option OwnMembership) :
    (fence w roomId change).collected = w.collected := by
  unfold fence
  split
  · split <;> rfl
  · rfl

/-- so does an item, -/
theorem collected_consumeItem {item : Item} (h : consumeItem env w item = .ok w') :
    w'.collected = w.collected := by
  rcases consumeItem_cases h with ⟨-, b, happend⟩ | ⟨roomId, w₁, o, -, hobserve, hw⟩
  · exact collected_appendRecord happend
  have hw₁ : w₁.collected = w.collected := by
    have hentered : (w.entered roomId item).collected = w.collected := by
      unfold Work.entered
      split <;> rfl
    rw [(observe_cases hobserve).shape]
    exact hentered
  rcases hw with ⟨-, rfl⟩ | ⟨change, -, ⟨-, rfl⟩ | ⟨-, b, happend⟩⟩
  · exact hw₁
  · refine Eq.trans ?_ ((collected_fence roomId change).trans hw₁)
    unfold dropChange
    split <;> rfl
  · exact (collected_appendRecord happend).trans ((collected_fence roomId change).trans hw₁)

/-- so does a move, -/
theorem collected_runMove {move : Move} (h : runMove env w move = .ok w') :
    w'.collected = w.collected := by
  unfold runMove at h
  split at h
  · cases h
    rfl
  · cases move with
    | yield item => exact collected_consumeItem h
    | timelineRoom roomId event =>
      cases h
      exact collected_timelineRoom env w.session roomId event
    | _ =>
      cases h
      rfl

/-- and so do all of them. -/
theorem collected_runMoves {moves : List Move} (h : moves.foldlM (runMove env) w = .ok w') :
    w'.collected = w.collected :=
  @foldlM_invariant _ _ _ _ (fun w' => w'.collected = w.collected) _
    (fun _ _ _ _ hrun hsame => (collected_runMove hrun).trans hsame) _ _ h rfl

theorem collected_flush (h : w.flush env = .ok w') : w'.collected = w.collected := by
  obtain ⟨bs, pb, rfl, -⟩ := flush_cases h
  rfl

/-- The response adds its account data to what waits. -/
theorem collected_runSliding {crypto : Crypto} {plan : Plan} {response : SlidingResponse}
    (h : runSliding env crypto plan w response = .ok w') :
    ∃ known : List Str, w'.collected = ⟨w.session.baselines,
      (addAccountData w.session.pendingAccountData response.roomAccountData).filter
        fun p => decide (p.1 ∉ known)⟩ := by
  unfold runSliding at h
  dsimp only at h
  obtain ⟨toDevice, -, h⟩ := bind_eq_ok.mp h
  obtain ⟨w₁, hw₁, h⟩ := bind_eq_ok.mp h
  obtain ⟨w₂, hw₂, h⟩ := bind_eq_ok.mp h
  obtain ⟨w₃, hw₃, h⟩ := bind_eq_ok.mp h
  obtain ⟨w₄, hw₄, h⟩ := bind_eq_ok.mp h
  obtain ⟨w₅, hw₅, h⟩ := bind_eq_ok.mp h
  have hrooms : w₂.collected = w.collected := by
    refine Eq.trans ?_ ((collected_runMoves hw₁).trans rfl)
    refine @foldlM_invariant _ _ _ _ (fun w' => w'.collected = w₁.collected) _ ?_ _ _ hw₂ rfl
    intro entry _ w w' hrun hsame
    obtain ⟨moves, -, hrun⟩ := bind_eq_ok.mp hrun
    exact (collected_runMoves hrun).trans hsame
  have hglobal : w₃.collected = ⟨w.session.baselines,
      addAccountData w.session.pendingAccountData response.roomAccountData⟩ := by
    refine (collected_runMoves hw₃).trans ?_
    change (⟨w₂.collected.baselines, addAccountData w₂.collected.accountData _⟩ : Collected) = _
    rw [hrooms]
    rfl
  refine ⟨w₃.session.rooms, ?_⟩
  rw [collected_flush h, collected_runMoves hw₅]
  unfold runPendingAccountData at hw₄
  rw [collected_runMoves hw₄]
  change (⟨w₃.collected.baselines, (w₃.collected.accountData.partition _).2⟩ : Collected) = _
  rw [hglobal, List.partition_eq_filter_filter]
  simp only [Collected.mk.injEq, true_and]
  exact List.filter_congr fun p _ => (decide_not).symm

theorem collected_settleProjection (roomId : Str) (m : Membership) (changed reset : Bool) :
    (settleProjection w roomId m changed reset).collected = w.collected := by
  have hdrop : (dropRoom w.session roomId m).collected = w.session.collected := by
    unfold dropRoom
    split <;> rfl
  refine Eq.trans ?_ hdrop
  cases changed <;> cases reset <;> rfl

theorem collected_observes {roomId : Str} {o : Observed} (h : w.Observes roomId o w') :
    w'.collected = w.collected := by
  rw [h.shape]
  rfl

theorem collected_reconcile {roomId : Str} {membership : Membership} {reset : Bool}
    (h : reconcile env w roomId membership = .ok (w', reset)) : w'.collected = w.collected := by
  rcases reconcile_cases h with ⟨-, rfl⟩ | ⟨intent, w₁, change, -, -, hchange, hsettled⟩
  · rfl
  have hw₁ : w₁.collected = (w.observed intent).collected :=
    collected_observes (boundaryChange_observes hchange)
  cases change with
  | none =>
    obtain rfl := hsettled
    exact (collected_settleProjection ..).trans hw₁
  | some c =>
    obtain ⟨w₂, rfl, hpublish⟩ := hsettled
    obtain ⟨bs, rfl, -⟩ := publishOne_cases hpublish
    exact (collected_settleProjection ..).trans hw₁

/-- The rooms settle without a change of the collection. -/
theorem collected_settleSliding {entry : Str × SlidingRoom} {resets resets' : List Str}
    (h : settleSliding env (w, resets) entry = .ok (w', resets')) : w'.collected = w.collected := by
  obtain ⟨roomId, room⟩ := entry
  unfold settleSliding at h
  dsimp only at h
  have hknown : ∀ w : Work, (w.addKnownRoom roomId).collected = w.collected := by
    intro w
    unfold Work.addKnownRoom
    split <;> rfl
  split at h
  · cases h
    exact hknown _
  · obtain ⟨⟨w₁, reset⟩, hreconcile, h⟩ := bind_eq_ok.mp h
    cases h
    exact (collected_reconcile hreconcile).trans (hknown _)

theorem collected_saveRooms (s : Session) (rooms : List Str) :
    (s.saveRooms rooms).collected = s.collected := by
  rw [saveRooms_frame]
  rfl

/-- For what its source has collected, the tail of a Sliding response is one commit and the rooms
that it forgets. -/
theorem slidingTail_collected {crypto : Crypto} {plan : Plan} {response : SlidingResponse}
    (hnodup : (response.rooms.map (·.1)).Nodup)
    (h : slidingTail env crypto plan w response = .ok w') :
    ∃ (turn : Turn) (forgotten : List Str), turn.response = response ∧ turn.plan = plan ∧
      turn.Stores env w.collected ∧ w'.collected = run (sourceStep env) w.collected
        (.commit turn :: forgotten.map .forget) := by
  unfold slidingTail at h
  dsimp only at h
  obtain ⟨w₁, hrun, h⟩ := bind_eq_ok.mp h
  obtain ⟨⟨w₂, resets⟩, hsettle, h⟩ := bind_eq_ok.mp h
  obtain ⟨w₃, hcommit, h⟩ := bind_eq_ok.mp h
  cases h
  obtain ⟨known, hknown⟩ := collected_runSliding hrun
  have hsettled : w₂.collected = w₁.collected :=
    @foldlM_invariant _ _ _ _ (fun x : Work × List Str => x.1.collected = w₁.collected) _
      (fun _ _ _ _ hround hsame => (collected_settleSliding hround).trans hsame) _ _ hsettle rfl
  have hbefore : (dropLeftSliding w₂.save).collected = w₂.collected := by
    rw [dropLeftSliding_frame]
    exact collected_saveRooms w₂.session w₂.processor.rooms
  let turn : Turn := ⟨crypto, plan, dropLeftSliding w₂.save, response, known, hnodup⟩
  have hturn : turn.before w.collected = dropLeftSliding w₂.save := by
    have hsame : (dropLeftSliding w₂.save).collected =
        ⟨w.collected.baselines, turn.waiting w.collected⟩ :=
      (hbefore.trans hsettled).trans hknown
    have hbaselines : (dropLeftSliding w₂.save).session.baselines = w.collected.baselines :=
      congrArg Collected.baselines hsame
    have hdata : (dropLeftSliding w₂.save).session.pendingAccountData = turn.waiting w.collected :=
      congrArg Collected.accountData hsame
    unfold Turn.before
    rw [← hdata, ← hbaselines]
  have hcommitted : turn.commit env w.collected = .ok w₃.collected := by
    unfold Turn.commit
    rw [hturn, hcommit]
    rfl
  refine ⟨turn, resets ++ w₃.session.resets, rfl, rfl,
    (Turn.commit_isOk_iff env turn _).mp ⟨_, hcommitted⟩, ?_⟩
  have hforget : ∀ (rooms : List Str) (s : Session), (rooms.foldl Session.forgetRoom s).collected =
      run (sourceStep env) s.collected (rooms.map .forget) := by
    intro rooms
    induction rooms with
    | nil => exact fun s => rfl
    | cons r rooms ih => exact fun s => ih (s.forgetRoom r)
  change ((resets ++ w₃.session.resets).foldl Session.forgetRoom w₃.session).collected =
    run (sourceStep env) (sourceStep env w.collected (.commit turn)) _
  rw [hforget]
  unfold sourceStep
  dsimp only
  rw [hcommitted]
  rfl

end Tail

/-- In a run no commit raises because of what earlier responses brought exactly when the source has
bytes left for each response that could be committed by itself. What the tail of a response does to
the source is such a run. -/
theorem commits_unaccumulated_iff (env : Env) (actions : List SourceAction) :
    (Along (sourceStep env) (SourceAction.Unaccumulated env) .empty actions ↔
      Along (sourceStep env) (SourceAction.Fits env) .empty actions) ∧
    ∀ (crypto : Crypto) (plan : Plan) (response : SlidingResponse) (w w' : Work),
      (response.rooms.map (·.1)).Nodup → slidingTail env crypto plan w response = .ok w' →
      ∃ (turn : Turn) (forgotten : List Str), turn.response = response ∧ turn.plan = plan ∧
        turn.Stores env w.collected ∧ w'.collected = run (sourceStep env) w.collected
          (.commit turn :: forgotten.map .forget) := by
  refine ⟨?_, fun _ _ _ _ _ hnodup h => slidingTail_collected hnodup h⟩
  refine @along_congr _ _ (sourceStep env) _ _ Collected.Stored (fun c action hc => ?_)
    (fun c action hc _ => stored_sourceStep env c action hc) _ _ stored_empty
  cases action with
  | commit turn => exact Turn.unaccumulated_iff hc
  | forget roomId => exact Iff.rfl

/-! ## A room that never names a token -/

/-- Ids of 47 bytes as JSON -/
def growingId (i : Nat) : Str :=
  py "$" ++ List.replicate 40 (chr 'a') ++ [Fin.ofNat 0x110000 (0x10000 + i)]

def growingIds (start : Nat) : List Json :=
  (List.range 20000).map fun i => .str (growingId (start + i))

/-- A window of a joined room, without `prev_batch` -/
def growingRoom (ids : List Json) : SlidingRoom :=
  ⟨some (py "join"), [], false, false, [ownEvent joinEvent none],
    ids.map fun id => plainEvent (.obj [(py "event_id", id)]), none, false, none, []⟩

def growingTurn (ids : List Json) : Turn where
  crypto := plainCrypto
  plan := ⟨none, 0, [], [], [], [], none, none⟩
  work := ⟨baselineSession, [], .new []⟩
  response := ⟨py "p", [(py "!r", growingRoom ids)], [], [], []⟩
  known := []
  nodup := List.nodup_singleton _

/-- The room with one event in its window -/
def oneEvent : Turn := growingTurn [.str (py "$e")]

/-- The tail of its response commits the id of the event. -/
theorem commits_unaccumulated_iff_one :
    (slidingTail plainEnv oneEvent.crypto oneEvent.plan oneEvent.work oneEvent.response).toOption.map
      (fun w' => (w'.collected.checkpoint (py "!r")).eventIds) = some [.str (py "$e")] ∧
    ∀ w', slidingTail plainEnv oneEvent.crypto oneEvent.plan oneEvent.work oneEvent.response =
        .ok w' →
      ∃ (turn : Turn) (forgotten : List Str), turn.response = oneEvent.response ∧
        turn.plan = oneEvent.plan ∧ turn.Stores plainEnv oneEvent.work.collected ∧
        w'.collected = run (sourceStep plainEnv) oneEvent.work.collected
          (.commit turn :: forgotten.map .forget) :=
  ⟨by decide +kernel, fun w' h =>
    (commits_unaccumulated_iff plainEnv []).2 oneEvent.crypto _ _ _ w' oneEvent.nodup h⟩

/-- The ids of the growing room lie above the basic plane, -/
theorem val_growing {i : Nat} (hi : i < 40000) :
    (Fin.ofNat 0x110000 (0x10000 + i)).val = 0x10000 + i :=
  Nat.mod_eq_of_lt (by omega)

/-- so that each takes 47 bytes as JSON, -/
theorem bytes_growingId {i : Nat} (hi : i < 40000) : Takes strict (.str (growingId i)) 47 := by
  have hval := val_growing hi
  have hplain : ∀ c ∈ growingId i, escapeChar strict.ensureAscii c = [c] ∧ isSurrogate c = false := by
    intro c hc
    rcases List.mem_append.mp hc with hc | hc
    · rcases List.mem_append.mp hc with hc | hc
      · obtain rfl := List.mem_singleton.mp hc
        exact ⟨rfl, rfl⟩
      · obtain rfl := List.eq_of_mem_replicate hc
        exact ⟨rfl, rfl⟩
    · obtain rfl := List.mem_singleton.mp hc
      refine ⟨escapeChar_high (by rw [hval]; omega), ?_⟩
      unfold isSurrogate
      rw [hval]
      simp
      omega
  have hlast : (utf8Bytes (Fin.ofNat 0x110000 (0x10000 + i))).length = 4 := by
    unfold utf8Bytes
    rw [hval, if_neg (by omega), if_neg (by omega), if_neg (by omega)]
    rfl
  have h := takes_plainStr hplain
  unfold growingId at h ⊢
  rw [List.map_append, List.sum_append, List.map_singleton, List.sum_singleton, hlast] at h
  exact h

/-- and they are distinct. -/
theorem growingId_inj {i j : Nat} (hi : i < 40000) (hj : j < 40000)
    (h : growingId i = growingId j) : i = j := by
  have hlast := (List.append_inj' h rfl).2
  have hval := congrArg Fin.val (List.cons.inj hlast).1
  rw [val_growing hi, val_growing hj] at hval
  omega

theorem mem_growingIds {start : Nat} {id : Json} (h : id ∈ growingIds start) :
    ∃ i, start ≤ i ∧ i < start + 20000 ∧ id = .str (growingId i) := by
  obtain ⟨i, hi, rfl⟩ := List.mem_map.mp h
  exact ⟨start + i, by omega, by have := List.mem_range.mp hi; omega, rfl⟩

theorem nodup_growingIds {start : Nat} (h : start ≤ 20000) : (growingIds start).Nodup := by
  refine List.Nodup.map_on (fun i hi j hj hij => ?_) List.nodup_range
  have hi := List.mem_range.mp hi
  have hj := List.mem_range.mp hj
  have := growingId_inj (by omega) (by omega) (Json.str.inj hij)
  omega

theorem fromKeys_nodup {ids : List Json} (h : ids.Nodup) : fromKeys ids = ids := by
  induction ids using List.reverseRecOn with
  | nil => rfl
  | append_singleton ids id ih =>
    obtain ⟨hids, -, hdisjoint⟩ := List.nodup_append.mp h
    rw [fromKeys_append, ih hids]
    refine congrArg (ids ++ ·) (List.filter_eq_self.mpr fun x hx => ?_)
    have hx : x ∈ [id] := hx
    exact decide_eq_true fun hmem => hdisjoint x hmem x hx rfl

/-- One window of them fits a checkpoint. -/
theorem idBytes_growingIds {start : Nat} (h : start ≤ 20000) :
    idBytes (growingIds start) = 960000 := by
  have hall : ∀ i ∈ List.range 20000,
      strict.itemSeparator.length + bytes strict (.str (growingId (start + i))) = 48 := by
    intro i hi
    have hi := List.mem_range.mp hi
    rw [(bytes_growingId (show start + i < 40000 by omega)).bytes_eq]
    rfl
  unfold idBytes itemBytes growingIds
  rw [List.map_map]
  refine (congrArg List.sum (List.map_congr_left hall)).trans ?_
  rw [List.map_const', List.length_range, List.sum_replicate_nat]

theorem timeline_growingRoom (ids : List Json) :
    (growingRoom ids).timeline.map Event.sourceId = ids := by
  unfold growingRoom
  rw [List.map_map]
  refine (List.map_congr_left fun id _ => ?_).trans ids.map_id
  rfl

theorem cls_growingRoom {ids : List Json} {event : Event} (h : event ∈ (growingRoom ids).timeline) :
    event.cls = .other := by
  obtain ⟨id, -, rfl⟩ := List.mem_map.mp h
  rfl

theorem replaced_growingRoom (ids : List Json) :
    (growingRoom ids).replaced plainCrypto (py "!r") [] = growingRoom ids := by
  have htimeline : replacedTimeline plainCrypto (py "!r") [] (growingRoom ids).timeline =
      (growingRoom ids).timeline := by
    refine (List.map_congr_left fun event hevent => ?_).trans (List.map_id _)
    rw [cls_growingRoom hevent, if_neg List.not_mem_nil]
    rfl
  unfold SlidingRoom.replaced
  rw [htimeline]

theorem shownIds_growingRoom (ids : List Json) :
    shownIds (growingRoom ids) ⟨false, false, 0, []⟩ = ids := by
  unfold shownIds
  rw [List.filter_eq_self.mpr]
  · refine Eq.trans ?_ (timeline_growingRoom ids)
    change (growingRoom ids).timeline.zipIdx.map (Event.sourceId ∘ Prod.fst) = _
    rw [← List.map_map, List.zipIdx_map_fst]
  · rintro ⟨event, index⟩ hp
    have hevent : event.cls = .other := cls_growingRoom (List.fst_mem_of_mem_zipIdx hp)
    simp [hevent]

theorem proof_growingRoom (s : Session) (ids : List Json) :
    (s.slidingMembership plainEnv (py "!r") (growingRoom ids)).1 = .str joinEvent.id := by
  have hlive : ∀ event ∈ (growingRoom ids).live, isOwnMember plainEnv.userId event = false := by
    intro event hevent
    unfold isOwnMember
    rw [cls_growingRoom (List.mem_of_mem_drop hevent)]
  have hown : ((growingRoom ids).requiredState ++ (growingRoom ids).live).filter
      (isOwnMember plainEnv.userId) = [ownEvent joinEvent none] := by
    have hnone : (growingRoom ids).live.filter (isOwnMember plainEnv.userId) = [] :=
      List.filter_eq_nil_iff.mpr fun event h => by simp [hlive event h]
    rw [List.filter_append, hnone, List.append_nil]
    rfl
  unfold Session.slidingMembership
  dsimp only
  rw [hown, if_neg (by simp [growingRoom, py_inj])]
  rfl

/-- The checkpoint that a window leaves -/
def growingNext (prior : Checkpoint) (ids : List Json) : Checkpoint :=
  nextCheckpoint prior (.str joinEvent.id) (growingRoom ids) ⟨false, false, 0, []⟩

theorem growingNext_eq {prior : Checkpoint} (h : prior.token = none) (ids : List Json) :
    growingNext prior ids = ⟨none, .str joinEvent.id, fromKeys (prior.eventIds ++ ids),
      fromKeys (prior.windowIds ++ ids)⟩ := by
  have htoken : nextToken prior.token (growingRoom ids) ⟨false, false, 0, []⟩ = none := by
    rw [h]
    rfl
  unfold growingNext
  rw [nextCheckpoint_eq, htoken, if_pos h.symm, shownIds_growingRoom]
  unfold shownWindow
  rw [List.drop_zero, timeline_growingRoom]

/-- The room is stored when its next checkpoint is. -/
theorem roomStores_growing {c : Collected} {ids : List Json} :
    RoomStores plainEnv plainCrypto (growingTurn ids).plan ((growingTurn ids).before c)
      (py "!r", growingRoom ids) ↔ (growingNext (c.checkpoint (py "!r")) ids).Stores := by
  have hplan : (growingTurn ids).plan.slidingRoom ((growingTurn ids).before c) (py "!r") =
      ⟨false, false, 0, []⟩ := rfl
  unfold RoomStores
  dsimp only
  rw [hplan, replaced_growingRoom, proof_growingRoom]
  constructor
  · intro h
    exact h (by simp) rfl
  · intro h _ _
    exact h

theorem stores_growing {c : Collected} {ids : List Json} (hdata : c.accountData = [])
    (h : (growingNext (c.checkpoint (py "!r")) ids).Stores) :
    (growingTurn ids).Stores plainEnv c := by
  have hwaiting : (growingTurn ids).waiting c = [] := by
    unfold Turn.waiting
    rw [hdata]
    rfl
  refine ⟨?_, ?_, fun entry hentry => ?_⟩
  · rw [hwaiting]
    exact fun _ hp => (nomatch hp)
  · rw [hwaiting]
    exact Nat.zero_le _
  · obtain rfl := List.mem_singleton.mp hentry
    exact roomStores_growing.mpr h

/-- A commit of the growing room writes its next checkpoint. -/
theorem commit_growing {c c' : Collected} {ids : List Json} (hdata : c.accountData = [])
    (h : (growingTurn ids).commit plainEnv c = .ok c') :
    c'.accountData = [] ∧ c'.checkpoint (py "!r") = growingNext (c.checkpoint (py "!r")) ids := by
  unfold Turn.commit at h
  cases hrun : commitSliding plainEnv plainCrypto (growingTurn ids).plan
      ((growingTurn ids).before c) (growingTurn ids).response with
  | error e =>
    rw [show commitSliding plainEnv (growingTurn ids).crypto _ _ _ = _ from hrun] at h
    exact (nomatch h)
  | ok w =>
    rw [show commitSliding plainEnv (growingTurn ids).crypto _ _ _ = _ from hrun] at h
    cases h
    obtain ⟨n, -, hrun⟩ := bind_eq_ok.mp hrun
    split at hrun
    · exact (nomatch hrun)
    · obtain ⟨w₁, hw₁, hrun⟩ := bind_eq_ok.mp hrun
      cases hrun
      refine ⟨(commitSlidingRoom_stored hw₁).1.trans ?_, ?_⟩
      · change (growingTurn ids).waiting c = []
        unfold Turn.waiting
        rw [hdata]
        rfl
      · have hkeeps := commitSlidingRoom_keeps hw₁
        change (Session.slidingMembership plainEnv _ (py "!r")
          ((growingRoom ids).replaced plainCrypto (py "!r") [])).1 ≠ .null → _ → _ =
            nextCheckpoint (c.checkpoint (py "!r")) (Session.slidingMembership plainEnv _ (py "!r")
              ((growingRoom ids).replaced plainCrypto (py "!r") [])).1
                ((growingRoom ids).replaced plainCrypto (py "!r") []) ⟨false, false, 0, []⟩ at hkeeps
        rw [replaced_growingRoom, proof_growingRoom] at hkeeps
        exact hkeeps (by simp) rfl

theorem takes_noToken : Takes strict (optional .str none) 4 := ⟨_, rfl, _, rfl, rfl⟩

theorem takes_growingProof : Takes strict (.str joinEvent.id) 4 := ⟨_, rfl, _, rfl, rfl⟩

/-- Distinct ids that take less than half of the bytes of a checkpoint -/
structure Window (ids : List Json) : Prop where
  nodup : ids.Nodup
  written : ∀ id ∈ ids, Writes strict id
  bytes : idBytes ids = 960000

theorem window_growingIds {start : Nat} (h : start ≤ 20000) : Window (growingIds start) := by
  refine ⟨nodup_growingIds h, fun id hid => ?_, idBytes_growingIds h⟩
  obtain ⟨i, -, hi, rfl⟩ := mem_growingIds hid
  exact ⟨47, bytes_growingId (by omega)⟩

/-- A window fits in a checkpoint without ids. -/
theorem stores_growingNext {prior : Checkpoint} (htoken : prior.token = none)
    (hevents : prior.eventIds = []) (hwindow : prior.windowIds = []) {ids : List Json}
    (h : Window ids) : (growingNext prior ids).Stores := by
  rw [growingNext_eq htoken, hevents, hwindow, List.nil_append, fromKeys_nodup h.nodup]
  refine ⟨⟨⟨4, takes_noToken⟩, ⟨4, takes_growingProof⟩, h.written, h.written⟩, ?_⟩
  unfold Checkpoint.size Checkpoint.sizeWith Checkpoint.bound
  dsimp only
  rw [h.bytes, takes_noToken.bytes_eq, takes_growingProof.bytes_eq]
  decide

/-- Of two such windows the second one is refused because of the first one. -/
theorem refused_of_disjoint {ids ids' : List Json} (h : Window ids) (h' : Window ids')
    (hdisjoint : ids'.Disjoint ids) : ¬ Along (sourceStep plainEnv)
      (SourceAction.Unaccumulated plainEnv) .empty
      [.commit (growingTurn ids), .commit (growingTurn ids')] := by
  rintro ⟨-, hsecond, -⟩
  obtain ⟨c, hcommit⟩ := (Turn.commit_isOk_iff plainEnv (growingTurn ids) .empty).mpr
    (stores_growing rfl (stores_growingNext rfl rfl rfl h))
  have hstored : c.Stored := Turn.stored_commit stored_empty hcommit
  obtain ⟨hdata, hnext⟩ := commit_growing rfl hcommit
  have hc : sourceStep plainEnv .empty (.commit (growingTurn ids)) = c := by
    unfold sourceStep
    dsimp only
    rw [hcommit]
  rw [hc] at hsecond
  have hheld : c.checkpoint (py "!r") = ⟨none, .str joinEvent.id, ids, ids⟩ := by
    rw [hnext, growingNext_eq rfl]
    change (⟨_, _, fromKeys ids, fromKeys ids⟩ : Checkpoint) = _
    rw [fromKeys_nodup h.nodup]
  have hbare : (growingTurn ids').Stores plainEnv c.bare := by
    refine stores_growing rfl ?_
    rw [Collected.checkpoint_bare, hheld]
    exact stores_growingNext rfl rfl rfl h'
  have hfits := (Turn.stores_iff hstored hbare).mpr
    ((Turn.unaccumulated_iff hstored).mp hsecond hbare)
  have hroom := roomStores_growing.mp (hfits.rooms _ (List.mem_singleton.mpr rfl))
  rw [hheld, growingNext_eq rfl] at hroom
  have hsize := hroom.2
  unfold Checkpoint.size at hsize
  dsimp only at hsize
  have hnew : (fromKeys ids').filter (· ∉ ids) = ids' := by
    rw [fromKeys_nodup h'.nodup]
    exact List.filter_eq_self.mpr fun id hid => decide_eq_true (hdisjoint hid)
  rw [ledger_grows, ledgerBytes, hnew, fromKeys_nodup h.nodup, h.bytes, h'.bytes] at hsize
  unfold Checkpoint.sizeWith Checkpoint.bound at hsize
  omega

/-- Two windows of 20,000 events each -/
def growingActions : List SourceAction :=
  [.commit (growingTurn (growingIds 0)), .commit (growingTurn (growingIds 20000))]

/-- The second window is refused for the first one. -/
theorem growing_refused :
    ¬ Along (sourceStep plainEnv) (SourceAction.Unaccumulated plainEnv) .empty growingActions := by
  refine refused_of_disjoint (window_growingIds (Nat.zero_le _)) (window_growingIds (Nat.le_refl _)) ?_
  intro id hid hheld
  obtain ⟨i, hi, hi', rfl⟩ := mem_growingIds hid
  obtain ⟨j, -, hj, hij⟩ := mem_growingIds hheld
  have := growingId_inj (by omega) (by omega) (Json.str.inj hij)
  omega

end Nio.Durable
