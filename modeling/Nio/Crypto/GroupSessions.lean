import Nio.Lib.Run
import Nio.Lib.Table
import Nio.Py.Dict

/-!
# Inbound group sessions

`Olm` keeps the sessions it decrypts room messages with in `GroupSessionStore`, by room, sender key
and session id, and writes each to `MatrixStore`, where the table has one row for each session id.

* `reload_iff` — when the sessions that are loaded are those that the process held
-/

namespace Nio.Crypto

open Nio.Py (Str py dictGet? dictSet dictErase dictGet?_dictSet)
open Nio.Lib

variable {ρ : Type}

/-- What `vodozemac` computes for an inbound group session -/
structure Vodozemac (ρ : Type) where
  sessionId : ρ → Str
  /-- `InboundGroupSession(SessionKey(key))`, `none` when the key does not decode -/
  newSession : Str → Option ρ
  importSession : Str → Option ρ
  pickle : ρ → List UInt8
  fromPickle : List UInt8 → ρ
  fromPickle_pickle : ∀ r, fromPickle (pickle r) = r

structure InboundGroupSession (ρ : Type) where
  session : ρ
  ed25519 : Str
  senderKey : Str
  roomId : Str
  forwardingChain : List Str
  deriving DecidableEq, Repr

def InboundGroupSession.id (lib : Vodozemac ρ) (s : InboundGroupSession ρ) : Str :=
  lib.sessionId s.session

def InboundGroupSession.key (lib : Vodozemac ρ) (s : InboundGroupSession ρ) : Str × Str × Str :=
  (s.roomId, s.senderKey, s.id lib)

/-! ## `GroupSessionStore` -/

/-- A reference to a session: the class has no `__eq__`, so two references are equal when they are
to one object. -/
structure Ref (ρ : Type) where
  object : Nat
  session : InboundGroupSession ρ

def Ref.key (lib : Vodozemac ρ) (x : Ref ρ) : Str × Str × Str := x.session.key lib

/-- The nested dictionaries of the store, by room, sender key and session id -/
abbrev GroupSessionStore (ρ : Type) := List (Ref ρ)

namespace GroupSessionStore

def add (lib : Vodozemac ρ) (s : GroupSessionStore ρ) (x : Ref ρ) : GroupSessionStore ρ × Bool :=
  if s.any fun y => y.session.roomId = x.session.roomId ∧ y.session.senderKey = x.session.senderKey ∧
      y.object = x.object then (s, false)
  else (upsert (Ref.key lib) x s, true)

def get (lib : Vodozemac ρ) (s : GroupSessionStore ρ) (roomId senderKey sessionId : Str) :
    Option (InboundGroupSession ρ) :=
  (lookup (Ref.key lib) (roomId, senderKey, sessionId) s).map Ref.session

end GroupSessionStore

/-! ## `MatrixStore` -/

structure MegolmInboundSessions where
  senderKey : Str
  account : Nat
  fpKey : Str
  roomId : Str
  session : List UInt8
  /-- The primary key -/
  sessionId : Str
  deriving DecidableEq, Repr

/-- `UPDATE ... SET session` -/
def MegolmInboundSessions.setSession (session : List UInt8) (row : MegolmInboundSessions) :
    MegolmInboundSessions :=
  { row with session }

theorem sessionId_setSession (session : List UInt8) (row : MegolmInboundSessions) :
    (row.setSession session).sessionId = row.sessionId := rfl

structure ForwardedChains where
  senderKey : Str
  session : Str
  deriving DecidableEq, Repr

structure MatrixStore where
  account : Nat
  megolmInboundSessions : List MegolmInboundSessions
  forwardedChains : List ForwardedChains

namespace MatrixStore

def saveInboundGroupSession (lib : Vodozemac ρ) (m : MatrixStore) (s : InboundGroupSession ρ) :
    MatrixStore :=
  let row : MegolmInboundSessions :=
    ⟨s.senderKey, m.account, s.ed25519, s.roomId, lib.pickle s.session, s.id lib⟩
  let rows := insertIgnore MegolmInboundSessions.sessionId row m.megolmInboundSessions
  { m with
    megolmInboundSessions := updateWhere MegolmInboundSessions.sessionId (s.id lib)
      (MegolmInboundSessions.setSession (lib.pickle s.session)) rows
    forwardedChains := s.forwardingChain.foldl
      (fun rows chain => replace id (⟨chain, s.id lib⟩ : ForwardedChains) rows) m.forwardedChains }

/-- `InboundGroupSession.from_pickle` of a row, with the chain that stands for it -/
def fromRow (lib : Vodozemac ρ) (m : MatrixStore) (row : MegolmInboundSessions) :
    InboundGroupSession ρ :=
  { session := lib.fromPickle row.session
    ed25519 := row.fpKey
    senderKey := row.senderKey
    roomId := row.roomId
    forwardingChain :=
      (m.forwardedChains.filter fun c => c.session = row.sessionId).map ForwardedChains.senderKey }

/-- The rows are read in the order in which they were inserted; each gives a new object. -/
def loadInboundGroupSessions (lib : Vodozemac ρ) (m : MatrixStore) : GroupSessionStore ρ :=
  ((m.megolmInboundSessions.filter fun row => row.account = m.account).foldl
    (fun (p : GroupSessionStore ρ × Nat) row =>
      ((p.1.add lib ⟨p.2, m.fromRow lib row⟩).1, p.2 + 1)) ([], 0)).1

end MatrixStore

/-! ## `Olm` -/

structure OutgoingKeyRequest where
  requestId : Str
  sessionId : Str
  roomId : Str
  algorithm : Str
  deriving DecidableEq, Repr

/-- The device that `device_from_sender_key` finds -/
structure SenderDevice where
  userId : Str
  verified : Bool
  deriving DecidableEq, Repr

/-- What is read of a decrypted `m.room_key` -/
structure RoomKey where
  algorithm : Str
  /-- `payload["keys"].get("ed25519")` -/
  fpKey : Option Str
  roomId : Str
  sessionId : Str
  sessionKey : Str

/-- What is read of a decrypted `m.forwarded_room_key` -/
structure ForwardedRoomKey where
  algorithm : Str
  roomId : Str
  sessionId : Str
  sessionKey : Str
  senderKey : Str
  signingKey : Str
  chain : List Str

/-- A session of a key file -/
structure ExportedKey where
  algorithm : Str
  sessionKey : Str
  ed25519 : Str
  senderKey : Str
  roomId : Str
  chain : List Str

structure GroupSessions (ρ : Type) where
  userId : Str
  curve25519 : Str
  ed25519 : Str
  inboundGroupStore : GroupSessionStore ρ
  outgoingKeyRequests : List (Str × OutgoingKeyRequest)
  store : MatrixStore
  /-- The number of the next object -/
  objects : Nat

namespace GroupSessions

def fresh (userId curve25519 ed25519 : Str) (account : Nat) : GroupSessions ρ :=
  ⟨userId, curve25519, ed25519, [], [], ⟨account, [], []⟩, 0⟩

def megolmAlgorithm : Str := py "m.megolm.v1.aes-sha2"

/-- The session, new, is added, and then saved: always, or when it was added. -/
def keep (lib : Vodozemac ρ) (always : Bool) (o : GroupSessions ρ) (s : InboundGroupSession ρ) :
    GroupSessions ρ :=
  let (store, added) := o.inboundGroupStore.add lib ⟨o.objects, s⟩
  let o := { o with inboundGroupStore := store, objects := o.objects + 1 }
  if always || added then { o with store := o.store.saveInboundGroupSession lib s } else o

/-- The session that `create_group_session` makes of its arguments -/
def newGroupSession (lib : Vodozemac ρ) (senderKey senderFpKey roomId sessionId sessionKey : Str) :
    Option (InboundGroupSession ρ) :=
  match lib.newSession sessionKey with
  | none => none
  | some r => if lib.sessionId r ≠ sessionId then none else some ⟨r, senderFpKey, senderKey, roomId, []⟩

def createGroupSession (lib : Vodozemac ρ) (o : GroupSessions ρ)
    (senderKey senderFpKey roomId sessionId sessionKey : Str) : GroupSessions ρ :=
  match newGroupSession lib senderKey senderFpKey roomId sessionId sessionKey with
  | none => o
  | some s => o.keep lib true s

/-- The key with which `_handle_room_key_event` goes on: of a known algorithm and not empty -/
def acceptedFpKey (e : RoomKey) : Option Str :=
  if e.algorithm ≠ megolmAlgorithm then none
  else
    match e.fpKey with
    | none => none
    | some k => if k = [] then none else some k

def handleRoomKeyEvent (lib : Vodozemac ρ) (o : GroupSessions ρ) (senderKey : Str) (e : RoomKey) :
    GroupSessions ρ :=
  match acceptedFpKey e with
  | none => o
  | some fpKey => o.createGroupSession lib senderKey fpKey e.roomId e.sessionId e.sessionKey

def createOutboundGroupSession (lib : Vodozemac ρ) (o : GroupSessions ρ)
    (roomId sessionId sessionKey : Str) : GroupSessions ρ :=
  o.createGroupSession lib o.curve25519 o.ed25519 roomId sessionId sessionKey

def shouldAcceptForward (o : GroupSessions ρ) (e : ForwardedRoomKey) (device : Option SenderDevice) :
    Bool :=
  e.algorithm = megolmAlgorithm ∧
  (∃ r ∈ dictGet? o.outgoingKeyRequests e.sessionId,
    e.algorithm = r.algorithm ∧ e.roomId = r.roomId ∧ e.sessionId = r.sessionId) ∧
  ∃ d ∈ device, d.verified ∧ d.userId = o.userId

/-- The session that an accepted forward imports; its chain ends with the key of its sender. -/
def forwardedSession (lib : Vodozemac ρ) (e : ForwardedRoomKey) : Option (InboundGroupSession ρ) :=
  (lib.importSession e.sessionKey).map fun r =>
    ⟨r, e.signingKey, e.senderKey, e.roomId, e.chain ++ [e.senderKey]⟩

def handleForwardedRoomKeyEvent (lib : Vodozemac ρ) (o : GroupSessions ρ) (e : ForwardedRoomKey)
    (device : Option SenderDevice) : GroupSessions ρ :=
  if o.shouldAcceptForward e device then
    match forwardedSession lib e with
    | none => o
    | some s =>
      let o := o.keep lib false s
      { o with outgoingKeyRequests := dictErase o.outgoingKeyRequests e.sessionId }
  else o

/-- `import_keys_static`, for a file that validates -/
def importKeysStatic (lib : Vodozemac ρ) (entries : List ExportedKey) :
    List (InboundGroupSession ρ) :=
  (entries.filter fun e => e.algorithm = megolmAlgorithm).filterMap fun e =>
    (lib.importSession e.sessionKey).map fun r =>
      ⟨r, e.ed25519, e.senderKey, e.roomId, e.chain⟩

def importKeys (lib : Vodozemac ρ) (o : GroupSessions ρ) (entries : List ExportedKey) :
    GroupSessions ρ :=
  (importKeysStatic lib entries).foldl (keep lib false) o

/-- `handle_response` of a `RoomKeyRequestResponse`, and a room key request that was sent -/
def keyRequestSent (o : GroupSessions ρ) (r : OutgoingKeyRequest) : GroupSessions ρ :=
  { o with outgoingKeyRequests := dictSet o.outgoingKeyRequests r.requestId r }

end GroupSessions

/-! ## Runs -/

/-- What adds a session, and the key requests that a forward answers -/
inductive GroupSessionEvent where
  | roomKey (senderKey : Str) (e : RoomKey)
  | forwardedRoomKey (e : ForwardedRoomKey) (device : Option SenderDevice)
  | outbound (roomId sessionId sessionKey : Str)
  | importKeys (entries : List ExportedKey)
  | keyRequest (r : OutgoingKeyRequest)

namespace GroupSessions

def step (lib : Vodozemac ρ) (o : GroupSessions ρ) : GroupSessionEvent → GroupSessions ρ
  | .roomKey senderKey e => o.handleRoomKeyEvent lib senderKey e
  | .forwardedRoomKey e device => o.handleForwardedRoomKeyEvent lib e device
  | .outbound roomId sessionId sessionKey =>
    o.createOutboundGroupSession lib roomId sessionId sessionKey
  | .importKeys entries => o.importKeys lib entries
  | .keyRequest r => o.keyRequestSent r

/-- The sessions that an event brings, in order -/
def brought (lib : Vodozemac ρ) (o : GroupSessions ρ) :
    GroupSessionEvent → List (InboundGroupSession ρ)
  | .roomKey senderKey e =>
    ((acceptedFpKey e).bind fun fpKey =>
      newGroupSession lib senderKey fpKey e.roomId e.sessionId e.sessionKey).toList
  | .forwardedRoomKey e device =>
    if o.shouldAcceptForward e device then (forwardedSession lib e).toList else []
  | .outbound roomId sessionId sessionKey =>
    (newGroupSession lib o.curve25519 o.ed25519 roomId sessionId sessionKey).toList
  | .importKeys entries => importKeysStatic lib entries
  | .keyRequest _ => []

/-- The sessions that the events of a run bring -/
def broughtBy (lib : Vodozemac ρ) : GroupSessions ρ → List GroupSessionEvent →
    List (InboundGroupSession ρ)
  | _, [] => []
  | o, e :: es => o.brought lib e ++ broughtBy lib (o.step lib e) es

end GroupSessions

/-- The two stores hold the same sessions under the same entries. -/
def GroupSessionStore.Same (lib : Vodozemac ρ) (s t : GroupSessionStore ρ) : Prop :=
  ∀ roomId senderKey sessionId,
    s.get lib roomId senderKey sessionId = t.get lib roomId senderKey sessionId

/-- What the sessions that arrive under one session id must satisfy -/
def Consistent (sessions : List (InboundGroupSession ρ)) : Prop :=
  ∀ first ∈ sessions.head?, ∀ last ∈ sessions.getLast?,
    (∀ s ∈ sessions, s.roomId = first.roomId ∧ s.senderKey = first.senderKey) ∧
    last.ed25519 = first.ed25519 ∧
    last.forwardingChain.Nodup ∧ ∀ s ∈ sessions, s.forwardingChain ⊆ last.forwardingChain

/-! ## What the two stores hold -/

variable (lib : Vodozemac ρ)

/-- The row of a session id to which the sessions came -/
def rowOf (account : Nat) (id : Str) (sessions : List (InboundGroupSession ρ)) :
    Option MegolmInboundSessions :=
  match sessions.head?, sessions.getLast? with
  | some first, some last =>
    some ⟨first.senderKey, account, first.ed25519, first.roomId, lib.pickle last.session, id⟩
  | _, _ => none

def chainRows (s : InboundGroupSession ρ) : List ForwardedChains :=
  s.forwardingChain.map fun chain => ⟨chain, s.id lib⟩

/-- Both stores after the sessions were added one by one -/
structure Holds (o : GroupSessions ρ) (sessions : List (InboundGroupSession ρ)) : Prop where
  objects : ∀ x ∈ o.inboundGroupStore, x.object < o.objects
  memory : ∀ k, (lookup (Ref.key lib) k o.inboundGroupStore).map Ref.session =
    (sessions.filter fun s => s.key lib = k).getLast?
  accounts : ∀ row ∈ o.store.megolmInboundSessions, row.account = o.store.account
  ids : (o.store.megolmInboundSessions.map MegolmInboundSessions.sessionId).Nodup
  rows : ∀ id, lookup MegolmInboundSessions.sessionId id o.store.megolmInboundSessions =
    rowOf lib o.store.account id (sessions.filter fun s => s.id lib = id)
  chains : o.store.forwardedChains = (sessions.flatMap (chainRows lib)).dedup

namespace GroupSessions

variable {lib} {o : GroupSessions ρ} {sessions : List (InboundGroupSession ρ)}

theorem holds_fresh (userId curve25519 ed25519 : Str) (account : Nat) :
    Holds lib (fresh userId curve25519 ed25519 account : GroupSessions ρ) [] :=
  ⟨by simp [fresh], by simp [fresh], by simp [fresh], by simp [fresh], by simp [fresh, rowOf],
    by simp [fresh]⟩

/-- A new object is always added. -/
theorem add_new (store : GroupSessionStore ρ) {x : Ref ρ} (h : ∀ y ∈ store, y.object < x.object) :
    store.add lib x = (upsert (Ref.key lib) x store, true) := by
  unfold GroupSessionStore.add
  rw [if_neg]
  intro hany
  obtain ⟨y, hy, hxy⟩ := List.any_eq_true.mp hany
  have hlt := h y hy
  simp only [decide_eq_true_eq] at hxy
  omega

/-- Keeping a session adds it to the store and saves it. -/
theorem keep_eq (always : Bool) (h : Holds lib o sessions) (s : InboundGroupSession ρ) :
    o.keep lib always s = { o with
      inboundGroupStore := upsert (Ref.key lib) ⟨o.objects, s⟩ o.inboundGroupStore
      objects := o.objects + 1
      store := o.store.saveInboundGroupSession lib s } := by
  unfold keep
  rw [add_new o.inboundGroupStore h.objects]
  simp

theorem filter_concat (p : InboundGroupSession ρ → Bool) (xs : List (InboundGroupSession ρ))
    (s : InboundGroupSession ρ) :
    (xs ++ [s]).filter p = if p s then xs.filter p ++ [s] else xs.filter p := by
  rw [List.filter_append]
  by_cases h : p s
  · rw [if_pos h, List.filter_cons_of_pos h, List.filter_nil]
  · rw [if_neg h, List.filter_cons_of_neg h, List.filter_nil, List.append_nil]

/-- The row of a session has the keys of the first and the pickle of the last that was kept. -/
theorem rowOf_concat (account : Nat) (id : Str) (xs : List (InboundGroupSession ρ))
    (s : InboundGroupSession ρ) :
    rowOf lib account id (xs ++ [s]) =
      some (match rowOf lib account id xs with
        | none => ⟨s.senderKey, account, s.ed25519, s.roomId, lib.pickle s.session, id⟩
        | some row => row.setSession (lib.pickle s.session)) := by
  cases xs with
  | nil => rfl
  | cons x xs =>
    obtain ⟨last, hlast⟩ : ∃ last, (x :: xs).getLast? = some last :=
      Option.isSome_iff_exists.mp (by simp [List.getLast?_isSome])
    simp only [rowOf, hlast, List.head?_cons, List.cons_append]
    rw [← List.cons_append, List.getLast?_concat]
    rfl

/-- A saved session is found under its id. -/
theorem lookup_saved (m : MatrixStore) (s : InboundGroupSession ρ) (id : Str) :
    lookup MegolmInboundSessions.sessionId id
        (m.saveInboundGroupSession lib s).megolmInboundSessions =
      if id = s.id lib then
        some (match lookup MegolmInboundSessions.sessionId id m.megolmInboundSessions with
          | none => ⟨s.senderKey, m.account, s.ed25519, s.roomId, lib.pickle s.session, id⟩
          | some row => row.setSession (lib.pickle s.session))
      else lookup MegolmInboundSessions.sessionId id m.megolmInboundSessions := by
  unfold MatrixStore.saveInboundGroupSession
  dsimp only
  rw [lookup_updateWhere _ _ (sessionId_setSession _), lookup_insertIgnore]
  by_cases h : id = s.id lib
  · subst h
    rw [if_pos rfl, if_pos rfl, if_pos rfl]
    cases lookup MegolmInboundSessions.sessionId (s.id lib) m.megolmInboundSessions with
    | none => rfl
    | some row => rfl
  · rw [if_neg h, if_neg h, if_neg (Ne.symm h), Option.or_none]

theorem mem_saved {m : MatrixStore} {s : InboundGroupSession ρ} {row : MegolmInboundSessions}
    (h : row ∈ (m.saveInboundGroupSession lib s).megolmInboundSessions) :
    row.account = m.account ∨ ∃ r ∈ m.megolmInboundSessions, row.account = r.account := by
  unfold MatrixStore.saveInboundGroupSession updateWhere insertIgnore at h
  obtain ⟨r, hr, rfl⟩ := List.mem_map.mp h
  have haccount : ∀ r : MegolmInboundSessions, (if r.sessionId = s.id lib then
      r.setSession (lib.pickle s.session) else r).account = r.account := by
    intro r
    split <;> rfl
  rw [haccount]
  split at hr
  · exact Or.inr ⟨r, hr, rfl⟩
  · rcases List.mem_append.mp hr with hr | hr
    · exact Or.inr ⟨r, hr, rfl⟩
    · exact Or.inl (by rw [List.mem_singleton.mp hr])

/-- What is kept is held, -/
theorem holds_keep (always : Bool) (h : Holds lib o sessions) (s : InboundGroupSession ρ) :
    Holds lib (o.keep lib always s) (sessions ++ [s]) := by
  rw [keep_eq always h]
  refine ⟨?_, ?_, ?_, ?_, ?_, ?_⟩
  · intro x hx
    rcases mem_upsert hx with rfl | hx
    · exact Nat.lt_succ_self _
    · exact Nat.lt_succ_of_lt (h.objects x hx)
  · intro k
    rw [lookup_upsert, filter_concat]
    by_cases hk : k = s.key lib
    · subst hk
      rw [if_pos (decide_eq_true rfl), List.getLast?_concat]
      exact congrArg _ (if_pos rfl)
    · have hkey : ¬ decide (s.key lib = k) = true := by simpa using Ne.symm hk
      rw [if_neg hkey, ← h.memory]
      exact congrArg _ (if_neg hk)
  · intro row hrow
    rcases mem_saved hrow with hr | ⟨r, hr, heq⟩
    · exact hr
    · exact heq.trans (h.accounts r hr)
  · unfold MatrixStore.saveInboundGroupSession
    dsimp only
    rw [map_key_updateWhere (sessionId_setSession _)]
    exact nodup_insertIgnore h.ids
  · intro id
    rw [lookup_saved, filter_concat, h.rows]
    by_cases hid : id = s.id lib
    · subst hid
      rw [if_pos rfl, if_pos (decide_eq_true rfl), rowOf_concat]
      rfl
    · rw [if_neg hid, if_neg (by simpa using Ne.symm hid)]
      rfl
  · have hfold : s.forwardingChain.foldl
        (fun rows chain => replace id (⟨chain, s.id lib⟩ : ForwardedChains) rows)
        o.store.forwardedChains =
        (chainRows lib s).foldl (fun rows c => replace id c rows) o.store.forwardedChains := by
      rw [chainRows, List.foldl_map]
    show s.forwardingChain.foldl _ o.store.forwardedChains = _
    rw [hfold, foldl_replace _ _ (h.chains ▸ List.nodup_dedup _), h.chains, dedup_dedup_append,
      List.flatMap_append, List.flatMap_singleton]

theorem holds_foldl (always : Bool) (h : Holds lib o sessions)
    (xs : List (InboundGroupSession ρ)) :
    Holds lib (xs.foldl (keep lib always) o) (sessions ++ xs) := by
  induction xs generalizing o sessions with
  | nil => rwa [List.append_nil]
  | cons x xs ih =>
    rw [List.foldl_cons, List.append_cons]
    exact ih (holds_keep always h x)

/-- The key requests play no part in what the stores hold. -/
theorem holds_requests (h : Holds lib o sessions) (requests : List (Str × OutgoingKeyRequest)) :
    Holds lib { o with outgoingKeyRequests := requests } sessions :=
  ⟨h.objects, h.memory, h.accounts, h.ids, h.rows, h.chains⟩

theorem holds_create (h : Holds lib o sessions) (senderKey fpKey roomId sessionId sessionKey : Str) :
    Holds lib (o.createGroupSession lib senderKey fpKey roomId sessionId sessionKey)
      (sessions ++ (newGroupSession lib senderKey fpKey roomId sessionId sessionKey).toList) := by
  unfold createGroupSession
  cases newGroupSession lib senderKey fpKey roomId sessionId sessionKey with
  | none => rwa [Option.toList_none, List.append_nil]
  | some s => exact holds_keep true h s

theorem holds_roomKey (h : Holds lib o sessions) (senderKey : Str) (e : RoomKey) :
    Holds lib (o.handleRoomKeyEvent lib senderKey e)
      (sessions ++ o.brought lib (.roomKey senderKey e)) := by
  unfold handleRoomKeyEvent brought
  dsimp only
  cases acceptedFpKey e with
  | none => rwa [Option.bind_none, Option.toList_none, List.append_nil]
  | some fpKey => exact holds_create h senderKey fpKey e.roomId e.sessionId e.sessionKey

theorem holds_forwardedRoomKey (h : Holds lib o sessions) (e : ForwardedRoomKey)
    (device : Option SenderDevice) :
    Holds lib (o.handleForwardedRoomKeyEvent lib e device)
      (sessions ++ o.brought lib (.forwardedRoomKey e device)) := by
  unfold handleForwardedRoomKeyEvent brought
  dsimp only
  by_cases ha : o.shouldAcceptForward e device
  · rw [if_pos ha, if_pos ha]
    cases forwardedSession lib e with
    | none => rwa [Option.toList_none, List.append_nil]
    | some s => exact holds_requests (holds_keep false h s) _
  · rwa [if_neg ha, if_neg ha, List.append_nil]

/-- every event keeps what is held, -/
theorem holds_step (h : Holds lib o sessions) (e : GroupSessionEvent) :
    Holds lib (o.step lib e) (sessions ++ o.brought lib e) := by
  cases e with
  | roomKey senderKey e => exact holds_roomKey h senderKey e
  | forwardedRoomKey e device => exact holds_forwardedRoomKey h e device
  | outbound roomId sessionId sessionKey => exact holds_create h _ _ _ _ _
  | importKeys entries => exact holds_foldl false h _
  | keyRequest r =>
    rw [brought, List.append_nil]
    exact holds_requests h _

/-- and so does every run. -/
theorem holds_run (h : Holds lib o sessions) (es : List GroupSessionEvent) :
    Holds lib (run (step lib) o es) (sessions ++ broughtBy lib o es) := by
  induction es generalizing o sessions with
  | nil => rw [broughtBy, List.append_nil]; exact h
  | cons e es ih =>
    rw [broughtBy, ← List.append_assoc]
    exact ih (holds_step h e)

end GroupSessions

/-! ## What is loaded -/

section Load

variable {lib} {o : GroupSessions ρ} {sessions : List (InboundGroupSession ρ)}

/-- New objects that are added one after the other; the last of each key stays. -/
theorem foldl_add (xs : List (InboundGroupSession ρ)) (store : GroupSessionStore ρ) (n : Nat)
    (h : ∀ y ∈ store, y.object < n) (k : Str × Str × Str) :
    (lookup (Ref.key lib) k (xs.foldl (fun (p : GroupSessionStore ρ × Nat) s =>
        ((p.1.add lib ⟨p.2, s⟩).1, p.2 + 1)) (store, n)).1).map Ref.session =
      ((xs.filter fun s => s.key lib = k).getLast?).or
        ((lookup (Ref.key lib) k store).map Ref.session) := by
  induction xs generalizing store n with
  | nil => simp
  | cons s xs ih =>
    have hadd : store.add lib ⟨n, s⟩ = (upsert (Ref.key lib) ⟨n, s⟩ store, true) :=
      GroupSessions.add_new store h
    rw [List.foldl_cons, hadd, ih]
    · rw [lookup_upsert]
      by_cases hk : k = s.key lib
      · subst hk
        rw [List.filter_cons, if_pos (decide_eq_true rfl), List.getLast?_cons]
        have hself : (if s.key lib = Ref.key lib ⟨n, s⟩ then some (⟨n, s⟩ : Ref ρ)
            else lookup (Ref.key lib) (s.key lib) store) = some ⟨n, s⟩ := if_pos rfl
        rw [hself]
        cases (xs.filter fun x => x.key lib = s.key lib).getLast? <;> rfl
      · have hne : (if k = Ref.key lib ⟨n, s⟩ then some (⟨n, s⟩ : Ref ρ)
            else lookup (Ref.key lib) k store) = lookup (Ref.key lib) k store := if_neg hk
        have hskip : ¬ decide (s.key lib = k) = true := by simpa using Ne.symm hk
        rw [hne, List.filter_cons, if_neg hskip]
    · intro y hy
      rcases mem_upsert hy with rfl | hy
      · exact Nat.lt_succ_self _
      · exact Nat.lt_succ_of_lt (h y hy)

theorem rowOf_eq_some {account : Nat} {id : Str} {row : MegolmInboundSessions}
    (h : rowOf lib account id sessions = some row) :
    ∃ first ∈ sessions.head?, ∃ last ∈ sessions.getLast?,
      row = ⟨first.senderKey, account, first.ed25519, first.roomId, lib.pickle last.session, id⟩ := by
  unfold rowOf at h
  split at h
  · next first last hf hl => exact ⟨first, hf, last, hl, (Option.some.inj h).symm⟩
  · cases h

/-- The session of a row has the id under which the row is found. -/
theorem id_fromRow (h : Holds lib o sessions) {row : MegolmInboundSessions}
    (hrow : row ∈ o.store.megolmInboundSessions) :
    (o.store.fromRow lib row).id lib = row.sessionId := by
  have hlookup := lookup_of_mem h.ids hrow
  rw [h.rows] at hlookup
  obtain ⟨first, -, last, hlast, heq⟩ := rowOf_eq_some hlookup
  have hid : last.id lib = row.sessionId := by
    simpa using (List.mem_filter.mp (List.mem_of_getLast? hlast)).2
  rw [← hid]
  unfold MatrixStore.fromRow InboundGroupSession.id
  rw [heq]
  exact congrArg lib.sessionId (lib.fromPickle_pickle last.session)

/-- The chain rows of a session are those of all that had its id. -/
theorem filter_chainRows (id : Str) (xs : List (InboundGroupSession ρ)) :
    (xs.flatMap (chainRows lib)).filter (fun c => c.session = id) =
      ((xs.filter fun s => s.id lib = id).flatMap InboundGroupSession.forwardingChain).map
        fun chain => (⟨chain, id⟩ : ForwardedChains) := by
  induction xs with
  | nil => rfl
  | cons s xs ih =>
    rw [List.flatMap_cons, List.filter_append, ih]
    by_cases hs : s.id lib = id
    · have hall : (chainRows lib s).filter (fun c => c.session = id) = chainRows lib s := by
        refine List.filter_eq_self.mpr fun c hc => ?_
        obtain ⟨chain, -, rfl⟩ := List.mem_map.mp hc
        exact decide_eq_true hs
      rw [hall, List.filter_cons, if_pos (decide_eq_true hs), List.flatMap_cons, List.map_append,
        chainRows, hs]
    · have hnone : (chainRows lib s).filter (fun c => c.session = id) = [] := by
        refine List.filter_eq_nil_iff.mpr fun c hc => ?_
        obtain ⟨chain, -, rfl⟩ := List.mem_map.mp hc
        simpa using hs
      rw [hnone, List.nil_append, List.filter_cons, if_neg (by simpa using hs)]

/-- The rows of one session id, which stand in the order of their last insertion -/
theorem chain_loaded (h : Holds lib o sessions) (id : Str) :
    (o.store.forwardedChains.filter fun c => c.session = id).map ForwardedChains.senderKey =
      ((sessions.filter fun s => s.id lib = id).flatMap
        InboundGroupSession.forwardingChain).dedup := by
  have hfilter : (sessions.flatMap (chainRows lib)).filter (fun c => c.session = id) =
      ((sessions.filter fun s => s.id lib = id).flatMap
        InboundGroupSession.forwardingChain).map fun chain => (⟨chain, id⟩ : ForwardedChains) := by
    exact filter_chainRows id sessions
  have hinj : Function.Injective fun chain => (⟨chain, id⟩ : ForwardedChains) := by
    intro a b hab
    exact congrArg ForwardedChains.senderKey hab
  rw [h.chains, filter_dedup, hfilter, List.dedup_map_of_injective hinj, List.map_map]
  exact List.map_id _

/-- What `get` finds in the store that is loaded -/
theorem get_loaded (h : Holds lib o sessions) (roomId senderKey id : Str) :
    (o.store.loadInboundGroupSessions lib).get lib roomId senderKey id =
      ((rowOf lib o.store.account id (sessions.filter fun s => s.id lib = id)).filter fun row =>
        row.roomId = roomId ∧ row.senderKey = senderKey).map (o.store.fromRow lib) := by
  have haccounts : (o.store.megolmInboundSessions.filter fun row =>
      row.account = o.store.account) = o.store.megolmInboundSessions :=
    List.filter_eq_self.mpr fun row hrow => decide_eq_true (h.accounts row hrow)
  have hload : o.store.loadInboundGroupSessions lib =
      ((o.store.megolmInboundSessions.map (o.store.fromRow lib)).foldl
        (fun (p : GroupSessionStore ρ × Nat) s => ((p.1.add lib ⟨p.2, s⟩).1, p.2 + 1)) ([], 0)).1 := by
    unfold MatrixStore.loadInboundGroupSessions
    rw [haccounts, List.foldl_map]
  unfold GroupSessionStore.get
  rw [hload, foldl_add _ [] 0 (by simp), lookup_nil, Option.map_none, Option.or_none, ← h.rows,
    ← getLast?_filter_of_nodup h.ids, List.filter_map, List.getLast?_map]
  refine congrArg (fun rows => Option.map (o.store.fromRow lib) (List.getLast? rows)) ?_
  refine List.filter_congr fun row hrow => ?_
  have hkey : (o.store.fromRow lib row).key lib = (row.roomId, row.senderKey, row.sessionId) := by
    rw [← id_fromRow h hrow]
    rfl
  simp only [Function.comp_apply, hkey, Prod.mk.injEq, Bool.decide_and]
  rw [← Bool.and_assoc, Bool.and_comm]

/-- The session that is loaded for an id to which several came -/
def merged (first last : InboundGroupSession ρ) (ys : List (InboundGroupSession ρ)) :
    InboundGroupSession ρ :=
  ⟨last.session, first.ed25519, first.senderKey, first.roomId,
    (ys.flatMap InboundGroupSession.forwardingChain).dedup⟩

/-- A reload merges the first and the last of a session. -/
theorem get_loaded_some (h : Holds lib o sessions) {id : Str} {first last : InboundGroupSession ρ}
    (hf : first ∈ (sessions.filter fun s => s.id lib = id).head?)
    (hl : last ∈ (sessions.filter fun s => s.id lib = id).getLast?) (roomId senderKey : Str) :
    (o.store.loadInboundGroupSessions lib).get lib roomId senderKey id =
      if first.roomId = roomId ∧ first.senderKey = senderKey then
        some (merged first last (sessions.filter fun s => s.id lib = id)) else none := by
  rw [get_loaded h, rowOf, Option.mem_def.mp hf, Option.mem_def.mp hl, Option.filter_some]
  by_cases hk : first.roomId = roomId ∧ first.senderKey = senderKey
  · rw [if_pos hk, if_pos (decide_eq_true hk), Option.map_some, MatrixStore.fromRow,
      chain_loaded h, lib.fromPickle_pickle]
    rfl
  · rw [if_neg hk, if_neg (by simpa using hk), Option.map_none]

/-- The merge is the last session exactly if that has the signing key of the first and every chain. -/
theorem getLast?_eq_merged_iff {ys : List (InboundGroupSession ρ)}
    {first last : InboundGroupSession ρ} (hl : last ∈ ys.getLast?)
    (hkey : last.roomId = first.roomId ∧ last.senderKey = first.senderKey) :
    last = merged first last ys ↔
      last.ed25519 = first.ed25519 ∧ last.forwardingChain.Nodup ∧
        ∀ s ∈ ys, s.forwardingChain ⊆ last.forwardingChain := by
  have hsplit : ys.dropLast ++ [last] = ys := List.dropLast_append_getLast? last hl
  have hchain : (ys.flatMap InboundGroupSession.forwardingChain).dedup = last.forwardingChain ↔
      last.forwardingChain.Nodup ∧ ∀ s ∈ ys, s.forwardingChain ⊆ last.forwardingChain := by
    rw [← hsplit, List.flatMap_append, List.flatMap_singleton, dedup_append_eq_right]
    refine and_congr_right fun _ => ⟨fun hs s hmem chain hc => ?_, fun hs chain hc => ?_⟩
    · rcases List.mem_append.mp hmem with hmem | hmem
      · exact hs (List.mem_flatMap.mpr ⟨s, hmem, hc⟩)
      · exact List.mem_singleton.mp hmem ▸ hc
    · obtain ⟨s, hmem, hc⟩ := List.mem_flatMap.mp hc
      exact hs s (List.mem_append_left _ hmem) hc
  rw [← hchain]
  constructor
  · intro h
    have hfp := congrArg InboundGroupSession.ed25519 h
    have hc := congrArg InboundGroupSession.forwardingChain h
    exact ⟨hfp, hc.symm⟩
  · rintro ⟨hfp, hc⟩
    unfold merged
    rw [hc, ← hfp, ← hkey.1, ← hkey.2]

/-- The stores agree on an id exactly when its sessions are consistent. -/
theorem same_id_iff (h : Holds lib o sessions) (id : Str) :
    (∀ roomId senderKey, (o.store.loadInboundGroupSessions lib).get lib roomId senderKey id =
        o.inboundGroupStore.get lib roomId senderKey id) ↔
      Consistent (sessions.filter fun s => s.id lib = id) := by
  have hmemory : ∀ roomId senderKey, o.inboundGroupStore.get lib roomId senderKey id =
      ((sessions.filter fun s => s.id lib = id).filter fun s =>
        s.roomId = roomId ∧ s.senderKey = senderKey).getLast? := by
    intro roomId senderKey
    unfold GroupSessionStore.get
    rw [h.memory, List.filter_filter]
    refine congrArg List.getLast? (List.filter_congr fun s _ => ?_)
    simp only [InboundGroupSession.key, Prod.mk.injEq, Bool.decide_and, Bool.and_assoc]
  cases hys : sessions.filter fun s => s.id lib = id with
  | nil =>
    refine ⟨fun _ first hf => by simp at hf, fun _ roomId senderKey => ?_⟩
    rw [hmemory, get_loaded h, hys]
    rfl
  | cons first ys =>
    obtain ⟨last, hl⟩ : ∃ last, last ∈ (first :: ys).getLast? :=
      Option.isSome_iff_exists.mp (by simp [List.getLast?_isSome])
    have hf : first ∈ (first :: ys).head? := rfl
    rw [← hys] at hf hl ⊢
    have hloaded := get_loaded_some h hf hl
    generalize hall : sessions.filter (fun s => s.id lib = id) = all at hf hl hloaded hmemory
    have hlast : last ∈ all := List.mem_of_getLast? hl
    constructor
    · intro hsame
      have hone : ∀ s ∈ all, s.roomId = first.roomId ∧ s.senderKey = first.senderKey := by
        intro s hs
        have hget := hsame s.roomId s.senderKey
        rw [hloaded, hmemory] at hget
        by_contra hne
        rw [if_neg fun he => hne ⟨he.1.symm, he.2.symm⟩] at hget
        have hnil := List.getLast?_eq_none_iff.mp hget.symm
        exact absurd (decide_eq_true ⟨rfl, rfl⟩) (List.filter_eq_nil_iff.mp hnil s hs)
      have hget := hsame first.roomId first.senderKey
      rw [hloaded, if_pos ⟨rfl, rfl⟩, hmemory,
        List.filter_eq_self.mpr fun s hs => decide_eq_true (hone s hs), hl] at hget
      intro f hf' l hl'
      obtain rfl : f = first := Option.some.inj (hf'.symm.trans hf)
      obtain rfl : l = last := Option.some.inj (hl'.symm.trans hl)
      exact ⟨hone, (getLast?_eq_merged_iff hl (hone l hlast)).mp (Option.some.inj hget).symm⟩
    · intro hc roomId senderKey
      obtain ⟨hone, hrest⟩ := hc first hf last hl
      rw [hloaded, hmemory]
      by_cases hk : first.roomId = roomId ∧ first.senderKey = senderKey
      · rw [if_pos hk, List.filter_eq_self.mpr fun s hs => decide_eq_true
          ⟨(hone s hs).1.trans hk.1, (hone s hs).2.trans hk.2⟩, hl,
          ← (getLast?_eq_merged_iff hl (hone last hlast)).mpr hrest]
      · rw [if_neg hk, List.filter_eq_nil_iff.mpr fun s hs hs' => hk ?_]
        · rfl
        · have hs' := of_decide_eq_true hs'
          exact ⟨(hone s hs).1.symm.trans hs'.1, (hone s hs).2.symm.trans hs'.2⟩

/-- The sessions that are loaded are those that the process held exactly when, for each session id,
the sessions that came under it name one room and one sender key, the last has the signing key of
the first, and its chain repeats no key and contains the keys of all earlier chains. -/
theorem reload_iff (lib : Vodozemac ρ) (userId curve25519 ed25519 : Str) (account : Nat)
    (events : List GroupSessionEvent) :
    let start : GroupSessions ρ := .fresh userId curve25519 ed25519 account
    let o := run (GroupSessions.step lib) start events
    GroupSessionStore.Same lib (o.store.loadInboundGroupSessions lib) o.inboundGroupStore ↔
      ∀ id, Consistent ((GroupSessions.broughtBy lib start events).filter fun s =>
        s.id lib = id) := by
  intro start o
  have h : Holds lib o (GroupSessions.broughtBy lib start events) :=
    GroupSessions.holds_run (GroupSessions.holds_fresh userId curve25519 ed25519 account) events
  constructor
  · intro hsame id
    exact (same_id_iff h id).mp fun roomId senderKey => hsame roomId senderKey id
  · intro hc roomId senderKey id
    exact (same_id_iff h id).mpr (hc id) roomId senderKey

/-- A library whose sessions are numbers: a key of that many letters makes the session, and its id
is one letter longer. -/
def unaryLibrary : Vodozemac Nat where
  sessionId := fun n => py "S" ++ List.replicate n (.ofChar 'x')
  newSession := fun key => some key.length
  importSession := fun key => some key.length
  pickle := fun n => List.replicate n 0
  fromPickle := List.length
  fromPickle_pickle := fun _ => List.length_replicate

/-- A room key, and a key file that names the same session in another room -/
def keyOfTwoRooms : List GroupSessionEvent :=
  [.roomKey (py "curve") ⟨py "m.megolm.v1.aes-sha2", some (py "ed"), py "!a:x", py "Sxx", py "kk"⟩,
    .importKeys [⟨py "m.megolm.v1.aes-sha2", py "kk", py "ed", py "curve", py "!b:x", []⟩]]

/-- The session imported for the second room is lost when the store is loaded. -/
theorem imported_session_lost :
    let o := run (GroupSessions.step unaryLibrary)
      (.fresh (py "@me:x") (py "c") (py "e") 1) keyOfTwoRooms
    o.inboundGroupStore.get unaryLibrary (py "!b:x") (py "curve") (py "Sxx") =
        some ⟨2, py "ed", py "curve", py "!b:x", []⟩ ∧
      ¬ GroupSessionStore.Same unaryLibrary (o.store.loadInboundGroupSessions unaryLibrary)
        o.inboundGroupStore := by
  refine ⟨by decide +kernel, fun h => ?_⟩
  have hget := h (py "!b:x") (py "curve") (py "Sxx")
  revert hget
  decide +kernel

end Load

end Nio.Crypto
