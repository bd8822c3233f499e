import Nio.Store.SharedDevices

/-!
# Runs of stores that share a database

* `wellFormed_step` — every operation keeps the database well-formed
* `separate_step` — an operation that conforms is the operation on the record of its account
* `accounts_isolated` — what the accounts load after any run of such operations
-/

namespace Nio.Store

open Nio.Py (Str py)
open Nio.Lib
open Nio.Crypto (Vodozemac InboundGroupSession MegolmInboundSessions ForwardedChains
  OutgoingKeyRequest OutgoingKeyRequests)

variable {ρ : Type} {env : StoreEnv ρ} {db db' : Database} {owner : Owner}

/-! ## Well-formed databases stay so -/

theorem ids_saveAccount {account : List UInt8} {shared : Bool} :
    (saveAccount db owner account shared).accounts.map (·.id) =
      (insertIgnore Accounts.owner ⟨freshId (db.accounts.map (·.id)), owner, shared, account⟩
        db.accounts).map (·.id) := by
  unfold saveAccount updateWhere
  rw [List.map_map]
  refine List.map_congr_left fun r _ => ?_
  dsimp only [Function.comp]
  split <;> rfl

/-- Saving an account keeps the database well formed. -/
theorem wellFormed_saveAccount (hw : WellFormed env.lib db) (account : List UInt8) (shared : Bool) :
    WellFormed env.lib (saveAccount db owner account shared) := by
  have hsub : ∀ i ∈ db.accounts.map (·.id),
      i ∈ (saveAccount db owner account shared).accounts.map (·.id) := by
    intro i hi
    rw [ids_saveAccount]
    unfold insertIgnore
    split
    · exact hi
    · rw [List.map_append]
      exact List.mem_append_left _ hi
  refine { hw with
    owners := ?_, ids := ?_
    olmSessions := fun r hr => hsub _ (hw.olmSessions r hr)
    megolmInboundSessions := fun r hr => hsub _ (hw.megolmInboundSessions r hr)
    deviceKeys := fun r hr => hsub _ (hw.deviceKeys r hr)
    encryptedRooms := fun r hr => hsub _ (hw.encryptedRooms r hr)
    outgoingKeyRequests := fun r hr => hsub _ (hw.outgoingKeyRequests r hr)
    syncTokens := fun r hr => hsub _ (hw.syncTokens r hr) }
  · have hkeys := @map_key_updateWhere Accounts Owner _ Accounts.owner owner
      (fun r => { r with account, shared }) (fun _ => rfl)
    unfold saveAccount
    dsimp only
    rw [hkeys]
    exact nodup_insertIgnore hw.owners
  · rw [ids_saveAccount]
    unfold insertIgnore
    split
    · exact hw.ids
    · rw [List.map_append, List.map_singleton]
      exact List.nodup_append.mpr ⟨hw.ids, List.nodup_singleton _, fun i hi j hj heq =>
        freshId_notMem _ (List.mem_singleton.mp hj ▸ heq ▸ hi)⟩

theorem mem_replace {α κ : Type} [DecidableEq κ] {key : α → κ} {r x : α} {rows : List α}
    (h : x ∈ replace key r rows) : x ∈ rows ∨ x = r :=
  (List.mem_append.mp h).imp (fun h => (List.mem_filter.mp h).1) List.mem_singleton.mp

theorem id_mem {row : Accounts} (h : getAccount db owner = some row) :
    row.id ∈ db.accounts.map (·.id) :=
  List.mem_map_of_mem (getAccount_mem h).1

/-- So does saving a group session of an account that exists, -/
theorem wellFormed_saveInboundGroupSession (hw : WellFormed env.lib db) {row : Accounts}
    (hrow : getAccount db owner = some row) (s : InboundGroupSession ρ) :
    WellFormed env.lib (saveInboundGroupSession env.lib db row.id s) := by
  have hmem : ∀ r ∈ savedInbound env.lib db.megolmInboundSessions row.id s,
      ∃ r' ∈ insertIgnore MegolmInboundSessions.sessionId (inboundRow env.lib row.id s)
        db.megolmInboundSessions, r = r' ∨
          r'.sessionId = s.id env.lib ∧ r = r'.setSession (env.lib.pickle s.session) := by
    intro r hr
    obtain ⟨r', hr', rfl⟩ := List.mem_map.mp hr
    refine ⟨r', hr', ?_⟩
    split
    next hid => exact Or.inr ⟨hid, rfl⟩
    · exact Or.inl rfl
  have hchains : (savedChains db.forwardedChains (s.id env.lib) s.forwardingChain).Nodup := by
    rw [savedChains_eq hw.chains]
    exact List.nodup_dedup _
  refine { hw with megolmInboundSessions := fun r hr => ?_, sessionIds := fun r hr => ?_,
                   chains := hchains }
  · obtain ⟨r', hr', heq⟩ := hmem r hr
    have haccount : r.account = r'.account := by
      rcases heq with rfl | ⟨-, rfl⟩ <;> rfl
    change r.account ∈ db.accounts.map (·.id)
    rw [haccount]
    rcases mem_insertIgnore hr' with hr' | rfl
    · exact hw.megolmInboundSessions r' hr'
    · exact id_mem hrow
  · obtain ⟨r', hr', rfl | ⟨hid, rfl⟩⟩ := hmem r hr
    · rcases mem_insertIgnore hr' with hr' | rfl
      · exact hw.sessionIds r hr'
      · exact congrArg _ (env.lib.fromPickle_pickle _)
    · change env.lib.sessionId (env.lib.fromPickle (env.lib.pickle s.session)) = r'.sessionId
      rw [env.lib.fromPickle_pickle, hid]
      rfl

/-- and so do its encrypted rooms. -/
theorem wellFormed_saveEncryptedRooms (hw : WellFormed env.lib db) {row : Accounts}
    (hrow : getAccount db owner = some row) (rooms : List Str) :
    WellFormed env.lib (saveEncryptedRooms db row.id rooms) := by
  refine { hw with encryptedRooms := ?_ }
  have hrooms : ∀ rows : List EncryptedRooms, (∀ r ∈ rows, r.account ∈ db.accounts.map (·.id)) →
      ∀ r ∈ rooms.foldl (fun rows room => insertIgnore id ⟨room, row.id⟩ rows) rows,
        r.account ∈ db.accounts.map (·.id) := by
    induction rooms with
    | nil => exact fun _ h => h
    | cons room rooms ih =>
      intro rows h
      refine ih _ fun r hr => ?_
      rcases mem_insertIgnore hr with hr | rfl
      · exact h r hr
      · exact id_mem hrow
  exact hrooms _ hw.encryptedRooms

/-- What refers to and from the rows of devices -/
structure Refers (ids : List Nat) (trust : List (Nat × TrustState))
    (tables : DeviceTable × List Keys) : Prop where
  accounts : ∀ r ∈ tables.1.rows, r.account ∈ ids
  keys : ∀ k ∈ tables.2, k.device ∈ tables.1.ids
  trust : ∀ t ∈ trust, t.1 ∈ tables.1.ids

/-- A new device row of an account that exists refers to it. -/
theorem Refers.insert {ids : List Nat} {trust : List (Nat × TrustState)} {table : DeviceTable}
    {keys : List Keys} (h : Refers ids trust (table, keys)) {account : Nat}
    (haccount : account ∈ ids) (d : SavedDevice) :
    Refers ids trust (table.insert account d, keys) := by
  refine ⟨fun r hr => ?_, fun k hk => ids_insert account d (h.keys k hk),
    fun t ht => ids_insert account d (h.trust t ht)⟩
  rcases mem_insert hr with hr | rfl
  · exact h.accounts r hr
  · exact haccount

theorem Refers.inserts {ids : List Nat} {trust : List (Nat × TrustState)} {keys : List Keys}
    {account : Nat} (haccount : account ∈ ids) (devices : List SavedDevice) :
    ∀ table, Refers ids trust (table, keys) →
      Refers ids trust (devices.foldl (fun t d => t.insert account d) table, keys) := by
  induction devices with
  | nil => exact fun _ h => h
  | cons d devices ih => exact fun _ h => ih _ (h.insert haccount d)

/-- An update keeps every reference. -/
theorem Refers.update {ids : List Nat} {trust : List (Nat × TrustState)}
    {tables tables' : DeviceTable × List Keys} {account : Nat} {d : SavedDevice}
    (hrun : updateDevice account tables d = .ok tables') (h : Refers ids trust tables) :
    Refers ids trust tables' := by
  obtain ⟨row, hrow, -, htable, hkeys⟩ := updateDevice_cases hrun
  have hids : tables'.1.ids = tables.1.ids := by rw [htable, ids_setDeleted]
  refine ⟨fun r hr => ?_, fun k hk => ?_, fun t ht => ?_⟩
  · rw [htable] at hr
    obtain ⟨r', hr', rfl⟩ := List.mem_map.mp hr
    split <;> exact h.accounts r' hr'
  · rw [hids]
    rw [hkeys] at hk
    rcases mem_savedKeys hk with hk | hk
    · exact h.keys k hk
    · rw [hk]
      exact List.mem_map_of_mem hrow
  · rw [hids]
    exact h.trust t ht

/-- Saving devices keeps the database well formed. -/
theorem wellFormed_saveDeviceKeys (hw : WellFormed env.lib db) {row : Accounts}
    (hrow : getAccount db owner = some row) {devices : SavedDevices}
    (hrun : saveDeviceKeys db row.id devices = .ok db') : WellFormed env.lib db' := by
  unfold saveDeviceKeys at hrun
  dsimp only at hrun
  cases hupdates : devices.devices.foldlM (updateDevice row.id)
      (devices.devices.foldl (fun t d => t.insert row.id d) db.deviceKeys, db.keys) with
  | error e => rw [hupdates] at hrun; exact (nomatch hrun)
  | ok tables =>
    rw [hupdates] at hrun
    obtain rfl := Except.ok.inj hrun
    have hstart : Refers (db.accounts.map (·.id)) db.deviceTrustState (db.deviceKeys, db.keys) :=
      ⟨hw.deviceKeys, hw.keys, hw.deviceTrustState⟩
    have hend := foldlM_invariant (P := Refers (db.accounts.map (·.id)) db.deviceTrustState)
      (fun d _ _ _ hd h => h.update hd) hupdates (hstart.inserts (id_mem hrow) devices.devices)
    exact { hw with
      deviceKeys := hend.accounts, keys := hend.keys, deviceTrustState := hend.trust }

/-- So does a trust operation. -/
theorem marked_wellFormed (hw : WellFormed env.lib db) {account : Option Nat} {op : TrustOp}
    {trust : List (Nat × TrustState)} (h : Marked db account op trust) :
    WellFormed env.lib { db with deviceTrustState := trust } :=
  { hw with deviceTrustState := fun t ht => (h.rows t ht).elim (hw.deviceTrustState t) id }

/-! ## Steps -/

/-- An operation that succeeds found the account of its owner. -/
theorem withAccount_ok {f : Nat → Except StoreError Database}
    (h : withAccount db owner f = .ok db') :
    ∃ row, getAccount db owner = some row ∧ f row.id = .ok db' := by
  unfold withAccount at h
  split at h
  · exact (nomatch h)
  next row hrow => exact ⟨row, hrow, h⟩

/-- Every operation keeps the database well formed. -/
theorem wellFormed_step (hw : WellFormed env.lib db) {op : StoreOp ρ}
    (h : step env db owner op = .ok db') : WellFormed env.lib db' := by
  unfold step at h
  split at h
  next account shared =>
    obtain rfl := Except.ok.inj h
    exact wellFormed_saveAccount hw account shared
  next curveKey session =>
    obtain ⟨row, hrow, h⟩ := withAccount_ok h
    obtain rfl := Except.ok.inj h
    exact { hw with
      olmSessions := fun r hr => (mem_replace hr).elim (hw.olmSessions r) fun he =>
        he ▸ id_mem hrow }
  next session =>
    obtain ⟨row, hrow, h⟩ := withAccount_ok h
    obtain rfl := Except.ok.inj h
    exact wellFormed_saveInboundGroupSession hw hrow session
  next devices =>
    obtain ⟨row, hrow, h⟩ := withAccount_ok h
    exact wellFormed_saveDeviceKeys hw hrow h
  next rooms =>
    split at h
    · exact (nomatch h)
    next row hrow =>
      obtain rfl := Except.ok.inj h
      exact wellFormed_saveEncryptedRooms hw hrow rooms
  next room =>
    obtain rfl := Except.ok.inj h
    unfold deleteEncryptedRoom
    split
    · exact hw
    · exact { hw with
        encryptedRooms := fun r hr => hw.encryptedRooms r (List.mem_filter.mp hr).1 }
  next keyRequest =>
    obtain ⟨row, hrow, h⟩ := withAccount_ok h
    obtain rfl := Except.ok.inj h
    exact { hw with
      outgoingKeyRequests := fun r hr => (mem_insertIgnore hr).elim (hw.outgoingKeyRequests r)
        fun he => he ▸ id_mem hrow }
  next keyRequest =>
    obtain ⟨row, hrow, h⟩ := withAccount_ok h
    obtain rfl := Except.ok.inj h
    exact { hw with
      outgoingKeyRequests := fun r hr => hw.outgoingKeyRequests r (List.mem_filter.mp hr).1 }
  next token =>
    obtain ⟨row, hrow, h⟩ := withAccount_ok h
    obtain rfl := Except.ok.inj h
    exact { hw with
      syncTokens := fun r hr => (mem_replace hr).elim (hw.syncTokens r) fun he =>
        he ▸ id_mem hrow }
  next op =>
    split at h
    · exact (nomatch h)
    next s hrun =>
      obtain rfl := Except.ok.inj h
      exact marked_wellFormed hw (marked_run hrun)

/-- A conforming operation is seen by its own account as what it says and by no other account. -/
theorem separate_step (hw : WellFormed env.lib db) {op : StoreOp ρ}
    (hconforms : Conforms env db (owner, op)) (h : step env db owner op = .ok db') :
    Separate env.lib db db' owner op := by
  unfold step at h
  split at h
  next account shared =>
    obtain rfl := Except.ok.inj h
    exact separate_saveAccount hw account shared
  next curveKey session =>
    obtain ⟨row, hrow, h⟩ := withAccount_ok h
    obtain rfl := Except.ok.inj h
    exact separate_saveSession hw hrow (hconforms.1 row hrow)
  next session =>
    obtain ⟨row, hrow, h⟩ := withAccount_ok h
    obtain rfl := Except.ok.inj h
    exact separate_saveInboundGroupSession hw hrow (hconforms.1 row hrow)
  next devices =>
    obtain ⟨row, hrow, h⟩ := withAccount_ok h
    exact separate_saveDeviceKeys hw hrow (hconforms.1 row hrow) h
  next rooms =>
    split at h
    · exact (nomatch h)
    next row hrow =>
      obtain rfl := Except.ok.inj h
      exact separate_saveEncryptedRooms hw hrow rooms
  next room =>
    obtain rfl := Except.ok.inj h
    exact separate_deleteEncryptedRoom hw hconforms
  next keyRequest =>
    obtain ⟨row, hrow, h⟩ := withAccount_ok h
    obtain rfl := Except.ok.inj h
    exact separate_addOutgoingKeyRequest hw hrow (hconforms.1 row hrow)
  next keyRequest =>
    obtain ⟨row, hrow, h⟩ := withAccount_ok h
    obtain rfl := Except.ok.inj h
    exact separate_removeOutgoingKeyRequest hw hrow keyRequest
  next token =>
    obtain ⟨row, hrow, h⟩ := withAccount_ok h
    obtain rfl := Except.ok.inj h
    exact separate_saveSyncToken hw hrow token
  next op =>
    split at h
    · exact (nomatch h)
    next s hrun =>
      obtain rfl := Except.ok.inj h
      exact separate_trust hw (marked_run hrun)

/-! ## Runs -/

/-- The database after an operation; one that raises leaves it as it was. -/
def next (env : StoreEnv ρ) (db : Database) (p : Owner × StoreOp ρ) : Database :=
  match step env db p.1 p.2 with
  | .ok db' => db'
  | .error _ => db

/-- The operations of an account that succeed in a run -/
def saved (env : StoreEnv ρ) (owner : Owner) : Database → List (Owner × StoreOp ρ) →
    List (StoreOp ρ)
  | _, [] => []
  | db, p :: ps =>
    if p.1 = owner ∧ (step env db p.1 p.2).toBool then p.2 :: saved env owner (next env db p) ps
    else saved env owner (next env db p) ps

theorem saved_cons (env : StoreEnv ρ) (owner : Owner) (db : Database) (p : Owner × StoreOp ρ)
    (ops : List (Owner × StoreOp ρ)) : saved env owner db (p :: ops) =
      if p.1 = owner ∧ (step env db p.1 p.2).toBool then p.2 :: saved env owner (next env db p) ops
      else saved env owner (next env db p) ops := rfl

theorem wellFormed_next (hw : WellFormed env.lib db) (p : Owner × StoreOp ρ) :
    WellFormed env.lib (next env db p) := by
  unfold next
  split
  next db' h => exact wellFormed_step hw h
  · exact hw

/-- Every database that operations can reach is well formed. -/
theorem wellFormed_run (env : StoreEnv ρ) (ops : List (Owner × StoreOp ρ)) :
    WellFormed env.lib (run (next env) .empty ops) :=
  run_invariant (P := WellFormed env.lib) (fun _ p hw => wellFormed_next hw p) ops (.empty env.lib)

/-- What an account loads after a run is the fold of what it saved. -/
theorem loads_run (hw : WellFormed env.lib db) {ops : List (Owner × StoreOp ρ)}
    (h : Along (next env) (Conforms env) db ops) (owner : Owner) :
    loads env.lib (run (next env) db ops) owner =
      (saved env owner db ops).foldl (AccountStore.save env.lib) (loads env.lib db owner) := by
  induction ops generalizing db with
  | nil => rfl
  | cons p ops ih =>
    refine (ih (wellFormed_next hw p) h.2).trans ?_
    rw [saved_cons]
    cases hstep : step env db p.1 p.2 with
    | error e =>
      have hnext : next env db p = db := by unfold next; rw [hstep]
      rw [if_neg fun ho => (nomatch ho.2), hnext]
    | ok db' =>
      have hnext : next env db p = db' := by unfold next; rw [hstep]
      have hloads := separate_step hw h.1 hstep owner
      by_cases ho : p.1 = owner
      · rw [if_pos ⟨ho, rfl⟩, List.foldl_cons, hnext, hloads, if_pos ho.symm, ho]
      · rw [if_neg fun h' => ho h'.1, hnext, hloads, if_neg (Ne.symm ho)]

/-- An account that takes no part has saved nothing. -/
theorem saved_others {ops : List (Owner × StoreOp ρ)} (h : ∀ p ∈ ops, p.1 ≠ owner) (db : Database) :
    saved env owner db ops = [] := by
  induction ops generalizing db with
  | nil => rfl
  | cons p ops ih =>
    rw [saved_cons, if_neg fun ho => h p List.mem_cons_self ho.1]
    exact ih (fun q hq => h q (List.mem_cons_of_mem _ hq)) _

/-- After a run of operations that conform, each account loads what it had and saved since, and one
that saved nothing loads what it loaded before. -/
theorem accounts_isolated (env : StoreEnv ρ) (before ops : List (Owner × StoreOp ρ))
    (h : Along (next env) (Conforms env) (run (next env) .empty before) ops) (owner : Owner) :
    loads env.lib (run (next env) .empty (before ++ ops)) owner =
      (saved env owner (run (next env) .empty before) ops).foldl (AccountStore.save env.lib)
        (loads env.lib (run (next env) .empty before) owner) ∧
    ((∀ p ∈ ops, p.1 ≠ owner) → loads env.lib (run (next env) .empty (before ++ ops)) owner =
      loads env.lib (run (next env) .empty before) owner) := by
  rw [run_append]
  have hloads := loads_run (wellFormed_run env before) h owner
  refine ⟨hloads, fun hothers => ?_⟩
  rw [hloads, saved_others hothers]
  rfl

/-! ### Two accounts in one room -/

/-- Libraries that find the first row -/
def firstRowEnv : StoreEnv Nat where
  lib := Nio.Crypto.unaryLibrary
  rowValues := true
  getOrNone := List.head?
  mem_of_getOrNone := fun _ _ h => List.mem_of_head? h
  nil_of_getOrNone := fun _ h => List.head?_eq_none_iff.mp h

def aliceStore : Owner := (py "@alice:a", py "A")

def bobStore : Owner := (py "@bob:b", py "B")

/-- A session of the room as one of the accounts has it -/
def roomSession (senderKey : String) : InboundGroupSession Nat :=
  ⟨3, py "fingerprint", py senderKey, py "!r", []⟩

/-- Both accounts are stored, and Bob has the room, its session, and the Olm session with Alice. -/
def sharedStart : List (Owner × StoreOp Nat) :=
  [(bobStore, .saveAccount [1] true), (aliceStore, .saveAccount [2] true),
    (bobStore, .saveEncryptedRooms [py "!r"]),
    (bobStore, .saveInboundGroupSession (roomSession "carol")),
    (bobStore, .saveSession (py "alice") ⟨py "olm", [3], 1, 1⟩)]

/-- A session of Alice's own, as it was first received or after it was forwarded -/
def ownSession (forwardingChain : List Str) : InboundGroupSession Nat :=
  ⟨4, py "fingerprint", py "dave", py "!r", forwardingChain⟩

/-- Bob's device as Alice knows it -/
def bobsKeys (deleted : Bool) : SavedDevices where
  devices := [⟨py "@bob:b", py "B", py "Bob", deleted, [(py "ed25519", py "k")],
    List.nodup_singleton _⟩]
  nodup := List.nodup_singleton _

/-- Alice saves what she has of her own, the session and the device of Bob a second time. -/
def conformingSaves : List (Owner × StoreOp Nat) :=
  [(aliceStore, .saveEncryptedRooms [py "!r"]),
    (aliceStore, .saveInboundGroupSession (ownSession [py "eve"])),
    (aliceStore, .saveInboundGroupSession (ownSession [py "eve", py "frank"])),
    (aliceStore, .saveSession (py "bob") ⟨py "olm2", [4], 2, 2⟩),
    (aliceStore, .saveDeviceKeys (bobsKeys false)), (aliceStore, .saveDeviceKeys (bobsKeys true)),
    (aliceStore, .saveSyncToken (py "s1"))]

theorem along_conformingSaves : Along (next firstRowEnv) (Conforms firstRowEnv)
    (run (next firstRowEnv) .empty sharedStart) conformingSaves := by
  refine ⟨?_, ?_, ?_, ?_, ?_, ?_, ?_, trivial⟩ <;>
    exact .of_account (fun room h => nomatch h) (by decide +kernel)

/-- Bob loads what he loaded before, and Alice what she saved. -/
theorem accounts_isolated_alice :
    (loads firstRowEnv.lib (run (next firstRowEnv) .empty (sharedStart ++ conformingSaves))
        bobStore = loads firstRowEnv.lib (run (next firstRowEnv) .empty sharedStart) bobStore ∧
      (loads firstRowEnv.lib (run (next firstRowEnv) .empty sharedStart)
        bobStore).inboundGroupSessions = [roomSession "carol"]) ∧
    (loads firstRowEnv.lib (run (next firstRowEnv) .empty (sharedStart ++ conformingSaves))
        aliceStore).inboundGroupSessions = [ownSession [py "eve", py "frank"]] ∧
    (loads firstRowEnv.lib (run (next firstRowEnv) .empty (sharedStart ++ conformingSaves))
        aliceStore).deviceKeys.map (fun d => (d.key, d.deleted)) =
      [((py "@bob:b", py "B"), true)] ∧
    (loads firstRowEnv.lib (run (next firstRowEnv) .empty (sharedStart ++ conformingSaves))
      aliceStore).syncToken = some (py "s1") := by
  obtain ⟨-, hbob⟩ :=
    accounts_isolated firstRowEnv sharedStart conformingSaves along_conformingSaves bobStore
  obtain ⟨halice, -⟩ :=
    accounts_isolated firstRowEnv sharedStart conformingSaves along_conformingSaves aliceStore
  rw [halice]
  exact ⟨⟨hbob (by decide +kernel), by decide +kernel⟩, by decide +kernel, by decide +kernel,
    by decide +kernel⟩

/-- What each of the two loads after one more operation of Alice -/
def afterAlice (op : StoreOp Nat) (owner : Owner) : AccountStore Nat :=
  loads firstRowEnv.lib (run (next firstRowEnv) .empty
    (sharedStart ++ [(aliceStore, .saveEncryptedRooms [py "!r"]), (aliceStore, op)])) owner

/-- Alice deletes her room, and it is Bob who has lost it; she saves the session of the room and
loads none; she saves her end of the Olm session with Bob, and he has lost his. -/
theorem shared_rows_leak :
    ((afterAlice (.deleteEncryptedRoom (py "!r")) bobStore).encryptedRooms = [] ∧
      (afterAlice (.deleteEncryptedRoom (py "!r")) aliceStore).encryptedRooms = [py "!r"]) ∧
    (afterAlice (.saveInboundGroupSession (roomSession "carol")) aliceStore).inboundGroupSessions =
      [] ∧
    (afterAlice (.saveSession (py "bob") ⟨py "olm", [4], 2, 2⟩) bobStore).sessions = [] := by
  decide +kernel

end Nio.Store
