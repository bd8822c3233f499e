import Nio.Durable.Store

/-!
# The mirrors of the durable store

Reading a store that has run through any blocks, failures and reopenings gives what the tables of
its current transaction hold.

* `Coherent` — each mirror is absent or current
* `coherent_runAll` — it holds after every run
* `readsFresh_runAll` — so every accessor reads the tables
-/

namespace Nio.Durable

open Nio.Py
open Nio.Lib

/-! ## Runs -/

inductive StoreRead where
  | cursor
  | ackedSequence
  | progressGeneration
  | input
  | hasInput
  | continuation
  | hasBatches
  | nextBatch
  | roomMetadata
  | localIntent

/-- What an operation had made of the tables and the mirrors when an exception stopped it. -/
structure Torn where
  tables : Tables
  roomMetadata : Option (List (Str × Str))
  localIntent : Option (Option Json)
  loopState : Option LoopState

/-- One step of a program that uses the store. An exception is `raise` in each block that it leaves
before it is caught; so is a commit that fails. -/
inductive StoreAction where
  | enter
  /-- `BEGIN` or `SAVEPOINT` fails. -/
  | enterFails
  | exit
  | raise (torn : Torn)
  | capture (body : List Nat)
  | saveContinuation (continuation : Json)
  | finishInput
  | setCursor (cursor : Str)
  | publish (records : List SyncRecord) (completesSync : Bool) (encodedRecords : Option Str)
      (gap : Nat)
  | ack (batch : SyncBatch) (commits : Bool)
  | saveRoomMetadata (roomId metadata : Str)
  | saveLocalIntent (intent : Json) (create : Bool)
  | deleteLocalIntent
  | read (accessor : StoreRead)
  | reopen

namespace DurableStore

variable {s : DurableStore}

def tear (s : DurableStore) (w : Torn) : DurableStore :=
  ⟨s.streamId, s.db.update fun _ => w.tables, w.roomMetadata, w.localIntent, w.loopState⟩

/-- The store after an accessor was used. -/
def afterRead (s : DurableStore) : StoreRead → DurableStore
  | .cursor => s.cursor.2
  | .ackedSequence => s.ackedSequence.2
  | .progressGeneration => s.progressGeneration.2
  | .input => s.input.2
  | .hasInput => s.hasInput.2
  | .continuation => s.continuation.2
  | .hasBatches => s.hasBatches.2
  | .nextBatch => s.nextBatch.2
  | .roomMetadata => s.loadRoomMetadata.2
  | .localIntent => s.readLocalIntent.2

def run (s : DurableStore) : StoreAction → DurableStore
  | .enter => s.enter
  | .enterFails => s.enter.abort
  | .exit => if s.db.depth = 0 then s else s.exit
  | .raise torn => if s.db.depth = 0 then s else (s.tear torn).abort
  | .capture body => (s.capture body).2
  | .saveContinuation c => (s.saveContinuation c).2
  | .finishInput => s.finishInput.2
  | .setCursor c => (s.setCursor c).2
  | .publish records completes text gap => (s.publish records completes text gap).2
  | .ack batch commits => (s.ack batch commits).2
  | .saveRoomMetadata roomId metadata => (s.saveRoomMetadata roomId metadata).2
  | .saveLocalIntent intent create => (s.saveLocalIntent intent create).2
  | .deleteLocalIntent => s.deleteLocalIntent.2
  | .read accessor => s.afterRead accessor
  | .reopen => s.reopen

def runAll (s : DurableStore) (actions : List StoreAction) : DurableStore := actions.foldl run s

/-! ## The invariant -/

/-- Every mirror is absent or holds what the tables hold. -/
structure Coherent (s : DurableStore) : Prop where
  loopState : Mirrors Tables.loopState s.loopState s.tables
  roomMetadata : Mirrors Tables.rooms s.roomMetadata s.tables
  localIntent : ∀ v, s.localIntent = some v → decodeIntent s.tables.intentRow = .ok v

theorem coherent_opened (streamId : Nat) (t : Tables) : Coherent (opened streamId t) :=
  ⟨.none, .none, fun _ h => nomatch h⟩

/-- A failed block leaves no mirror behind, so that nothing it wrote can be seen. -/
theorem coherent_abort (s : DurableStore) : Coherent s.abort := ⟨.none, .none, fun _ h => nomatch h⟩

/-- Entering a block keeps the caches coherent, -/
theorem Coherent.enter (h : Coherent s) : Coherent s.enter :=
  ⟨h.loopState, h.roomMetadata, fun _ h => nomatch h⟩

/-- as does leaving it. -/
theorem Coherent.exit (h : Coherent s) : Coherent s.exit :=
  ⟨h.loopState, h.roomMetadata, fun _ h => nomatch h⟩

/-- What an exception leaves behind does not depend on how far the block came. -/
theorem tear_abort (w : Torn) (h : s.db.depth ≠ 0) : (s.tear w).abort = s.abort := by
  obtain ⟨id, ⟨t, ts⟩, m, i, l⟩ := s
  cases ts with
  | nil => exact absurd rfl h
  | cons u us => rfl

/-! ### Reading keeps the tables -/

/-- The polled rows are read once and then served from the mirror. -/
theorem Coherent.state_eq (h : Coherent s) :
    s.state = (s.tables.loopState, { s with loopState := some s.tables.loopState }) := by
  unfold state
  cases hl : s.loopState with
  | none => rfl
  | some l =>
    simp only
    rw [← h.loopState l hl, ← hl]

/-- A cached read of the metadata is the read of the table. -/
theorem Coherent.loadRoomMetadata_eq (h : Coherent s) :
    s.loadRoomMetadata = (s.tables.rooms, { s with roomMetadata := some s.tables.rooms }) := by
  unfold loadRoomMetadata
  cases hm : s.roomMetadata with
  | none => rfl
  | some m =>
    simp only
    rw [← h.roomMetadata m hm, ← hm]

/-- So is the read of the local operation. -/
theorem Coherent.readLocalIntent_fst (h : Coherent s) :
    s.readLocalIntent.1 = decodeIntent s.tables.intentRow := by
  unfold readLocalIntent
  cases hi : s.localIntent with
  | some v => exact (h.localIntent v hi).symm
  | none =>
    simp only
    cases decodeIntent s.tables.intentRow <;> rfl

theorem Coherent.loaded (h : Coherent s) :
    Coherent { s with loopState := some s.tables.loopState } :=
  ⟨.load, h.roomMetadata, h.localIntent⟩

theorem Coherent.readLocalIntent (h : Coherent s) : Coherent s.readLocalIntent.2 := by
  unfold DurableStore.readLocalIntent
  split
  · exact h
  · split
    · exact h
    · next hd =>
      refine ⟨h.loopState, h.roomMetadata, fun v hv => ?_⟩
      obtain rfl := Option.some.inj hv
      exact hd

/-- No read breaks coherence. -/
theorem Coherent.afterRead (h : Coherent s) (accessor : StoreRead) :
    Coherent (s.afterRead accessor) := by
  have hstate := h.state_eq
  cases accessor with
  | roomMetadata =>
    simp only [DurableStore.afterRead, h.loadRoomMetadata_eq]
    exact ⟨h.loopState, .load, h.localIntent⟩
  | localIntent => exact h.readLocalIntent
  | nextBatch =>
    simp only [DurableStore.afterRead, DurableStore.nextBatch, DurableStore.hasBatches, hstate]
    split <;> exact h.loaded
  | input =>
    simp only [DurableStore.afterRead, DurableStore.input, DurableStore.hasInput, hstate]
    split <;> exact h.loaded
  | _ =>
    simp only [DurableStore.afterRead, DurableStore.cursor, DurableStore.ackedSequence,
      DurableStore.progressGeneration, DurableStore.hasInput, DurableStore.continuation,
      DurableStore.hasBatches, hstate]
    exact h.loaded

/-! ### Mutations -/

/-- A transaction is coherent whether it is kept or rolled back. -/
theorem Coherent.inTransaction {α : Type} (h : Coherent s) {body : Outcome α}
    (hbody : Coherent body.2) : Coherent (s.inTransaction body).2 := by
  unfold DurableStore.inTransaction
  split
  · exact h
  · exact hbody

/-- A write that mirrors the new polled rows and leaves the other mirrored tables alone. -/
theorem Coherent.writeLoop (h : Coherent s) {f : Tables → Tables} {l : LoopState}
    (hl : l = (f s.tables).loopState) (hrooms : (f s.tables).rooms = s.tables.rooms)
    (hcrypto : (f s.tables).crypto = s.tables.crypto) :
    Coherent { s.write f with loopState := some l } := by
  subst hl
  refine ⟨.load, h.roomMetadata.frame hrooms, fun v hv => ?_⟩
  have hrow : (f s.tables).intentRow = s.tables.intentRow := by
    simp only [Tables.intentRow, hcrypto]
  show decodeIntent (f s.tables).intentRow = .ok v
  rw [hrow]
  exact h.localIntent v hv

theorem Coherent.setCursor (h : Coherent s) (cursor : Str) : Coherent (s.setCursor cursor).2 := by
  refine h.inTransaction ?_
  simp only [h.state_eq]
  split
  · exact h.loaded
  · exact h.loaded.writeLoop rfl rfl rfl

theorem Coherent.capture (h : Coherent s) (body : List Nat) : Coherent (s.capture body).2 := by
  refine h.inTransaction ?_
  simp only [h.state_eq]
  split
  · exact h.loaded
  · split
    · exact h.loaded
    · exact h.loaded.writeLoop rfl rfl rfl

theorem Coherent.saveContinuation (h : Coherent s) (c : Json) :
    Coherent (s.saveContinuation c).2 := by
  refine h.inTransaction ?_
  simp only [h.state_eq]
  split
  · exact h.loaded
  · refine h.loaded.writeLoop ?_ rfl rfl
    simp only [Tables.loopState, Option.map_map]
    rfl

theorem Coherent.finishInput (h : Coherent s) : Coherent s.finishInput.2 := by
  refine h.inTransaction ?_
  simp only [h.state_eq]
  exact h.loaded.writeLoop rfl rfl rfl

theorem Coherent.publish (h : Coherent s) (records : List SyncRecord) (completesSync : Bool)
    (encodedRecords : Option Str) (gap : Nat) :
    Coherent (s.publish records completesSync encodedRecords gap).2 := by
  refine h.inTransaction ?_
  simp only [h.state_eq]
  split
  · exact h.loaded
  · refine h.loaded.writeLoop ?_ rfl rfl
    simp only [Tables.loopState, BatchTable.insert, List.map_append, List.map_cons, List.map_nil]
    rfl

theorem Coherent.ack (h : Coherent s) (batch : SyncBatch) (commits : Bool) :
    Coherent (s.ack batch commits).2 := by
  unfold DurableStore.ack
  split
  · exact h
  · simp only [h.state_eq]
    split
    · exact h.loaded
    · split
      · exact h.loaded
      · next hhead =>
        rw [ne_eq, not_not] at hhead
        split
        · refine (h.loaded.enter.writeLoop ?_ rfl rfl).exit
          have hrows := BatchTable.delete_head hhead
          show _ = Tables.loopState (s.tables.deleteBatch batch.sequence)
          simp only [Tables.loopState, Tables.deleteBatch, hrows, List.map_tail]
        · exact coherent_abort _

theorem Coherent.saveRoomMetadata (h : Coherent s) (roomId metadata : Str) :
    Coherent (s.saveRoomMetadata roomId metadata).2 := by
  have hloaded : Coherent { s with roomMetadata := some s.tables.rooms } :=
    ⟨h.loopState, .load, h.localIntent⟩
  refine h.inTransaction ?_
  simp only [h.loadRoomMetadata_eq]
  split
  · exact hloaded
  · split
    · exact ⟨h.loopState.frame rfl, .load, h.localIntent⟩
    · exact hloaded

theorem Coherent.saveLocalIntent (h : Coherent s) (intent : Json) (create : Bool) :
    Coherent (s.saveLocalIntent intent create).2 := by
  refine h.inTransaction ?_
  split
  · exact h
  · simp only
    split
    · split
      · exact h
      · exact ⟨h.loopState.frame rfl, h.roomMetadata.frame rfl, fun _ h => nomatch h⟩
    · exact ⟨h.loopState.frame rfl, h.roomMetadata.frame rfl, fun _ h => nomatch h⟩

theorem Coherent.deleteLocalIntent (h : Coherent s) : Coherent s.deleteLocalIntent.2 :=
  h.inTransaction ⟨h.loopState.frame rfl, h.roomMetadata.frame rfl, fun _ h => nomatch h⟩

/-! ## Every run -/

/-- Every action keeps the caches coherent, -/
theorem Coherent.run (h : Coherent s) (a : StoreAction) : Coherent (s.run a) := by
  cases a with
  | enter => exact h.enter
  | enterFails => exact coherent_abort _
  | exit =>
    simp only [DurableStore.run]
    split
    · exact h
    · exact h.exit
  | raise torn =>
    simp only [DurableStore.run]
    split
    · exact h
    · exact coherent_abort _
  | capture body => exact h.capture body
  | saveContinuation c => exact h.saveContinuation c
  | finishInput => exact h.finishInput
  | setCursor c => exact h.setCursor c
  | publish records completes text gap => exact h.publish records completes text gap
  | ack batch commits => exact h.ack batch commits
  | saveRoomMetadata roomId metadata => exact h.saveRoomMetadata roomId metadata
  | saveLocalIntent intent create => exact h.saveLocalIntent intent create
  | deleteLocalIntent => exact h.deleteLocalIntent
  | read accessor => exact h.afterRead accessor
  | reopen => exact coherent_opened _ _

/-- as does every run. -/
theorem Coherent.runAll (h : Coherent s) (actions : List StoreAction) :
    Coherent (s.runAll actions) := by
  unfold DurableStore.runAll
  induction actions generalizing s with
  | nil => exact h
  | cons a actions ih => exact ih (h.run a)

/-- Every accessor returns what its queries would return in the current transaction. -/
structure ReadsFresh (s : DurableStore) : Prop where
  cursor : s.cursor.1 = s.tables.cursor
  ackedSequence : s.ackedSequence.1 = s.tables.ackedSequence
  progressGeneration : s.progressGeneration.1 = s.tables.ackedSequence +
    max s.tables.ackedSequence ((s.tables.batches.rows.map (·.sequence)).getLastD 0)
  input : s.input.1 = readInput s.tables.input
  hasInput : s.hasInput.1 = s.tables.input.isSome
  continuation : s.continuation.1 = decodeOptional (s.tables.input.map (·.continuation))
  hasBatches : s.hasBatches.1 = !s.tables.batches.rows.isEmpty
  nextBatch : s.nextBatch.1 = oldestBatch s.streamId s.tables.batches.rows
  loadRoomMetadata : s.loadRoomMetadata.1 = s.tables.rooms
  readLocalIntent : s.readLocalIntent.1 = decodeIntent s.tables.intentRow

/-- A coherent store answers as the tables would. -/
theorem Coherent.readsFresh (h : Coherent s) : ReadsFresh s := by
  have hstate := h.state_eq
  refine ⟨?_, ?_, ?_, ?_, ?_, ?_, ?_, ?_, ?_, h.readLocalIntent_fst⟩
  · simp only [DurableStore.cursor, hstate, Tables.loopState]
  · simp only [DurableStore.ackedSequence, hstate, Tables.loopState]
  · simp only [DurableStore.progressGeneration, hstate, Tables.loopState]
  · simp only [DurableStore.input, DurableStore.hasInput, hstate, Tables.loopState]
    cases hi : s.tables.input with
    | none => rfl
    | some row => simp [DurableStore.tables] at hi ⊢; rw [hi]
  · simp only [DurableStore.hasInput, hstate, Tables.loopState, Option.isSome_map]
  · simp only [DurableStore.continuation, hstate, Tables.loopState]
  · simp only [DurableStore.hasBatches, hstate, Tables.loopState, List.isEmpty_map]
  · simp only [DurableStore.nextBatch, DurableStore.hasBatches, hstate, Tables.loopState,
      List.isEmpty_map]
    cases hr : s.tables.batches.rows with
    | nil => rfl
    | cons row rows => simp [DurableStore.tables] at hr ⊢; rw [hr]
  · rw [h.loadRoomMetadata_eq]

/-- The mirrors are invisible: after any run of nested blocks, failures and reopenings each accessor
returns what a fresh read of the current transaction's tables returns. -/
theorem readsFresh_runAll (streamId : Nat) (t : Tables) (actions : List StoreAction) :
    ReadsFresh ((opened streamId t).runAll actions) :=
  ((coherent_opened streamId t).runAll actions).readsFresh

end DurableStore

end Nio.Durable
