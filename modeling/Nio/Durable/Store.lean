import Nio.Durable.Model
import Nio.Lib.Nested
import Mathlib.Data.List.Sort

/-!
# The durable store

`DurableStore` keeps its tables in one SQLite database and mirrors three parts of them beside the
connection: the rows that the sync loop polls, the metadata of the rooms and the pending local
intent. The model is an open store; that a closed one refuses every call is left out.

A mutation raises outside a transaction. SQLite itself raises for text that UTF-8 cannot encode and
for a row that a key already holds; neither changes the tables.
-/

namespace Nio.Durable

open Nio.Py
open Nio.Lib

inductive StoreError where
  | localProtocol (message : String)
  | integrity
  | value (e : ValueError)
  /-- A transaction that SQLite could not begin, run or commit. -/
  | database
  deriving DecidableEq, Repr

/-! ## Tables -/

structure InputRow where
  body : List Nat
  continuation : Str
  deriving DecidableEq

structure BatchRow where
  sequence : Nat
  records : Str
  completesSync : Bool
  deriving DecidableEq

/-- The table of batches in the order of its primary key. `AUTOINCREMENT` keeps the greatest key
that was ever used. -/
structure BatchTable where
  rows : List BatchRow
  lastRowid : Nat
  ordered : (rows.map (·.sequence)).Pairwise (· < ·)
  bounded : ∀ r ∈ rows, 0 < r.sequence ∧ r.sequence ≤ lastRowid

namespace BatchTable

theorem ordered_nil : (([] : List BatchRow).map (·.sequence)).Pairwise (· < ·) := .nil

def empty : BatchTable := ⟨[], 0, ordered_nil, by simp⟩

/-- The key of the next row; `gap` is what SQLite may leave out. -/
def nextRowid (t : BatchTable) (gap : Nat) : Nat := t.lastRowid + 1 + gap

def insert (t : BatchTable) (gap : Nat) (records : Str) (completesSync : Bool) : BatchTable where
  rows := t.rows ++ [⟨t.nextRowid gap, records, completesSync⟩]
  lastRowid := t.nextRowid gap
  ordered := by
    rw [List.map_append, List.pairwise_append]
    refine ⟨t.ordered, List.pairwise_singleton _ _, fun a ha b hb => ?_⟩
    obtain ⟨r, hr, rfl⟩ := List.mem_map.mp ha
    rw [List.map_singleton, List.mem_singleton] at hb
    have := (t.bounded r hr).2
    simp only [nextRowid] at hb
    omega
  bounded := by
    intro r hr
    rcases List.mem_append.mp hr with hr | hr
    · have := t.bounded r hr
      simp only [nextRowid]
      omega
    · rw [List.mem_singleton.mp hr]
      simp only [nextRowid]
      omega

def delete (t : BatchTable) (sequence : Nat) : BatchTable where
  rows := t.rows.filter fun r => r.sequence ≠ sequence
  lastRowid := t.lastRowid
  ordered := t.ordered.sublist (List.filter_sublist.map _)
  bounded := fun r hr => t.bounded r (List.mem_filter.mp hr).1

/-- Deleting the oldest row takes only that row out: no other row has its key. -/
theorem delete_head {t : BatchTable} {sequence : Nat}
    (h : (t.rows.map (·.sequence)).head? = some sequence) :
    (t.delete sequence).rows = t.rows.tail := by
  obtain ⟨rows, last, hord, hb⟩ := t
  simp only [delete] at h ⊢
  cases rows with
  | nil => rfl
  | cons r rs =>
    obtain rfl := Option.some.inj h
    obtain ⟨hlt, -⟩ := List.pairwise_cons.mp hord
    have hkeep : ∀ r' ∈ rs, decide (r'.sequence ≠ r.sequence) = true := by
      intro r' hr'
      have hr : r.sequence < r'.sequence := hlt r'.sequence (List.mem_map_of_mem hr')
      exact decide_eq_true (show r'.sequence ≠ r.sequence by omega)
    rw [List.filter_cons_of_neg (by simp), List.filter_eq_self.mpr hkeep, List.tail_cons]

end BatchTable

structure Tables where
  cursor : Option Str
  ackedSequence : Nat
  input : Option InputRow
  batches : BatchTable
  /-- Room metadata by room. -/
  rooms : List (Str × Str)
  /-- Rows of `NioDurableCrypto` by kind and key. -/
  crypto : List ((Str × Str) × Str)

namespace Tables

/-- The tables of a new store. -/
def fresh (cursor : Option Str) : Tables := ⟨cursor, 0, none, .empty, [], []⟩

/-- `SELECT body FROM NioDurableCrypto WHERE kind='membership' AND key='current'` -/
def intentRow (t : Tables) : Option Str :=
  (t.crypto.find? fun r => r.1 = (py "membership", py "current")).map (·.2)

def deleteBatch (t : Tables) (sequence : Nat) : Tables :=
  { t with batches := t.batches.delete sequence, ackedSequence := sequence }

end Tables

/-! ## The store object -/

/-- The rows that the sync loop polls. -/
structure LoopState where
  cursor : Option Str
  ackedSequence : Nat
  continuation : Option Str
  pending : List Nat
  deriving DecidableEq

def Tables.loopState (t : Tables) : LoopState :=
  ⟨t.cursor, t.ackedSequence, t.input.map (·.continuation), t.batches.rows.map (·.sequence)⟩

structure DurableStore where
  streamId : Nat
  db : Nested Tables
  roomMetadata : Option (List (Str × Str))
  /-- The local intent once it was read: `_intent_cached` and `_local_intent`. -/
  localIntent : Option (Option Json)
  loopState : Option LoopState

/-- What a method returns or raises, and the store after it. -/
abbrev Outcome (α : Type) := Except StoreError α × DurableStore

namespace DurableStore

/-- A store that was just opened. -/
def opened (streamId : Nat) (tables : Tables) : DurableStore :=
  ⟨streamId, .idle tables, none, none, none⟩

/-- The process stops and the store is opened again: what was not committed is lost. -/
def reopen (s : DurableStore) : DurableStore := opened s.streamId s.db.committed

def tables (s : DurableStore) : Tables := s.db.current

def write (s : DurableStore) (f : Tables → Tables) : DurableStore := { s with db := s.db.update f }

/-! ### Transactions -/

/-- The beginning of `transaction()`. -/
def enter (s : DurableStore) : DurableStore :=
  { s with db := s.db.enter, localIntent := none }

/-- A block that ends without an exception and commits. -/
def exit (s : DurableStore) : DurableStore :=
  { s with db := s.db.release, localIntent := none }

/-- A block that an exception leaves, or whose commit fails. -/
def abort (s : DurableStore) : DurableStore :=
  { s with db := s.db.rollback, roomMetadata := none, localIntent := none, loopState := none }

/-- `_require_transaction` -/
def inTransaction {α : Type} (s : DurableStore) (body : Outcome α) : Outcome α :=
  if s.db.depth = 0 then (.error (.localProtocol "durable mutation requires a transaction"), s)
  else body

/-- SQLite takes the text. -/
def bindText (s : Str) : Except StoreError Unit :=
  if s.Encodable then .ok () else .error (.value .unicodeEncode)

def encoded (r : Except ValueError Str) : Except StoreError Str :=
  match r with
  | .error e => .error (.value e)
  | .ok t => do
    bindText t
    return t

/-- A text that SQLite takes is one that UTF-8 can encode. -/
theorem encoded_ok {r : Except ValueError Str} {text : Str} (h : encoded r = .ok text) :
    r = .ok text ∧ text.Encodable := by
  cases r with
  | error e => cases h
  | ok t =>
    simp only [encoded, bindText] at h
    split at h
    · next ht =>
      obtain rfl := Except.ok.inj h
      exact ⟨rfl, ht⟩
    · cases h

/-! ### Loop state -/

/-- `_state` -/
def state (s : DurableStore) : LoopState × DurableStore :=
  match s.loopState with
  | some l => (l, s)
  | none => (s.tables.loopState, { s with loopState := some s.tables.loopState })

def cursor (s : DurableStore) : Option Str × DurableStore :=
  let (l, s) := s.state
  (l.cursor, s)

def setCursor (s : DurableStore) (cursor : Str) : Outcome Unit :=
  s.inTransaction <|
    let (l, s) := s.state
    match bindText cursor with
    | .error e => (.error e, s)
    | .ok _ =>
      (.ok (), { s.write (fun t => { t with cursor := some cursor }) with
        loopState := some { l with cursor := some cursor } })

def ackedSequence (s : DurableStore) : Nat × DurableStore :=
  let (l, s) := s.state
  (l.ackedSequence, s)

def progressGeneration (s : DurableStore) : Nat × DurableStore :=
  let (l, s) := s.state
  let newest := l.pending.getLastD 0
  (l.ackedSequence + max l.ackedSequence newest, s)

def hasInput (s : DurableStore) : Bool × DurableStore :=
  let (l, s) := s.state
  (l.continuation.isSome, s)

/-- `_decode_continuation` -/
def decodeContinuation (encoded : Str) : Except StoreError Json :=
  match loads encoded with
  | .error e => .error (.value e)
  | .ok (.obj kvs) => .ok (.obj kvs)
  | .ok _ => .error (.localProtocol "invalid stored continuation")

/-- The decoded continuation of the retained input, if there is one. -/
def decodeOptional : Option Str → Except StoreError (Option Json)
  | none => .ok none
  | some encoded => (decodeContinuation encoded).map some

/-- The row of the retained input, if there is one. -/
def readInput : Option InputRow → Except StoreError (Option (List Nat × Json))
  | none => .ok none
  | some row => (decodeContinuation row.continuation).map fun c => some (row.body, c)

def input (s : DurableStore) : Outcome (Option (List Nat × Json)) :=
  let (has, s) := s.hasInput
  if has then (readInput s.tables.input, s) else (.ok none, s)

def continuation (s : DurableStore) : Outcome (Option Json) :=
  let (l, s) := s.state
  (decodeOptional l.continuation, s)

def capture (s : DurableStore) (body : List Nat) : Outcome Unit :=
  s.inTransaction <|
    let (l, s) := s.state
    if l.continuation.isSome then
      (.error (.localProtocol "cannot replace unfinished durable response"), s)
    else if s.tables.input.isSome then (.error .integrity, s)
    else
      (.ok (), { s.write (fun t => { t with input := some ⟨body, py "\x7b\x7d"⟩ }) with
        loopState := some { l with continuation := some (py "\x7b\x7d") } })

def saveContinuation (s : DurableStore) (continuation : Json) : Outcome Unit :=
  s.inTransaction <|
    let (l, s) := s.state
    match encoded (encodeJson continuation) with
    | .error e => (.error e, s)
    | .ok text =>
      (.ok (), { s.write (fun t => { t with
          input := t.input.map fun row => { row with continuation := text } }) with
        loopState := some { l with continuation := l.continuation.map fun _ => text } })

def finishInput (s : DurableStore) : Outcome Unit :=
  s.inTransaction <|
    let (l, s) := s.state
    (.ok (), { s.write (fun t => { t with input := none }) with
      loopState := some { l with continuation := none } })

/-! ### Batches -/

/-- The text that `publish` stores. -/
def batchText (records : List SyncRecord) : Option Str → Except ValueError Str
  | some encodedRecords => .ok encodedRecords
  | none => encodeRecords records

/-- `publish`; `gap` is SQLite's choice of the key. -/
def publish (s : DurableStore) (records : List SyncRecord) (completesSync : Bool)
    (encodedRecords : Option Str) (gap : Nat) : Outcome SyncBatch :=
  s.inTransaction <|
    let (l, s) := s.state
    match encoded (batchText records encodedRecords) with
    | .error e => (.error e, s)
    | .ok text =>
      let lastrowid := s.tables.batches.nextRowid gap
      (.ok ⟨s.streamId, lastrowid, records, completesSync⟩,
        { s.write (fun t => { t with batches := t.batches.insert gap text completesSync }) with
          loopState := some { l with pending := l.pending ++ [lastrowid] } })

def hasBatches (s : DurableStore) : Bool × DurableStore :=
  let (l, s) := s.state
  (!l.pending.isEmpty, s)

/-- A stored row as a batch. -/
def readBatch (streamId : Nat) (row : BatchRow) : Except StoreError SyncBatch :=
  match decodeRecords row.records with
  | .error _ => .error (.localProtocol "invalid stored durable batch")
  | .ok records => .ok ⟨streamId, row.sequence, records, row.completesSync⟩

/-- The oldest row as a batch, if there is one. -/
def oldestBatch (streamId : Nat) : List BatchRow → Except StoreError (Option SyncBatch)
  | [] => .ok none
  | row :: _ => (readBatch streamId row).map some

def nextBatch (s : DurableStore) : Outcome (Option SyncBatch) :=
  let (has, s) := s.hasBatches
  if has then (oldestBatch s.streamId s.tables.batches.rows, s) else (.ok none, s)

/-- `ack`; the flag says whether its own transaction goes through. -/
def ack (s : DurableStore) (batch : SyncBatch) (commits : Bool) : Outcome Unit :=
  if batch.streamId ≠ s.streamId then
    (.error (.localProtocol "batch belongs to another durable stream"), s)
  else
    let (l, s) := s.state
    if batch.sequence ≤ l.ackedSequence then (.ok (), s)
    else if l.pending.head? ≠ some batch.sequence then
      (.error (.localProtocol "acknowledgement must name the oldest batch"), s)
    else
      let s := s.enter.write fun t => t.deleteBatch batch.sequence
      let s := { s with
        loopState := some { l with pending := l.pending.tail, ackedSequence := batch.sequence } }
      if commits then (.ok (), s.exit) else (.error .database, s.abort)

/-! ### Room metadata -/

def loadRoomMetadata (s : DurableStore) : List (Str × Str) × DurableStore :=
  match s.roomMetadata with
  | some m => (m, s)
  | none => (s.tables.rooms, { s with roomMetadata := some s.tables.rooms })

def saveRoomMetadata (s : DurableStore) (roomId metadata : Str) : Outcome Unit :=
  s.inTransaction <|
    let (m, s) := s.loadRoomMetadata
    if dictGet? m roomId = some metadata then (.ok (), s)
    else
      match bindText roomId, bindText metadata with
      | .ok _, .ok _ =>
        (.ok (), { s.write (fun t => { t with rooms := dictSet t.rooms roomId metadata }) with
          roomMetadata := some (dictSet m roomId metadata) })
      | _, _ => (.error (.value .unicodeEncode), s)

/-! ### Local intent -/

/-- The decoded intent row. -/
def decodeIntent : Option Str → Except StoreError (Option Json)
  | none => .ok none
  | some body =>
    match loads body with
    | .error e => .error (.value e)
    | .ok v => .ok (some v)

def readLocalIntent (s : DurableStore) : Outcome (Option Json) :=
  match s.localIntent with
  | some intent => (.ok intent, s)
  | none =>
    match decodeIntent s.tables.intentRow with
    | .error e => (.error e, s)
    | .ok intent => (.ok intent, { s with localIntent := some intent })

def saveLocalIntent (s : DurableStore) (intent : Json) (create : Bool) : Outcome Unit :=
  s.inTransaction <|
    match encoded (encodeJson intent) with
    | .error e => (.error e, s)
    | .ok text =>
      let key := (py "membership", py "current")
      if create then
        if s.tables.crypto.any fun r => r.1 = key then (.error .integrity, s)
        else
          (.ok (), { s.write (fun t => { t with crypto := t.crypto ++ [(key, text)] }) with
            localIntent := none })
      else
        (.ok (), { s.write (fun t => { t with
            crypto := t.crypto.map fun r => if r.1 = key then (key, text) else r }) with
          localIntent := none })

def deleteLocalIntent (s : DurableStore) : Outcome Unit :=
  s.inTransaction
    (.ok (), { s.write (fun t => { t with
        crypto := t.crypto.filter fun r => r.1.1 ≠ py "membership" }) with
      localIntent := none })

end DurableStore

end Nio.Durable
