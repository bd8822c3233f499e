import Nio.Durable.StoreCache
import Nio.Lib.Log

/-!
# Delivery of the published batches

A history beside the store records which batches were published and which sequences were
acknowledged; it is committed and rolled back with the tables. The table of batches is the pending
part of that history, whatever blocks, failures and reopenings the run had.

* `Delivery.sound_runAll` — the table carries the history after every run
* `Delivery.delivers_and_advances` — the consumer reads the committed batches in order, each until
  it is acknowledged, and what is committed and the progress generation only grow
-/

namespace Nio.Durable

open Nio.Py
open Nio.Lib
open DurableStore

/-! ## Histories -/

/-- The batches in the order of their publication, and the acknowledged sequences in theirs. -/
structure History where
  published : List SyncBatch
  acked : List Nat

namespace History

def le (h h' : History) : Prop := h.published <+: h'.published ∧ h.acked <+: h'.acked

theorem le_refl (h : History) : h.le h := ⟨List.prefix_refl _, List.prefix_refl _⟩

theorem le_trans (a b c : History) (hab : a.le b) (hbc : b.le c) : a.le c :=
  ⟨hab.1.trans hbc.1, hab.2.trans hbc.2⟩

/-- The oldest batch that is not acknowledged. -/
def oldest (h : History) : Option SyncBatch := h.published[h.acked.length]?

def publish (batch : SyncBatch) (h : History) : History :=
  { h with published := h.published ++ [batch] }

def acknowledge (sequence : Nat) (h : History) : History :=
  { h with acked := h.acked ++ [sequence] }

end History

/-- What a caller promises: a published record has an event object, and a text that comes with the
records is theirs. -/
def StoreAction.Typed : StoreAction → Prop
  | .publish records _ encodedRecords _ =>
    (∀ r ∈ records, r.WellTyped) ∧ ∀ t, encodedRecords = some t → encodeRecords records = .ok t
  | _ => True

/-- What an action adds to the history. An acknowledgement counts when it returns and its sequence
was not acknowledged before. -/
def recordAction (s : DurableStore) (n : Nested History) : StoreAction → Nested History
  | .enter => n.enter
  | .exit => if s.db.depth = 0 then n else n.release
  | .raise _ => if s.db.depth = 0 then n else n.rollback
  | .publish records completesSync encodedRecords gap =>
    match (s.publish records completesSync encodedRecords gap).1 with
    | .ok batch => n.update (History.publish batch)
    | .error _ => n
  | .ack batch commits =>
    match (s.ack batch commits).1 with
    | .ok _ =>
      if s.ackedSequence.1 < batch.sequence then n.update (History.acknowledge batch.sequence)
      else n
    | .error _ => n
  | .reopen => .idle n.committed
  | _ => n

structure Delivery where
  store : DurableStore
  history : Nested History
  /-- What the consumer was given, in order. -/
  given : List SyncBatch

inductive DeliveryAction where
  | store (a : StoreAction) (typed : a.Typed)
  /-- The consumer asks for the next batch. It runs between the blocks of the session, which do not
  await. -/
  | receive

namespace Delivery

def begin (streamId : Nat) (cursor : Option Str) : Delivery :=
  ⟨opened streamId (.fresh cursor), .idle ⟨[], []⟩, []⟩

def receive (d : Delivery) : Delivery :=
  if d.store.db.depth = 0 then
    match d.store.nextBatch with
    | (.ok (some batch), s) => { d with store := s, given := d.given ++ [batch] }
    | (_, s) => { d with store := s }
  else d

def step (d : Delivery) : DeliveryAction → Delivery
  | .store a _ => { d with store := d.store.run a, history := recordAction d.store d.history a }
  | .receive => d.receive

def runAll (d : Delivery) (actions : List DeliveryAction) : Delivery := actions.foldl step d

end Delivery

/-! ## What the tables hold -/

abbrev Feed := Log SyncBatch.sequence

def Feed.history (l : Feed) : History := ⟨l.entries, l.consumed.map (·.sequence)⟩

theorem Feed.oldest_history (l : Feed) : (Feed.history l).oldest = l.pending.head? := by
  unfold History.oldest Feed.history Log.pending
  rw [List.length_map, l.length_consumed, List.head?_drop]

/-- The rows are the pending entries of the log. -/
structure Carries (streamId : Nat) (t : Tables) (l : Feed) : Prop where
  rows : t.batches.rows.map (readBatch streamId) = l.pending.map .ok
  ackedSequence : t.ackedSequence = lastKey SyncBatch.sequence l.consumed
  lastRowid : lastKey SyncBatch.sequence l.entries ≤ t.batches.lastRowid

def Linked (streamId : Nat) (t : Tables) (h : History) : Prop :=
  ∃ l : Feed, h = l.history ∧ Carries streamId t l

/-- A batch that is read has the stream of its store and the sequence of its row. -/
theorem readBatch_ok {streamId : Nat} {row : BatchRow} {b : SyncBatch}
    (h : readBatch streamId row = .ok b) : b.streamId = streamId ∧ b.sequence = row.sequence := by
  unfold readBatch at h
  split at h
  · cases h
  · obtain rfl := Except.ok.inj h
    exact ⟨rfl, rfl⟩

theorem sequences_of_rows {streamId : Nat} {rows : List BatchRow} {bs : List SyncBatch}
    (h : rows.map (readBatch streamId) = bs.map .ok) :
    rows.map (·.sequence) = bs.map (·.sequence) := by
  induction rows generalizing bs with
  | nil => cases bs with
    | nil => rfl
    | cons b bs => cases h
  | cons row rows ih => cases bs with
    | nil => cases h
    | cons b bs =>
      obtain ⟨hb, hbs⟩ := List.cons.inj h
      rw [List.map_cons, List.map_cons, ih hbs, (readBatch_ok hb).2]

namespace Carries

variable {streamId : Nat} {t : Tables} {l : Feed}

/-- The rows have the sequences of the batches that are pending. -/
theorem sequences (h : Carries streamId t l) :
    t.batches.rows.map (·.sequence) = l.pending.map (·.sequence) := sequences_of_rows h.rows

/-- Tables with the same batches and the same acknowledgement carry the same log. -/
theorem frame {t' : Tables} (h : Carries streamId t l) (hb : t'.batches = t.batches)
    (ha : t'.ackedSequence = t.ackedSequence) : Carries streamId t' l :=
  ⟨by rw [hb]; exact h.rows, by rw [ha]; exact h.ackedSequence, by rw [hb]; exact h.lastRowid⟩

/-- Inserting a batch appends it to the log. -/
theorem insert (h : Carries streamId t l) {gap : Nat} {records : Str} {completesSync : Bool}
    {b : SyncBatch}
    (hb : readBatch streamId ⟨t.batches.nextRowid gap, records, completesSync⟩ = .ok b) :
    ∃ hlt, Carries streamId { t with batches := t.batches.insert gap records completesSync }
      (l.append b hlt) := by
  have hseq : b.sequence = t.batches.nextRowid gap := (readBatch_ok hb).2
  have hlt : lastKey SyncBatch.sequence l.entries < b.sequence := by
    have := h.lastRowid
    rw [hseq, BatchTable.nextRowid]
    omega
  refine ⟨hlt, ?_, ?_, ?_⟩
  · rw [Log.pending_append, List.map_append, ← h.rows]
    simp only [BatchTable.insert, List.map_append, List.map_cons, List.map_nil, hb]
  · rw [Log.consumed_append]
    exact h.ackedSequence
  · show lastKey SyncBatch.sequence (l.entries ++ [b]) ≤ t.batches.nextRowid gap
    rw [lastKey_append, hseq]

/-- Deleting the oldest batch advances the log. -/
theorem delete (h : Carries streamId t l) {b : SyncBatch} {rest : List SyncBatch}
    (hp : l.pending = b :: rest) :
    ∃ hne, Carries streamId (t.deleteBatch b.sequence) (l.advance hne) := by
  have hne : l.pending ≠ [] := by
    rw [hp]
    exact List.cons_ne_nil _ _
  have hhead : (t.batches.rows.map (·.sequence)).head? = some b.sequence := by
    rw [h.sequences, hp]
    rfl
  refine ⟨hne, ?_, ?_, h.lastRowid⟩
  · simp only [Tables.deleteBatch]
    rw [BatchTable.delete_head hhead, List.map_tail, h.rows, Log.pending_advance, List.map_tail]
  · rw [Log.consumed_advance hp hne, lastKey_append]
    rfl

/-- The oldest batch is the first that is pending. -/
theorem oldestBatch_eq (h : Carries streamId t l) :
    oldestBatch streamId t.batches.rows = .ok l.pending.head? := by
  have hrows := h.rows
  cases hr : t.batches.rows with
  | nil =>
    rw [hr] at hrows
    rw [List.map_eq_nil_iff.mp hrows.symm]
    rfl
  | cons row rows =>
    rw [hr] at hrows
    cases hp : l.pending with
    | nil => rw [hp] at hrows; cases hrows
    | cons b bs =>
      rw [hp] at hrows
      simp only [oldestBatch, (List.cons.inj hrows).1, map_ok, List.head?_cons]

theorem progress (h : Carries streamId t l) : t.ackedSequence +
    max t.ackedSequence ((t.batches.rows.map (·.sequence)).getLastD 0) = l.progress := by
  rw [h.sequences, h.ackedSequence, Log.progress_eq]
  rfl

end Carries

/-! ## What each operation does to the batches -/

variable {s : DurableStore}

/-- A transaction leaves the store as it was, or is its body. -/
theorem inTransaction_cases {α : Type} (s : DurableStore) (body : Outcome α) :
    (∃ e, s.inTransaction body = (.error e, s)) ∨ s.inTransaction body = body := by
  unfold inTransaction
  split
  · exact Or.inl ⟨_, rfl⟩
  · exact Or.inr rfl

/-- An operation that leaves the batches and the acknowledged sequence alone. -/
structure Quiet (s s' : DurableStore) : Prop where
  streamId : s'.streamId = s.streamId
  db : ∃ f : Tables → Tables, s'.db = s.db.update f ∧
    ∀ t, (f t).batches = t.batches ∧ (f t).ackedSequence = t.ackedSequence

/-- A step that does not write the database is quiet. -/
theorem Quiet.of_db {s' : DurableStore} (hid : s'.streamId = s.streamId) (h : s'.db = s.db) :
    Quiet s s' := ⟨hid, id, h, fun _ => ⟨rfl, rfl⟩⟩

/-- So is one that writes neither batches nor the acknowledgement. -/
theorem Quiet.write {f : Tables → Tables} {m : Option (List (Str × Str))}
    {i : Option (Option Json)} {l : Option LoopState}
    (hf : ∀ t, (f t).batches = t.batches ∧ (f t).ackedSequence = t.ackedSequence := by
      intro t
      exact ⟨rfl, rfl⟩) :
    Quiet s ⟨s.streamId, s.db.update f, m, i, l⟩ := ⟨rfl, f, rfl, hf⟩

theorem Quiet.inTransaction {α : Type} {body : Outcome α} (h : Quiet s body.2) :
    Quiet s (s.inTransaction body).2 := by
  rcases inTransaction_cases s body with ⟨e, he⟩ | he
  · rw [he]
    exact Quiet.of_db rfl rfl
  · rw [he]
    exact h

/-- A publication appends the row that reads back as the batch it returns, or changes nothing. -/
theorem publish_cases (hc : Coherent s) {records : List SyncRecord} {completesSync : Bool}
    {encodedRecords : Option Str} {gap : Nat}
    (ht : StoreAction.Typed (.publish records completesSync encodedRecords gap)) :
    (∃ e, (s.publish records completesSync encodedRecords gap).1 = .error e ∧
      Quiet s (s.publish records completesSync encodedRecords gap).2) ∨
    ∃ text b, (s.publish records completesSync encodedRecords gap).1 = .ok b ∧
      readBatch s.streamId ⟨s.tables.batches.nextRowid gap, text, completesSync⟩ = .ok b ∧
      (s.publish records completesSync encodedRecords gap).2.streamId = s.streamId ∧
      (s.publish records completesSync encodedRecords gap).2.db =
        s.db.update fun t => { t with batches := t.batches.insert gap text completesSync } := by
  obtain ⟨hrecords, htext⟩ := ht
  have henc : batchText records encodedRecords = encodeRecords records := by
    cases encodedRecords with
    | none => rfl
    | some t => exact (htext t rfl).symm
  unfold publish
  rcases inTransaction_cases s _ with ⟨e, h⟩ | h
  · rw [h]
    exact Or.inl ⟨e, rfl, Quiet.of_db rfl rfl⟩
  · rw [h]
    simp only [hc.state_eq, henc]
    split
    · next e _ => exact Or.inl ⟨e, rfl, Quiet.of_db rfl rfl⟩
    · next text hok =>
      refine Or.inr ⟨text, _, rfl, ?_, rfl, rfl⟩
      obtain ⟨hrec, hutf⟩ := encoded_ok hok
      simp only [readBatch, decodeRecords_encodeRecords hrecords hrec hutf]
      rfl

/-- An acknowledgement deletes the oldest row, which it names, or changes nothing. -/
theorem ack_cases (hc : Coherent s) (batch : SyncBatch) (commits : Bool) :
    (((s.ack batch commits).2.streamId = s.streamId ∧ (s.ack batch commits).2.db = s.db) ∧
      ((s.ack batch commits).1 = .ok () → batch.sequence ≤ s.tables.ackedSequence)) ∨
    ((s.ack batch commits).1 = .ok () ∧ batch.streamId = s.streamId ∧
      s.tables.ackedSequence < batch.sequence ∧
      (s.tables.batches.rows.map (·.sequence)).head? = some batch.sequence ∧
      (s.ack batch commits).2.streamId = s.streamId ∧
      (s.ack batch commits).2.db = s.db.update fun t => t.deleteBatch batch.sequence) := by
  unfold DurableStore.ack
  split
  · exact Or.inl ⟨⟨rfl, rfl⟩, fun h => nomatch h⟩
  · next hid =>
    simp only [hc.state_eq]
    split
    · next hle => exact Or.inl ⟨⟨rfl, rfl⟩, fun _ => hle⟩
    · next hlt =>
      split
      · exact Or.inl ⟨⟨rfl, rfl⟩, fun h => nomatch h⟩
      · next hhead =>
        rw [ne_eq, not_not] at hhead hid
        split
        · exact Or.inr ⟨rfl, hid, Nat.lt_of_not_le hlt, hhead, rfl, rfl⟩
        · exact Or.inl ⟨⟨rfl, rfl⟩, fun h => nomatch h⟩

/-- The oldest batch of the stream can be acknowledged. -/
theorem ack_ok (hc : Coherent s) {batch : SyncBatch} (hid : batch.streamId = s.streamId)
    (hlt : s.tables.ackedSequence < batch.sequence)
    (hhead : (s.tables.batches.rows.map (·.sequence)).head? = some batch.sequence) :
    (s.ack batch true).1 = .ok () := by
  have hnew : ¬ batch.sequence ≤ s.tables.loopState.ackedSequence := Nat.not_le.mpr hlt
  have hold : ¬ s.tables.loopState.pending.head? ≠ some batch.sequence := not_not.mpr hhead
  simp only [DurableStore.ack, if_neg (not_not.mpr hid), hc.state_eq, if_neg hnew, if_neg hold,
    if_true]

theorem quiet_state (s : DurableStore) : Quiet s s.state.2 := by
  unfold state
  split <;> exact Quiet.of_db rfl rfl

/-- Reading is quiet, -/
theorem quiet_afterRead (hc : Coherent s) (accessor : StoreRead) :
    Quiet s (s.afterRead accessor) := by
  cases accessor with
  | roomMetadata =>
    simp only [afterRead, hc.loadRoomMetadata_eq]
    exact Quiet.of_db rfl rfl
  | localIntent =>
    simp only [afterRead, readLocalIntent]
    split
    · exact Quiet.of_db rfl rfl
    · split <;> exact Quiet.of_db rfl rfl
  | nextBatch =>
    simp only [afterRead, nextBatch, hasBatches, hc.state_eq]
    split <;> exact Quiet.of_db rfl rfl
  | input =>
    simp only [afterRead, input, hasInput, hc.state_eq]
    split <;> exact Quiet.of_db rfl rfl
  | _ => exact quiet_state s

/-- so is capturing a response, -/
theorem quiet_capture (hc : Coherent s) (body : List Nat) : Quiet s (s.capture body).2 := by
  refine Quiet.inTransaction ?_
  simp only [hc.state_eq]
  split
  · exact Quiet.of_db rfl rfl
  · split
    · exact Quiet.of_db rfl rfl
    · simp only [write]
      exact Quiet.write

/-- saving a continuation, -/
theorem quiet_saveContinuation (hc : Coherent s) (c : Json) : Quiet s (s.saveContinuation c).2 := by
  refine Quiet.inTransaction ?_
  simp only [hc.state_eq]
  split
  · exact Quiet.of_db rfl rfl
  · simp only [write]
    exact Quiet.write

/-- ending an input, -/
theorem quiet_finishInput (hc : Coherent s) : Quiet s s.finishInput.2 := by
  refine Quiet.inTransaction ?_
  simp only [hc.state_eq, write]
  exact Quiet.write

/-- setting the cursor, -/
theorem quiet_setCursor (hc : Coherent s) (cursor : Str) : Quiet s (s.setCursor cursor).2 := by
  refine Quiet.inTransaction ?_
  simp only [hc.state_eq]
  split
  · exact Quiet.of_db rfl rfl
  · simp only [write]
    exact Quiet.write

/-- saving metadata -/
theorem quiet_saveRoomMetadata (hc : Coherent s) (roomId metadata : Str) :
    Quiet s (s.saveRoomMetadata roomId metadata).2 := by
  refine Quiet.inTransaction ?_
  simp only [hc.loadRoomMetadata_eq]
  split
  · exact Quiet.of_db rfl rfl
  · split
    · simp only [write]
      exact Quiet.write
    · exact Quiet.of_db rfl rfl

/-- and saving -/
theorem quiet_saveLocalIntent (s : DurableStore) (intent : Json) (create : Bool) :
    Quiet s (s.saveLocalIntent intent create).2 := by
  refine Quiet.inTransaction ?_
  split
  · exact Quiet.of_db rfl rfl
  · simp only
    split
    · split
      · exact Quiet.of_db rfl rfl
      · simp only [write]
        exact Quiet.write
    · simp only [write]
      exact Quiet.write

/-- or deleting a local operation. -/
theorem quiet_deleteLocalIntent (s : DurableStore) : Quiet s s.deleteLocalIntent.2 := by
  refine Quiet.inTransaction ?_
  simp only [write]
  exact Quiet.write

/-! ## The invariant of a delivery -/

/-- The database and the history are nested alike, and each version of the tables carries its
version of the history. -/
structure Tracks (s : DurableStore) (n : Nested History) : Prop where
  linked : Nested.Rel (Linked s.streamId) s.db n
  ascending : n.Ascending History.le

namespace Tracks

variable {n : Nested History}

theorem depth_eq (h : Tracks s n) : s.db.depth = n.depth := h.linked.saved.length_eq

theorem quiet {s' : DurableStore} (h : Tracks s n) (hq : Quiet s s') : Tracks s' n := by
  obtain ⟨hid, f, hdb, hf⟩ := hq
  refine ⟨?_, h.ascending⟩
  rw [hid, hdb]
  refine ⟨?_, h.linked.saved⟩
  obtain ⟨l, hl, hcar⟩ := h.linked.current
  exact ⟨l, hl, hcar.frame (hf _).1 (hf _).2⟩

/-- One step for the tables and one for the history keep them linked. -/
theorem update {s' : DurableStore} {f : Tables → Tables} {g : History → History} (h : Tracks s n)
    (hid : s'.streamId = s.streamId) (hdb : s'.db = s.db.update f)
    (hf : Linked s.streamId (f s.tables) (g n.current)) (hg : n.current.le (g n.current)) :
    Tracks s' (n.update g) := by
  refine ⟨?_, h.ascending.update History.le_trans hg⟩
  rw [hid, hdb]
  exact h.linked.update fun _ => hf

end Tracks



/-- Publishing records in the store is publishing a batch in the history. -/
theorem Tracks.publish (hc : Coherent s) {n : Nested History} (h : Tracks s n)
    {records : List SyncRecord} {completesSync : Bool} {encodedRecords : Option Str} {gap : Nat}
    (ht : StoreAction.Typed (.publish records completesSync encodedRecords gap)) :
    Tracks (s.publish records completesSync encodedRecords gap).2
      (recordAction s n (.publish records completesSync encodedRecords gap)) := by
  simp only [recordAction]
  rcases publish_cases hc ht with ⟨e, he, hq⟩ | ⟨text, b, hb, hrow, hid, hdb⟩
  · rw [he]
    exact h.quiet hq
  · rw [hb]
    obtain ⟨l, hl, hcar⟩ := h.linked.current
    obtain ⟨hlt, hcar'⟩ := hcar.insert hrow
    refine h.update hid hdb ⟨l.append b hlt, ?_, hcar'⟩ ⟨List.prefix_append _ _, List.prefix_refl _⟩
    rw [hl]
    simp only [History.publish, Feed.history, Log.consumed_append]
    rfl

/-- Acknowledging in the store is advancing the history. -/
theorem Tracks.ack (hc : Coherent s) {n : Nested History} (h : Tracks s n) (batch : SyncBatch)
    (commits : Bool) :
    Tracks (s.ack batch commits).2 (recordAction s n (.ack batch commits)) := by
  have hacked : s.ackedSequence.1 = s.tables.ackedSequence := hc.readsFresh.ackedSequence
  simp only [recordAction, hacked]
  rcases ack_cases hc batch commits with ⟨⟨hid, hdb⟩, hle⟩ | ⟨hok, -, hlt, hhead, hid, hdb⟩
  · have hquiet := h.quiet (Quiet.of_db hid hdb)
    split
    · next hres =>
      rw [if_neg (Nat.not_lt.mpr (hle hres))]
      exact hquiet
    · exact hquiet
  · rw [hok]
    simp only [if_pos hlt]
    obtain ⟨l, hl, hcar⟩ := h.linked.current
    rw [show s.tables.batches.rows.map (·.sequence) = _ from hcar.sequences] at hhead
    cases hp : l.pending with
    | nil => rw [hp] at hhead; cases hhead
    | cons b rest =>
      rw [hp] at hhead
      have hseq : b.sequence = batch.sequence := Option.some.inj hhead
      obtain ⟨hne, hcar'⟩ := hcar.delete hp
      rw [hseq] at hcar'
      refine h.update hid hdb ⟨l.advance hne, ?_, hcar'⟩
        ⟨List.prefix_refl _, List.prefix_append _ _⟩
      rw [hl]
      simp only [History.acknowledge, Feed.history, Log.consumed_advance hp hne, List.map_append,
        List.map_cons, List.map_nil, hseq]
      rfl

/-- The step lemma: every action keeps the tables linked to the history. -/
theorem Tracks.run (hc : Coherent s) {n : Nested History} (h : Tracks s n) {a : StoreAction}
    (ht : a.Typed) : Tracks (s.run a) (recordAction s n a) := by
  cases a with
  | enter => exact ⟨h.linked.enter, h.ascending.enter History.le_refl⟩
  | enterFails => exact h.quiet (Quiet.of_db rfl rfl)
  | exit =>
    simp only [DurableStore.run, recordAction]
    split
    · exact h
    · exact ⟨h.linked.release, h.ascending.release⟩
  | raise torn =>
    simp only [DurableStore.run, recordAction]
    split
    · exact h
    · next hd =>
      rw [tear_abort torn hd]
      exact ⟨h.linked.rollback, h.ascending.rollback⟩
  | publish records completesSync encodedRecords gap => exact h.publish hc ht
  | ack batch commits => exact h.ack hc batch commits
  | capture body => exact h.quiet (quiet_capture hc body)
  | saveContinuation c => exact h.quiet (quiet_saveContinuation hc c)
  | finishInput => exact h.quiet (quiet_finishInput hc)
  | setCursor c => exact h.quiet (quiet_setCursor hc c)
  | saveRoomMetadata roomId metadata => exact h.quiet (quiet_saveRoomMetadata hc roomId metadata)
  | saveLocalIntent intent create => exact h.quiet (quiet_saveLocalIntent s intent create)
  | deleteLocalIntent => exact h.quiet (quiet_deleteLocalIntent s)
  | read accessor => exact h.quiet (quiet_afterRead hc accessor)
  | reopen => exact ⟨Nested.Rel.idle h.linked.committed, Nested.Ascending.idle _⟩

/-- What is committed only grows. -/
theorem committed_recordAction {n : Nested History} (h : Tracks s n) (a : StoreAction) :
    n.committed.le (recordAction s n a).committed := by
  have hrefl := History.le_refl n.committed
  have hpublish : ∀ b, n.committed.le (n.update (History.publish b)).committed := fun b =>
    Nested.committed_update_le History.le_refl ⟨List.prefix_append _ _, List.prefix_refl _⟩
  have hack : ∀ q, n.committed.le (n.update (History.acknowledge q)).committed := fun q =>
    Nested.committed_update_le History.le_refl ⟨List.prefix_refl _, List.prefix_append _ _⟩
  cases a with
  | enter =>
    show n.committed.le n.enter.committed
    rw [Nested.committed_enter]
    exact hrefl
  | exit =>
    simp only [recordAction]
    split
    · exact hrefl
    · exact h.ascending.committed_release History.le_refl
  | raise torn =>
    simp only [recordAction]
    split
    · exact hrefl
    · next hd =>
      rw [Nested.committed_rollback (by rw [← h.depth_eq]; exact hd)]
      exact hrefl
  | publish records completesSync encodedRecords gap =>
    simp only [recordAction]
    split
    · exact hpublish _
    · exact hrefl
  | ack batch commits =>
    simp only [recordAction]
    split
    · split
      · exact hack _
      · exact hrefl
    · exact hrefl
  | _ => exact hrefl

theorem Linked.increasing {streamId : Nat} {t : Tables} {h : History} (hl : Linked streamId t h) :
    (h.published.map (·.sequence)).Pairwise (· < ·) := by
  obtain ⟨l, rfl, -⟩ := hl
  exact l.increasing

namespace Delivery

/-- The batches that the consumer was given, against a history: each one is published and at most
one place ahead of the acknowledgements, in the order of the publication. -/
structure Given (given : List SyncBatch) (h : History) : Prop where
  published : ∀ b ∈ given, ∃ i ≤ h.acked.length, h.published[i]? = some b
  inOrder : (given.map (·.sequence)).Pairwise (· ≤ ·)

theorem Given.mono {given : List SyncBatch} {h h' : History} (hg : Given given h) (hle : h.le h') :
    Given given h' := by
  refine ⟨fun b hb => ?_, hg.inOrder⟩
  obtain ⟨i, hi, hget⟩ := hg.published b hb
  obtain ⟨rest, hrest⟩ := hle.1
  refine ⟨i, Nat.le_trans hi hle.2.length_le, ?_⟩
  rw [← hrest]
  exact List.getElem?_append_left (List.getElem?_eq_some_iff.mp hget).1 ▸ hget

/-- The batch that is handed out next is newer than those handed out. -/
theorem Given.receive {given : List SyncBatch} {h : History} (hg : Given given h)
    (hi : (h.published.map (·.sequence)).Pairwise (· < ·)) {b : SyncBatch}
    (hb : h.oldest = some b) : Given (given ++ [b]) h := by
  refine ⟨fun b' hb' => ?_, ?_⟩
  · rcases List.mem_append.mp hb' with hb' | hb'
    · exact hg.published b' hb'
    · rw [List.mem_singleton.mp hb']
      exact ⟨_, Nat.le_refl _, hb⟩
  · rw [List.map_append, List.pairwise_append]
    refine ⟨hg.inOrder, List.pairwise_singleton _ _, fun x hx y hy => ?_⟩
    obtain ⟨b', hb', rfl⟩ := List.mem_map.mp hx
    rw [List.map_singleton, List.mem_singleton] at hy
    subst hy
    -- an earlier exposure was at or before the oldest pending place
    obtain ⟨i, hile, hget⟩ := hg.published b' hb'
    rcases Nat.eq_or_lt_of_le hile with heq | hlt
    · rw [heq] at hget
      rw [Option.some.inj (hget.symm.trans hb)]
    · exact Nat.le_of_lt (key_lt_of_lt hi hlt hget hb)

structure Sound (d : Delivery) : Prop where
  coherent : Coherent d.store
  tracks : Tracks d.store d.history
  given : Given d.given d.history.committed

theorem sound_begin (streamId : Nat) (cursor : Option Str) : Sound (begin streamId cursor) := by
  refine ⟨coherent_opened _ _, ⟨Nested.Rel.idle ⟨Log.empty, rfl, rfl, rfl, Nat.le_refl _⟩,
    Nested.Ascending.idle _⟩, ?_, List.Pairwise.nil⟩
  intro b hb
  cases hb

/-- Between transactions the consumer reads the oldest batch that is not acknowledged. -/
theorem Sound.nextBatch {d : Delivery} (h : Sound d) (hd : d.store.db.depth = 0) :
    d.store.nextBatch.1 = .ok d.history.committed.oldest := by
  have hn : d.history.depth = 0 := by rw [← h.tracks.depth_eq, hd]
  rw [h.coherent.readsFresh.nextBatch, Nested.committed_of_depth hn]
  obtain ⟨l, hl, hcar⟩ := h.tracks.linked.current
  rw [hl, Feed.oldest_history]
  exact hcar.oldestBatch_eq

/-- Handing out a batch keeps the delivery sound, -/
theorem Sound.receive {d : Delivery} (h : Sound d) : Sound d.receive := by
  unfold Delivery.receive
  split
  · next hd =>
    have hnext := h.nextBatch hd
    have hc : Coherent d.store.nextBatch.2 := h.coherent.afterRead .nextBatch
    have ht : Tracks d.store.nextBatch.2 d.history :=
      h.tracks.quiet (quiet_afterRead h.coherent .nextBatch)
    split
    · next b s hres =>
      rw [hres] at hnext hc ht
      have hold : d.history.committed.oldest = some b := (Except.ok.inj hnext).symm
      exact ⟨hc, ht, h.given.receive h.tracks.linked.committed.increasing hold⟩
    · next r s _ hres =>
      rw [hres] at hc ht
      exact ⟨hc, ht, h.given⟩
  · exact h

/-- as does every action. -/
theorem Sound.step {d : Delivery} (h : Sound d) (a : DeliveryAction) : Sound (d.step a) := by
  cases a with
  | store a typed =>
    exact ⟨h.coherent.run a, h.tracks.run h.coherent typed,
      h.given.mono (committed_recordAction h.tracks a)⟩
  | receive => exact h.receive

theorem Sound.runAll {d : Delivery} (h : Sound d) (actions : List DeliveryAction) :
    Sound (d.runAll actions) := by
  unfold Delivery.runAll
  induction actions generalizing d with
  | nil => exact h
  | cons a actions ih => exact ih (h.step a)

theorem sound_runAll (streamId : Nat) (cursor : Option Str) (actions : List DeliveryAction) :
    Sound ((begin streamId cursor).runAll actions) := (sound_begin streamId cursor).runAll actions

theorem Sound.committed_runAll {d : Delivery} (h : Sound d) (actions : List DeliveryAction) :
    d.history.committed.le (d.runAll actions).history.committed := by
  unfold Delivery.runAll
  induction actions generalizing d with
  | nil => exact History.le_refl _
  | cons a actions ih =>
    refine History.le_trans _ _ _ ?_ (ih (h.step a))
    cases a with
    | store a typed => exact committed_recordAction h.tracks a
    | receive =>
      have hsame : d.receive.history = d.history := by
        unfold Delivery.receive
        split
        · split <;> rfl
        · rfl
      show d.history.committed.le d.receive.history.committed
      rw [hsame]
      exact History.le_refl _

/-! ## What the consumer sees -/

/-- What holds between the store and the history of its run. -/
structure Delivers (d : Delivery) : Prop where
  /-- The acknowledged sequences are a prefix of the publication order. -/
  ackedPrefix : d.history.committed.acked <+: d.history.committed.published.map (·.sequence)
  ordered : (d.history.committed.published.map (·.sequence)).Pairwise (· < ·)
  /-- Every committed batch that is not acknowledged can be read, in order and as published. -/
  readable : d.store.db.committed.batches.rows.map (readBatch d.store.streamId) =
    (d.history.committed.published.drop d.history.committed.acked.length).map .ok
  exposes : d.store.db.depth = 0 → d.store.nextBatch.1 = .ok d.history.committed.oldest
  given : Given d.given d.history.committed
  /-- An acknowledgement of anything but the oldest batch changes nothing, whether it is refused or
  repeats an earlier one. -/
  ackOther : ∀ batch commits, batch.streamId ≠ d.store.streamId ∨
    d.history.current.oldest.map (·.sequence) ≠ some batch.sequence →
    (d.store.ack batch commits).2.db = d.store.db ∧
      recordAction d.store d.history (.ack batch commits) = d.history
  ackOldest : ∀ batch, batch.streamId = d.store.streamId →
    d.history.current.oldest.map (·.sequence) = some batch.sequence →
    (d.store.ack batch true).1 = .ok ()
  progress : d.store.progressGeneration.1 =
    d.history.current.acked.getLastD 0 +
      (d.history.current.published.map (·.sequence)).getLastD 0
  /-- Closing and opening the store again keeps the progress. -/
  reopened : d.store.db.depth = 0 →
    d.store.reopen.progressGeneration.1 = d.store.progressGeneration.1
  /-- A publication returns the batch of the records it was given. -/
  holds : ∀ records completesSync encodedRecords gap batch,
    (d.store.publish records completesSync encodedRecords gap).1 = .ok batch →
    batch.records = records ∧ batch.completesSync = completesSync ∧
      batch.streamId = d.store.streamId

/-- The batch that a publication returns holds the records it was given. -/
theorem publish_holds {records : List SyncRecord} {completesSync : Bool}
    {encodedRecords : Option Str} {gap : Nat} {batch : SyncBatch}
    (hc : Coherent s)
    (h : (s.publish records completesSync encodedRecords gap).1 = .ok batch) :
    batch.records = records ∧ batch.completesSync = completesSync ∧
      batch.streamId = s.streamId := by
  unfold publish at h
  rcases inTransaction_cases s _ with ⟨e, he⟩ | hbody
  · rw [he] at h
    cases h
  · rw [hbody] at h
    simp only [hc.state_eq] at h
    split at h
    · cases h
    · obtain rfl := Except.ok.inj h
      exact ⟨rfl, rfl, rfl⟩

/-- Everything that `Delivers` asks holds of a sound delivery, -/
theorem Sound.delivers {d : Delivery} (h : Sound d) : Delivers d := by
  obtain ⟨l, hl, hcar⟩ := h.tracks.linked.current
  obtain ⟨lc, hlc, hcarc⟩ := h.tracks.linked.committed
  have hacked : d.store.ackedSequence.1 = d.store.tables.ackedSequence :=
    h.coherent.readsFresh.ackedSequence
  have hhead : (d.store.tables.batches.rows.map (·.sequence)).head? =
      d.history.current.oldest.map (·.sequence) := by
    rw [show d.store.tables.batches.rows.map (·.sequence) = _ from hcar.sequences, hl,
      Feed.oldest_history, List.head?_map]
  refine ⟨?_, ?_, ?_, h.nextBatch, h.given, ?_, ?_, ?_, ?_,
    fun _ _ _ _ _ => publish_holds h.coherent⟩
  · rw [hlc]
    exact (lc.consumed_prefix).map _
  · exact h.tracks.linked.committed.increasing
  · rw [hcarc.rows, hlc]
    simp only [Feed.history, List.length_map, lc.length_consumed]
    rfl
  · intro batch commits hother
    rcases ack_cases h.coherent batch commits with ⟨⟨-, hdb⟩, hle⟩ | ⟨-, hid, -, hseq, -, -⟩
    · refine ⟨hdb, ?_⟩
      simp only [recordAction, hacked]
      split
      · next hok => rw [if_neg (Nat.not_lt.mpr (hle hok))]
      · rfl
    · rw [hhead] at hseq
      rcases hother with hne | hne
      · exact absurd hid hne
      · exact absurd hseq hne
  · intro batch hid hseq
    rw [← hhead] at hseq
    have hlt : d.store.tables.ackedSequence < batch.sequence := by
      rw [show d.store.tables.batches.rows.map (·.sequence) = _ from hcar.sequences] at hseq
      obtain ⟨b, hb, hbs⟩ := List.mem_map.mp (List.mem_of_mem_head? hseq)
      rw [← hbs, show d.store.tables.ackedSequence = _ from hcar.ackedSequence]
      exact Log.consumed_lt_pending hb
    exact ack_ok h.coherent hid hlt hseq
  · rw [h.coherent.readsFresh.progressGeneration, hl]
    exact hcar.progress
  · intro hd
    have hfresh : Coherent d.store.reopen := coherent_opened _ _
    have hsame : d.store.reopen.tables = d.store.tables := Nested.committed_of_depth hd
    rw [hfresh.readsFresh.progressGeneration, h.coherent.readsFresh.progressGeneration, hsame]

/-- How a later state of a run lies above an earlier one. -/
structure Advances (d d' : Delivery) : Prop where
  grows : d.history.committed.le d'.history.committed
  /-- An acknowledged batch is not exposed again. -/
  notAgain : ∀ b, b.sequence ∈ d.history.committed.acked → d'.store.db.depth = 0 →
    d'.store.nextBatch.1 ≠ .ok (some b)
  /-- A committed publication or acknowledgement in between raises the progress generation. -/
  progressLt : d.store.db.depth = 0 → d'.store.db.depth = 0 →
    d.history.committed ≠ d'.history.committed →
    d.store.progressGeneration.1 < d'.store.progressGeneration.1
  /-- Duplicate acknowledgements and rolled back writes leave it alone. -/
  progressEq : d.store.db.depth = 0 → d'.store.db.depth = 0 →
    d.history.committed = d'.history.committed →
    d.store.progressGeneration.1 = d'.store.progressGeneration.1

/-- Between transactions the progress generation is that of the log of committed batches. -/
theorem Sound.progress {d : Delivery} (h : Sound d) (hd : d.store.db.depth = 0) :
    ∃ l : Feed, d.history.committed = l.history ∧ d.store.progressGeneration.1 = l.progress := by
  have hn : d.history.depth = 0 := by rw [← h.tracks.depth_eq, hd]
  obtain ⟨l, hl, hcar⟩ := h.tracks.linked.current
  refine ⟨l, by rw [Nested.committed_of_depth hn, hl], ?_⟩
  rw [h.coherent.readsFresh.progressGeneration]
  exact hcar.progress

theorem Feed.le_of_history {l l' : Feed} (h : (Feed.history l).le (Feed.history l')) : l ≤ l' := by
  refine ⟨h.1, ?_⟩
  have := h.2.length_le
  simp only [Feed.history, List.length_map, Log.length_consumed] at this
  exact this

/-- and everything that `Advances` asks of whatever it does next. -/
theorem Sound.advances {d : Delivery} (h : Sound d) (actions : List DeliveryAction) :
    Advances d (d.runAll actions) := by
  have hle := h.committed_runAll actions
  refine ⟨hle, fun b hb hd' hnext => ?_, fun hd hd' hne => ?_, fun hd hd' heq => ?_⟩
  · have hold := Except.ok.inj (((h.runAll actions).nextBatch hd').symm.trans hnext)
    obtain ⟨l, hl, -⟩ := (h.runAll actions).tracks.linked.committed
    obtain ⟨rest, hrest⟩ := hle.2
    have hmem : b.sequence ∈ (l.consumed.map (·.sequence)) := by
      have : b.sequence ∈ (d.runAll actions).history.committed.acked := by
        rw [← hrest]
        exact List.mem_append_left _ hb
      rwa [hl] at this
    obtain ⟨b', hb', hseq⟩ := List.mem_map.mp hmem
    rw [hl, Feed.oldest_history] at hold
    -- the oldest pending batch has a greater sequence than every acknowledged one
    have hlt := Log.consumed_lt_pending (List.mem_of_mem_head? hold)
    have hinc := l.increasing.sublist (l.consumed_prefix.sublist.map _)
    have := key_le_lastKey hinc hb'
    omega
  · obtain ⟨l, hl, hp⟩ := h.progress hd
    obtain ⟨l', hl', hp'⟩ := (h.runAll actions).progress hd'
    rw [hl, hl'] at hle hne
    rw [hp, hp']
    exact Log.progress_lt (Feed.le_of_history hle) fun heq => hne (congrArg Feed.history heq)
  · have hn : d.history.depth = 0 := by rw [← h.tracks.depth_eq, hd]
    have hn' : (d.runAll actions).history.depth = 0 := by
      rw [← (h.runAll actions).tracks.depth_eq, hd']
    rw [h.delivers.progress, (h.runAll actions).delivers.progress,
      ← Nested.committed_of_depth hn, ← Nested.committed_of_depth hn', heq]

/-- The consumer sees the committed batches in the order of their publication, each until its own
acknowledgement, in every run; and every way to continue the run only adds to what is committed. -/
theorem delivers_and_advances (streamId : Nat) (cursor : Option Str)
    (actions more : List DeliveryAction) :
    Delivers ((begin streamId cursor).runAll actions) ∧
      Advances ((begin streamId cursor).runAll actions)
        (((begin streamId cursor).runAll actions).runAll more) :=
  ⟨(sound_runAll streamId cursor actions).delivers,
    (sound_runAll streamId cursor actions).advances more⟩

end Delivery

end Nio.Durable
