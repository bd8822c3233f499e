import Nio.Durable.Termination

/-!
# Bounded publication

`consume` over every iterator: between two items it may change the client, and some items are never
records. What an item comes to does not depend on the queue of batches, so a run of `consume` is
described by two runs: `freezeSteps` freezes records and publishes nothing, and the batches hold
what it froze.

* `consumeItem_eq`, `freezeItem_queued` — an item is frozen first, and the queue plays no part in it
* `publishSized_publishes`, `publishRecords_publishes` — the batches of a publication, or its refusal
* `Standing` — what the loop has published and what waits, with the counter of queued bytes
* `consume_publishes` — order, bounds, barriers and the counter over a whole run
-/

namespace Nio.Durable

open Nio.Py
open Nio.Lib

/-! ## The loop of `consume` -/

namespace Session

def withBatches (s : Session) (batches : List Batch) : Session :=
  { s with disk := { s.disk with batches } }

end Session

/-- A change of the client between two items. It neither reads nor moves the queue of batches. -/
structure ClientChange where
  apply : Session → Session
  batches : ∀ s bs, apply (s.withBatches bs) = (apply s).withBatches bs
  acked : ∀ s, (apply s).disk.acked = s.disk.acked

/-- The routes that are never records -/
inductive Transient where
  | presence
  | ephemeral
  | encryptedRooms (rooms : List Str)

/-- A step of an iterator -/
inductive SyncStep where
  | client (change : ClientChange)
  | transient (item : Transient)
  | item (item : Item)

def consumeStep (env : Env) (w : Work) : SyncStep → Except SessionError Work
  | .client change => .ok { w with session := change.apply w.session }
  | .transient _ => .ok w
  | .item item => consumeItem env w item

/-- The loop is left at an oversized record. -/
def runStep (env : Env) (w : Work) (step : SyncStep) : Except SessionError Work :=
  if w.processor.oversized then .ok w else consumeStep env w step

/-- `for item in items` with the counter of a new call -/
def consumeLoop (env : Env) (w : Work) (steps : List SyncStep) : Except SessionError Work :=
  steps.foldlM (runStep env) { w with processor := { w.processor with pendingBytes := none } }

/-- `consume` -/
def consume (env : Env) (w : Work) (steps : List SyncStep) : Except SessionError Work := do
  (← consumeLoop env w steps).flush env

/-- The client reads a timeline event whatever the batches are. -/
theorem timelineRoom_withBatches (env : Env) (s : Session) (bs : List Batch) (r : Str)
    (event : Event) :
    (s.withBatches bs).timelineRoom env r event = (s.timelineRoom env r event).withBatches bs := by
  rcases event with ⟨cls⟩
  cases cls with
  | roomMember stateKey membership =>
    cases membership with
    | join =>
      -- The condition does not read the batches.
      unfold Session.timelineRoom
      dsimp only
      by_cases h : stateKey = env.userId ∧ (s.getMetadata r).membership ≠ none ∧
          (s.getMetadata r).membership ≠ some .join ∧ s.unobserved r = false
      · rw [if_pos h]
        exact if_pos h
      · rw [if_neg h]
        exact if_neg h
    | _ => rfl
  | _ => rfl

/-- It writes nothing to the disk. -/
theorem timelineRoom_disk (env : Env) (s : Session) (r : Str) (event : Event) :
    (s.timelineRoom env r event).disk = s.disk := by
  unfold Session.timelineRoom
  split
  · dsimp only
    split <;> rfl
  · rfl

/-- The moves of an iterator change the client. -/
def Move.change (env : Env) (move : Move) : ClientChange where
  apply s := clientMove env s move
  batches s bs := by
    cases move with
    | timelineRoom r event => exact timelineRoom_withBatches env s bs r event
    | _ => rfl
  acked s := by
    cases move with
    | timelineRoom r event => exact congrArg Disk.acked (timelineRoom_disk env s r event)
    | _ => rfl

def Move.step (env : Env) : Move → SyncStep
  | .yield item => .item item
  | move => .client (move.change env)

/-- A move is the step that it stands for. -/
theorem runMove_eq (env : Env) (w : Work) (move : Move) :
    runMove env w move = runStep env w (move.step env) := by
  cases move <;> rfl

/-- The items and moves of an iterator are consumed as its steps. -/
theorem runMoves_eq (env : Env) (w : Work) (moves : List Move) :
    runMoves env w moves = consume env w (moves.map (Move.step env)) := by
  have hstep : runMove env = fun w move => runStep env w (move.step env) := by
    funext w move
    exact runMove_eq env w move
  unfold runMoves consume consumeLoop
  rw [List.foldlM_map, hstep]

/-! ## What an item comes to -/

inductive Fate where
  | absorbed
  | suppressed
  | frozen (record : SyncRecord)

/-- An item up to its record, which `consume` would collect next -/
def freezeItem (env : Env) (w : Work) (item : Item) : Except SessionError (Work × Fate) :=
  match item.roomId with
  | none => .ok (w, .frozen (freezeEvent item))
  | some roomId =>
    if item.isMalformedState then .error (.localProtocol "malformed durable room state")
    else if item.event = none ∧ item.section = none ∧
        roomId ∉ w.processor.explicitMemberships then .error .assertion
    else
      match observe env (w.entered roomId item) roomId item with
      | (w, .skip) => .ok (w, .absorbed)
      | (w, .go change) => do
        let w := fence w roomId change
        if ← isSuppressed w roomId item then return (dropChange w roomId change, .suppressed)
        else return (w, .frozen (roomRecord w roomId item change))

/-- A frozen record with its item -/
structure Frozen where
  item : Item
  record : SyncRecord

/-- A membership event, or a record that carries a change of the own membership -/
def Frozen.barrier (f : Frozen) : Bool := f.record.membership.isSome || f.item.isMember

/-- The rest of the turn -/
def collect (env : Env) (item : Item) : Work × Fate → Except SessionError Work
  | (w, .frozen record) => appendRecord env w record (Frozen.barrier ⟨item, record⟩)
  | (w, _) => .ok w

/-- Consuming an item is freezing it and collecting the record. -/
theorem consumeItem_eq (env : Env) (w : Work) (item : Item) :
    consumeItem env w item = (freezeItem env w item).bind (collect env item) := by
  unfold consumeItem freezeItem
  cases item.roomId with
  | none =>
    have hnone : (freezeEvent item).membership = none := by
      unfold freezeEvent
      split <;> rfl
    show _ = appendRecord env w (freezeEvent item) _
    unfold Frozen.barrier
    rw [hnone]
    rfl
  | some roomId =>
    dsimp only
    split
    · rfl
    split
    · rfl
    have hentered : (if item.section = some .invite then
        { w with session := { w.session with rooms := removeKey w.session.rooms roomId } }
        else w).addRoom roomId = w.entered roomId item := rfl
    rw [hentered]
    cases ho : observe env (w.entered roomId item) roomId item with
    | mk w₁ o =>
      cases o with
      | skip => rfl
      | go change =>
        dsimp only
        unfold recordItem
        cases hs : isSuppressed (fence w₁ roomId change) roomId item with
        | error e => rfl
        | ok suppressed => cases suppressed <;> rfl

/-- What the loop collects, apart from what it observes -/
structure Queue where
  batches : List Batch
  records : List SyncRecord
  pendingBytes : Option Nat
  processedRecords : Nat

namespace Work

def queue (w : Work) : Queue :=
  ⟨w.session.disk.batches, w.processor.records, w.processor.pendingBytes,
    w.processor.processedRecords⟩

def queued (w : Work) (q : Queue) : Work :=
  { w with
    session := w.session.withBatches q.batches
    processor := { w.processor with
      records := q.records
      pendingBytes := q.pendingBytes
      processedRecords := q.processedRecords } }

end Work

theorem Session.changeMembership_withBatches (s : Session) (bs : List Batch) (r : Str)
    (m : Membership) : (s.withBatches bs).changeMembership r m =
      ((s.changeMembership r m).1.withBatches bs, (s.changeMembership r m).2) := by
  have hunobserved : (s.withBatches bs).unobserved r = s.unobserved r := rfl
  have hget : (s.withBatches bs).getMetadata r = s.getMetadata r := rfl
  unfold Session.changeMembership
  rw [hunobserved, hget]
  split
  · rfl
  · dsimp only
    split <;> rfl

theorem changeMembership_queued (w : Work) (q : Queue) (r : Str) (m : Membership) :
    (w.queued q).changeMembership r m =
      ((w.changeMembership r m).1.queued q, (w.changeMembership r m).2) := by
  have hsession : (w.queued q).session = w.session.withBatches q.batches := rfl
  unfold Work.changeMembership
  rw [hsession, Session.changeMembership_withBatches]
  rfl

/-- What is observed does not depend on the queue. -/
theorem observe_queued (env : Env) (w : Work) (q : Queue) (r : Str) (item : Item) :
    observe env (w.queued q) r item = ((observe env w r item).1.queued q, (observe env w r item).2) := by
  unfold observe
  cases item.event with
  | none =>
    have hleft : ((w.queued q).session.getMetadata r).left = (w.session.getMetadata r).left := rfl
    have hexplicit : (w.queued q).processor.explicitMemberships = w.processor.explicitMemberships := rfl
    dsimp only
    unfold observeSection
    rw [hleft, hexplicit]
    split
    · rfl
    split
    · rfl
    cases item.section with
    | none => rfl
    | some roomSection =>
      dsimp only
      rw [changeMembership_queued]
      cases h : w.changeMembership r roomSection.membership with
      | mk w₁ change => cases change <;> rfl
  | some event =>
    dsimp only
    unfold observeEvent
    cases item.reported env.userId with
    | none => rfl
    | some m =>
      dsimp only
      have hexplicit : (w.queued q).addExplicit r = (w.addExplicit r).queued q := rfl
      rw [hexplicit, changeMembership_queued]

/-- The queue plays no part in what an item comes to. -/
theorem freezeItem_queued (env : Env) (w : Work) (q : Queue) (item : Item) :
    freezeItem env (w.queued q) item =
      (freezeItem env w item).map fun p => (p.1.queued q, p.2) := by
  unfold freezeItem
  cases item.roomId with
  | none => rfl
  | some roomId =>
    have hexplicit : (w.queued q).processor.explicitMemberships = w.processor.explicitMemberships := rfl
    have hentered : (w.queued q).entered roomId item = (w.entered roomId item).queued q := by
      unfold Work.entered
      split <;> rfl
    dsimp only
    rw [hexplicit, hentered, observe_queued]
    split
    · rfl
    split
    · rfl
    cases observe env (w.entered roomId item) roomId item with
    | mk w₁ o =>
      cases o with
      | skip => rfl
      | go change =>
        have hfence : fence (w₁.queued q) roomId change = (fence w₁ roomId change).queued q := by
          unfold fence
          split
          · split <;> rfl
          · rfl
        have hsuppressed : isSuppressed ((fence w₁ roomId change).queued q) roomId item =
          isSuppressed (fence w₁ roomId change) roomId item := rfl
        dsimp only
        rw [hfence, hsuppressed]
        cases isSuppressed (fence w₁ roomId change) roomId item with
        | error e => rfl
        | ok suppressed =>
          cases suppressed with
          | false => rfl
          | true => cases change <;> rfl

/-- What freezing an item leaves as it was -/
structure Freezes (w w' : Work) : Prop where
  batches : w'.session.disk.batches = w.session.disk.batches
  acked : w'.session.disk.acked = w.session.disk.acked
  records : w'.processor.records = w.processor.records
  oversized : w'.processor.oversized = w.processor.oversized
  stopOnOversized : w'.processor.stopOnOversized = w.processor.stopOnOversized

theorem Freezes.refl (w : Work) : Freezes w w := ⟨rfl, rfl, rfl, rfl, rfl⟩

theorem Freezes.trans {w₁ w₂ w₃ : Work} (h : Freezes w₁ w₂) (h' : Freezes w₂ w₃) : Freezes w₁ w₃ :=
  ⟨h'.batches.trans h.batches, h'.acked.trans h.acked, h'.records.trans h.records,
    h'.oversized.trans h.oversized, h'.stopOnOversized.trans h.stopOnOversized⟩

theorem freezes_fence (w : Work) (r : Str) (change : Option OwnMembership) :
    Freezes w (fence w r change) := by
  unfold fence
  split
  · split <;> exact ⟨rfl, rfl, rfl, rfl, rfl⟩
  · exact .refl w

theorem freezes_dropChange (w : Work) (r : Str) (change : Option OwnMembership) :
    Freezes w (dropChange w r change) := by
  unfold dropChange
  split <;> exact ⟨rfl, rfl, rfl, rfl, rfl⟩

theorem freezes_observe {env : Env} {w w' : Work} {r : Str} {item : Item} {o : Observed}
    (h : observe env w r item = (w', o)) : Freezes w w' := by
  rw [(observe_cases h).shape]
  exact ⟨rfl, rfl, rfl, rfl, rfl⟩

/-- Freezing an item publishes nothing. -/
theorem freezeItem_freezes {env : Env} {w w' : Work} {item : Item} {fate : Fate}
    (h : freezeItem env w item = .ok (w', fate)) : Freezes w w' := by
  unfold freezeItem at h
  cases hr : item.roomId with
  | none =>
    rw [hr] at h
    cases h
    exact .refl w
  | some roomId =>
    rw [hr] at h
    dsimp only at h
    have hentered : Freezes w (w.entered roomId item) := by
      unfold Work.entered
      split <;> exact ⟨rfl, rfl, rfl, rfl, rfl⟩
    split at h
    · cases h
    split at h
    · cases h
    cases ho : observe env (w.entered roomId item) roomId item with
    | mk w₁ o =>
      rw [ho] at h
      have hobserve := hentered.trans (freezes_observe ho)
      cases o with
      | skip =>
        cases h
        exact hobserve
      | go change =>
        obtain ⟨suppressed, -, h⟩ := bind_eq_ok.mp h
        have hfence := hobserve.trans (freezes_fence w₁ roomId change)
        cases suppressed with
        | true =>
          cases h
          exact hfence.trans (freezes_dropChange _ roomId change)
        | false =>
          cases h
          exact hfence

/-! ## What a run freezes -/

/-- A step up to its record -/
def freezeStep (env : Env) (w : Work) : SyncStep → Except SessionError (Work × List Frozen)
  | .client change => .ok ({ w with session := change.apply w.session }, [])
  | .transient _ => .ok (w, [])
  | .item item => do
    match ← freezeItem env w item with
    | (w, .frozen record) => return (w, [⟨item, record⟩])
    | (w, _) => return (w, [])

/-- The record of an item, if it has one -/
def Fate.frozen? (item : Item) : Fate → List Frozen
  | .frozen record => [⟨item, record⟩]
  | _ => []

theorem freezeStep_item {env : Env} {w w' : Work} {item : Item} {fate : Fate}
    (h : freezeItem env w item = .ok (w', fate)) :
    freezeStep env w (.item item) = .ok (w', fate.frozen? item) := by
  show (freezeItem env w item >>= _) = _
  rw [h]
  cases fate <;> rfl

/-- The records of a run that publishes nothing: in order, one for each item that is neither
transient, suppressed nor absorbed -/
def freezeSteps (env : Env) : Work → List SyncStep → Except SessionError (Work × List Frozen)
  | w, [] => .ok (w, [])
  | w, step :: steps => do
    let (w, fs) ← freezeStep env w step
    let (w, gs) ← freezeSteps env w steps
    return (w, fs ++ gs)

/-! ## Batches -/

/-- The batch `b` holds the records of `g`. -/
structure IsBatch (env : Env) (b : Batch) (g : List Frozen) : Prop where
  records : b.records = g.map Frozen.record
  measured : Session.encodedSize b.records = .ok b.size
  maxRecords : b.records.length ≤ env.config.maxBatchRecords
  maxBytes : b.size ≤ env.config.maxBatchBytes
  /-- A membership is alone in its batch. -/
  alone : ∀ f ∈ g, f.barrier = true → g = [f]

/-- The batches hold exactly these records, in order. -/
def Packed (env : Env) (bs : List Batch) (fs : List Frozen) : Prop :=
  ∃ groups : List (List Frozen), groups.flatten = fs ∧ List.Forall₂ (IsBatch env) bs groups

/-- The encoded bytes of batches -/
def sizeOf (bs : List Batch) : Nat := (bs.map (·.size)).sum

/-- The size of two lists of batches is the sum of theirs. -/
theorem sizeOf_append (bs bs' : List Batch) : sizeOf (bs ++ bs') = sizeOf bs + sizeOf bs' := by
  simp [sizeOf]

namespace Packed

variable {env : Env} {bs bs' : List Batch} {fs fs' : List Frozen}

theorem nil : Packed env [] [] := ⟨[], rfl, .nil⟩

theorem single {b : Batch} (h : IsBatch env b fs) : Packed env [b] fs :=
  ⟨[fs], by simp, .cons h .nil⟩

theorem append (h : Packed env bs fs) (h' : Packed env bs' fs') :
    Packed env (bs ++ bs') (fs ++ fs') := by
  obtain ⟨groups, hflat, hgroups⟩ := h
  obtain ⟨groups', hflat', hgroups'⟩ := h'
  refine ⟨groups ++ groups', ?_, List.rel_append hgroups hgroups'⟩
  rw [List.flatten_append, hflat, hflat']

end Packed

/-- The acknowledged batches are batches. -/
def Disk.Acked (d : Disk) : Prop := d.acked ≤ d.batches.length

/-- The pending bytes grow by the size of the batches. -/
theorem pendingBytes_addBatches {s : Session} (h : s.disk.Acked) (bs : List Batch) :
    (s.addBatches bs).disk.pendingBytes = s.disk.pendingBytes + sizeOf bs := by
  unfold Disk.pendingBytes Disk.pending
  show (((s.disk.batches ++ bs).drop s.disk.acked).map _).sum = _
  rw [List.drop_append_of_le_length h]
  simp [sizeOf]

theorem acked_addBatches {s : Session} (h : s.disk.Acked) (bs : List Batch) :
    (s.addBatches bs).disk.Acked := by
  show s.disk.acked ≤ (s.disk.batches ++ bs).length
  rw [List.length_append]
  exact Nat.le_add_right_of_le h

/-- Why the publication of `fs` over `total` queued bytes was refused -/
inductive Refusal (env : Env) (total : Nat) (fs : List Frozen) : SessionError → Prop where
  | encoding (e : ValueError) : Refusal env total fs (.value e)
  /-- One record alone is larger than a batch. -/
  | batchBound {f : Frozen} {size : Nat} (mem : f ∈ fs)
      (measured : Session.encodedSize [f.record] = .ok size) (large : env.config.maxBatchBytes < size) :
      Refusal env total fs (.localProtocol "prepared event exceeds the durable batch bound")
  /-- The batches `bs` fit, and the next one does not. -/
  | pendingBound {before g after : List Frozen} {bs : List Batch} {size : Nat}
      (split : fs = before ++ g ++ after) (packed : Packed env bs before)
      (measured : Session.encodedSize (g.map Frozen.record) = .ok size)
      (full : env.config.maxPendingBytes < total + sizeOf bs + size) :
      Refusal env total fs (.localProtocol "prepared output exceeds the durable pending bound")

namespace Refusal

variable {env : Env} {total : Nat} {fs gs : List Frozen} {e : SessionError}

theorem append (h : Refusal env total fs e) (gs : List Frozen) : Refusal env total (fs ++ gs) e := by
  cases h with
  | encoding e => exact .encoding e
  | batchBound mem measured large => exact .batchBound (List.mem_append_left gs mem) measured large
  | @pendingBound before g after _ _ split packed measured full =>
    refine @pendingBound _ _ _ before g (after ++ gs) _ _ ?_ packed measured full
    rw [split, List.append_assoc (before ++ g)]

/-- A refusal stays one behind what was published before. -/
theorem prepend {bs : List Batch} (hbs : Packed env bs gs) (h : Refusal env (total + sizeOf bs) fs e) :
    Refusal env total (gs ++ fs) e := by
  cases h with
  | encoding e => exact .encoding e
  | batchBound mem measured large => exact .batchBound (List.mem_append_right gs mem) measured large
  | @pendingBound before g after bs' _ split packed measured full =>
    refine @pendingBound _ _ _ (gs ++ before) g after (bs ++ bs') _ ?_ (hbs.append packed) measured ?_
    · rw [split]
      simp only [List.append_assoc]
    · rwa [sizeOf_append, ← Nat.add_assoc]

end Refusal

/-- What a publication of `fs` comes to: batches for exactly these records and their count, or a
refusal -/
def Publishes (env : Env) (s : Session) (fs : List Frozen) :
    Except SessionError (Session × Nat) → Prop
  | .ok (s', pendingBytes) => ∃ bs, s' = s.addBatches bs ∧ Packed env bs fs ∧
      pendingBytes = s.disk.pendingBytes + sizeOf bs ∧ pendingBytes ≤ env.config.maxPendingBytes
  | .error e => Refusal env s.disk.pendingBytes fs e

/-- One publication after the other -/
theorem publishes_append {env : Env} {s : Session} {fs gs : List Frozen}
    {first : Except SessionError (Session × Nat)}
    {second : Session × Nat → Except SessionError (Session × Nat)} (hs : s.disk.Acked)
    (hfirst : Publishes env s fs first)
    (hsecond : ∀ bs, Publishes env (s.addBatches bs) gs
      (second (s.addBatches bs, (s.addBatches bs).disk.pendingBytes))) :
    Publishes env s (fs ++ gs) (first >>= second) := by
  cases first with
  | error e => exact hfirst.append gs
  | ok p =>
    obtain ⟨s₁, n₁⟩ := p
    obtain ⟨bs, rfl, hbs, hn, -⟩ := hfirst
    rw [← pendingBytes_addBatches hs] at hn
    subst hn
    have hnext := hsecond bs
    show Publishes env s (fs ++ gs) (second (s.addBatches bs, _))
    cases hr : second (s.addBatches bs, (s.addBatches bs).disk.pendingBytes) with
    | error e =>
      rw [hr] at hnext
      have hrefused : Refusal env (s.addBatches bs).disk.pendingBytes gs e := hnext
      rw [pendingBytes_addBatches hs] at hrefused
      exact hrefused.prepend hbs
    | ok p =>
      rw [hr] at hnext
      obtain ⟨bs', hs', hbs', hn', hmax⟩ := hnext
      refine ⟨bs ++ bs', ?_, hbs.append hbs', ?_, hmax⟩
      · rw [hs', Session.addBatches_addBatches]
      · rw [hn', pendingBytes_addBatches hs, sizeOf_append, Nat.add_assoc]

/-- A membership is the only one of these records. -/
def Alone (fs : List Frozen) : Prop := ∀ f ∈ fs, f.barrier = true → fs = [f]

/-- Two or more records that are published together hold no membership. -/
theorem Alone.of_subset {fs gs : List Frozen} (h : Alone fs) (hlen : 2 ≤ fs.length) (hsub : gs ⊆ fs) :
    Alone gs := by
  intro f hf hbarrier
  have hone := h f (hsub hf) hbarrier
  rw [hone] at hlen
  simp at hlen

/-- Encoding fails with a `ValueError` only. -/
theorem encodedSize_error {records : List SyncRecord} {e : SessionError}
    (h : Session.encodedSize records = .error e) : ∃ v, e = .value v := by
  unfold Session.encodedSize at h
  split at h
  · exact ⟨_, (Except.error.inj h).symm⟩
  · split at h
    · exact ⟨_, (Except.error.inj h).symm⟩
    · cases h

open Session in
/-- Halving by bytes: every half is a publication of its own. -/
theorem publishSized_publishes {env : Env} {fuel : Nat} {fs : List Frozen} {s : Session}
    (hs : s.disk.Acked) (hne : fs ≠ []) (hfuel : fs.length ≤ fuel)
    (hlen : fs.length ≤ env.config.maxBatchRecords) (halone : Alone fs) :
    Publishes env s fs (publishSized env fuel (fs.map Frozen.record) s.disk.pendingBytes s) := by
  induction fuel generalizing fs s with
  | zero => exact absurd (List.length_eq_zero_iff.mp (Nat.le_zero.mp hfuel)) hne
  | succ fuel ih =>
    unfold publishSized
    cases hsize : encodedSize (fs.map Frozen.record) with
    | error e =>
      obtain ⟨v, rfl⟩ := encodedSize_error hsize
      exact Refusal.encoding v
    | ok size =>
      rw [ok_bind]
      split
      · next hfits =>
        have hbatch : IsBatch env ⟨fs.map Frozen.record, false, size⟩ fs :=
          ⟨rfl, hsize, by simpa using hlen, hfits, halone⟩
        split
        · next hfull =>
          refine @Refusal.pendingBound _ _ _ [] fs [] [] _ (by simp) .nil hsize ?_
          simpa [sizeOf] using hfull
        · next hroom =>
          refine ⟨_, storeBatch_eq .., .single hbatch, by simp [sizeOf], Nat.le_of_not_lt hroom⟩
      · next hlarge =>
        dsimp only
        split
        · next hone =>
          -- a single record that no batch can hold
          obtain ⟨f, rfl⟩ : ∃ f, fs = [f] := by
            refine List.length_eq_one_iff.mp (Nat.le_antisymm ?_ (List.length_pos_iff.mpr hne))
            simpa using hone
          exact Refusal.batchBound (List.mem_singleton_self f) hsize (Nat.lt_of_not_le hlarge)
        · next htwo =>
          rw [List.length_map] at htwo
          rw [List.length_map, ← List.map_take, ← List.map_drop]
          have htwo' : 2 ≤ fs.length := Nat.lt_of_not_le htwo
          have htake : (fs.take (fs.length / 2)).length = fs.length / 2 := by
            rw [List.length_take]
            omega
          have hdrop : (fs.drop (fs.length / 2)).length = fs.length - fs.length / 2 :=
            List.length_drop
          have hfirst := ih hs (List.ne_nil_of_length_pos (by rw [htake]; omega))
            (by rw [htake]; omega) (by rw [htake]; omega)
            (halone.of_subset htwo' (List.take_subset _ _))
          have hsecond : ∀ bs, Publishes env (s.addBatches bs) (fs.drop (fs.length / 2))
              (publishSized env fuel ((fs.drop (fs.length / 2)).map Frozen.record)
                (s.addBatches bs).disk.pendingBytes (s.addBatches bs)) := fun bs =>
            ih (acked_addBatches hs bs) (List.ne_nil_of_length_pos (by rw [hdrop]; omega))
              (by rw [hdrop]; omega) (by rw [hdrop]; omega)
              (halone.of_subset htwo' (List.drop_subset _ _))
          have hparts := @publishes_append env s _ _ _
            (fun p => publishSized env fuel ((fs.drop (fs.length / 2)).map Frozen.record) p.2 p.1)
            hs hfirst hsecond
          rwa [List.take_append_drop] at hparts

/-- A slice after the other -/
theorem slices_publishes {env : Env} {fuel : Nat} {fs : List Frozen} {s : Session}
    (hs : s.disk.Acked) (hne : fs ≠ []) (hfuel : fs.length ≤ fuel) (halone : Alone fs) :
    Publishes env s fs
      ((Session.slices env.config.maxBatchRecords fuel (fs.map Frozen.record)).foldlM
        (fun (p : Session × Nat) slice => Session.publishSized env slice.length slice p.2 p.1)
        (s, s.disk.pendingBytes)) := by
  have hlimit : 0 < env.config.maxBatchRecords := env.config.positive.2.1
  induction fuel generalizing fs s with
  | zero => exact absurd (List.length_eq_zero_iff.mp (Nat.le_zero.mp hfuel)) hne
  | succ fuel ih =>
    unfold Session.slices
    rw [List.length_map]
    split
    · next hfits =>
      rw [List.foldlM_cons]
      simp only [List.foldlM_nil, bind_pure, List.length_map]
      exact publishSized_publishes hs hne (Nat.le_refl _) hfits halone
    · next hmore =>
      have hlen : 2 ≤ fs.length := by omega
      have htake : (fs.take env.config.maxBatchRecords).length = env.config.maxBatchRecords := by
        rw [List.length_take]
        omega
      have hdrop : (fs.drop env.config.maxBatchRecords).length =
          fs.length - env.config.maxBatchRecords := List.length_drop
      rw [List.foldlM_cons, ← List.map_take, ← List.map_drop, List.length_map]
      have hfirst := @publishSized_publishes env _ (fs.take env.config.maxBatchRecords) s hs
        (List.ne_nil_of_length_pos (by rw [htake]; exact hlimit)) (Nat.le_refl _)
        (Nat.le_of_eq htake) (halone.of_subset hlen (List.take_subset _ _))
      have hsecond := fun bs =>
        ih (acked_addBatches hs bs) (List.ne_nil_of_length_pos (by rw [hdrop]; omega))
          (by rw [hdrop]; omega) (halone.of_subset hlen (List.drop_subset _ _))
      rw [htake] at hfirst
      have hparts := @publishes_append env s _ _ _
        (fun p => ((Session.slices env.config.maxBatchRecords fuel
          ((fs.drop env.config.maxBatchRecords).map Frozen.record)).foldlM
            (fun (p : Session × Nat) slice => Session.publishSized env slice.length slice p.2 p.1) p))
        hs hfirst hsecond
      rw [htake]
      rwa [List.take_append_drop] at hparts

/-- Records are published in batches that hold them, or the reason to refuse is given. -/
theorem publishRecords_publishes {env : Env} {fs : List Frozen} {s : Session}
    {pendingBytes : Option Nat} (hs : s.disk.Acked) (hne : fs ≠ []) (halone : Alone fs)
    (hcount : ∀ n, pendingBytes = some n → n = s.disk.pendingBytes) :
    Publishes env s fs (s.publishRecords env (fs.map Frozen.record) pendingBytes) := by
  have hstart : pendingBytes.getD s.disk.pendingBytes = s.disk.pendingBytes := by
    cases pendingBytes with
    | none => rfl
    | some n => exact hcount n rfl
  unfold Session.publishRecords
  rw [hstart, List.length_map]
  exact slices_publishes hs hne (Nat.le_refl _) halone

/-! ## The loop -/

/-- Where the loop stands after the records `fs`: those of the batches `bs` are published, and those
of `waiting` are not. The work `observer` has seen the same items without a queue. -/
structure Standing (env : Env) (start observer w : Work) (fs : List Frozen) (bs : List Batch)
    (waiting : List Frozen) : Prop where
  shape : w = observer.queued w.queue
  batches : w.session.disk.batches = start.session.disk.batches ++ bs
  records : w.processor.records = waiting.map Frozen.record
  observerAcked : observer.session.disk.acked = start.session.disk.acked
  packed : ∃ published, fs = published ++ waiting ∧ Packed env bs published
  counted : ∀ n, w.processor.pendingBytes = some n → n = w.session.disk.pendingBytes
  bounded : bs ≠ [] → w.session.disk.pendingBytes ≤ env.config.maxPendingBytes

namespace Standing

variable {env : Env} {start observer w : Work} {fs waiting : List Frozen} {bs : List Batch}

theorem acked (h : Standing env start observer w fs bs waiting) :
    w.session.disk.acked = start.session.disk.acked := by
  rw [h.shape]
  exact h.observerAcked

/-- The batches on the disk are the old ones and those of the loop. -/
theorem disk_eq (h : Standing env start observer w fs bs waiting) :
    w.session.disk.batches = (start.session.addBatches bs).disk.batches := h.batches

theorem pendingBytes_eq (h : Standing env start observer w fs bs waiting)
    (hs : start.session.disk.Acked) :
    w.session.disk.pendingBytes = start.session.disk.pendingBytes + sizeOf bs := by
  rw [← pendingBytes_addBatches hs]
  unfold Disk.pendingBytes Disk.pending
  rw [h.disk_eq, h.acked]
  rfl

theorem diskAcked (h : Standing env start observer w fs bs waiting)
    (hs : start.session.disk.Acked) : w.session.disk.Acked := by
  unfold Disk.Acked
  rw [h.acked, h.batches, List.length_append]
  exact Nat.le_add_right_of_le hs

/-- A flush publishes what waits, or is refused. -/
theorem flush (h : Standing env start observer w fs bs waiting) (hs : start.session.disk.Acked)
    (halone : Alone waiting) :
    (∃ w' bs', w.flush env = .ok w' ∧ Standing env start observer w' fs (bs ++ bs') []) ∨
    ∃ e, w.flush env = .error e ∧ Refusal env start.session.disk.pendingBytes fs e := by
  obtain ⟨published, hfs, hpublished⟩ := h.packed
  unfold Work.flush
  by_cases hnil : waiting = []
  · subst hnil
    have hnone : w.processor.records = [] := h.records
    rw [if_pos hnone]
    refine Or.inl ⟨w, [], rfl, ?_⟩
    rw [List.append_nil]
    exact h
  · have hrecords : w.processor.records ≠ [] := by
      rw [h.records]
      simpa using hnil
    have hpublishes := @publishRecords_publishes env waiting w.session w.processor.pendingBytes
      (h.diskAcked hs) hnil halone h.counted
    rw [if_neg hrecords, h.records]
    cases hp : w.session.publishRecords env (waiting.map Frozen.record) w.processor.pendingBytes with
    | error e =>
      rw [hp] at hpublishes
      have hrefused : Refusal env w.session.disk.pendingBytes waiting e := hpublishes
      rw [h.pendingBytes_eq hs] at hrefused
      refine Or.inr ⟨e, rfl, ?_⟩
      rw [hfs]
      exact hrefused.prepend hpublished
    | ok p =>
      rw [hp] at hpublishes
      obtain ⟨bs', hs', hpacked, hcount, hmax⟩ := hpublishes
      refine Or.inl ⟨_, bs', rfl, ?_⟩
      have hbytes := pendingBytes_addBatches (h.diskAcked hs) bs'
      refine ⟨?_, ?_, rfl, h.observerAcked, ⟨fs, (List.append_nil fs).symm, ?_⟩, ?_, fun _ => ?_⟩
      · rw [hs']
        conv_lhs => rw [h.shape]
        rfl
      · rw [hs']
        show w.session.disk.batches ++ bs' = _
        rw [h.batches, List.append_assoc]
      · rw [hfs]
        exact hpublished.append hpacked
      · intro n hn
        cases hn
        rw [hs', hbytes, hcount]
      · rw [hs', hbytes, ← hcount]
        exact hmax

/-- A record is collected behind what waits. -/
theorem push (h : Standing env start observer w fs bs waiting) (f : Frozen) :
    Standing env start observer (w.push f.record) (fs ++ [f]) bs (waiting ++ [f]) := by
  obtain ⟨published, hfs, hpublished⟩ := h.packed
  refine ⟨?_, h.batches, ?_, h.observerAcked, ⟨published, ?_, hpublished⟩, h.counted, h.bounded⟩
  · conv_lhs => rw [h.shape]
    rfl
  · show w.processor.records ++ [f.record] = _
    rw [h.records, List.map_append]
    rfl
  · rw [hfs, List.append_assoc]

/-- A flush publishes what waits. -/
theorem flushIf (h : Standing env start observer w fs bs waiting) (hs : start.session.disk.Acked)
    (halone : Alone waiting) (b : Bool) :
    (∃ w' bs', w.flushIf env b = .ok w' ∧
      Standing env start observer w' fs (bs ++ bs') (if b then [] else waiting)) ∨
    ∃ e, w.flushIf env b = .error e ∧ Refusal env start.session.disk.pendingBytes fs e := by
  cases b with
  | false =>
    refine Or.inl ⟨w, [], rfl, ?_⟩
    rw [List.append_nil]
    exact h
  | true => exact h.flush hs halone

end Standing

/-- No membership is among these records. -/
def NoBarrier (fs : List Frozen) : Prop := ∀ f ∈ fs, f.barrier = false

theorem NoBarrier.alone {fs : List Frozen} (h : NoBarrier fs) : Alone fs := by
  intro f hf hbarrier
  rw [h f hf] at hbarrier
  cases hbarrier

theorem alone_single (f : Frozen) : Alone [f] := by
  intro g hg _
  rw [List.mem_singleton.mp hg]

/-- A recovered record that stops the loop -/
def Stops (env : Env) (w : Work) (record : SyncRecord) : Prop :=
  w.processor.stopOnOversized = true ∧
    ∃ size, Session.encodedSize [record] = .ok size ∧ env.config.maxBatchBytes < size

/-- The size check fails with a `ValueError` only. -/
theorem isOversized_error {env : Env} {w : Work} {record : SyncRecord} {e : SessionError}
    (h : w.isOversized env record = .error e) : ∃ v, e = .value v := by
  unfold Work.isOversized at h
  split at h
  · cases hsize : Session.encodedSize [record] with
    | error e' =>
      rw [hsize] at h
      cases h
      exact encodedSize_error hsize
    | ok size =>
      rw [hsize] at h
      cases h
  · cases h

/-- A record that is found oversized stops the loop. -/
theorem stops_of_isOversized {env : Env} {w : Work} {record : SyncRecord}
    (h : w.isOversized env record = .ok true) : Stops env w record := by
  unfold Work.isOversized at h
  split at h
  · next hstop =>
    cases hsize : Session.encodedSize [record] with
    | error e' =>
      rw [hsize] at h
      cases h
    | ok size =>
      rw [hsize] at h
      exact ⟨hstop, size, hsize, of_decide_eq_true (Except.ok.inj h)⟩
  · cases h

theorem NoBarrier.concat {fs : List Frozen} (h : NoBarrier fs) {f : Frozen} (hf : f.barrier = false) :
    NoBarrier (fs ++ [f]) := by
  intro g hg
  rcases List.mem_append.mp hg with hg | hg
  · exact h g hg
  · rw [List.mem_singleton.mp hg]
    exact hf

/-- A frozen record is collected between the flushes that it needs, stops the loop, or is refused. -/
theorem append_standing {env : Env} {start observer w : Work} {fs waiting : List Frozen}
    {bs : List Batch} (h : Standing env start observer w fs bs waiting)
    (hs : start.session.disk.Acked) (hquiet : NoBarrier waiting) (f : Frozen) :
    (Stops env w f.record ∧
      appendRecord env w f.record f.barrier = .ok (w.overflow f.record.membership)) ∨
    (∃ w' bs' waiting', appendRecord env w f.record f.barrier = .ok w' ∧ NoBarrier waiting' ∧
      Standing env start observer w' (fs ++ [f]) bs' waiting') ∨
    ∃ e, appendRecord env w f.record f.barrier = .error e ∧
      Refusal env start.session.disk.pendingBytes (fs ++ [f]) e := by
  unfold appendRecord
  cases hover : w.isOversized env f.record with
  | error e =>
    obtain ⟨v, rfl⟩ := isOversized_error hover
    exact Or.inr (Or.inr ⟨_, rfl, .encoding v⟩)
  | ok oversized =>
    cases oversized with
    | true => exact Or.inl ⟨stops_of_isOversized hover, rfl⟩
    | false =>
      right
      -- the flush in front of a barrier
      rcases h.flushIf hs hquiet.alone f.barrier with ⟨w₁, bs₁, hw₁, h₁⟩ | ⟨e, he, hrefused⟩
      · have hpushed := h₁.push f
        have halone : Alone ((if f.barrier then [] else waiting) ++ [f]) := by
          cases hb : f.barrier with
          | true => exact alone_single f
          | false => exact (hquiet.concat hb).alone
        -- and the flush behind it, or of a full batch
        rcases hpushed.flushIf hs halone (f.barrier || decide (env.config.maxBatchRecords ≤
          (w₁.push f.record).processor.records.length)) with ⟨w₂, bs₂, hw₂, h₂⟩ | ⟨e, he, hrefused⟩
        · refine Or.inl ⟨w₂, _, _, ?_, ?_, h₂⟩
          · rw [ok_bind, if_neg Bool.false_ne_true, hw₁, ok_bind]
            exact hw₂
          · cases hb : f.barrier with
            | true => exact fun g hg => nomatch hg
            | false =>
              split
              · exact fun g hg => nomatch hg
              · exact hquiet.concat hb
        · refine Or.inr ⟨e, ?_, hrefused⟩
          rw [ok_bind, if_neg Bool.false_ne_true, hw₁, ok_bind]
          exact he
      · refine Or.inr ⟨e, ?_, hrefused.append [f]⟩
        rw [ok_bind, if_neg Bool.false_ne_true, he]
        rfl

/-! ### Runs -/

/-- One more step freezes its own records. -/
theorem freezeSteps_concat {env : Env} {w w₁ w₂ : Work} {steps : List SyncStep} {step : SyncStep}
    {fs gs : List Frozen} (h : freezeSteps env w steps = .ok (w₁, fs))
    (hstep : freezeStep env w₁ step = .ok (w₂, gs)) :
    freezeSteps env w (steps ++ [step]) = .ok (w₂, fs ++ gs) := by
  induction steps generalizing w fs with
  | nil =>
    cases h
    show (freezeStep env _ step >>= _) = _
    rw [hstep]
    simp [freezeSteps]
    rfl
  | cons s steps ih =>
    unfold freezeSteps at h
    obtain ⟨⟨w₃, fs₁⟩, hs, h⟩ := bind_eq_ok.mp h
    obtain ⟨⟨w₄, fs₂⟩, hrest, h⟩ := bind_eq_ok.mp h
    cases h
    have hconcat := ih hrest
    show (freezeStep env _ s >>= _) = _
    rw [hs, ok_bind]
    show (freezeSteps env w₃ (steps ++ [step]) >>= _) = _
    rw [hconcat, ok_bind, List.append_assoc]
    rfl

/-- The loop was stopped at a record; `fs` are the records before it. -/
def Stopped (env : Env) (w : Work) (steps : List SyncStep) (fs : List Frozen) : Prop :=
  ∃ before item after w₁ w₂ record, steps = before ++ .item item :: after ∧
    freezeSteps env w before = .ok (w₁, fs) ∧ freezeItem env w₁ item = .ok (w₂, .frozen record) ∧
    Stops env w record

/-- Work that stopped stays so. -/
theorem Stopped.append {env : Env} {w : Work} {steps : List SyncStep} {fs : List Frozen}
    (h : Stopped env w steps fs) (rest : List SyncStep) : Stopped env w (steps ++ rest) fs := by
  obtain ⟨before, item, after, w₁, w₂, record, hsteps, hrest⟩ := h
  refine ⟨before, item, after ++ rest, w₁, w₂, record, ?_, hrest⟩
  rw [hsteps, List.append_assoc]
  rfl

/-- The records that `consume` publishes of the steps: those of all steps, or those before a record
that stops the loop -/
inductive Froze (env : Env) (w : Work) (steps : List SyncStep) (fs : List Frozen) : Prop where
  | all {w' : Work} (run : freezeSteps env w steps = .ok (w', fs))
  | stopped (stopped : Stopped env w steps fs)

/-- A processor before a call of `consume`: every record was published, and no record stopped it. -/
structure Processor.Idle (p : Processor) : Prop where
  records : p.records = []
  oversized : p.oversized = false

/-- The state of the loop after the steps -/
inductive Stood (env : Env) (start : Work) (steps : List SyncStep) (w : Work) : Prop where
  | running {observer : Work} {fs waiting : List Frozen} {bs : List Batch}
      (run : freezeSteps env start steps = .ok (observer, fs)) (freezes : observer.processor.oversized =
        false ∧ observer.processor.stopOnOversized = start.processor.stopOnOversized)
      (standing : Standing env start observer w fs bs waiting) (quiet : NoBarrier waiting)
  | stopped {observer : Work} {fs waiting : List Frozen} {bs : List Batch}
      (stopped : Stopped env start steps fs) (oversized : w.processor.oversized = true)
      (standing : Standing env start observer w fs bs waiting) (quiet : NoBarrier waiting)

/-- The errors that are raised for size -/
def isSizeError (e : SessionError) : Prop :=
  e = .localProtocol "prepared event exceeds the durable batch bound" ∨
    e = .localProtocol "prepared output exceeds the durable pending bound"

/-- Why a run raised: not for size, or a publication was refused. -/
def Raises (env : Env) (start : Work) (steps : List SyncStep) (e : SessionError) : Prop :=
  ¬ isSizeError e ∨ ∃ before fs, before <+: steps ∧ Froze env start before fs ∧
    Refusal env start.session.disk.pendingBytes fs e

/-- Freezing never fails for a size. -/
theorem freezeItem_error {env : Env} {w : Work} {item : Item} {e : SessionError}
    (h : freezeItem env w item = .error e) : ¬ isSizeError e := by
  have hnot : e = .localProtocol "malformed durable room state" ∨ e = .assertion ∨ e = .type := by
    unfold freezeItem at h
    split at h
    · cases h
    split at h
    · exact Or.inl (Except.error.inj h).symm
    split at h
    · exact Or.inr (Or.inl (Except.error.inj h).symm)
    split at h
    · cases h
    · next w₁ change _ =>
      dsimp only at h
      cases hs : isSuppressed (fence w₁ _ change) _ item with
      | ok suppressed =>
        rw [hs] at h
        cases suppressed <;> cases h
      | error e' =>
        rw [hs] at h
        cases h
        -- Only an identity that cannot be hashed raises here.
        right
        right
        unfold isSuppressed at hs
        split at hs
        · cases hs
        · unfold inSet at hs
          repeat' split at hs
          all_goals first
            | exact (Except.error.inj hs).symm
            | cases hs
  rcases hnot with rfl | rfl | rfl <;> simp [isSizeError]

/-- A change of the client leaves the queue as it is. -/
theorem Standing.client {env : Env} {start observer w : Work} {fs waiting : List Frozen}
    {bs : List Batch} (h : Standing env start observer w fs bs waiting) (change : ClientChange) :
    Standing env start { observer with session := change.apply observer.session }
      { w with session := change.apply w.session } fs bs waiting := by
  have hsession : w.session = observer.session.withBatches w.session.disk.batches :=
    congrArg Work.session h.shape
  have hqueue : (change.apply w.session).disk.batches = w.session.disk.batches := by
    have happly : change.apply w.session =
        (change.apply w.session).withBatches w.session.disk.batches :=
      change.batches w.session w.session.disk.batches
    rw [happly]
    rfl
  have hacked := change.acked w.session
  have hbytes : (change.apply w.session).disk.pendingBytes = w.session.disk.pendingBytes := by
    unfold Disk.pendingBytes Disk.pending
    rw [hqueue, hacked]
  refine ⟨?_, hqueue.trans h.batches, h.records, (change.acked _).trans h.observerAcked, h.packed,
    fun n hn => (h.counted n hn).trans hbytes.symm, fun hne => hbytes.trans_le (h.bounded hne)⟩
  have hhistory : w.historyRooms = observer.historyRooms := by
    rw [h.shape]
    rfl
  have hprocessor : w.processor = (observer.queued w.queue).processor :=
    congrArg Work.processor h.shape
  show (⟨change.apply w.session, w.historyRooms, w.processor⟩ : Work) =
    ⟨(change.apply observer.session).withBatches (change.apply w.session).disk.batches,
      observer.historyRooms, (observer.queued w.queue).processor⟩
  rw [hqueue, ← change.batches, ← hsession, ← hhistory, ← hprocessor]

/-- So does freezing an item. -/
theorem Standing.freeze {env : Env} {start observer observer' w : Work} {fs waiting : List Frozen}
    {bs : List Batch} (h : Standing env start observer w fs bs waiting)
    (hf : Freezes observer observer') :
    Standing env start observer' (observer'.queued w.queue) fs bs waiting := by
  have hbytes : (observer'.queued w.queue).session.disk.pendingBytes = w.session.disk.pendingBytes := by
    show ((w.session.disk.batches.drop observer'.session.disk.acked).map _).sum = _
    rw [hf.acked, h.observerAcked, ← h.acked]
    rfl
  exact ⟨rfl, h.batches, h.records, hf.acked.trans h.observerAcked, h.packed,
    fun n hn => (h.counted n hn).trans hbytes.symm, fun hne => hbytes.trans_le (h.bounded hne)⟩

/-- One step of the loop -/
theorem runStep_stood {env : Env} {start w : Work} {steps : List SyncStep} {step : SyncStep}
    (hs : start.session.disk.Acked) (h : Stood env start steps w) :
    (∃ w', runStep env w step = .ok w' ∧ Stood env start (steps ++ [step]) w') ∨
    ∃ e, runStep env w step = .error e ∧ Raises env start (steps ++ [step]) e := by
  unfold runStep
  cases h with
  | stopped stopped oversized standing quiet =>
    -- a loop that stopped takes nothing more
    exact Or.inl ⟨w, if_pos oversized, .stopped (stopped.append [step]) oversized standing quiet⟩
  | @running observer fs waiting bs run freezes standing quiet =>
    have hover : w.processor.oversized = false := by
      rw [standing.shape]
      exact freezes.1
    rw [hover, if_neg Bool.false_ne_true]
    cases step with
    | transient t =>
      have hrun := freezeSteps_concat run (rfl : freezeStep env observer (.transient t) = .ok (observer, []))
      rw [List.append_nil] at hrun
      exact Or.inl ⟨w, rfl, .running hrun freezes standing quiet⟩
    | client change =>
      have hrun := freezeSteps_concat run
        (rfl : freezeStep env observer (.client change) = .ok ({ observer with
          session := change.apply observer.session }, []))
      rw [List.append_nil] at hrun
      exact Or.inl ⟨_, rfl, .running hrun freezes (standing.client change) quiet⟩
    | item item =>
      -- the observer freezes the item as the work does, which differs in the queue only
      show (∃ w', consumeItem env w item = .ok w' ∧ _) ∨ ∃ e, consumeItem env w item = .error e ∧ _
      rw [consumeItem_eq]
      have hqueued := freezeItem_queued env observer w.queue item
      rw [← standing.shape] at hqueued
      rw [hqueued]
      cases hfreeze : freezeItem env observer item with
      | error e => exact Or.inr ⟨e, rfl, Or.inl (freezeItem_error hfreeze)⟩
      | ok p =>
        obtain ⟨observer', fate⟩ := p
        have hfreezes := freezeItem_freezes hfreeze
        have hstand := standing.freeze hfreezes
        have hflags : observer'.processor.oversized = false ∧
            observer'.processor.stopOnOversized = start.processor.stopOnOversized :=
          ⟨hfreezes.oversized.trans freezes.1, hfreezes.stopOnOversized.trans freezes.2⟩
        have hrun := freezeSteps_concat run (freezeStep_item hfreeze)
        cases fate with
        | absorbed =>
          have hsame : fs ++ Fate.absorbed.frozen? item = fs := List.append_nil fs
          rw [hsame] at hrun
          exact Or.inl ⟨_, rfl, .running hrun hflags hstand quiet⟩
        | suppressed =>
          have hsame : fs ++ Fate.suppressed.frozen? item = fs := List.append_nil fs
          rw [hsame] at hrun
          exact Or.inl ⟨_, rfl, .running hrun hflags hstand quiet⟩
        | frozen record =>
          show (∃ w', appendRecord env (observer'.queued w.queue) record _ = .ok w' ∧ _) ∨
            ∃ e, appendRecord env (observer'.queued w.queue) record _ = .error e ∧ _
          rcases append_standing hstand hs quiet ⟨item, record⟩ with
            ⟨hstops, happend⟩ | ⟨w', bs', waiting', happend, hquiet', hstand'⟩ | ⟨e, happend, hrefused⟩
          · have hstart : Stops env start record := ⟨hflags.2.symm.trans hstops.1, hstops.2⟩
            have hover' : Standing env start (observer'.overflow record.membership)
                ((observer'.queued w.queue).overflow record.membership) fs bs waiting :=
              ⟨rfl, hstand.batches, hstand.records, hstand.observerAcked, hstand.packed,
                hstand.counted, hstand.bounded⟩
            exact Or.inl ⟨_, happend, .stopped ⟨steps, item, [], observer, observer', record, rfl, run,
              hfreeze, hstart⟩ rfl hover' quiet⟩
          · exact Or.inl ⟨w', happend, .running hrun hflags hstand' hquiet'⟩
          · exact Or.inr ⟨e, happend, Or.inr ⟨_, _, List.prefix_rfl, .all hrun, hrefused⟩⟩

/-- The loop stands behind every step, or gives its reason. -/
theorem loop_stood {env : Env} {start w : Work} {steps : List SyncStep} (rest : List SyncStep)
    (hs : start.session.disk.Acked) (h : Stood env start steps w) :
    (∃ w', rest.foldlM (runStep env) w = .ok w' ∧ Stood env start (steps ++ rest) w') ∨
    ∃ e, rest.foldlM (runStep env) w = .error e ∧ Raises env start (steps ++ rest) e := by
  induction rest generalizing w steps with
  | nil =>
    refine Or.inl ⟨w, rfl, ?_⟩
    rw [List.append_nil]
    exact h
  | cons step rest ih =>
    rw [List.foldlM_cons]
    have hassoc : steps ++ step :: rest = (steps ++ [step]) ++ rest := by simp
    rcases runStep_stood hs h with ⟨w₁, hstep, h₁⟩ | ⟨e, hstep, hraises⟩
    · rw [hstep, ok_bind, hassoc]
      exact ih h₁
    · refine Or.inr ⟨e, by rw [hstep]; rfl, ?_⟩
      rcases hraises with hnot | ⟨before, fs, hprefix, hrest⟩
      · exact Or.inl hnot
      · rw [hassoc]
        exact Or.inr ⟨before, fs, hprefix.trans (List.prefix_append _ _), hrest⟩

theorem consumeLoop_stood {env : Env} {start : Work} (steps : List SyncStep)
    (hidle : start.processor.Idle) (hs : start.session.disk.Acked) :
    (∃ w, consumeLoop env start steps = .ok w ∧ Stood env start steps w) ∨
    ∃ e, consumeLoop env start steps = .error e ∧ Raises env start steps e := by
  have hstart : Standing env start start
      { start with processor := { start.processor with pendingBytes := none } } [] [] [] := by
    refine ⟨rfl, (List.append_nil _).symm, hidle.records, rfl, ⟨[], rfl, .nil⟩, ?_, ?_⟩
    · intro n hn
      cases hn
    · intro hne
      exact absurd rfl hne
  exact loop_stood steps hs (@Stood.running _ _ [] _ _ _ _ _ rfl ⟨hidle.oversized, rfl⟩ hstart
    fun f hf => nomatch hf)

/-- The counter of queued bytes is what the store counts, and the bound holds unless it was exceeded
before. -/
structure Counted (env : Env) (start w : Work) : Prop where
  cached : ∀ n, w.processor.pendingBytes = some n → n = w.session.disk.pendingBytes
  bounded : w.session.disk.pendingBytes ≤
    max start.session.disk.pendingBytes env.config.maxPendingBytes

theorem Standing.countedFrom {env : Env} {start observer w : Work} {fs waiting : List Frozen}
    {bs : List Batch} (h : Standing env start observer w fs bs waiting)
    (hs : start.session.disk.Acked) : Counted env start w := by
  refine ⟨h.counted, ?_⟩
  by_cases hnil : bs = []
  · rw [h.pendingBytes_eq hs, hnil]
    exact Nat.le_max_left _ _
  · exact (h.bounded hnil).trans (Nat.le_max_right _ _)

/-- Where the loop stands, the records are those that the steps froze. -/
theorem Stood.froze {env : Env} {start w : Work} {steps : List SyncStep}
    (h : Stood env start steps w) : ∃ observer fs bs waiting, Froze env start steps fs ∧
      Standing env start observer w fs bs waiting ∧ NoBarrier waiting := by
  cases h with
  | running run _ standing quiet => exact ⟨_, _, _, _, .all run, standing, quiet⟩
  | stopped stopped _ standing quiet => exact ⟨_, _, _, _, .stopped stopped, standing, quiet⟩

/-- `consume` raises, or publishes the frozen records of the items in order: each batch is within its
bounds, and a membership is alone in its batch. The counter that is passed from flush to flush is
what the store counts, and an error for size has its reason. The iterators of the client are consumed
so. -/
theorem consume_publishes {env : Env} {start : Work} (steps : List SyncStep)
    (hidle : start.processor.Idle) (hs : start.session.disk.Acked) :
    (∀ w, consume env start steps = .ok w → ∃ fs bs, Froze env start steps fs ∧
      w.session.disk.batches = start.session.disk.batches ++ bs ∧ Packed env bs fs ∧
      w.processor.records = [] ∧ Counted env start w) ∧
    (∀ before w, before <+: steps → consumeLoop env start before = .ok w → Counted env start w) ∧
    (∀ e, consume env start steps = .error e → isSizeError e →
      ∃ before fs, before <+: steps ∧ Froze env start before fs ∧
        Refusal env start.session.disk.pendingBytes fs e) ∧
    ∀ moves, runMoves env start moves = consume env start (moves.map (Move.step env)) := by
  have hcounted : ∀ before w, consumeLoop env start before = .ok w → Counted env start w := by
    intro before w hw
    rcases consumeLoop_stood before hidle hs with ⟨w', hw', hstood⟩ | ⟨e, he, -⟩
    · rw [hw] at hw'
      cases hw'
      obtain ⟨_, _, _, _, -, hstand, -⟩ := hstood.froze
      exact hstand.countedFrom hs
    · rw [hw] at he
      cases he
  refine ⟨?_, fun before w _ => hcounted before w, ?_, runMoves_eq env start⟩
  · -- the loop ended and its last flush went through
    intro w hw
    obtain ⟨w₁, hloop, hflush⟩ := bind_eq_ok.mp hw
    rcases consumeLoop_stood steps hidle hs with ⟨w', hw', hstood⟩ | ⟨e, he, -⟩
    · rw [hloop] at hw'
      cases hw'
      obtain ⟨observer, fs, bs, waiting, hfroze, hstand, hquiet⟩ := hstood.froze
      rcases hstand.flush hs hquiet.alone with ⟨w₂, bs', hw₂, hdone⟩ | ⟨e, he, -⟩
      · rw [hflush] at hw₂
        cases hw₂
        obtain ⟨published, hfs, hpacked⟩ := hdone.packed
        rw [List.append_nil] at hfs
        exact ⟨fs, bs ++ bs', hfroze, hdone.batches, hfs ▸ hpacked, hdone.records,
          hdone.countedFrom hs⟩
      · rw [hflush] at he
        cases he
    · rw [hloop] at he
      cases he
  · -- a step of the loop raised, or the last flush refused what waited
    intro e he hsize
    rcases consumeLoop_stood steps hidle hs with ⟨w', hw', hstood⟩ | ⟨e', he', hraises⟩
    · have hflush : w'.flush env = .error e := by
        unfold consume at he
        rwa [hw', ok_bind] at he
      obtain ⟨observer, fs, bs, waiting, hfroze, hstand, hquiet⟩ := hstood.froze
      rcases hstand.flush hs hquiet.alone with ⟨w₂, bs', hw₂, -⟩ | ⟨e', he', hrefused⟩
      · rw [hflush] at hw₂
        cases hw₂
      · rw [hflush] at he'
        cases he'
        exact ⟨steps, fs, List.prefix_rfl, hfroze, hrefused⟩
    · have hsame : e' = e := by
        unfold consume at he
        rw [he'] at he
        exact Except.error.inj he
      subst hsame
      rcases hraises with hnot | hreason
      · exact absurd hsize hnot
      · exact hreason

/-! ### Bounds that are smaller than a record -/

/-- A queue of at most 64 bytes in batches of at most 16 -/
def tightEnv : Env :=
  { plainEnv with config := { DurableSyncConfig.default .classic with
      maxBatchBytes := 16
      maxPendingBytes := 64
      positive := by decide } }

/-- A room that is observed, between two account data events without a room -/
def roomSteps : List SyncStep :=
  [.item (.ofGlobal .globalAccountData (plainEvent (.obj []))), .transient .presence,
    .item (.ofSection (py "!r") .join),
    .item (.ofGlobal .globalAccountData (plainEvent (.obj [])))]

def freshWork : Work := ⟨.opened (.fresh none) fun _ => false, [], .new []⟩

theorem consume_publishes_room :
    (consume plainEnv freshWork roomSteps).toOption.map
      (·.session.disk.batches.map (·.records.length)) = some [1, 1, 1] ∧
    ∀ w, consume plainEnv freshWork roomSteps = .ok w → ∃ fs bs, Froze plainEnv freshWork roomSteps fs ∧
      w.session.disk.batches = freshWork.session.disk.batches ++ bs ∧ Packed plainEnv bs fs ∧
      w.processor.records = [] ∧ Counted plainEnv freshWork w :=
  ⟨by decide +kernel, (@consume_publishes plainEnv freshWork roomSteps ⟨rfl, rfl⟩ (Nat.le_refl 0)).1⟩

/-- A processor of a recovery -/
def recoveringWork : Work :=
  { freshWork with processor := { Processor.new [] with
      provenance := .recovered
      stopOnOversized := true } }

def largeStep : SyncStep :=
  .item ⟨some .event, some (plainEvent (.obj [(py "event_id", .str (py "$e"))])), some (py "!r"),
    some .join, none, none⟩

/-- Batches of a hundred bytes were queued before. -/
def fullWork : Work := { freshWork with session := freshWork.session.addBatches [⟨[], false, 100⟩] }

/-- A recovered record that no batch can hold is neither published nor refused; and a queue that is
over its bound stays so where nothing is published. -/
theorem oversized_unpublished :
    (¬ ∀ w, consume tightEnv recoveringWork [largeStep] = .ok w →
      ∃ observer fs, freezeSteps tightEnv recoveringWork [largeStep] = .ok (observer, fs) ∧
        recordsOf w.session.disk.batches = fs.map Frozen.record) ∧
    ¬ ∀ w, consume tightEnv fullWork [] = .ok w →
      w.session.disk.pendingBytes ≤ tightEnv.config.maxPendingBytes := by
  constructor
  · intro h
    have hrun : (consume tightEnv recoveringWork [largeStep]).toOption.map
        (recordsOf ·.session.disk.batches) = some [] := by decide +kernel
    have hfrozen : (freezeSteps tightEnv recoveringWork [largeStep]).toOption.map (·.2.length) =
        some 1 := by decide +kernel
    cases hw : consume tightEnv recoveringWork [largeStep] with
    | error e =>
      rw [hw] at hrun
      cases hrun
    | ok w =>
      obtain ⟨observer, fs, hfs, hrecords⟩ := h w hw
      rw [hw] at hrun
      rw [hfs] at hfrozen
      have hnone : recordsOf w.session.disk.batches = [] := Option.some.inj hrun
      have hone : fs.length = 1 := Option.some.inj hfrozen
      rw [hnone] at hrecords
      have hlen := congrArg List.length hrecords
      rw [List.length_map, hone] at hlen
      cases hlen
  · intro h
    have hbytes := h _ rfl
    exact absurd hbytes (by decide)

end Nio.Durable
