import Nio.Durable.Transaction
import Mathlib.Logic.Relation

/-!
# A transaction as a sequence of changes

What a transaction in progress does to the published records and to the memberships of the rooms,
one change at a time. The functions of an interpretation are sequences of changes; an invariant of
a transaction is a statement about one change.

* `Change` — what one change is
* `consumeItem_changes`, `runMoves_changes` — the items of an iterator
* `loss_changes`, `reconcile_changes` — losses and boundaries
-/

namespace Nio.Durable

open Nio.Py
open Nio.Lib
open Relation (ReflTransGen)

namespace Session

/-- The membership of a room and its epoch -/
def tenure (s : Session) (r : Str) : Option Membership × Nat :=
  ((s.getMetadata r).membership, (s.getMetadata r).membershipEpoch)

/-- The change leads from the membership of the room, which no local operation holds. -/
structure Leads (s : Session) (r : Str) (c : OwnMembership) : Prop where
  observed : s.unobserved r = false
  previous : c.previous = (s.getMetadata r).membership
  previousEpoch : c.previousEpoch = (s.getMetadata r).membershipEpoch
  current : c.previous ≠ some c.current
  currentEpoch : c.currentEpoch =
    c.previousEpoch + if c.previous = some .join ∧ c.current ≠ .join then 1 else 0

/-- The memberships after a change of one of them -/
def tenureAfter (s : Session) (r : Str) (c : OwnMembership) (r' : Str) : Option Membership × Nat :=
  if r' = r then (some c.current, c.currentEpoch) else s.tenure r'

/-- An update that keeps membership and epoch keeps the tenures. -/
theorem tenure_updateMetadata {s : Session} {r : Str} {f : Metadata → Metadata}
    (hf : ∀ m, (f m).membership = m.membership ∧ (f m).membershipEpoch = m.membershipEpoch)
    (r' : Str) : (s.updateMetadata r f).tenure r' = s.tenure r' := by
  unfold tenure
  rw [getMetadata_updateMetadata]
  split
  · next h => rw [h, (hf _).1, (hf _).2]
  · rfl

/-- So does the baseline of a room, -/
theorem tenure_clearBaseline (s : Session) (r r' : Str) :
    (s.clearBaseline r).tenure r' = s.tenure r' := by
  have hf : ∀ m : Metadata, ({ m with baseline := false } : Metadata).membership = m.membership ∧
      ({ m with baseline := false } : Metadata).membershipEpoch = m.membershipEpoch :=
    fun _ => ⟨rfl, rfl⟩
  exact tenure_updateMetadata hf r'

/-- and so does a room that is joined again. -/
theorem tenure_resetJoinedRoom (s : Session) (r r' : Str) :
    (s.resetJoinedRoom r).tenure r' = s.tenure r' :=
  tenure_clearBaseline s r r'

end Session

/-- The record can become an action: a timeline record that is not history -/
def SyncRecord.Actionable (record : SyncRecord) : Prop :=
  record.kind = .timeline ∧ record.provenance ≠ some .history

/-- A record that is no timeline record -/
abbrev NoTimeline (record : SyncRecord) : Prop := record.kind ≠ .timeline

/-- The record of a section or of a loss, which shows no event -/
abbrev Boundary (record : SyncRecord) : Prop :=
  record.kind = .roomLifecycle ∨ record.kind = .loss

/-- A boundary is no timeline record. -/
theorem Boundary.noTimeline {record : SyncRecord} (h : Boundary record) : NoTimeline record := by
  rcases h with h | h
  · simp [NoTimeline, h]
  · simp [NoTimeline, h]

namespace Work

/-- What no part of a transaction takes back, and the effects that it has -/
structure Frame (es : List Effect) (w w' : Work) : Prop where
  input : w'.session.disk.input = w.session.disk.input
  cursor : w'.session.disk.cursor = w.session.disk.cursor
  acked : w'.session.disk.acked = w.session.disk.acked
  history : w'.session.disk.history = w.session.disk.history
  rows : w'.session.disk.rooms = w.session.disk.rooms
  checkpoints : w'.session.disk.checkpoints = w.session.disk.checkpoints
  baselines : w'.session.baselines = w.session.baselines
  response : w'.session.response = w.session.response
  isOpen : w'.session.isOpen = w.session.isOpen
  effects : w'.session.effects = w.session.effects ++ es
  batches : w.session.disk.batches <+: w'.session.disk.batches
  rooms : w.processor.rooms ⊆ w'.processor.rooms
  historyRooms : w.historyRooms ⊆ w'.historyRooms
  provenance : w'.processor.provenance = w.processor.provenance
  stopOnOversized : w'.processor.stopOnOversized = w.processor.stopOnOversized
  suppressIds : w'.processor.suppressIds = w.processor.suppressIds
  oversized : w'.processor.oversized = w.processor.oversized
  oversizedMembership : w'.processor.oversizedMembership = w.processor.oversizedMembership

theorem Frame.refl (w : Work) : Frame [] w w :=
  ⟨rfl, rfl, rfl, rfl, rfl, rfl, rfl, rfl, rfl, by simp, List.prefix_rfl, fun _ h => h,
    fun _ h => h, rfl, rfl, rfl, rfl, rfl⟩

/-- The frames of two parts of a transaction compose. -/
theorem Frame.trans {es es' : List Effect} {w w' w'' : Work} (h : Frame es w w')
    (h' : Frame es' w' w'') : Frame (es ++ es') w w'' where
  input := h'.input.trans h.input
  cursor := h'.cursor.trans h.cursor
  acked := h'.acked.trans h.acked
  history := h'.history.trans h.history
  rows := h'.rows.trans h.rows
  checkpoints := h'.checkpoints.trans h.checkpoints
  baselines := h'.baselines.trans h.baselines
  response := h'.response.trans h.response
  isOpen := h'.isOpen.trans h.isOpen
  effects := by rw [h'.effects, h.effects, List.append_assoc]
  batches := h.batches.trans h'.batches
  rooms := fun _ hr => h'.rooms (h.rooms hr)
  historyRooms := fun _ hr => h'.historyRooms (h.historyRooms hr)
  provenance := h'.provenance.trans h.provenance
  stopOnOversized := h'.stopOnOversized.trans h.stopOnOversized
  suppressIds := h'.suppressIds.trans h.suppressIds
  oversized := h'.oversized.trans h.oversized
  oversizedMembership := h'.oversizedMembership.trans h.oversizedMembership

end Work

/-- A record that is published with what it says about its room -/
structure Recorded (K : SyncRecord → Prop) (w' : Work) (record : SyncRecord) : Prop where
  allowed : K record
  /-- The timeline of a room that is history is not actionable. -/
  actionable : record.Actionable → ∃ r, record.roomId = some r ∧ r ∉ w'.historyRooms
  /-- A loss makes its room history. -/
  loss : record.kind = .loss → ∀ r, record.roomId = some r → r ∈ w'.historyRooms

/-- Neither the records nor the memberships change. -/
structure Still (w w' : Work) : Prop where
  frame : w.Frame [] w'
  log : w'.log = w.log
  tenure : ∀ r, w'.session.tenure r = w.session.tenure r
  intent : w'.session.disk.intent = w.session.disk.intent

theorem Still.refl (w : Work) : Still w w := ⟨.refl w, rfl, fun _ => rfl, rfl⟩

/-- Two parts that change nothing change nothing together. -/
theorem Still.trans {w w' w'' : Work} (h : Still w w') (h' : Still w' w'') : Still w w'' :=
  ⟨h.frame.trans h'.frame, h'.log.trans h.log, fun r => (h'.tenure r).trans (h.tenure r),
    h'.intent.trans h.intent⟩

/-- One change of a transaction whose records satisfy `K` -/
inductive Change (K : SyncRecord → Prop) (w w' : Work) : Prop
  | quiet (quiet : Still w w')
  /-- A record that carries no change of a membership -/
  | record (record : SyncRecord) (frame : w.Frame [] w') (log : w'.log = w.log ++ [record])
      (tenure : ∀ r, w'.session.tenure r = w.session.tenure r)
      (intent : w'.session.disk.intent = w.session.disk.intent)
      (recorded : Recorded K w' record) (membership : record.membership = none)
  /-- A change of a membership with the record that carries it -/
  | carried (r : Str) (c : OwnMembership) (record : SyncRecord) (frame : w.Frame [] w')
      (log : w'.log = w.log ++ [record]) (leads : w.session.Leads r c)
      (tenure : ∀ r', w'.session.tenure r' = w.session.tenureAfter r c r')
      (intent : w'.session.disk.intent = w.session.disk.intent)
      (recorded : Recorded K w' record) (membership : record.membership = some c)
      (roomId : record.roomId = some r) (entered : r ∈ w'.processor.rooms)
      (fenced : c.previous = some .join → r ∈ w'.historyRooms ∨ ∀ record, K record → NoTimeline record)
  /-- A change of a membership without the record that its event would have had -/
  | dropped (r : Str) (c : OwnMembership) (frame : w.Frame [.dropped r c] w')
      (log : w'.log = w.log) (leads : w.session.Leads r c)
      (tenure : ∀ r', w'.session.tenure r' = w.session.tenureAfter r c r')
      (intent : w'.session.disk.intent = w.session.disk.intent) (entered : r ∈ w'.processor.rooms)
      (fenced : c.previous = some .join → r ∈ w'.historyRooms)
      (event : ∃ record, K record ∧ ¬ Boundary record)
      (suppressed : w.processor.suppressed r ≠ [])
  /-- A local operation is observed. -/
  | observe (intent : Intent) (frame : w.Frame [] w') (log : w'.log = w.log)
      (tenure : ∀ r, w'.session.tenure r = w.session.tenure r)
      (before : w.session.disk.intent = some intent)
      (unobserved : w.session.unobserved intent.roomId = true)
      (after : w'.session.disk.intent = some { intent with observed := true })

/-- The changes of a part of a transaction -/
abbrev Changes (K : SyncRecord → Prop) : Work → Work → Prop := ReflTransGen (Change K)

/-- The same work as if no record had stopped it since -/
def Work.resumed (w' w : Work) : Work :=
  { w' with processor := { w'.processor with
    oversized := w.processor.oversized
    oversizedMembership := w.processor.oversizedMembership } }

/-- A recovered record that no batch can hold: its change is left to a loss. -/
structure Overflow (r : Str) (w w' : Work) : Prop where
  frame : w.Frame [] (w'.resumed w)
  log : w'.log = w.log
  intent : w'.session.disk.intent = w.session.disk.intent
  oversized : w'.processor.oversized = true
  entered : r ∈ w'.processor.rooms
  tenure : match w'.processor.oversizedMembership with
    | none => ∀ r', w'.session.tenure r' = w.session.tenure r'
    | some c => w.session.Leads r c ∧ ∀ r', w'.session.tenure r' = w.session.tenureAfter r c r'

variable {K : SyncRecord → Prop} {env : Env}

/-- A change has no effects but those of dropped memberships. -/
theorem Change.frame {w w' : Work} (h : Change K w w') : ∃ es, w.Frame es w' ∧
    ∀ e ∈ es, ∃ r c, e = .dropped r c := by
  cases h with
  | quiet h => exact ⟨[], h.frame, fun e he => by cases he⟩
  | record _ frame | carried _ _ _ frame | observe _ frame =>
    exact ⟨[], frame, fun e he => by cases he⟩
  | dropped r c frame =>
    refine ⟨_, frame, fun e he => ⟨r, c, ?_⟩⟩
    exact List.mem_singleton.mp he

/-- Neither have many of them. -/
theorem Changes.frame {w w' : Work} (h : Changes K w w') : ∃ es, w.Frame es w' ∧
    ∀ e ∈ es, ∃ r c, e = .dropped r c := by
  induction h with
  | refl => exact ⟨[], .refl w, fun e he => by cases he⟩
  | tail _ hstep ih =>
    obtain ⟨es, hf, hes⟩ := ih
    obtain ⟨es', hf', hes'⟩ := hstep.frame
    refine ⟨es ++ es', hf.trans hf', fun e he => ?_⟩
    rcases List.mem_append.mp he with he | he
    · exact hes e he
    · exact hes' e he

/-- A change only depends on which records are allowed. -/
theorem Change.congr {K' : SyncRecord → Prop} (hK : ∀ r, K r ↔ K' r) {w w' : Work}
    (h : Change K w w') : Change K' w w' := by
  have hrec : ∀ {w' record}, Recorded K w' record → Recorded K' w' record :=
    fun hr => ⟨(hK _).mp hr.allowed, hr.actionable, hr.loss⟩
  cases h with
  | quiet h => exact .quiet h
  | record record frame log tenure intent recorded membership =>
    exact .record record frame log tenure intent (hrec recorded) membership
  | carried r c record frame log leads tenure intent recorded membership roomId entered fenced =>
    refine .carried r c record frame log leads tenure intent (hrec recorded) membership roomId entered
      fun hc => ?_
    rcases fenced hc with hin | hnone
    · exact Or.inl hin
    · exact Or.inr fun record hr => hnone record ((hK record).mpr hr)
  | dropped r c frame log leads tenure intent entered fenced event suppressed =>
    obtain ⟨record, hr, hevent⟩ := event
    exact .dropped r c frame log leads tenure intent entered fenced
      ⟨record, (hK record).mp hr, hevent⟩ suppressed
  | observe intent frame log tenure before unobserved after =>
    exact .observe intent frame log tenure before unobserved after

theorem Changes.congr {K' : SyncRecord → Prop} (hK : ∀ r, K r ↔ K' r) {w w' : Work}
    (h : Changes K w w') : Changes K' w w' :=
  ReflTransGen.mono (fun _ _ => Change.congr hK) _ _ h

/-- The records of a sequence of changes come after those that were there. -/
theorem Changes.log {w w' : Work} (h : Changes K w w') :
    ∃ rs, w'.log = w.log ++ rs ∧ ∀ record ∈ rs, K record := by
  induction h with
  | refl => exact ⟨[], by simp, fun record hr => by cases hr⟩
  | tail _ hstep ih =>
    obtain ⟨rs, hlog, hrs⟩ := ih
    cases hstep with
    | quiet h => exact ⟨rs, h.log.trans hlog, hrs⟩
    | dropped _ _ _ log | observe _ _ log => exact ⟨rs, log.trans hlog, hrs⟩
    | record record _ log _ _ recorded | carried _ _ record _ log _ _ _ recorded =>
      refine ⟨rs ++ [record], by rw [log, hlog, List.append_assoc], fun x hx => ?_⟩
      rcases List.mem_append.mp hx with hx | hx
      · exact hrs x hx
      · rw [List.mem_singleton.mp hx]
        exact recorded.allowed

/-! ## Items -/

/-- The record is that of the item, up to what the room adds. -/
structure OfItem (item : Item) (record : SyncRecord) : Prop where
  kind : record.kind = (freezeEvent item).kind
  roomId : record.roomId = item.roomId
  source : record.source = (freezeEvent item).source

/-- The record of an item in its room is one of the item. -/
theorem ofItem_roomRecord (w : Work) (r : Str) (item : Item) (change : Option OwnMembership) :
    OfItem item (roomRecord w r item change) :=
  ⟨rfl, freezeEvent_roomId item, rfl⟩

/-- The records of a move are allowed, and only rooms have a timeline. -/
def Move.Allowed (K : SyncRecord → Prop) : Move → Prop
  | .yield item => (∀ record, OfItem item record → K record) ∧
      (item.roomId = none → (freezeEvent item).kind ≠ .timeline)
  | _ => True

namespace Work

/-- The rooms of the client are no part of the frame. -/
theorem frame_client (w : Work) (rooms invited resets : List Str)
    (pendingAccountData : List (Str × List (Str × Event))) :
    w.Frame [] { w with session := { w.session with rooms, invited, resets, pendingAccountData } } :=
  ⟨rfl, rfl, rfl, rfl, rfl, rfl, rfl, rfl, rfl, by simp, List.prefix_rfl, fun _ h => h,
    fun _ h => h, rfl, rfl, rfl, rfl, rfl⟩

theorem frame_metadata (w : Work) (metadata : List (Str × Metadata)) :
    w.Frame [] { w with session := { w.session with metadata } } :=
  ⟨rfl, rfl, rfl, rfl, rfl, rfl, rfl, rfl, rfl, by simp, List.prefix_rfl, fun _ h => h,
    fun _ h => h, rfl, rfl, rfl, rfl, rfl⟩

/-- Publishing keeps the frame. -/
theorem frame_publishing (w : Work) (bs : List Batch) (rs : List SyncRecord) (pb : Option Nat) :
    w.Frame [] (w.publishing bs rs pb) :=
  ⟨rfl, rfl, rfl, rfl, rfl, rfl, rfl, rfl, rfl, by simp [publishing, Session.addBatches],
    List.prefix_append _ _, fun _ h => h, fun _ h => h, rfl, rfl, rfl, rfl, rfl⟩

/-- So does a record that is appended. -/
theorem frame_appended (w : Work) (bs : List Batch) (rs : List SyncRecord) (pb : Option Nat) :
    w.Frame [] (w.appended bs rs pb) :=
  ⟨rfl, rfl, rfl, rfl, rfl, rfl, rfl, rfl, rfl,
    by simp [appended, publishing, Session.addBatches], List.prefix_append _ _, fun _ h => h,
    fun _ h => h, rfl, rfl, rfl, rfl, rfl⟩

/-- `insertNew` adds an element that is not there. -/
theorem mem_insertNew {α : Type} [DecidableEq α] {xs : List α} {x y : α} :
    y ∈ insertNew xs x ↔ y = x ∨ y ∈ xs := by
  unfold insertNew
  split
  · next h =>
    constructor
    · exact Or.inr
    · rintro (rfl | hy)
      · exact h
      · exact hy
  · simp [or_comm]

theorem frame_addRoom (w : Work) (r : Str) : w.Frame [] (w.addRoom r) :=
  ⟨rfl, rfl, rfl, rfl, rfl, rfl, rfl, rfl, rfl, by simp [addRoom], List.prefix_rfl,
    fun _ h => mem_insertNew.mpr (Or.inr h), fun _ h => h, rfl, rfl, rfl, rfl, rfl⟩

theorem frame_addHistory (w : Work) (r : Str) : w.Frame [] (w.addHistory r) :=
  ⟨rfl, rfl, rfl, rfl, rfl, rfl, rfl, rfl, rfl, by simp [addHistory], List.prefix_rfl,
    fun _ h => h, fun _ h => mem_insertNew.mpr (Or.inr h), rfl, rfl, rfl, rfl, rfl⟩

/-- Entering a room keeps the frame. -/
theorem frame_entered (w : Work) (r : Str) (item : Item) : w.Frame [] (w.entered r item) := by
  unfold entered
  split
  · exact (frame_client w _ _ _ _).trans (frame_addRoom _ r)
  · exact frame_addRoom w r

/-- The room is known from then on. -/
theorem mem_rooms_entered (w : Work) (r : Str) (item : Item) :
    r ∈ (w.entered r item).processor.rooms := by
  unfold entered addRoom
  exact mem_insertNew.mpr (Or.inl rfl)

/-- What an item observes keeps the frame. -/
theorem Observes.frame {w w' : Work} {r : Str} {o : Observed} (h : w.Observes r o w') :
    w.Frame [] w' := by
  rw [h.shape]
  exact ⟨rfl, rfl, rfl, rfl, rfl, rfl, rfl, rfl, rfl, by simp, List.prefix_rfl, fun _ h => h,
    fun _ h => h, rfl, rfl, rfl, rfl, rfl⟩

theorem Observes.log {w w' : Work} {r : Str} {o : Observed} (h : w.Observes r o w') :
    w'.log = w.log := by
  rw [h.shape]
  rfl

theorem Observes.intent {w w' : Work} {r : Str} {o : Observed} (h : w.Observes r o w') :
    w'.session.disk.intent = w.session.disk.intent := by
  rw [h.shape]

/-- A change that is observed leads from the membership of its room. -/
theorem Observes.leads {w w' : Work} {r : Str} {c : OwnMembership}
    (h : w.Observes r (.go (some c)) w') : w.session.Leads r c := by
  obtain ⟨hu, hm, hp, he, hn, -⟩ := h.change c rfl
  exact ⟨hu, hp, he, fun heq => hm (hp ▸ heq), hn⟩

/-- It is the membership of the room from then on. -/
theorem Observes.tenure {w w' : Work} {r : Str} {c : OwnMembership}
    (h : w.Observes r (.go (some c)) w') (r' : Str) :
    w'.session.tenure r' = w.session.tenureAfter r c r' := by
  obtain ⟨-, -, -, -, -, hget⟩ := h.change c rfl
  unfold Session.tenure Session.tenureAfter
  rw [hget]
  split
  · rfl
  · rfl

/-- Without a change the tenures stay. -/
theorem Observes.tenure_still {w w' : Work} {r : Str} {o : Observed} (h : w.Observes r o w')
    (ho : ∀ c, o ≠ .go (some c)) (r' : Str) : w'.session.tenure r' = w.session.tenure r' := by
  unfold Session.tenure
  rw [h.quiet ho]

end Work

/-! ### The fence -/

/-- The end of a live tenure keeps the frame, -/
theorem frame_fence (w : Work) (r : Str) (change : Option OwnMembership) :
    w.Frame [] (fence w r change) := by
  unfold fence
  split
  · split
    · exact (Work.frame_metadata w _).trans (Work.frame_addHistory _ r)
    · exact .refl w
  · exact .refl w

theorem log_fence (w : Work) (r : Str) (change : Option OwnMembership) :
    (fence w r change).log = w.log := by
  unfold fence
  split
  · split
    · rfl
    · rfl
  · rfl

theorem intent_fence (w : Work) (r : Str) (change : Option OwnMembership) :
    (fence w r change).session.disk.intent = w.session.disk.intent := by
  unfold fence
  split
  · split
    · rfl
    · rfl
  · rfl

/-- and the tenures. -/
theorem tenure_fence (w : Work) (r : Str) (change : Option OwnMembership) (r' : Str) :
    (fence w r change).session.tenure r' = w.session.tenure r' := by
  unfold fence
  split
  · split
    · exact Session.tenure_clearBaseline w.session r r'
    · rfl
  · rfl

/-- A room that was left is history. -/
theorem mem_historyRooms_fence {w : Work} {r : Str} {c : OwnMembership}
    (h : c.previous = some .join) : r ∈ (fence w r (some c)).historyRooms := by
  unfold fence
  dsimp only
  rw [if_pos h]
  exact Work.mem_insertNew.mpr (Or.inl rfl)

/-- What a room record says, in the state that it is made in -/
theorem recorded_roomRecord {w w' : Work} {r : Str} {item : Item} {change : Option OwnMembership}
    (hr : item.roomId = some r) (hK : ∀ record, OfItem item record → K record)
    (hhist : w'.historyRooms = w.historyRooms) : Recorded K w' (roomRecord w r item change) where
  allowed := hK _ (ofItem_roomRecord w r item change)
  actionable ha := by
    refine ⟨r, (freezeEvent_roomId item).trans hr, fun hmem => ?_⟩
    rw [hhist] at hmem
    obtain ⟨hkind, hprov⟩ := ha
    refine hprov ?_
    change (if (freezeEvent item).kind = .timeline then _ else _) = _
    rw [if_pos (show (freezeEvent item).kind = .timeline from hkind), if_pos hmem]
  loss hl := absurd hl (freezeEvent_ne_loss item)

/-! ### One item -/

theorem still_client (w : Work) (rooms invited resets : List Str)
    (pendingAccountData : List (Str × List (Str × Event))) : Still w
      { w with session := { w.session with rooms, invited, resets, pendingAccountData } } :=
  ⟨w.frame_client rooms invited resets pendingAccountData, rfl, fun _ => rfl, rfl⟩

theorem still_addRoom (w : Work) (r : Str) : Still w (w.addRoom r) :=
  ⟨w.frame_addRoom r, rfl, fun _ => rfl, rfl⟩

/-- Metadata with the same tenures change nothing. -/
theorem still_metadata {w : Work} {metadata : List (Str × Metadata)}
    (ht : ∀ r, ({ w.session with metadata } : Session).tenure r = w.session.tenure r) :
    Still w { w with session := { w.session with metadata } } :=
  ⟨w.frame_metadata metadata, rfl, ht, rfl⟩

theorem still_clearBaseline (w : Work) (r : Str) :
    Still w { w with session := w.session.clearBaseline r } :=
  still_metadata (Session.tenure_clearBaseline w.session r)

theorem still_updateMetadata {w : Work} {r : Str} {f : Metadata → Metadata}
    (hf : ∀ m, (f m).membership = m.membership ∧ (f m).membershipEpoch = m.membershipEpoch) :
    Still w { w with session := w.session.updateMetadata r f } :=
  still_metadata (Session.tenure_updateMetadata hf)

theorem still_resetJoinedRoom (w : Work) (r : Str) :
    Still w { w with session := w.session.resetJoinedRoom r } :=
  (still_clearBaseline w r).trans (still_client _ _ _ _ _)

/-- Entering a room changes nothing. -/
theorem still_entered (w : Work) (r : Str) (item : Item) : Still w (w.entered r item) := by
  unfold Work.entered
  split
  · exact (still_client w _ _ _ _).trans (still_addRoom _ r)
  · exact still_addRoom w r

/-- Neither does an event before it changes the room. -/
theorem still_timelineRoom (w : Work) (r : Str) (event : Event) :
    Still w { w with session := w.session.timelineRoom env r event } := by
  unfold Session.timelineRoom
  split
  · split
    · exact (still_resetJoinedRoom w r).trans (still_client _ _ _ _ _)
    · exact .refl w
  · exact .refl w

/-- The observed change and the record of an item are one change. -/
theorem change_item {w w₁ w' : Work} {r : Str} {item : Item} {change : Option OwnMembership}
    {b : Bool} (hobs : w.Observes r (.go change) w₁) (hentered : r ∈ w.processor.rooms)
    (hr : item.roomId = some r) (hK : ∀ record, OfItem item record → K record)
    (h : appendRecord env (fence w₁ r change) (roomRecord (fence w₁ r change) r item change) b =
      .ok w') : (w.processor.stopOnOversized = true ∧ Overflow r w w') ∨ Change K w w' := by
  have hframe := hobs.frame.trans (frame_fence w₁ r change)
  have hlog : (fence w₁ r change).log = w.log := (log_fence w₁ r change).trans hobs.log
  have hintent := (intent_fence w₁ r change).trans hobs.intent
  rcases appendRecord_cases h with ⟨hstop, rfl⟩ | ⟨bs, rs, pb, rfl, hbs⟩
  · refine Or.inl ⟨hframe.stopOnOversized.symm.trans hstop, ?_⟩
    refine ⟨?_, hlog, hintent, rfl, hframe.rooms hentered, ?_⟩
    · exact hframe.trans ⟨rfl, rfl, rfl, rfl, rfl, rfl, rfl, rfl, rfl,
        by simp [Work.overflow, Work.resumed], List.prefix_rfl, fun _ h => h, fun _ h => h, rfl, rfl,
        rfl, hframe.oversized.symm, hframe.oversizedMembership.symm⟩
    · cases change with
      | none =>
        intro r'
        exact (tenure_fence w₁ r none r').trans (hobs.tenure_still (fun c hc => by cases hc) r')
      | some c =>
        exact ⟨hobs.leads, fun r' => (tenure_fence w₁ r (some c) r').trans (hobs.tenure r')⟩
  · have hframe' := hframe.trans ((fence w₁ r change).frame_appended bs rs pb)
    have hlog' : ((fence w₁ r change).appended bs rs pb).log =
        w.log ++ [roomRecord (fence w₁ r change) r item change] := by
      rw [log_appended hbs, hlog]
    have hrec := @recorded_roomRecord K (fence w₁ r change)
      ((fence w₁ r change).appended bs rs pb) r item change hr hK rfl
    right
    cases change with
    | none =>
      refine .record _ hframe' hlog' (fun r' => ?_) hintent hrec rfl
      exact (tenure_fence w₁ r none r').trans (hobs.tenure_still (fun c hc => by cases hc) r')
    | some c =>
      refine .carried r c _ hframe' hlog' hobs.leads (fun r' => ?_) hintent hrec rfl
        ((freezeEvent_roomId item).trans hr) (hframe'.rooms hentered) fun hp => Or.inl ?_
      · exact (tenure_fence w₁ r (some c) r').trans (hobs.tenure r')
      · exact mem_historyRooms_fence hp

theorem processor_fence (w : Work) (r : Str) (change : Option OwnMembership) :
    (fence w r change).processor = w.processor := by
  unfold fence
  split
  · split
    · rfl
    · rfl
  · rfl

/-- What a set answers is membership. -/
theorem inSet_ok {id : Json} {ids : List Json} {b : Bool} (h : inSet id ids = .ok b) :
    b = decide (id ∈ ids) := by
  unfold inSet at h
  split at h
  · cases h
  · cases h
  · exact (Except.ok.inj h).symm

/-- The event of a suppressed item has an identity that the room suppresses. -/
theorem isSuppressed_true {w : Work} {r : Str} {item : Item} (h : isSuppressed w r item = .ok true) :
    item.event ≠ none ∧ w.processor.suppressed r ≠ [] := by
  unfold isSuppressed at h
  split at h
  · cases h
  · next event hevent =>
    have hmem := of_decide_eq_true (inSet_ok h).symm
    exact ⟨by simp [hevent], List.ne_nil_of_mem hmem⟩

/-- The record of an event is no boundary. -/
theorem not_boundary_of_event {item : Item} (h : item.event ≠ none) :
    ¬ Boundary (freezeEvent item) := by
  rintro (hk | hk)
  · obtain ⟨event, hevent⟩ := Option.ne_none_iff_exists'.mp h
    unfold freezeEvent at hk
    rw [hevent] at hk
    simp only [recordKind] at hk
    split at hk <;> cases hk
  · exact freezeEvent_ne_loss item hk

/-- The change of an item that is suppressed is dropped. -/
theorem change_dropped {w w₁ : Work} {r : Str} {item : Item} {change : Option OwnMembership}
    (hobs : w.Observes r (.go change) w₁) (hentered : r ∈ w.processor.rooms)
    (hK : ∀ record, OfItem item record → K record)
    (hsuppressed : isSuppressed (fence w₁ r change) r item = .ok true) :
    Change K w (dropChange (fence w₁ r change) r change) := by
  obtain ⟨hevent, hids⟩ := isSuppressed_true hsuppressed
  rw [processor_fence, Processor.suppressed, hobs.frame.suppressIds] at hids
  have hframe := hobs.frame.trans (frame_fence w₁ r change)
  have hlog : (fence w₁ r change).log = w.log := (log_fence w₁ r change).trans hobs.log
  have hintent := (intent_fence w₁ r change).trans hobs.intent
  cases change with
  | none =>
    refine .quiet ⟨hframe, hlog, fun r' => ?_, hintent⟩
    exact (tenure_fence w₁ r none r').trans (hobs.tenure_still (fun c hc => by cases hc) r')
  | some c =>
    refine .dropped r c ?_ hlog hobs.leads (fun r' => ?_) hintent (hframe.rooms hentered)
      mem_historyRooms_fence ⟨freezeEvent item, hK _ ?_, not_boundary_of_event hevent⟩ hids
    · exact hframe.trans ⟨rfl, rfl, rfl, rfl, rfl, rfl, rfl, rfl, rfl, rfl, List.prefix_rfl,
        fun _ h => h, fun _ h => h, rfl, rfl, rfl, rfl, rfl⟩
    · exact (tenure_fence w₁ r (some c) r').trans (hobs.tenure r')
    · exact ⟨rfl, freezeEvent_roomId item, rfl⟩

/-- An item without a room is one record. -/
theorem change_global {w w' : Work} {item : Item} {b : Bool} (hr : item.roomId = none)
    (hitem : (Move.yield item).Allowed K) (hstop : w.processor.stopOnOversized = false)
    (h : appendRecord env w (freezeEvent item) b = .ok w') : Change K w w' := by
  rcases appendRecord_cases h with ⟨hstop', -⟩ | ⟨bs, rs, pb, rfl, hbs⟩
  · rw [hstop] at hstop'
    cases hstop'
  · refine .record _ (w.frame_appended bs rs pb) (log_appended hbs) (fun _ => rfl) rfl ?_ ?_
    · refine ⟨hitem.1 _ ⟨rfl, freezeEvent_roomId item, rfl⟩, fun ha => ?_, fun hl => ?_⟩
      · exact absurd ha.1 (hitem.2 hr)
      · exact absurd hl (freezeEvent_ne_loss item)
    · unfold freezeEvent
      split
      · rfl
      · rfl

/-- What an item is: some changes, the last of which may be an overflow. A global item is never
recovered. -/
theorem consumeItem_changes {w w' : Work} {item : Item} (hitem : (Move.yield item).Allowed K)
    (hglobal : item.roomId = none → w.processor.stopOnOversized = false)
    (h : consumeItem env w item = .ok w') :
    Changes K w w' ∨ w.processor.stopOnOversized = true ∧
      ∃ r w₁, item.roomId = some r ∧ Changes K w w₁ ∧ Overflow r w₁ w' := by
  rcases consumeItem_cases h with ⟨hr, b, happend⟩ | ⟨r, w₁, o, hr, hobserve, hrest⟩
  · exact Or.inl (.single (change_global hr hitem (hglobal hr) happend))
  · have hentered : Change K w (w.entered r item) := .quiet (still_entered w r item)
    have hobs := observe_cases hobserve
    have hmem := w.mem_rooms_entered r item
    rcases hrest with ⟨rfl, rfl⟩ | ⟨change, rfl, ⟨hsuppressed, rfl⟩ | ⟨-, b, happend⟩⟩
    · refine Or.inl (.tail (.single hentered) (.quiet ⟨hobs.frame, hobs.log, ?_, hobs.intent⟩))
      exact hobs.tenure_still fun c hc => by cases hc
    · exact Or.inl (.tail (.single hentered) (change_dropped hobs hmem hitem.1 hsuppressed))
    · rcases change_item hobs hmem hr hitem.1 happend with ⟨hstop, hover⟩ | hchange
      · refine Or.inr ⟨?_, r, w.entered r item, hr, .single hentered, hover⟩
        exact (w.frame_entered r item).stopOnOversized.symm.trans hstop
      · exact Or.inl (.tail (.single hentered) hchange)

/-! ### Iterators -/

theorem still_clientMove (w : Work) (move : Move) :
    Still w { w with session := clientMove env w.session move } := by
  cases move with
  | timelineRoom r event => exact still_timelineRoom w r event
  | enterRoom r => exact still_client _ _ _ _ _
  | inviteRoom r => exact still_client _ _ _ _ _
  | leaveRoom r => exact still_client _ _ _ _ _
  | yield item => exact .refl w

/-- The moves are allowed, and no global item is met where an oversized record stops the loop. -/
structure AllowedMoves (K : SyncRecord → Prop) (stop : Bool) (moves : List Move) : Prop where
  allowed : ∀ move ∈ moves, move.Allowed K
  rooms : stop = true → ∀ item, Move.yield item ∈ moves → item.roomId ≠ none

/-- What a part of an iterator comes to: some changes, the last of which may be an overflow -/
def Consumed (K : SyncRecord → Prop) (moves : List Move) (w w' : Work) : Prop :=
  Changes K w w' ∨ w.processor.stopOnOversized = true ∧
    ∃ r w₁, (∃ item, Move.yield item ∈ moves ∧ item.roomId = some r) ∧
      Changes K w w₁ ∧ Overflow r w₁ w'

/-- One move of an iterator -/
theorem runMove_consumed {w w' : Work} {move : Move} {moves : List Move} (hmem : move ∈ moves)
    (hmoves : AllowedMoves K w.processor.stopOnOversized moves)
    (h : runMove env w move = .ok w') : Consumed K moves w w' := by
  unfold runMove at h
  split at h
  · cases h
    exact Or.inl .refl
  · cases move with
    | yield item =>
      have hglobal : item.roomId = none → w.processor.stopOnOversized = false := fun hr => by
        cases hs : w.processor.stopOnOversized with
        | false => rfl
        | true => exact absurd hr (hmoves.rooms hs item hmem)
      rcases consumeItem_changes (hmoves.allowed _ hmem) hglobal h with
        hc | ⟨hstop, r, w₁, hr, hc, hover⟩
      · exact Or.inl hc
      · exact Or.inr ⟨hstop, r, w₁, ⟨item, hmem, hr⟩, hc, hover⟩
    | _ =>
      cases h
      exact Or.inl (.single (.quiet (still_clientMove w _)))

/-- A loop that has stopped does nothing. -/
theorem foldlM_runMove_oversized {w w' : Work} {moves : List Move} (hw : w.processor.oversized = true)
    (h : moves.foldlM (runMove env) w = .ok w') : w' = w := by
  induction moves with
  | nil =>
    cases h
    rfl
  | cons move moves ih =>
    rw [List.foldlM_cons] at h
    obtain ⟨w₁, h₁, h⟩ := bind_eq_ok.mp h
    unfold runMove at h₁
    rw [if_pos hw] at h₁
    cases h₁
    exact ih h

/-- The moves of an iterator, one after the other -/
theorem foldlM_runMove_consumed {w w' : Work} {moves : List Move}
    (hmoves : AllowedMoves K w.processor.stopOnOversized moves)
    (h : moves.foldlM (runMove env) w = .ok w') : Consumed K moves w w' := by
  have hgen : ∀ (rest : List Move) (w : Work), (∀ move ∈ rest, move ∈ moves) →
      AllowedMoves K w.processor.stopOnOversized moves →
      rest.foldlM (runMove env) w = .ok w' → Consumed K moves w w' := by
    intro rest
    induction rest with
    | nil =>
      intro w _ _ h
      cases h
      exact Or.inl .refl
    | cons move rest ih =>
      intro w hrest hmoves h
      rw [List.foldlM_cons] at h
      obtain ⟨w₁, h₁, h⟩ := bind_eq_ok.mp h
      rcases runMove_consumed (hrest move List.mem_cons_self) hmoves h₁ with hc | hover
      · obtain ⟨es, hframe, -⟩ := hc.frame
        have hstop := hframe.stopOnOversized
        rcases ih w₁ (fun m hm => hrest m (List.mem_cons_of_mem _ hm)) (hstop ▸ hmoves) h with
          hc' | ⟨hs, r, w₂, hitem, hc', hover⟩
        · exact Or.inl (hc.trans hc')
        · exact Or.inr ⟨hstop ▸ hs, r, w₂, hitem, hc.trans hc', hover⟩
      · -- The loop was left.
        obtain ⟨hs, r, w₂, hitem, hc, hover⟩ := hover
        rw [foldlM_runMove_oversized hover.oversized h]
        exact Or.inr ⟨hs, r, w₂, hitem, hc, hover⟩
  exact hgen moves w (fun _ hm => hm) hmoves h

/-- A flush changes nothing and leaves no record waiting. -/
theorem change_flush {w w' : Work} (h : w.flush env = .ok w') :
    Change K w w' ∧ w'.processor.records = [] := by
  have hlog := log_flush h
  obtain ⟨bs, pb, rfl, -⟩ := flush_cases h
  exact ⟨.quiet ⟨w.frame_publishing bs [] pb, hlog, fun _ => rfl, rfl⟩, rfl⟩

/-- A record that stopped the loop still has its loss to come. -/
theorem overflow_flush {w w₁ w' : Work} {r : Str} (ho : Overflow r w w₁)
    (h : w₁.flush env = .ok w') : Overflow r w w' := by
  have hlog := log_flush h
  obtain ⟨bs, pb, rfl, -⟩ := flush_cases h
  exact ⟨ho.frame.trans ((w₁.resumed w).frame_publishing bs [] pb), hlog.trans ho.log, ho.intent,
    ho.oversized, ho.entered, ho.tenure⟩

/-- A whole iterator -/
theorem runMoves_consumed {w w' : Work} {moves : List Move}
    (hmoves : AllowedMoves K w.processor.stopOnOversized moves)
    (h : runMoves env w moves = .ok w') : Consumed K moves w w' ∧ w'.processor.records = [] := by
  unfold runMoves at h
  obtain ⟨w₁, hfold, hflush⟩ := bind_eq_ok.mp h
  have hfirst : Change K w { w with processor := { w.processor with pendingBytes := none } } :=
    .quiet ⟨⟨rfl, rfl, rfl, rfl, rfl, rfl, rfl, rfl, rfl, by simp, List.prefix_rfl, fun _ h => h,
      fun _ h => h, rfl, rfl, rfl, rfl, rfl⟩, rfl, fun _ => rfl, rfl⟩
  obtain ⟨hlast, hrecords⟩ := @change_flush K env w₁ w' hflush
  refine ⟨?_, hrecords⟩
  rcases @foldlM_runMove_consumed K env
    { w with processor := { w.processor with pendingBytes := none } } w₁ moves hmoves hfold with
    hc | ⟨hs, r, w₂, hitem, hc, hover⟩
  · exact Or.inl ((ReflTransGen.head hfirst hc).tail hlast)
  · exact Or.inr ⟨hs, r, w₂, hitem, .head hfirst hc, overflow_flush hover hflush⟩

/-- Where no record stops the loop, it only makes changes. -/
theorem runMoves_changes {w w' : Work} {moves : List Move}
    (hstop : w.processor.stopOnOversized = false) (hmoves : ∀ move ∈ moves, move.Allowed K)
    (h : runMoves env w moves = .ok w') : Changes K w w' ∧ w'.processor.records = [] := by
  have hallowed : AllowedMoves K w.processor.stopOnOversized moves :=
    ⟨hmoves, fun hs => by rw [hstop] at hs; cases hs⟩
  obtain ⟨hc | ⟨hs, -⟩, hrecords⟩ := runMoves_consumed hallowed h
  · exact ⟨hc, hrecords⟩
  · rw [hstop] at hs
    cases hs

end Nio.Durable
