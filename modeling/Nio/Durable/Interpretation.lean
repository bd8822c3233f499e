import Nio.Durable.Observations

/-!
# The parts of an interpretation

Losses, boundaries, tails and pages as sequences of changes.

* `loss_changes`, `reconcile_changes` — what a loss and a boundary do
* `consumePage_changes` — the events of a page, with the loss of an oversized one
* `classicMain_changes`, `settle_changes` — the two halves of a tail
-/

namespace Nio.Durable

open Nio.Py
open Nio.Events
open Nio.Lib
open Relation (ReflTransGen)

variable {K : SyncRecord → Prop} {env : Env}

/-! ## Losses -/

/-- The batches of one record hold that record. -/
theorem publishOne_cases {w w' : Work} {record : SyncRecord}
    (h : publishOne env w record = .ok w') :
    ∃ bs, w' = w.withSession (w.session.addBatches bs) ∧ recordsOf bs = [record] := by
  unfold publishOne at h
  obtain ⟨⟨s, n⟩, hp, h⟩ := bind_eq_ok.mp h
  obtain ⟨bs, rfl, hbs⟩ := publishRecords_cases hp
  cases h
  exact ⟨bs, rfl, hbs⟩

namespace Work

/-- Published batches are added to the log. -/
theorem log_addBatches {w : Work} {bs : List Batch} (hw : w.processor.records = []) :
    (w.withSession (w.session.addBatches bs)).log = w.log ++ recordsOf bs := by
  unfold log withSession
  dsimp only
  rw [published_addBatches, hw, List.append_nil, List.append_nil]

theorem frame_addBatches (w : Work) (bs : List Batch) :
    w.Frame [] (w.withSession (w.session.addBatches bs)) :=
  ⟨rfl, rfl, rfl, rfl, rfl, rfl, rfl, rfl, rfl, by simp [withSession, Session.addBatches],
    List.prefix_append _ _, fun _ h => h, fun _ h => h, rfl, rfl, rfl, rfl, rfl⟩

/-- The room is history from here on, and without a baseline. -/
def lose (w : Work) (r : Str) : Work :=
  ({ w with session := w.session.clearBaseline r }).addHistory r

theorem frame_lose (w : Work) (r : Str) : w.Frame [] (w.lose r) :=
  (w.frame_metadata _).trans (frame_addHistory _ r)

theorem mem_historyRooms_lose (w : Work) (r : Str) : r ∈ (w.lose r).historyRooms :=
  mem_insertNew.mpr (Or.inl rfl)

end Work

/-- A loss is published with the epoch of its room. -/
theorem loss_cases {w w' : Work} {r : Str} {reason : String} {pages : Nat}
    {m : Option OwnMembership} (h : loss env w r reason pages m = .ok w') :
    ∃ bs epoch, w' = (w.lose r).withSession ((w.lose r).session.addBatches bs) ∧
      recordsOf bs = [lossRecord r reason pages epoch m] := by
  unfold loss at h
  obtain ⟨bs, rfl, hbs⟩ := publishOne_cases h
  exact ⟨bs, _, rfl, hbs⟩

/-- A loss is recorded for a room of the history. -/
theorem recorded_loss {w : Work} {r : Str} {reason : String} {pages epoch : Nat}
    {m : Option OwnMembership} (hK : ∀ record, Boundary record → K record)
    (hr : r ∈ w.historyRooms) : Recorded K w (lossRecord r reason pages epoch m) where
  allowed := hK _ (Or.inr rfl)
  actionable ha := nomatch ha.1
  loss _ r' hr' := by
    cases hr'
    exact hr

/-- A loss that carries no change -/
theorem loss_changes {w w' : Work} {r : Str} {reason : String} {pages : Nat}
    (hK : ∀ record, Boundary record → K record) (hw : w.processor.records = [])
    (h : loss env w r reason pages none = .ok w') :
    Change K w w' ∧ w'.processor.records = [] := by
  obtain ⟨bs, epoch, rfl, hbs⟩ := loss_cases h
  refine ⟨?_, hw⟩
  refine .record (lossRecord r reason pages epoch none)
    ((w.frame_lose r).trans ((w.lose r).frame_addBatches bs)) ?_ ?_ rfl
    (recorded_loss hK (w.mem_historyRooms_lose r)) rfl
  · rw [@Work.log_addBatches (w.lose r) bs hw, hbs]
    rfl
  · exact fun r' => Session.tenure_clearBaseline w.session r r'

/-- The loss that stands for an oversized record carries its change. -/
theorem overflow_loss {w w₁ w' : Work} {r : Str} {reason : String} {pages : Nat}
    (hK : ∀ record, Boundary record → K record) (hover : Overflow r w w₁)
    (hw : w₁.processor.records = [])
    (h : loss env w₁ r reason pages w₁.processor.oversizedMembership = .ok w') :
    Change K w (w'.resumed w) ∧ w'.processor.records = [] := by
  obtain ⟨bs, epoch, rfl, hbs⟩ := loss_cases h
  refine ⟨?_, hw⟩
  have hframe := hover.frame.trans (((w₁.resumed w).frame_lose r).trans
    (((w₁.resumed w).lose r).frame_addBatches bs))
  have hlog : ((w₁.lose r).withSession ((w₁.lose r).session.addBatches bs)).log =
      w.log ++ [lossRecord r reason pages epoch w₁.processor.oversizedMembership] := by
    rw [@Work.log_addBatches (w₁.lose r) bs hw, hbs, ← hover.log]
    rfl
  have hrec := @recorded_loss K (w₁.lose r) r reason pages epoch
    w₁.processor.oversizedMembership hK (w₁.mem_historyRooms_lose r)
  have htenure := hover.tenure
  cases hm : w₁.processor.oversizedMembership with
  | none =>
    rw [hm] at htenure hlog hrec
    refine .record (lossRecord r reason pages epoch none) hframe hlog (fun r' => ?_) hover.intent
      ⟨hrec.1, hrec.2, hrec.3⟩ rfl
    exact (Session.tenure_clearBaseline w₁.session r r').trans (htenure r')
  | some c =>
    rw [hm] at htenure hlog hrec
    refine .carried r c (lossRecord r reason pages epoch (some c)) hframe hlog htenure.1
      (fun r' => ?_) hover.intent ⟨hrec.1, hrec.2, hrec.3⟩ rfl rfl hover.entered fun _ =>
        Or.inl (w₁.mem_historyRooms_lose r)
    exact (Session.tenure_clearBaseline w₁.session r r').trans (htenure.2 r')

/-! ## Boundaries -/

theorem still_dropRoom (w : Work) (r : Str) (m : Membership) :
    Still w { w with session := dropRoom w.session r m } := by
  unfold dropRoom
  split
  · exact still_client _ _ _ _ _
  · exact still_client _ _ _ _ _
  · exact still_client _ _ _ _ _
  · exact .refl w

/-- The local operation is observed. -/
def Work.observed (w : Work) (intent : Intent) : Work :=
  { w with session := { w.session with
    disk := { w.session.disk with intent := some { intent with observed := true } } } }

/-- Observing the local operation changes only its own flag. -/
theorem change_observed {w : Work} {intent : Intent} (hi : w.session.disk.intent = some intent)
    (hu : w.session.unobserved intent.roomId = true) : Change K w (w.observed intent) :=
  .observe intent ⟨rfl, rfl, rfl, rfl, rfl, rfl, rfl, rfl, rfl, by simp [Work.observed],
    List.prefix_rfl, fun _ h => h, fun _ h => h, rfl, rfl, rfl, rfl, rfl⟩ rfl (fun _ => rfl) hi hu
    rfl

theorem unobserved_roomId {s : Session} {r : Str} {intent : Intent}
    (hi : s.disk.intent = some intent) (hu : s.unobserved r = true) : intent.roomId = r := by
  unfold Session.unobserved at hu
  rw [hi] at hu
  simp only [Bool.and_eq_true, decide_eq_true_eq] at hu
  exact hu.1.2

/-- The projection and the baseline of a room after its boundary -/
def settleProjection (w : Work) (r : Str) (m : Membership) (changed reset : Bool) : Work :=
  let w := { w with session := dropRoom w.session r m }
  let w := if changed then { w with session := w.session.clearBaseline r } else w
  if reset then { w with session := w.session.resetJoinedRoom r } else w

theorem still_settleProjection (w : Work) (r : Str) (m : Membership) (changed reset : Bool) :
    Still w (settleProjection w r m changed reset) := by
  have hdrop := still_dropRoom w r m
  unfold settleProjection
  cases changed with
  | false =>
    cases reset with
    | false => exact hdrop
    | true => exact hdrop.trans (still_resetJoinedRoom _ r)
  | true =>
    cases reset with
    | false => exact hdrop.trans (still_clearBaseline _ r)
    | true => exact hdrop.trans ((still_clearBaseline _ r).trans (still_resetJoinedRoom _ r))

/-- Settling the projection publishes nothing. -/
theorem settleProjection_records (w : Work) (r : Str) (m : Membership) (changed reset : Bool) :
    (settleProjection w r m changed reset).processor = w.processor := by
  unfold settleProjection
  cases changed with
  | false =>
    cases reset with
    | false => rfl
    | true => rfl
  | true =>
    cases reset with
    | false => rfl
    | true => rfl

/-- `reconcile` leaves everything as it is, or observes the operation and settles the boundary. -/
theorem reconcile_cases {w w' : Work} {r : Str} {m : Membership} {reset : Bool}
    (h : reconcile env w r m = .ok (w', reset)) :
    (w.session.unobserved r = false ∧ w' = w) ∨
    ∃ intent w₁ change, w.session.disk.intent = some intent ∧ w.session.unobserved r = true ∧
      boundaryChange (w.observed intent) r intent m = (w₁, change) ∧
      match change with
      | none => w' = settleProjection w₁ r m false reset
      | some c => ∃ w₂, w₂ = settleProjection w₁ r m true reset ∧
          publishOne env w₂ (lifecycleRecord r c) = .ok w' := by
  unfold reconcile at h
  cases hi : w.session.disk.intent with
  | none =>
    rw [hi] at h
    cases h
    refine Or.inl ⟨?_, rfl⟩
    unfold Session.unobserved
    rw [hi]
  | some intent =>
    rw [hi] at h
    dsimp only at h
    cases hu : w.session.unobserved r with
    | false =>
      rw [hu, if_pos rfl] at h
      cases h
      exact Or.inl ⟨rfl, rfl⟩
    | true =>
      rw [hu, if_neg (by simp)] at h
      refine Or.inr ⟨intent, ?_⟩
      cases hb : boundaryChange (w.observed intent) r intent m with
      | mk w₁ change =>
        refine ⟨w₁, change, rfl, rfl, rfl, ?_⟩
        unfold Work.observed at hb
        rw [hb] at h
        cases change with
        | none =>
          cases h
          unfold settleProjection
          simp
        | some c =>
          obtain ⟨w₃, hp, h⟩ := bind_eq_ok.mp h
          cases h
          refine ⟨_, rfl, ?_⟩
          unfold settleProjection
          simpa using hp

/-- The change at a boundary is the one that was observed. -/
theorem boundaryChange_observes {w w₁ : Work} {r : Str} {intent : Intent} {m : Membership}
    {change : Option OwnMembership} (h : boundaryChange w r intent m = (w₁, change)) :
    w.Observes r (.go change) w₁ := by
  unfold boundaryChange at h
  split at h
  · cases h
    exact .refl w r _ (by simp)
  · exact observes_changeMembership h

theorem recorded_lifecycle {w : Work} {r : Str} {c : OwnMembership}
    (hK : ∀ record, Boundary record → K record) : Recorded K w (lifecycleRecord r c) where
  allowed := hK _ (Or.inl rfl)
  actionable ha := nomatch ha.1
  loss hl := nomatch hl

/-- Reconciling a room publishes boundaries only. -/
theorem reconcile_changes {w w' : Work} {r : Str} {m : Membership} {reset : Bool}
    (hw : w.processor.records = [])
    (hr : r ∈ w.processor.rooms) (h : reconcile env w r m = .ok (w', reset)) :
    Changes Boundary w w' ∧ w'.processor.records = [] := by
  rcases reconcile_cases h with ⟨-, rfl⟩ | ⟨intent, w₁, change, hi, hu, hb, hrest⟩
  · exact ⟨.refl, hw⟩
  · have hroom := unobserved_roomId hi hu
    have hfirst : Change Boundary w (w.observed intent) := change_observed hi (hroom ▸ hu)
    have hobs := boundaryChange_observes hb
    have hrecords : w₁.processor.records = [] := by
      rw [hobs.shape]
      exact hw
    cases change with
    | none =>
      obtain rfl := hrest
      have hquiet : Still (w.observed intent) w₁ :=
        ⟨hobs.frame, hobs.log, hobs.tenure_still fun c hc => (nomatch hc), hobs.intent⟩
      refine ⟨.tail (.single hfirst) (.quiet (hquiet.trans (still_settleProjection ..))), ?_⟩
      rw [settleProjection_records]
      exact hrecords
    | some c =>
      obtain ⟨w₂, rfl, hp⟩ := hrest
      obtain ⟨bs, rfl, hbs⟩ := publishOne_cases hp
      have hsettle := still_settleProjection w₁ r m true reset
      have hrecords₂ : (settleProjection w₁ r m true reset).processor.records = [] := by
        rw [settleProjection_records]
        exact hrecords
      refine ⟨.tail (.single hfirst) ?_, hrecords₂⟩
      have hframe := (hobs.frame.trans hsettle.frame).trans (Work.frame_addBatches _ bs)
      refine .carried r c (lifecycleRecord r c) hframe ?_ hobs.leads (fun r' => ?_)
        (hsettle.intent.trans hobs.intent) (recorded_lifecycle fun _ h => h) rfl rfl (hframe.rooms hr)
        fun _ => Or.inr fun _ h => h.noTimeline
      · rw [Work.log_addBatches hrecords₂, hbs, hsettle.log, hobs.log]
      · exact (hsettle.tenure r').trans (hobs.tenure r')

/-! ## The rooms that an iterator names -/

/-- Without `stop_on_oversized` no record marks the work as oversized. -/
theorem oversized_appendRecord {w w' : Work} {record : SyncRecord} {b : Bool}
    (hstop : w.processor.stopOnOversized = false) (h : appendRecord env w record b = .ok w') :
    w'.processor.oversized = w.processor.oversized ∧ w'.processor.rooms = w.processor.rooms := by
  rcases appendRecord_cases h with ⟨hs, -⟩ | ⟨bs, rs, pb, rfl, -⟩
  · rw [hstop] at hs
    cases hs
  · exact ⟨rfl, rfl⟩

/-- An item enters its room, and a tail is never left early. -/
theorem consumeItem_enters {w w' : Work} {item : Item} (hstop : w.processor.stopOnOversized = false)
    (h : consumeItem env w item = .ok w') : w'.processor.oversized = w.processor.oversized ∧
      ∀ r, item.roomId = some r → r ∈ w'.processor.rooms := by
  rcases consumeItem_cases h with ⟨hr, b, happend⟩ | ⟨r, w₁, o, hr, hobserve, hrest⟩
  · refine ⟨(oversized_appendRecord hstop happend).1, fun r hr' => ?_⟩
    rw [hr] at hr'
    cases hr'
  · have hobs := observe_cases hobserve
    have hmem : r ∈ w₁.processor.rooms := hobs.frame.rooms (w.mem_rooms_entered r item)
    have hover : w₁.processor.oversized = w.processor.oversized := by
      rw [hobs.shape]
      unfold Work.entered
      split
      · rfl
      · rfl
    have hstop₁ : w₁.processor.stopOnOversized = false :=
      hobs.frame.stopOnOversized.trans ((w.frame_entered r item).stopOnOversized.trans hstop)
    have hroom : ∀ r', item.roomId = some r' → r' ∈ w₁.processor.rooms := fun r' hr' => by
      rw [hr] at hr'
      cases hr'
      exact hmem
    rcases hrest with ⟨-, rfl⟩ | ⟨change, -, ⟨-, rfl⟩ | ⟨-, b, happend⟩⟩
    · exact ⟨hover, hroom⟩
    · have hproc : (dropChange (fence w₁ r change) r change).processor = w₁.processor := by
        unfold dropChange
        split
        · exact processor_fence w₁ r _
        · exact processor_fence w₁ r _
      rw [hproc]
      exact ⟨hover, hroom⟩
    · obtain ⟨ho, hrooms⟩ := oversized_appendRecord (by rw [processor_fence]; exact hstop₁) happend
      rw [ho, hrooms, processor_fence]
      exact ⟨hover, hroom⟩

/-- Every item of an iterator enters its room. -/
theorem foldlM_runMove_enters {w w' : Work} {moves : List Move}
    (hstop : w.processor.stopOnOversized = false) (hover : w.processor.oversized = false)
    (hmoves : ∀ move ∈ moves, move.Allowed K) (h : moves.foldlM (runMove env) w = .ok w') :
    w'.processor.oversized = false ∧
      ∀ item r, Move.yield item ∈ moves → item.roomId = some r → r ∈ w'.processor.rooms := by
  induction moves generalizing w with
  | nil =>
    cases h
    exact ⟨hover, fun item r hm => nomatch hm⟩
  | cons move moves ih =>
    rw [List.foldlM_cons] at h
    obtain ⟨w₁, h₁, h⟩ := bind_eq_ok.mp h
    have hrest : ∀ m ∈ moves, m.Allowed K := fun m hm => hmoves m (List.mem_cons_of_mem _ hm)
    have hallowed : AllowedMoves K w.processor.stopOnOversized (move :: moves) :=
      ⟨hmoves, fun hs => by rw [hstop] at hs; cases hs⟩
    have hchanges : Changes K w w₁ := by
      rcases runMove_consumed List.mem_cons_self hallowed h₁ with hc | ⟨hs, -⟩
      · exact hc
      · rw [hstop] at hs
        cases hs
    obtain ⟨es, hframe, -⟩ := hchanges.frame
    have hstop₁ : w₁.processor.stopOnOversized = false := hframe.stopOnOversized.trans hstop
    unfold runMove at h₁
    rw [hover, if_neg (by simp)] at h₁
    have hfirst : w₁.processor.oversized = false ∧
        ∀ item r, move = .yield item → item.roomId = some r → r ∈ w₁.processor.rooms := by
      cases move with
      | yield item =>
        obtain ⟨ho, hroom⟩ := consumeItem_enters hstop h₁
        refine ⟨ho.trans hover, fun item' r hm hr => ?_⟩
        cases hm
        exact hroom r hr
      | _ =>
        cases h₁
        exact ⟨hover, fun item r hm => nomatch hm⟩
    obtain ⟨ho, hrooms⟩ := ih hstop₁ hfirst.1 hrest h
    refine ⟨ho, fun item r hm hr => ?_⟩
    rcases List.mem_cons.mp hm with heq | hm
    · have hallowed' : AllowedMoves K w₁.processor.stopOnOversized moves :=
        ⟨hrest, fun hs => by rw [hstop₁] at hs; cases hs⟩
      rcases foldlM_runMove_consumed hallowed' h with hc | ⟨hs, -⟩
      · obtain ⟨es', hframe', -⟩ := hc.frame
        exact hframe'.rooms (hfirst.2 item r heq.symm hr)
      · rw [hstop₁] at hs
        cases hs
    · exact hrooms item r hm hr

/-- The rooms of the items that are yielded are entered. -/
theorem runMoves_enters {w w' : Work} {moves : List Move}
    (hstop : w.processor.stopOnOversized = false) (hover : w.processor.oversized = false)
    (hmoves : ∀ move ∈ moves, move.Allowed K) (h : runMoves env w moves = .ok w') :
    w'.processor.oversized = false ∧
      ∀ item r, Move.yield item ∈ moves → item.roomId = some r → r ∈ w'.processor.rooms := by
  unfold runMoves at h
  obtain ⟨w₁, hfold, hflush⟩ := bind_eq_ok.mp h
  obtain ⟨bs, pb, rfl, -⟩ := flush_cases hflush
  exact @foldlM_runMove_enters K env
    { w with processor := { w.processor with pendingBytes := none } } w₁ moves hstop hover hmoves hfold

/-! ## Loops -/

/-- Between two parts of an interpretation every record is published, and no record has stopped it. -/
structure Idle (w : Work) : Prop where
  records : w.processor.records = []
  stopOnOversized : w.processor.stopOnOversized = false
  oversized : w.processor.oversized = false

/-- A loop makes changes if each of its rounds does; `Q` holds between rounds, and `P` is what a round
needs of its element. -/
theorem foldlM_changes {α : Type} {f : Work → α → Except SessionError Work} {Q : Work → Prop}
    {P : α → Work → Prop} {as : List α} (hmono : ∀ a w w', Changes K w w' → P a w → P a w')
    (hstep : ∀ a ∈ as, ∀ w w', Q w → P a w → f w a = .ok w' → Changes K w w' ∧ Q w')
    {w w' : Work} (hw : Q w) (hP : ∀ a ∈ as, P a w) (h : as.foldlM f w = .ok w') :
    Changes K w w' ∧ Q w' := by
  induction as generalizing w with
  | nil =>
    cases h
    exact ⟨.refl, hw⟩
  | cons a as ih =>
    rw [List.foldlM_cons] at h
    obtain ⟨w₁, h₁, h⟩ := bind_eq_ok.mp h
    obtain ⟨hc, hw₁⟩ := hstep a List.mem_cons_self w w₁ hw (hP a List.mem_cons_self) h₁
    obtain ⟨hc', hw'⟩ := ih (fun b hb => hstep b (List.mem_cons_of_mem _ hb)) hw₁
      (fun b hb => hmono b w w₁ hc (hP b (List.mem_cons_of_mem _ hb))) h
    exact ⟨hc.trans hc', hw'⟩

/-- No room is forgotten while the work goes on. -/
theorem Changes.mem_rooms {w w' : Work} (h : Changes K w w') {r : Str}
    (hr : r ∈ w.processor.rooms) : r ∈ w'.processor.rooms := by
  obtain ⟨es, hframe, -⟩ := h.frame
  exact hframe.rooms hr

theorem idle_lose {w w' : Work} {r : Str} {reason : String} {pages : Nat}
    {m : Option OwnMembership} (hw : Idle w) (h : loss env w r reason pages m = .ok w') : Idle w' := by
  obtain ⟨bs, epoch, rfl, -⟩ := loss_cases h
  exact ⟨hw.records, hw.stopOnOversized, hw.oversized⟩

/-! ## The end of a tail -/

theorem idle_reconcile {w w' : Work} {r : Str} {m : Membership} {reset : Bool} (hw : Idle w)
    (h : reconcile env w r m = .ok (w', reset)) : Idle w' := by
  rcases reconcile_cases h with ⟨-, rfl⟩ | ⟨intent, w₁, change, -, -, hb, hrest⟩
  · exact hw
  · have hobs := boundaryChange_observes hb
    have hw₁ : Idle w₁ := by
      rw [hobs.shape]
      exact ⟨hw.records, hw.stopOnOversized, hw.oversized⟩
    cases change with
    | none =>
      obtain rfl := hrest
      have hp := settleProjection_records w₁ r m false reset
      exact ⟨hp ▸ hw₁.records, hp ▸ hw₁.stopOnOversized, hp ▸ hw₁.oversized⟩
    | some c =>
      obtain ⟨w₂, rfl, hpub⟩ := hrest
      obtain ⟨bs, rfl, -⟩ := publishOne_cases hpub
      have hp := settleProjection_records w₁ r m true reset
      exact ⟨(congrArg Processor.records hp).trans hw₁.records,
        (congrArg Processor.stopOnOversized hp).trans hw₁.stopOnOversized,
        (congrArg Processor.oversized hp).trans hw₁.oversized⟩

theorem still_setNonjoined (w : Work) (r cursor : Str) : Still w (setNonjoined w r cursor) := by
  have hf : ∀ m : Metadata,
      ({ m with nonjoinedCursor := some cursor } : Metadata).membership = m.membership ∧
      ({ m with nonjoinedCursor := some cursor } : Metadata).membershipEpoch = m.membershipEpoch :=
    fun _ => ⟨rfl, rfl⟩
  exact still_updateMetadata hf

theorem still_addKnownRoom (w : Work) (r : Str) : Still w (w.addKnownRoom r) := by
  unfold Work.addKnownRoom
  split
  · exact still_addRoom w r
  · exact .refl w

theorem idle_addKnownRoom {w : Work} (hw : Idle w) (r : Str) : Idle (w.addKnownRoom r) := by
  unfold Work.addKnownRoom
  split
  · exact ⟨hw.records, hw.stopOnOversized, hw.oversized⟩
  · exact hw

/-- Settling a room publishes boundaries only, -/
theorem settleRoom_changes {completeState : Bool} {flags : Flags} {cursor : Str}
    {memberships : List (Str × Membership)} {w w' : Work} {entry : RoomEntry}
    (hw : Idle w)
    (hr : entry.roomId ∈ w.processor.rooms)
    (h : settleRoom env completeState flags cursor memberships w entry = .ok w') :
    Changes Boundary w w' ∧ Idle w' := by
  unfold settleRoom at h
  obtain ⟨⟨w₂, reset⟩, hrec, h⟩ := bind_eq_ok.mp h
  dsimp only at hrec h
  have hbase := @still_updateMetadata w entry.roomId (fun m =>
    if entry.section = RoomSection.join ∧
        (completeState = true ∨ flags.newlyJoinedRoom = some entry.roomId) ∧
          entry.roomId ∉ w.session.resets then
      { m with baseline := m.joined } else m) (fun m => by
        split
        · exact ⟨rfl, rfl⟩
        · exact ⟨rfl, rfl⟩)
  have hquiet := hbase.trans (still_addKnownRoom _ entry.roomId)
  have hidle := @idle_addKnownRoom { w with session := w.session.updateMetadata entry.roomId fun m =>
    if entry.section = RoomSection.join ∧
        (completeState = true ∨ flags.newlyJoinedRoom = some entry.roomId) ∧
          entry.roomId ∉ w.session.resets then
      { m with baseline := m.joined } else m } ⟨hw.records, hw.stopOnOversized, hw.oversized⟩
    entry.roomId
  obtain ⟨hc, -⟩ := reconcile_changes hidle.records (hquiet.frame.rooms hr) hrec
  have hidle₂ := idle_reconcile hidle hrec
  have hchanges : Changes Boundary w w₂ := .head (.quiet hquiet) hc
  split at h
  · cases h
    refine ⟨hchanges.tail (.quiet (still_setNonjoined w₂ _ _)), ?_⟩
    exact ⟨hidle₂.records, hidle₂.stopOnOversized, hidle₂.oversized⟩
  · cases h
    exact ⟨hchanges, hidle₂⟩

/-- as does settling an invitation, -/
theorem settleInvite_changes {cursor : Str} {w w' : Work} {r : Str}
    (hw : Idle w) (hr : r ∈ w.processor.rooms)
    (h : settleInvite env cursor w r = .ok w') : Changes Boundary w w' ∧ Idle w' := by
  unfold settleInvite at h
  obtain ⟨⟨w₁, reset⟩, hrec, h⟩ := bind_eq_ok.mp h
  cases h
  obtain ⟨hc, -⟩ := reconcile_changes hw.records hr hrec
  have hidle := idle_reconcile hw hrec
  exact ⟨hc.tail (.quiet (still_setNonjoined w₁ _ _)),
    hidle.records, hidle.stopOnOversized, hidle.oversized⟩

/-- What is no timeline is allowed everywhere. -/
theorem allowed_of_kind (hK : ∀ record, record.kind ≠ .timeline → K record) {item : Item}
    (h : (freezeEvent item).kind ≠ .timeline) : (Move.yield item).Allowed K :=
  ⟨fun _ hrec => hK _ (hrec.kind ▸ h), fun _ => h⟩

/-- Only an event of a timeline is recorded as one. -/
theorem freezeEvent_kind_of_route {item : Item} (h : item.route ≠ some .event) :
    (freezeEvent item).kind ≠ .timeline :=
  fun hk => h (freezeEvent_timeline hk).1

/-- A room that is absent from the response publishes boundaries only. -/
theorem settleAbsent_changes {pages : Nat} {cursor : Str} {present : List Str} {w w' : Work}
    {r : Str} (hw : Idle w)
    (h : settleAbsent env pages cursor present w r = .ok w') : Changes Boundary w w' ∧ Idle w' := by
  unfold settleAbsent at h
  split at h
  · cases h
    exact ⟨.refl, hw⟩
  · obtain ⟨w₁, hloss, h⟩ := bind_eq_ok.mp h
    have hw₁ := idle_lose hw hloss
    split at h
    · cases h
    · obtain ⟨w₂, hrun, h⟩ := bind_eq_ok.mp h
      obtain ⟨⟨w₃, reset⟩, hrec, h⟩ := bind_eq_ok.mp h
      cases h
      have hmoves : ∀ move ∈ [Move.yield (.ofSection r .leave)], move.Allowed Boundary := by
        intro move hm
        rw [List.mem_singleton.mp hm]
        exact ⟨fun record hrec => Or.inl hrec.kind, fun hr => nomatch hr⟩
      obtain ⟨hc₂, hrecords⟩ := runMoves_changes hw₁.stopOnOversized hmoves hrun
      obtain ⟨hover, hrooms⟩ := runMoves_enters hw₁.stopOnOversized hw₁.oversized hmoves hrun
      have hr : r ∈ w₂.processor.rooms := hrooms _ r List.mem_cons_self rfl
      obtain ⟨es, hframe, -⟩ := hc₂.frame
      have hw₂ : Idle w₂ := ⟨hrecords, hframe.stopOnOversized.trans hw₁.stopOnOversized, hover⟩
      obtain ⟨hc₃, -⟩ := reconcile_changes hw₂.records hr hrec
      have hw₃ := idle_reconcile hw₂ hrec
      refine ⟨?_, hw₃.records, hw₃.stopOnOversized, hw₃.oversized⟩
      exact ((ReflTransGen.head (loss_changes (fun _ h => h) hw.records hloss).1 hc₂).trans hc₃).tail
        (.quiet (still_setNonjoined w₃ _ _))

/-- So do all of them. -/
theorem settleAbsentRooms_changes {flags : Flags} {pages : Nat} {cursor : Str} {present : List Str}
    {w w' : Work} (hw : Idle w)
    (h : settleAbsentRooms env flags pages cursor present w = .ok w') :
    Changes Boundary w w' ∧ Idle w' := by
  unfold settleAbsentRooms at h
  split at h
  · refine foldlM_changes (P := fun _ _ => True) (fun _ _ _ _ _ => trivial) ?_ hw
      (fun _ _ => trivial) h
    exact fun r _ w w' hw _ h => settleAbsent_changes hw h
  · cases h
    exact ⟨.refl, hw⟩

/-! ## The moves of a response -/

/-- A timeline of one room is allowed if its records are. -/
theorem allowed_iterRoomTimeline {crypto : Crypto} {r : Str} {timeline : List Event}
    {roomSection : RoomSection} {apply : Bool} {provenance : Option Provenance}
    (hK : ∀ record, record.kind ≠ .timeline → K record)
    (hT : ∀ record, record.kind = .timeline → record.roomId = some r → K record) :
    ∀ move ∈ iterRoomTimeline crypto r timeline roomSection apply provenance, move.Allowed K := by
  intro move hm
  unfold iterRoomTimeline at hm
  obtain ⟨event, -, hm⟩ := List.mem_flatMap.mp hm
  rcases List.mem_append.mp hm with hm | hm
  · split at hm
    · rw [List.mem_singleton.mp hm]
      trivial
    · cases hm
  · rw [List.mem_singleton.mp hm]
    refine ⟨fun record hrec => ?_, fun hr => nomatch hr⟩
    by_cases hk : record.kind = .timeline
    · exact hT record hk hrec.roomId
    · exact hK record hk

/-- State, account data and Olm events are recorded outside of the timeline. -/
theorem allowed_iterState (hK : ∀ record, record.kind ≠ .timeline → K record) {r : Str}
    {roomSection : RoomSection} {state : List Event} :
    ∀ move ∈ iterState r roomSection state, move.Allowed K := by
  intro move hm
  obtain ⟨event, -, rfl⟩ := List.mem_map.mp hm
  exact allowed_of_kind hK (freezeEvent_kind_of_route fun hr => nomatch hr)

theorem allowed_iterAccountData (hK : ∀ record, record.kind ≠ .timeline → K record) {r : Str}
    {roomSection : RoomSection} {accountData : List Event} :
    ∀ move ∈ iterAccountData r roomSection accountData, move.Allowed K := by
  intro move hm
  obtain ⟨event, -, rfl⟩ := List.mem_map.mp hm
  exact allowed_of_kind hK (freezeEvent_kind_of_route fun hr => nomatch hr)

theorem allowed_ofGlobal (hK : ∀ record, record.kind ≠ .timeline → K record) {route : Route}
    {event : Event} (hroute : route ≠ .event) :
    (Move.yield (.ofGlobal route event)).Allowed K :=
  allowed_of_kind hK (freezeEvent_kind_of_route fun hr => hroute (Option.some.inj hr))

theorem allowed_iterOlm {crypto : Crypto} (hK : ∀ record, record.kind ≠ .timeline → K record) :
    ∀ move ∈ iterOlm crypto, move.Allowed K := by
  intro move hm
  rcases List.mem_append.mp hm with hm | hm
  · obtain ⟨event, -, rfl⟩ := List.mem_map.mp hm
    exact allowed_ofGlobal hK (by simp)
  · obtain ⟨event, -, rfl⟩ := List.mem_map.mp hm
    exact allowed_ofGlobal hK (by simp)

theorem allowed_iterToDevice {crypto : Crypto} (hK : ∀ record, record.kind ≠ .timeline → K record)
    {toDevice : List (Option ToDeviceEvent)} {moves : List Move}
    (h : iterToDevice crypto toDevice = .ok moves) : ∀ move ∈ moves, move.Allowed K := by
  unfold iterToDevice at h
  obtain ⟨opts, hmap, h⟩ := bind_eq_ok.mp h
  cases h
  intro move hm
  obtain ⟨opt, ho, rfl⟩ := List.mem_filterMap.mp hm
  obtain ⟨event, -, hevent⟩ := mem_of_mapM hmap ho
  cases event with
  | none => cases hevent
  | some event =>
    obtain ⟨p, -, rfl⟩ := Option.map_eq_some_iff.mp (Except.ok.inj hevent)
    exact allowed_of_kind hK (freezeEvent_kind_of_route fun hr => nomatch hr)

/-- The timeline records of a response belong to its joined and left rooms. -/
theorem allowed_iterSync {crypto : Crypto} {response : SyncResponse events} {moves : List Move}
    (hK : ∀ record, record.kind ≠ .timeline → K record)
    (hT : ∀ record, record.kind = .timeline →
      (∃ entry ∈ roomEntries (.classic response), record.roomId = some entry.roomId) → K record)
    (h : iterSync crypto response = .ok moves) : ∀ move ∈ moves, move.Allowed K := by
  unfold iterSync at h
  obtain ⟨toDevice, htd, h⟩ := bind_eq_ok.mp h
  cases h
  intro move hm
  have hsection : ∀ r roomSection, (Move.yield (.ofSection r roomSection)).Allowed K := fun r s =>
    allowed_of_kind hK (freezeEvent_kind_of_route fun hr => by cases hr)
  simp only [List.mem_append, List.mem_flatMap, List.mem_map] at hm
  rcases hm with ((((hm | ⟨p, hp, hm⟩) | ⟨p, hp, hm⟩) | ⟨p, hp, hm⟩) | ⟨event, -, rfl⟩) | hm
  · exact allowed_iterToDevice hK htd move hm
  · unfold iterInvitedRoom at hm
    simp only [List.mem_cons, List.mem_map] at hm
    rcases hm with rfl | rfl | ⟨event, -, rfl⟩
    · trivial
    · exact hsection _ _
    · exact allowed_of_kind hK (freezeEvent_kind_of_route fun hr => by cases hr)
  · have hroom : ∀ record : SyncRecord, record.kind = .timeline → record.roomId = some p.1 →
        K record := fun record hk hr =>
      hT record hk ⟨⟨p.1, p.2, .join⟩, List.mem_append_left _ (List.mem_map_of_mem hp), hr⟩
    unfold iterJoinedRoom at hm
    simp only [List.mem_append, List.mem_cons] at hm
    rcases hm with ((rfl | rfl | hm) | hm) | hm
    · trivial
    · exact hsection _ _
    · exact allowed_iterState hK move hm
    · exact allowed_iterRoomTimeline hK hroom move hm
    · exact allowed_iterAccountData hK move hm
  · have hroom : ∀ record : SyncRecord, record.kind = .timeline → record.roomId = some p.1 →
        K record := fun record hk hr =>
      hT record hk ⟨⟨p.1, p.2, .leave⟩, List.mem_append_right _ (List.mem_map_of_mem hp), hr⟩
    unfold iterLeftRoom at hm
    simp only [List.mem_append, List.mem_cons, List.not_mem_nil, or_false] at hm
    rcases hm with (((rfl | hm) | hm) | hm) | rfl | rfl
    · trivial
    · exact allowed_iterState hK move hm
    · exact allowed_iterRoomTimeline hK hroom move hm
    · exact allowed_iterAccountData hK move hm
    · exact hsection _ _
    · trivial
  · exact allowed_ofGlobal hK (by simp)
  · exact allowed_iterOlm hK move hm

/-! ## Saving -/

/-- The membership and the epoch that the disk has of a room -/
def Disk.tenure (d : Disk) (r : Str) : Option Membership × Nat :=
  ((d.metadata r).membership, (d.metadata r).membershipEpoch)

/-- Saving the rooms writes metadata only, -/
theorem saveRooms_frame (s : Session) (rooms : List Str) :
    s.saveRooms rooms = { s with
      metadata := (s.saveRooms rooms).metadata
      disk := { s.disk with rooms := (s.saveRooms rooms).disk.rooms } } := by
  unfold Session.saveRooms
  induction rooms generalizing s with
  | nil => rfl
  | cons r rooms ih =>
    rw [List.foldl_cons]
    exact ih _

/-- which is then read as it was. -/
theorem saveRooms_getMetadata (s : Session) (rooms : List Str) (r : Str) :
    (s.saveRooms rooms).getMetadata r = s.getMetadata r := by
  unfold Session.saveRooms
  induction rooms generalizing s with
  | nil => rfl
  | cons r' rooms ih =>
    rw [List.foldl_cons, ih]
    exact Session.getMetadata_updateMetadata_id s r' r

/-- What is saved is read back; the other rows stay. -/
theorem saveRooms_row (s : Session) (rooms : List Str) (r : Str) :
    (s.saveRooms rooms).disk.metadata r =
      if r ∈ rooms then s.getMetadata r else s.disk.metadata r := by
  unfold Session.saveRooms
  induction rooms generalizing s with
  | nil => rfl
  | cons r' rooms ih =>
    rw [List.foldl_cons, ih]
    by_cases hr : r ∈ rooms
    · rw [if_pos hr, if_pos (List.mem_cons_of_mem _ hr)]
      exact Session.getMetadata_updateMetadata_id s r' r
    · rw [if_neg hr]
      unfold Disk.metadata
      rw [dictGet?_dictSet]
      by_cases heq : r = r'
      · rw [if_pos heq, heq, if_pos List.mem_cons_self]
        rfl
      · rw [if_neg heq, if_neg fun hm => ?_]
        rcases List.mem_cons.mp hm with he | hm
        · exact heq he
        · exact hr hm

/-- Dropping a room leaves the tables alone. -/
theorem dropRoom_frame (s : Session) (r : Str) (m : Membership) :
    dropRoom s r m = { s with
      rooms := (dropRoom s r m).rooms
      invited := (dropRoom s r m).invited } := by
  unfold dropRoom
  split
  · rfl
  · rfl
  · rfl
  · rfl

theorem dropLeft_frame (w : Work) : (dropLeft w).session = { w.session with
      rooms := (dropLeft w).session.rooms
      invited := (dropLeft w).session.invited } := by
  have hfold : ∀ (rs : List Str) (s : Session), rs.foldl (fun s roomId =>
      if (s.getMetadata roomId).left then dropRoom s roomId .leave else s) s = { s with
        rooms := (rs.foldl (fun s roomId =>
          if (s.getMetadata roomId).left then dropRoom s roomId .leave else s) s).rooms
        invited := (rs.foldl (fun s roomId =>
          if (s.getMetadata roomId).left then dropRoom s roomId .leave else s) s).invited } := by
    intro rs
    induction rs with
    | nil => exact fun s => rfl
    | cons r rs ih =>
      intro s
      rw [List.foldl_cons, ih]
      split
      · rw [dropRoom_frame]
      · rfl
  exact hfold w.processor.rooms w.session

theorem dropLeftSliding_frame (w : Work) :
    dropLeftSliding w = { w with session := { w.session with
      rooms := (dropLeftSliding w).session.rooms } } := by
  have hfold : ∀ (rs : List Str) (s : Session), rs.foldl (fun s roomId =>
      if (s.getMetadata roomId).left then { s with rooms := removeKey s.rooms roomId } else s) s =
      { s with rooms := (rs.foldl (fun s roomId =>
        if (s.getMetadata roomId).left then { s with rooms := removeKey s.rooms roomId } else s)
          s).rooms } := by
    intro rs
    induction rs with
    | nil => exact fun s => rfl
    | cons r rs ih =>
      intro s
      rw [List.foldl_cons, ih]
      split
      · rfl
      · rfl
  unfold dropLeftSliding
  rw [hfold]

/-- What a transaction leaves that has finished its changes: all records are published, the rooms
that it entered are saved, and the position of the input moves on. -/
structure Closed (es : List Effect) (w : Work) (s' : Session) : Prop where
  acked : s'.disk.acked = w.session.disk.acked
  history : s'.disk.history = w.session.disk.history
  batches : s'.disk.batches = w.session.disk.batches
  intent : s'.disk.intent = w.session.disk.intent
  response : s'.response = w.session.response
  isOpen : s'.isOpen = w.session.isOpen
  effects : s'.effects = w.session.effects ++ es
  tenure : ∀ r, s'.tenure r = w.session.tenure r
  rows : ∀ r, s'.disk.tenure r =
    if r ∈ w.processor.rooms then w.session.tenure r else w.session.disk.tenure r
  checkpoints : w.session.baselines = w.session.disk.checkpoints → s'.baselines = s'.disk.checkpoints

/-- A row is read as the tenure that was saved. -/
theorem tenure_row {s : Session} {d : Disk} {r : Str} {p : Prop} [Decidable p]
    {m : Metadata} (h : d.metadata r = if p then s.getMetadata r else m) :
    d.tenure r = if p then s.tenure r else (m.membership, m.membershipEpoch) := by
  unfold Disk.tenure Session.tenure
  rw [h]
  split
  · rfl
  · rfl

/-! ## The Classic tail -/

theorem still_foldl {α : Type} {f : Session → α → Session}
    (hf : ∀ (w : Work) (a : α), Still w { w with session := f w.session a }) (as : List α) (w : Work) :
    Still w { w with session := as.foldl f w.session } := by
  induction as generalizing w with
  | nil => exact .refl w
  | cons a as ih => exact (hf w a).trans (ih { w with session := f w.session a })

theorem still_resetFromState (w : Work) (entries : List RoomEntry) :
    Still w { w with session := resetFromState env w.session entries } := by
  refine still_foldl (fun w entry => ?_) entries w
  refine still_foldl (fun w event => ?_) entry.info.state w
  split
  · exact still_timelineRoom w entry.roomId event
  · exact .refl w

theorem filterRoom_key {plan : Plan} {p p' : Str × RoomInfo events}
    (h : filterRoom plan p = .ok p') : p'.1 = p.1 := by
  unfold filterRoom at h
  obtain ⟨es, -, h⟩ := bind_eq_ok.mp h
  cases h
  rfl

/-- The filter keeps the invitations and cuts down the timelines. -/
theorem filterResponse_cases {plan : Plan} {response response' : SyncResponse events}
    (h : filterResponse plan response = .ok response') :
    ∃ join leave, response.rooms.join.mapM (filterRoom plan) = .ok join ∧
      response.rooms.leave.mapM (filterRoom plan) = .ok leave ∧
      response' = { response with rooms := { response.rooms with join, leave } } := by
  unfold filterResponse at h
  obtain ⟨join, hj, h⟩ := bind_eq_ok.mp h
  obtain ⟨leave, hl, h⟩ := bind_eq_ok.mp h
  cases h
  exact ⟨join, leave, hj, hl, rfl⟩

/-- The filter keeps the rooms. -/
theorem filterResponse_entries {plan : Plan} {response response' : SyncResponse events}
    (h : filterResponse plan response = .ok response') {entry : RoomEntry}
    (he : entry ∈ roomEntries (.classic response')) :
    ∃ entry' ∈ roomEntries (.classic response), entry'.roomId = entry.roomId := by
  obtain ⟨join, leave, hj, hl, rfl⟩ := filterResponse_cases h
  rcases List.mem_append.mp he with he | he
  · obtain ⟨p, hp, rfl⟩ := List.mem_map.mp he
    obtain ⟨q, hq, hf⟩ := mem_of_mapM hj hp
    exact ⟨⟨q.1, q.2, .join⟩, List.mem_append_left _ (List.mem_map_of_mem hq), (filterRoom_key hf).symm⟩
  · obtain ⟨p, hp, rfl⟩ := List.mem_map.mp he
    obtain ⟨q, hq, hf⟩ := mem_of_mapM hl hp
    exact ⟨⟨q.1, q.2, .leave⟩, List.mem_append_right _ (List.mem_map_of_mem hq), (filterRoom_key hf).symm⟩

/-- The section of every room of the response is an item. -/
theorem section_mem_iterSync {crypto : Crypto} {plan : Plan} {response response' : SyncResponse events}
    {moves : List Move} (hf : filterResponse plan response = .ok response')
    (h : iterSync crypto response' = .ok moves) {entry : RoomEntry}
    (he : entry ∈ roomEntries (.classic response)) :
    Move.yield (.ofSection entry.roomId entry.section) ∈ moves := by
  obtain ⟨join, leave, hj, hl, rfl⟩ := filterResponse_cases hf
  unfold iterSync at h
  obtain ⟨toDevice, -, h⟩ := bind_eq_ok.mp h
  cases h
  simp only [List.mem_append, List.mem_flatMap]
  rcases List.mem_append.mp he with he | he
  · obtain ⟨p, hp, rfl⟩ := List.mem_map.mp he
    obtain ⟨q, hq, hfq⟩ := exists_of_mapM hj hp
    refine Or.inl (Or.inl (Or.inl (Or.inr ⟨q, hq, ?_⟩)))
    rw [← filterRoom_key hfq]
    simp [iterJoinedRoom]
  · obtain ⟨p, hp, rfl⟩ := List.mem_map.mp he
    obtain ⟨q, hq, hfq⟩ := exists_of_mapM hl hp
    refine Or.inl (Or.inl (Or.inr ⟨q, hq, ?_⟩))
    rw [← filterRoom_key hfq]
    simp [iterLeftRoom]

/-- Every invitation of the response is yielded. -/
theorem invite_mem_iterSync {crypto : Crypto} {plan : Plan} {response response' : SyncResponse events}
    {moves : List Move} (hf : filterResponse plan response = .ok response')
    (h : iterSync crypto response' = .ok moves) {r : Str}
    (hr : r ∈ response.rooms.invite.map (·.1)) : Move.yield (.ofSection r .invite) ∈ moves := by
  obtain ⟨join, leave, hj, hl, rfl⟩ := filterResponse_cases hf
  unfold iterSync at h
  obtain ⟨toDevice, -, h⟩ := bind_eq_ok.mp h
  cases h
  obtain ⟨p, hp, rfl⟩ := List.mem_map.mp hr
  simp only [List.mem_append, List.mem_flatMap]
  refine Or.inl (Or.inl (Or.inl (Or.inl (Or.inr ⟨p, hp, ?_⟩))))
  simp [iterInvitedRoom]

/-- The rooms of which a response can have a timeline -/
def responseRooms : SyncInput → List Str
  | .classic response => (roomEntries (.classic response)).map RoomEntry.roomId
  | .sliding response => response.rooms.map (·.1)

/-- The timeline records belong to the rooms of a response. -/
def TimelineOf (response : SyncInput) (record : SyncRecord) : Prop :=
  record.kind = .timeline → ∃ r ∈ responseRooms response, record.roomId = some r

/-- The processor of the tail of a Classic response -/
def tailProcessor (userId : Str) (plan : Plan) (response : SyncResponse events) : Processor :=
  { Processor.new (((roomEntries (.classic response)).filter fun entry =>
      (lastOwnMembership userId entry.info).isSome).foldl
        (fun xs entry => insertNew xs entry.roomId) plan.explicitRooms) with
    suppressIds := plan.appliedIds }

/-- Where the items of a tail come from, with the processor that takes them -/
inductive Source (userId : Str) (crypto : Crypto) (plan : Plan) :
    SyncInput → Processor → List Item → Prop
  | classic (response : SyncResponse events) : Source userId crypto plan (.classic response)
      (tailProcessor userId plan response) (classicItems crypto plan response)
  | sliding (response : SlidingResponse) (explicit : List Str) (items : List Item)
      (conveys : Conveys crypto plan (.sliding response) (fun _ => []) items) :
      Source userId crypto plan (.sliding response) (.new explicit) items

/-- A tail as two sequences of changes: the items of the response, and the boundaries of its rooms. -/
inductive TailRun (env : Env) (crypto : Crypto) (plan : Plan) (response : SyncInput) (w : Work)
    (cursor : Str) (s' : Session) : Prop
  | mk (processor : Processor) (items : List Item) (main settled : Work)
      (source : Source env.userId crypto plan response processor items)
      (changes : Changes (TimelineOf response) { w with processor } main)
      (consumes : Consumes env { w with processor } items main)
      (settles : Changes Boundary main settled) (idle : Idle settled)
      (closed : Closed [.tail, .cursor cursor] settled s')
      (input : s'.disk.input = settled.session.disk.input.map fun p => (p.1, .prepared))
      (position : s'.disk.cursor = some cursor)

/-- A tail starts with an empty queue, and nothing stops it. -/
theorem Source.starts {userId : Str} {crypto : Crypto} {plan : Plan} {response : SyncInput}
    {processor : Processor} {items : List Item}
    (h : Source userId crypto plan response processor items) :
    ∃ explicit, processor = { Processor.new explicit with suppressIds := processor.suppressIds } := by
  cases h with
  | classic response => exact ⟨_, rfl⟩
  | sliding response explicit items conveys => exact ⟨explicit, rfl⟩

/-- Saving changes no tenure, -/
theorem tenure_save (w : Work) (r : Str) : w.save.session.tenure r = w.session.tenure r := by
  unfold Session.tenure Work.save
  rw [saveRooms_getMetadata]

/-- and writes it for the rooms that the work touched. -/
theorem row_save (w : Work) (r : Str) : w.save.session.disk.tenure r =
    if r ∈ w.processor.rooms then w.session.tenure r else w.session.disk.tenure r :=
  tenure_row (saveRooms_row w.session w.processor.rooms r)

/-- Saving the rooms closes a transaction but for its position. -/
theorem closed_save (w : Work) : Closed [] w w.save.session := by
  have hframe := saveRooms_frame w.session w.processor.rooms
  refine ⟨?_, ?_, ?_, ?_, ?_, ?_, ?_, tenure_save w, row_save w, ?_⟩
  all_goals
    unfold Work.save
    dsimp only
    rw [hframe]
  · exact (List.append_nil _).symm
  · exact fun h => h

/-- What happens to a session that is closed already -/
theorem Closed.then {es es' : List Effect} {w : Work} {s s' : Session} (h : Closed es w s)
    (hs : s' = { s with
      rooms := s'.rooms
      invited := s'.invited
      resets := s'.resets
      baselines := s'.baselines
      effects := s.effects ++ es'
      disk := { s.disk with
        cursor := s'.disk.cursor
        input := s'.disk.input
        checkpoints := s'.disk.checkpoints
        accountData := s'.disk.accountData } })
    (hc : s.baselines = s.disk.checkpoints → s'.baselines = s'.disk.checkpoints) :
    Closed (es ++ es') w s' := by
  refine ⟨?_, ?_, ?_, ?_, ?_, ?_, ?_, ?_, ?_, fun hb => hc (h.checkpoints hb)⟩
  · rw [hs]
    exact h.acked
  · rw [hs]
    exact h.history
  · rw [hs]
    exact h.batches
  · rw [hs]
    exact h.intent
  · rw [hs]
    exact h.response
  · rw [hs]
    exact h.isOpen
  · rw [hs]
    change s.effects ++ es' = _
    rw [h.effects, List.append_assoc]
  · intro r
    rw [hs]
    exact h.tenure r
  · intro r
    rw [hs]
    exact h.rows r

/-- The end of a classic response saves its cursor. -/
theorem closed_finishClassic (w : Work) (cursor : Str) :
    Closed [.tail, .cursor cursor] w (finishTail (dropLeft w.save).session cursor) := by
  have h := @Closed.then [] [.tail, .cursor cursor] w _
    (finishTail (dropLeft w.save).session cursor) (closed_save w)
  rw [List.nil_append] at h
  refine h ?_ fun hb => ?_
  · unfold finishTail Session.effect
    rw [dropLeft_frame]
    simp
  · unfold finishTail Session.effect
    rw [dropLeft_frame]
    exact hb

/-- The tail of a classic response is a run of its parts. -/
theorem classicTail_run {crypto : Crypto} {flags : Flags} {plan : Plan} {w w' : Work}
    {response : SyncResponse events} (h : classicTail env crypto flags plan w response = .ok w') :
    TailRun env crypto plan (.classic response) w (stringOf response.nextBatch) w'.session := by
  unfold classicTail at h
  obtain ⟨response', hf, h⟩ := bind_eq_ok.mp h
  obtain ⟨moves, hmoves, h⟩ := bind_eq_ok.mp h
  obtain ⟨w₁, hrun, h⟩ := bind_eq_ok.mp h
  obtain ⟨w₂, hsettle, h⟩ := bind_eq_ok.mp h
  obtain ⟨w₃, hinvite, h⟩ := bind_eq_ok.mp h
  obtain ⟨w₄, habsent, h⟩ := bind_eq_ok.mp h
  cases h
  have hK : ∀ record, record.kind ≠ .timeline → TimelineOf (.classic response) record :=
    fun record hk hk' => absurd hk' hk
  have hallowed : ∀ move ∈ moves, move.Allowed (TimelineOf (.classic response)) := by
    refine allowed_iterSync hK (fun record hk ⟨entry, he, hr⟩ _ => ?_) hmoves
    obtain ⟨entry', he', hid⟩ := filterResponse_entries hf he
    exact ⟨entry'.roomId, List.mem_map_of_mem he', hr.trans (congrArg some hid.symm)⟩
  obtain ⟨hitems, hrecords⟩ := runMoves_changes rfl hallowed hrun
  obtain ⟨hover, hrooms⟩ := runMoves_enters rfl rfl hallowed hrun
  obtain ⟨es, hframe, -⟩ := hitems.frame
  have hidle : Idle w₁ := ⟨hrecords, hframe.stopOnOversized, hover⟩
  -- Every room of the response was entered by its section.
  obtain ⟨hc₂, hidle₂⟩ := foldlM_changes
    (P := fun (entry : RoomEntry) w => entry.roomId ∈ w.processor.rooms)
    (fun _ _ _ hc hr => hc.mem_rooms hr)
    (fun entry _ w w' hw hr h => settleRoom_changes hw hr h) hidle
    (fun entry he => hrooms _ _ (section_mem_iterSync hf hmoves he) rfl) hsettle
  obtain ⟨hinvites, hnext⟩ : response'.rooms.invite = response.rooms.invite ∧
      response'.nextBatch = response.nextBatch := by
    obtain ⟨join, leave, -, -, rfl⟩ := filterResponse_cases hf
    exact ⟨rfl, rfl⟩
  rw [hinvites] at hinvite
  obtain ⟨hc₃, hidle₃⟩ := foldlM_changes (P := fun (r : Str) w => r ∈ w.processor.rooms)
    (fun _ _ _ hc hr => hc.mem_rooms hr)
    (fun r _ w w' hw hr h => settleInvite_changes hw hr h) hidle₂
    (fun r hr => hc₂.mem_rooms (hrooms _ _ (invite_mem_iterSync hf hmoves hr) rfl)) hinvite
  obtain ⟨hc₄, hidle₄⟩ := settleAbsentRooms_changes hidle₃ habsent
  have hstart : ∀ w : Work, Still w { w with session :=
      { resetFromState env w.session (roomEntries (.classic response)) with resets := [] } } :=
    fun w => (still_resetFromState w _).trans (still_client _ _ _ [] _)
  have hitems' : Changes (TimelineOf (.classic response))
      { w with processor := tailProcessor env.userId plan response } w₁ :=
    .head (.quiet (hstart { w with processor := tailProcessor env.userId plan response })) hitems
  have hconsumes : Consumes env { w with processor := tailProcessor env.userId plan response }
      (classicItems crypto plan response) w₁ := by
    rw [← itemsOf_iterSync hf hmoves]
    exact .aside ⟨hstart _, rfl⟩ (runMoves_consumes rfl rfl hrun)
  refine .mk _ _ w₁ w₄ (.classic response) hitems' hconsumes (hc₂.trans (hc₃.trans hc₄)) hidle₄
    ?_ ?_ ?_
  · rw [hnext]
    exact closed_finishClassic w₄ _
  · unfold finishTail
    rw [dropLeft_frame]
    unfold Work.save
    rw [saveRooms_frame]
  · rw [hnext]
    rfl

/-! ## The Sliding tail -/

/-- The items of an invitation are no timeline. -/
theorem allowed_iterInvitedRoom {r : Str} {strippedState : List Event}
    (hK : ∀ record, record.kind ≠ .timeline → K record) :
    ∀ move ∈ iterInvitedRoom r strippedState, move.Allowed K := by
  intro move hm
  unfold iterInvitedRoom at hm
  simp only [List.mem_cons, List.mem_map] at hm
  rcases hm with rfl | rfl | ⟨event, -, rfl⟩
  · trivial
  · exact allowed_of_kind hK (freezeEvent_kind_of_route fun hr => by cases hr)
  · exact allowed_of_kind hK (freezeEvent_kind_of_route fun hr => by cases hr)

/-- The timeline of a room has only items of this room. -/
theorem allowed_iterSlidingTimeline {crypto : Crypto} {r : Str} {room : SlidingRoom}
    {roomSection : RoomSection} {roomPlan : SlidingRoomPlan} {moves : List Move}
    (hK : ∀ record, record.kind ≠ .timeline → K record)
    (hT : ∀ record, record.kind = .timeline → record.roomId = some r → K record)
    (h : iterSlidingTimeline crypto r room roomSection roomPlan = .ok moves) :
    ∀ move ∈ moves, move.Allowed K := by
  unfold iterSlidingTimeline at h
  obtain ⟨parts, hparts, h⟩ := bind_eq_ok.mp h
  cases h
  intro move hm
  obtain ⟨part, hpart, hm⟩ := List.mem_flatten.mp hm
  obtain ⟨⟨event, index⟩, -, hf⟩ := mem_of_mapM hparts hpart
  unfold iterSlidingEvent at hf
  obtain ⟨b, -, hf⟩ := bind_eq_ok.mp hf
  cases b with
  | true =>
    cases hf
    cases hm
  | false =>
    cases hf
    exact allowed_iterRoomTimeline hK hT move hm

/-- A room of a Sliding response yields an item of its own, and timelines of its own only. -/
theorem allowed_iterSlidingRoom {crypto : Crypto} {r : Str} {room : SlidingRoom}
    {roomPlan : SlidingRoomPlan} {known : Bool} {moves : List Move}
    (hK : ∀ record, record.kind ≠ .timeline → K record)
    (hT : ∀ record, record.kind = .timeline → record.roomId = some r → K record)
    (h : iterSlidingRoom crypto r room roomPlan known = .ok moves) :
    (∀ move ∈ moves, move.Allowed K) ∧ ∃ item, Move.yield item ∈ moves ∧ item.roomId = some r := by
  have hsection : ∀ roomSection, (Move.yield (.ofSection r roomSection)).Allowed K := fun s =>
    allowed_of_kind hK (freezeEvent_kind_of_route fun hr => by cases hr)
  unfold iterSlidingRoom at h
  split at h
  · cases h
    exact ⟨allowed_iterInvitedRoom hK, .ofSection r .invite, by simp [iterInvitedRoom], rfl⟩
  · obtain ⟨timeline, htimeline, h⟩ := bind_eq_ok.mp h
    cases h
    have hstate : ∀ move ∈ iterSlidingState r (if room.isLeaving then .leave else .join)
        room.requiredState, move.Allowed K := by
      intro move hm
      obtain ⟨event, -, rfl⟩ := List.mem_map.mp hm
      exact allowed_of_kind hK (freezeEvent_kind_of_route fun hr => by cases hr)
    have htl := allowed_iterSlidingTimeline hK hT htimeline
    refine ⟨fun move hm => ?_, ?_⟩
    -- first the start of the room, then its state and timeline in either order, then its end
    · rcases List.mem_append.mp hm with hm | hm
      · rcases List.mem_append.mp hm with hm | hm
        · rcases List.mem_cons.mp hm with rfl | hm
          · trivial
          · split at hm
            · cases hm
            · rw [List.mem_singleton.mp hm]
              exact hsection _
        · split at hm
          · rcases List.mem_append.mp hm with hm | hm
            · exact hstate move hm
            · exact htl move hm
          · rcases List.mem_append.mp hm with hm | hm
            · exact htl move hm
            · exact hstate move hm
      · split at hm
        · simp only [List.mem_cons, List.not_mem_nil, or_false] at hm
          rcases hm with rfl | rfl
          · exact hsection _
          · trivial
        · cases hm
    · by_cases hl : room.isLeaving = true
      · refine ⟨.ofSection r .leave, ?_, rfl⟩
        simp [hl]
      · refine ⟨.ofSection r .join, ?_, rfl⟩
        simp [hl]

/-- No record stops the loop, and none has. -/
def Running (w : Work) : Prop :=
  w.processor.stopOnOversized = false ∧ w.processor.oversized = false

/-- Some moves of a running loop -/
theorem foldlM_runMove_running {w w' : Work} {moves : List Move} (hw : Running w)
    (hmoves : ∀ move ∈ moves, move.Allowed K) (h : moves.foldlM (runMove env) w = .ok w') :
    Changes K w w' ∧ Running w' := by
  have hallowed : AllowedMoves K w.processor.stopOnOversized moves :=
    ⟨hmoves, fun hs => by rw [hw.1] at hs; cases hs⟩
  obtain ⟨hover, -⟩ := foldlM_runMove_enters hw.1 hw.2 hmoves h
  rcases foldlM_runMove_consumed hallowed h with hc | ⟨hs, -⟩
  · obtain ⟨es, hframe, -⟩ := hc.frame
    exact ⟨hc, hframe.stopOnOversized.trans hw.1, hover⟩
  · rw [hw.1] at hs
    cases hs

/-- A room of a sliding response records its timeline and nothing else there. -/
theorem runSlidingRoom_changes {crypto : Crypto} {plan : Plan} {w w' : Work}
    {entry : Str × SlidingRoom} (hK : ∀ record, record.kind ≠ .timeline → K record)
    (hT : ∀ record, record.kind = .timeline → record.roomId = some entry.1 → K record)
    (hw : Running w) (h : runSlidingRoom env crypto plan w entry = .ok w') :
    Changes K w w' ∧ Running w' ∧ entry.1 ∈ w'.processor.rooms := by
  unfold runSlidingRoom at h
  obtain ⟨moves, hmoves, h⟩ := bind_eq_ok.mp h
  obtain ⟨hallowed, item, hitem, hr⟩ := allowed_iterSlidingRoom hK hT hmoves
  obtain ⟨hc, hw'⟩ := foldlM_runMove_running hw hallowed h
  exact ⟨hc, hw', (foldlM_runMove_enters hw.1 hw.2 hallowed h).2 item entry.1 hitem hr⟩

theorem runPendingAccountData_changes {w w' : Work}
    (hK : ∀ record, record.kind ≠ .timeline → K record) (hw : Running w)
    (h : runPendingAccountData env w = .ok w') : Changes K w w' ∧ Running w' := by
  unfold runPendingAccountData at h
  dsimp only at h
  have hallowed : ∀ move ∈ (w.session.pendingAccountData.partition fun p =>
      decide (p.1 ∈ w.session.rooms)).1.flatMap
        fun p => iterAccountData p.1 .join (p.2.map (·.2)), move.Allowed K := by
    intro move hm
    obtain ⟨p, -, hm⟩ := List.mem_flatMap.mp hm
    exact allowed_iterAccountData hK move hm
  obtain ⟨hc, hw'⟩ := @foldlM_runMove_running K env
    { w with session := { w.session with pendingAccountData :=
      (w.session.pendingAccountData.partition fun p => decide (p.1 ∈ w.session.rooms)).2 } } w' _
    hw hallowed h
  exact ⟨.head (.quiet (still_client w _ _ _ _)) hc, hw'⟩

/-- The items of a Sliding response enter all of its rooms. -/
theorem runSliding_changes {crypto : Crypto} {plan : Plan} {w w' : Work}
    {response : SlidingResponse} (hw : Running w)
    (h : runSliding env crypto plan w response = .ok w') :
    Changes (TimelineOf (.sliding response)) w w' ∧ Idle w' ∧
      ∀ entry ∈ response.rooms, entry.1 ∈ w'.processor.rooms := by
  have hK : ∀ record, record.kind ≠ .timeline → TimelineOf (.sliding response) record :=
    fun record hk hk' => absurd hk' hk
  unfold runSliding at h
  dsimp only at h
  obtain ⟨toDevice, htd, h⟩ := bind_eq_ok.mp h
  obtain ⟨w₁, h₁, h⟩ := bind_eq_ok.mp h
  obtain ⟨w₂, h₂, h⟩ := bind_eq_ok.mp h
  obtain ⟨w₃, h₃, h⟩ := bind_eq_ok.mp h
  obtain ⟨w₄, h₄, h⟩ := bind_eq_ok.mp h
  obtain ⟨w₅, h₅, h⟩ := bind_eq_ok.mp h
  have hstart : Still w { w with processor := { w.processor with pendingBytes := none } } :=
    ⟨⟨rfl, rfl, rfl, rfl, rfl, rfl, rfl, rfl, rfl, by simp, List.prefix_rfl, fun _ h => h,
      fun _ h => h, rfl, rfl, rfl, rfl, rfl⟩, rfl, fun _ => rfl, rfl⟩
  obtain ⟨hc₁, hw₁⟩ := @foldlM_runMove_running (TimelineOf (.sliding response)) env
    { w with processor := { w.processor with pendingBytes := none } } w₁ toDevice hw
    (allowed_iterToDevice hK htd) h₁
  -- The rooms one after the other; what was entered stays.
  have hrooms : ∀ (entries : List (Str × SlidingRoom)) (w w' : Work),
      (∀ entry ∈ entries, entry ∈ response.rooms) → Running w →
      entries.foldlM (runSlidingRoom env crypto plan) w = .ok w' →
      Changes (TimelineOf (.sliding response)) w w' ∧ Running w' ∧
        ∀ entry ∈ entries, entry.1 ∈ w'.processor.rooms := by
    intro entries
    induction entries with
    | nil =>
      intro w w' _ hw h
      cases h
      exact ⟨.refl, hw, fun entry he => nomatch he⟩
    | cons entry entries ih =>
      intro w w' hsub hw h
      rw [List.foldlM_cons] at h
      obtain ⟨wa, ha, h⟩ := bind_eq_ok.mp h
      obtain ⟨hca, hwa, hra⟩ := runSlidingRoom_changes hK (fun record _ hr _ =>
        ⟨entry.1, List.mem_map_of_mem (hsub entry List.mem_cons_self), hr⟩) hw ha
      obtain ⟨hcb, hwb, hrb⟩ := ih wa w' (fun e he => hsub e (List.mem_cons_of_mem _ he)) hwa h
      refine ⟨hca.trans hcb, hwb, fun e he => ?_⟩
      rcases List.mem_cons.mp he with rfl | he
      · exact hcb.mem_rooms hra
      · exact hrb e he
  obtain ⟨hc₂, hw₂, hr₂⟩ := hrooms response.rooms w₁ w₂ (fun _ he => he) hw₁ h₂
  have hglobal : ∀ move ∈ response.accountDataEvents.map fun event =>
      Move.yield (.ofGlobal .globalAccountData event),
      move.Allowed (TimelineOf (.sliding response)) := by
    intro move hm
    obtain ⟨event, -, rfl⟩ := List.mem_map.mp hm
    exact allowed_ofGlobal hK (by simp)
  obtain ⟨hc₃, hw₃⟩ := @foldlM_runMove_running (TimelineOf (.sliding response)) env
    { w₂ with session := { w₂.session with
        pendingAccountData :=
          addAccountData w₂.session.pendingAccountData response.roomAccountData } } w₃ _
    hw₂ hglobal h₃
  have hc₃' := ReflTransGen.head (Change.quiet (still_client w₂ _ _ _ _)) hc₃
  obtain ⟨hc₄, hw₄⟩ := runPendingAccountData_changes hK hw₃ h₄
  obtain ⟨hc₅, hw₅⟩ := foldlM_runMove_running hw₄ (allowed_iterOlm hK) h₅
  obtain ⟨hlast, hrecords⟩ := @change_flush (TimelineOf (.sliding response)) env w₅ w' h
  have htail := hc₃'.trans (hc₄.trans (hc₅.tail hlast))
  obtain ⟨bs, pb, rfl, -⟩ := flush_cases h
  refine ⟨(ReflTransGen.head (.quiet hstart) hc₁).trans (hc₂.trans htail), ⟨hrecords, hw₅.1, hw₅.2⟩,
    fun entry he => Changes.mem_rooms htail (hr₂ entry he)⟩

/-- Settling it publishes boundaries only. -/
theorem settleSliding_changes {w w' : Work} {resets resets' : List Str} {entry : Str × SlidingRoom}
    (hw : Idle w)
    (hr : entry.1 ∈ w.processor.rooms)
    (h : settleSliding env (w, resets) entry = .ok (w', resets')) : Changes Boundary w w' ∧ Idle w' := by
  unfold settleSliding at h
  dsimp only at h
  have hbase := @still_updateMetadata w entry.1 (fun m =>
    { m with baseline := (w.session.slidingMembership env entry.1 entry.2).1 ≠ Json.null && m.joined &&
      (entry.2.initial || m.baseline) }) fun m => ⟨rfl, rfl⟩
  have hstill := hbase.trans (still_addKnownRoom _ entry.1)
  have hidle := @idle_addKnownRoom { w with session := w.session.updateMetadata entry.1 fun m =>
    { m with baseline := (w.session.slidingMembership env entry.1 entry.2).1 ≠ Json.null && m.joined &&
      (entry.2.initial || m.baseline) } } ⟨hw.records, hw.stopOnOversized, hw.oversized⟩ entry.1
  split at h
  · cases h
    exact ⟨.single (.quiet hstill), hidle⟩
  · obtain ⟨⟨w₁, reset⟩, hrec, h⟩ := bind_eq_ok.mp h
    cases h
    obtain ⟨hc, -⟩ := reconcile_changes hidle.records (hstill.frame.rooms hr) hrec
    exact ⟨.head (.quiet hstill) hc, idle_reconcile hidle hrec⟩

theorem foldlM_settleSliding {entries : List (Str × SlidingRoom)} {w w' : Work}
    {resets resets' : List Str} (hw : Idle w)
    (hr : ∀ entry ∈ entries, entry.1 ∈ w.processor.rooms)
    (h : entries.foldlM (settleSliding env) (w, resets) = .ok (w', resets')) :
    Changes Boundary w w' ∧ Idle w' := by
  induction entries generalizing w resets with
  | nil =>
    cases h
    exact ⟨.refl, hw⟩
  | cons entry entries ih =>
    rw [List.foldlM_cons] at h
    obtain ⟨⟨w₁, resets₁⟩, h₁, h⟩ := bind_eq_ok.mp h
    obtain ⟨hc, hw₁⟩ := settleSliding_changes hw (hr entry List.mem_cons_self) h₁
    obtain ⟨hc', hw'⟩ := ih hw₁ (fun e he => hc.mem_rooms (hr e (List.mem_cons_of_mem _ he))) h
    exact ⟨hc.trans hc', hw'⟩

/-! ### Checkpoints -/

/-- Only the checkpoints differ, and the disk has them if it had them before. -/
structure Checkpointed (s s' : Session) : Prop where
  shape : s' = { s with
    baselines := s'.baselines
    disk := { s.disk with
      checkpoints := s'.disk.checkpoints
      accountData := s'.disk.accountData } }
  same : s.baselines = s.disk.checkpoints → s'.baselines = s'.disk.checkpoints

theorem Checkpointed.refl (s : Session) : Checkpointed s s := ⟨rfl, fun h => h⟩

theorem Checkpointed.trans {s s' s'' : Session} (h : Checkpointed s s') (h' : Checkpointed s' s'') :
    Checkpointed s s'' := by
  refine ⟨?_, fun hs => h'.same (h.same hs)⟩
  rw [h'.shape, h.shape]

theorem checkpointed_forgetRoom (s : Session) (r : Str) : Checkpointed s (s.forgetRoom r) :=
  ⟨rfl, fun h => congrArg (dictErase · r) h⟩

theorem checkpointed_setCheckpoint (s : Session) (r : Str) (c : Checkpoint) :
    Checkpointed s (s.setCheckpoint r c) :=
  ⟨rfl, fun h => congrArg (dictSet · r c) h⟩

theorem commitSlidingRoom_cases {crypto : Crypto} {plan : Plan} {w w' : Work}
    {entry : Str × SlidingRoom} (h : commitSlidingRoom env crypto plan w entry = .ok w') :
    ∃ s, w' = w.withSession s ∧ Checkpointed w.session s := by
  unfold commitSlidingRoom at h
  dsimp only at h
  split at h
  · obtain ⟨size, -, h⟩ := bind_eq_ok.mp h
    split at h
    · cases h
    · cases h
      exact ⟨_, rfl, checkpointed_setCheckpoint _ _ _⟩
  · cases h
    exact ⟨_, rfl, checkpointed_forgetRoom _ _⟩

/-- The commit writes checkpoints only. -/
theorem commitSliding_cases {crypto : Crypto} {plan : Plan} {w w' : Work}
    {response : SlidingResponse} (h : commitSliding env crypto plan w response = .ok w') :
    ∃ s, w' = w.withSession s ∧ Checkpointed w.session s := by
  unfold commitSliding at h
  have hfold : ∀ (entries : List (Str × SlidingRoom)) (w w' : Work),
      entries.foldlM (commitSlidingRoom env crypto plan) w = .ok w' →
      ∃ s, w' = w.withSession s ∧ Checkpointed w.session s := by
    intro entries
    induction entries with
    | nil =>
      intro w w' h
      cases h
      exact ⟨w.session, rfl, .refl _⟩
    | cons entry entries ih =>
      intro w w' h
      rw [List.foldlM_cons] at h
      obtain ⟨w₁, h₁, h⟩ := bind_eq_ok.mp h
      obtain ⟨s₁, rfl, hs₁⟩ := commitSlidingRoom_cases h₁
      obtain ⟨s₂, rfl, hs₂⟩ := ih _ _ h
      exact ⟨s₂, rfl, hs₁.trans hs₂⟩
  obtain ⟨size, -, h⟩ := bind_eq_ok.mp h
  split at h
  · cases h
  obtain ⟨s, rfl, hs⟩ := hfold _ _ _ h
  have hdata : Checkpointed w.session { w.session with
      disk := { w.session.disk with accountData := w.session.pendingAccountData } } :=
    ⟨rfl, fun h => h⟩
  exact ⟨s, rfl, hdata.trans hs⟩

theorem checkpointed_foldl_forgetRoom (rs : List Str) (s : Session) :
    Checkpointed s (rs.foldl Session.forgetRoom s) := by
  induction rs generalizing s with
  | nil => exact .refl s
  | cons r rs ih => exact (checkpointed_forgetRoom s r).trans (ih _)

/-- The end of a sliding response saves its position. -/
theorem closed_finishSliding {w : Work} {s : Session} (cursor : Str)
    (h : Checkpointed (dropLeftSliding w.save).session s) :
    Closed [.tail, .cursor cursor] w (finishTail { s with resets := [] } cursor) ∧
      s.disk.input = w.session.disk.input := by
  obtain ⟨b, c, a, rfl⟩ : ∃ b c a, s = { (dropLeftSliding w.save).session with
      baselines := b
      disk := { (dropLeftSliding w.save).session.disk with checkpoints := c, accountData := a } } :=
    ⟨_, _, _, h.shape⟩
  have hclosed := @Closed.then [] [.tail, .cursor cursor] w _ (finishTail
    { { (dropLeftSliding w.save).session with
        baselines := b
        disk := { (dropLeftSliding w.save).session.disk with checkpoints := c, accountData := a } } with
      resets := [] } cursor) (closed_save w)
  rw [List.nil_append] at hclosed
  refine ⟨hclosed ?_ fun hb => h.same ?_, ?_⟩
  · unfold finishTail Session.effect
    rw [dropLeftSliding_frame]
    simp
  · rw [dropLeftSliding_frame]
    exact hb
  · dsimp only
    rw [dropLeftSliding_frame]
    unfold Work.save
    dsimp only
    rw [saveRooms_frame]

/-- The tail of a sliding response is a run of its parts. -/
theorem slidingTail_run {crypto : Crypto} {plan : Plan} {w w' : Work} {response : SlidingResponse}
    (h : slidingTail env crypto plan w response = .ok w') :
    TailRun env crypto plan (.sliding response) w response.pos w'.session := by
  unfold slidingTail at h
  dsimp only at h
  obtain ⟨w₁, hrun, h⟩ := bind_eq_ok.mp h
  obtain ⟨⟨w₂, resets⟩, hsettle, h⟩ := bind_eq_ok.mp h
  obtain ⟨w₃, hcommit, h⟩ := bind_eq_ok.mp h
  cases h
  obtain ⟨hchanges, hidle, hrooms⟩ := runSliding_changes ⟨rfl, rfl⟩ hrun
  obtain ⟨items, hconsumes, hconveys⟩ := runSliding_consumes rfl rfl hrun
  obtain ⟨hc₂, hidle₂⟩ := foldlM_settleSliding hidle hrooms hsettle
  obtain ⟨s₃, rfl, hs₃⟩ := commitSliding_cases hcommit
  have hs₄ := hs₃.trans (checkpointed_foldl_forgetRoom (resets ++ s₃.resets) s₃)
  obtain ⟨hclosed, hinput⟩ := closed_finishSliding response.pos hs₄
  refine .mk _ items w₁ w₂ (.sliding response _ items hconveys) hchanges hconsumes hc₂ hidle₂ hclosed
    ?_ rfl
  exact congrArg (Option.map fun p => (p.1, Continuation.prepared)) hinput

/-! ## The phases of an input -/

/-- Clearing the to-device events leaves the rooms, -/
theorem roomEntries_clearToDevice (plan : Plan) (response : SyncInput) :
    responseRooms (clearToDevice plan response) = responseRooms response := by
  unfold clearToDevice
  split
  · rfl
  · cases response with
    | classic r => rfl
    | sliding r => rfl

/-- the cursor -/
theorem nextCursor_clearToDevice (plan : Plan) (response : SyncInput) :
    nextCursor (clearToDevice plan response) = nextCursor response := by
  unfold clearToDevice
  split
  · rfl
  · cases response with
    | classic r => rfl
    | sliding r => rfl

/-- The work that a tail starts from -/
def tailStart (plan : Plan) (w : Work) : Work := { w with session := tailDecrypts plan w.session }

/-- and the timelines. -/
theorem timelineOf_clearToDevice (plan : Plan) (response : SyncInput) (record : SyncRecord) :
    TimelineOf (clearToDevice plan response) record ↔ TimelineOf response record := by
  unfold TimelineOf
  rw [roomEntries_clearToDevice plan response]

/-- The tail of either kind of response is a run of its parts. -/
theorem tail_run {crypto : Crypto} {flags : Flags} {plan : Plan} {w w' : Work} {response : SyncInput}
    (h : tail env crypto flags plan w response = .ok w') :
    TailRun env crypto plan (clearToDevice plan response) (tailStart plan w) (nextCursor response)
      w'.session := by
  unfold tail at h
  dsimp only at h
  rw [← nextCursor_clearToDevice plan response]
  cases hr : clearToDevice plan response with
  | classic r =>
    rw [hr] at h
    exact classicTail_run h
  | sliding r =>
    rw [hr] at h
    exact slidingTail_run h

/-- Losses without a change: nothing but records, and the processor is as it was. -/
structure Losses (w w' : Work) : Prop where
  changes : Changes Boundary w w'
  processor : w'.processor = w.processor
  effects : w'.session.effects = w.session.effects
  intent : w'.session.disk.intent = w.session.disk.intent
  tenure : ∀ r, w'.session.tenure r = w.session.tenure r

theorem Losses.refl (w : Work) : Losses w w := ⟨.refl, rfl, rfl, rfl, fun _ => rfl⟩

/-- A loss adds a loss. -/
theorem loss_losses {w w' : Work} {r : Str} {reason : String} {pages : Nat}
    (hw : w.processor.records = []) (h : loss env w r reason pages none = .ok w') : Losses w w' := by
  have hc := loss_changes (fun _ hb => hb) hw h
  obtain ⟨bs, epoch, rfl, -⟩ := loss_cases h
  exact ⟨.single hc.1, rfl, rfl, rfl, Session.tenure_clearBaseline w.session r⟩

theorem unknownLosses_losses {plan : Plan} {w w' : Work} (hw : w.processor.records = [])
    (h : unknownLosses env plan w = .ok w') : Losses w w' := by
  refine foldlM_invariant (P := fun w'' => Losses w w'') (fun r _ w₁ w₂ hstep hinv => ?_) h (.refl w)
  have hl := loss_losses (hinv.processor ▸ hw) hstep
  exact ⟨hinv.changes.trans hl.changes, hl.processor.trans hinv.processor,
    hl.effects.trans hinv.effects, hl.intent.trans hinv.intent,
    fun r => (hl.tenure r).trans (hinv.tenure r)⟩

theorem initialLosses_losses {plan : Plan} {w w' : Work} (hw : w.processor.records = [])
    (h : initialLosses env plan w = .ok w') : Losses w w' := by
  unfold initialLosses at h
  split at h
  · exact unknownLosses_losses hw h
  · cases h
    exact .refl w

/-! ### Pages -/

/-- The bodies of a transaction that keep the input: the prologue and the pages -/
theorem closed_saveContinuation (w : Work) (c : Continuation) :
    Closed [] w (w.save.session.saveContinuation c) := by
  have h := @Closed.then [] [] w _ (w.save.session.saveContinuation c) (closed_save w)
  refine h ?_ fun hb => hb
  unfold Session.saveContinuation
  simp

/-- The records of a page: the timeline of its room, and boundaries -/
def TimelineIn (r : Str) (record : SyncRecord) : Prop :=
  record.kind = .timeline ∧ record.roomId = some r ∨ Boundary record

/-- A page records timeline events of its room, and a loss where it overflows. -/
theorem consumePage_consumed {crypto : Crypto} {w w' : Work} {entry : RoomEntry}
    {es : List Event} (hrecords : w.processor.records = [])
    (h : consumePage env crypto w entry es = .ok w') :
    (Changes (TimelineIn entry.roomId) w w' ∨
      ∃ w₁, Changes (TimelineIn entry.roomId) w w₁ ∧ Overflow entry.roomId w₁ w') ∧
      w'.processor.records = [] := by
  unfold consumePage at h
  split at h
  · cases h
    exact ⟨Or.inl .refl, hrecords⟩
  · have hitems : ∀ move ∈ iterRoomTimeline crypto entry.roomId es entry.section true none,
        (∃ r event, move = .timelineRoom r event) ∨
          ∃ event, move = .yield (timelineItem crypto entry.roomId entry.section none event) := by
      intro move hm
      unfold iterRoomTimeline at hm
      obtain ⟨event, -, hm⟩ := List.mem_flatMap.mp hm
      rcases List.mem_append.mp hm with hm | hm
      · rw [if_pos rfl] at hm
        exact Or.inl ⟨_, event, List.mem_singleton.mp hm⟩
      · exact Or.inr ⟨event, List.mem_singleton.mp hm⟩
    have hrooms : ∀ item, Move.yield item ∈
        iterRoomTimeline crypto entry.roomId es entry.section true none →
        item.roomId = some entry.roomId := by
      intro item hm
      rcases hitems _ hm with ⟨r, event, heq⟩ | ⟨event, heq⟩
      · cases heq
      · cases heq
        rfl
    have hallowed : AllowedMoves (TimelineIn entry.roomId) w.processor.stopOnOversized
        (iterRoomTimeline crypto entry.roomId es entry.section true none) := by
      refine ⟨fun move hm => ?_, fun _ item hm hnone => ?_⟩
      · rcases hitems _ hm with ⟨r, event, rfl⟩ | ⟨event, rfl⟩
        · trivial
        · exact ⟨fun record hrec => Or.inl ⟨hrec.kind, hrec.roomId⟩, fun hr => nomatch hr⟩
      · rw [hrooms item hm] at hnone
        cases hnone
    have hstart : Still w { w with session := { w.session with
        rooms := insertNew w.session.rooms entry.roomId } } := still_client w _ _ _ _
    obtain ⟨hconsumed, hrec⟩ := @runMoves_consumed (TimelineIn entry.roomId) env
      { w with session := { w.session with rooms := insertNew w.session.rooms entry.roomId } } w' _
      hallowed h
    refine ⟨?_, hrec⟩
    rcases hconsumed with hc | ⟨-, r, w₁, ⟨item, hm, hr⟩, hc, hover⟩
    · exact Or.inl (.head (.quiet hstart) hc)
    · have heq : r = entry.roomId := Option.some.inj (hr.symm.trans (hrooms item hm))
      exact Or.inr ⟨w₁, .head (.quiet hstart) hc, heq ▸ hover⟩

end Nio.Durable
