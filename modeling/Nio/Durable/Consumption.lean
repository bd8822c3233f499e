import Nio.Durable.Change

/-!
# What a transaction consumes

The items that a transaction takes from its iterators, one after the other, and what becomes of them:
the records of their events, and the own membership that each room has by then.

* `Consumes` — the items between two states of a transaction
* `Consumes.shown` — the records of these items
* `Consumes.undropped` — when no change of a membership is left without a record
-/

namespace Nio.Durable

open Nio.Py
open Nio.Lib

variable {env : Env}

/-! ## Records of events -/

/-- The record without what its room adds -/
def SyncRecord.plain (record : SyncRecord) : SyncRecord :=
  { record with provenance := none, membershipEpoch := none, membership := none }

/-- The records of events among some records -/
def shown (records : List SyncRecord) : List SyncRecord :=
  (records.filter fun record => ¬ Boundary record).map SyncRecord.plain

@[simp] theorem shown_nil : shown [] = [] := rfl

@[simp] theorem shown_append (rs rs' : List SyncRecord) : shown (rs ++ rs') = shown rs ++ shown rs' := by
  unfold shown
  rw [List.filter_append, List.map_append]

/-- Boundaries show nothing. -/
theorem shown_boundary {records : List SyncRecord} (h : ∀ record ∈ records, Boundary record) :
    shown records = [] := by
  unfold shown
  rw [List.filter_eq_nil_iff.mpr fun record hr => by simp [h record hr]]
  rfl

/-- A frozen event is plain. -/
theorem plain_freezeEvent (item : Item) : (freezeEvent item).plain = freezeEvent item := by
  unfold freezeEvent
  split
  · rfl
  · rfl

/-- The record of a room item is its frozen event with a change. -/
theorem plain_roomRecord (w : Work) (r : Str) (item : Item) (change : Option OwnMembership) :
    (roomRecord w r item change).plain = freezeEvent item := plain_freezeEvent item

/-- A record of an item is shown if the item has an event. -/
theorem shown_item {item : Item} {record : SyncRecord} (h : record.plain = freezeEvent item) :
    shown [record] = if item.event.isSome then [freezeEvent item] else [] := by
  have hkind : record.plain.kind = (freezeEvent item).kind := congrArg SyncRecord.kind h
  unfold shown
  cases hevent : item.event with
  | none =>
    have hb : Boundary record := by
      refine Or.inl (Eq.trans hkind ?_)
      unfold freezeEvent
      rw [hevent]
      rfl
    rw [List.filter_cons_of_neg (by simp [hb])]
    rfl
  | some event =>
    have hb : ¬ Boundary record := by
      change ¬ (record.plain.kind = _ ∨ record.plain.kind = _)
      rw [hkind]
      exact not_boundary_of_event (by simp [hevent])
    rw [List.filter_cons_of_pos (by simp [hb]), List.map_cons, h]
    rfl

/-- The item has an event, which no earlier page or window has applied. -/
def Item.isShown (suppressed : Str → List Json) (item : Item) : Bool :=
  match item.event with
  | none => false
  | some event =>
    match item.roomId with
    | none => true
    | some roomId => event.identity ∉ suppressed roomId

/-- The records of the events of some items -/
def frozen (suppressed : Str → List Json) (items : List Item) : List SyncRecord :=
  (items.filter (Item.isShown suppressed)).map freezeEvent

@[simp] theorem frozen_nil (suppressed : Str → List Json) : frozen suppressed [] = [] := rfl

theorem frozen_singleton (suppressed : Str → List Json) (item : Item) :
    frozen suppressed [item] = if item.isShown suppressed then [freezeEvent item] else [] := by
  unfold frozen
  cases h : item.isShown suppressed with
  | true => simp [h]
  | false => simp [h]

/-- The records of a list are those of its parts. -/
theorem frozen_append (suppressed : Str → List Json) (items items' : List Item) :
    frozen suppressed (items ++ items') = frozen suppressed items ++ frozen suppressed items' := by
  unfold frozen
  rw [List.filter_append, List.map_append]

/-! ## One item -/

/-- The processor of a tail or of a prologue goes on to the last item, and suppresses the same
identities throughout. -/
structure SameFilter (w w' : Work) : Prop where
  stopOnOversized : w'.processor.stopOnOversized = w.processor.stopOnOversized
  oversized : w'.processor.oversized = w.processor.oversized
  suppressIds : w'.processor.suppressIds = w.processor.suppressIds

theorem SameFilter.trans {w w' w'' : Work} (h : SameFilter w w') (h' : SameFilter w' w'') :
    SameFilter w w'' :=
  ⟨h'.stopOnOversized.trans h.stopOnOversized, h'.oversized.trans h.oversized,
    h'.suppressIds.trans h.suppressIds⟩

theorem sameFilter_of_frame {es : List Effect} {w w' : Work} (h : w.Frame es w') : SameFilter w w' :=
  ⟨h.stopOnOversized, h.oversized, h.suppressIds⟩

theorem sameFilter_of_processor {w w' : Work} (h : w'.processor = w.processor) : SameFilter w w' :=
  ⟨congrArg Processor.stopOnOversized h, congrArg Processor.oversized h,
    congrArg Processor.suppressIds h⟩

/-- The same filter suppresses the same ids. -/
theorem SameFilter.suppressed {w w' : Work} (h : SameFilter w w') :
    w'.processor.suppressed = w.processor.suppressed := by
  funext r
  unfold Processor.suppressed
  rw [h.suppressIds]

/-- An item is shown unless its id is suppressed. -/
theorem isShown_of_isSuppressed {w : Work} {r : Str} {item : Item} {b : Bool}
    (hr : item.roomId = some r) (h : isSuppressed w r item = .ok b) :
    item.isShown w.processor.suppressed = (item.event.isSome && !b) := by
  unfold isSuppressed at h
  unfold Item.isShown
  rw [hr]
  cases hevent : item.event with
  | none => rfl
  | some event =>
    rw [hevent] at h
    rw [inSet_ok h]
    simp

/-- Dropping a change leaves the processor -/
theorem processor_dropChange (w : Work) (r : Str) (change : Option OwnMembership) :
    (dropChange w r change).processor = w.processor := by
  unfold dropChange
  split
  · rfl
  · rfl

/-- and the log. -/
theorem log_dropChange (w : Work) (r : Str) (change : Option OwnMembership) :
    (dropChange w r change).log = w.log := by
  unfold dropChange
  split
  · rfl
  · rfl

/-- The record that is appended, where nothing stops the loop -/
theorem appendRecord_log {w w' : Work} {record : SyncRecord} {b : Bool}
    (hstop : w.processor.stopOnOversized = false) (h : appendRecord env w record b = .ok w') :
    SameFilter w w' ∧ w'.log = w.log ++ [record] ∧
      w'.session.metadata = w.session.metadata ∧ w'.session.effects = w.session.effects ∧
      w'.session.disk.intent = w.session.disk.intent ∧
      w'.processor.explicitMemberships = w.processor.explicitMemberships := by
  rcases appendRecord_cases h with ⟨hs, -⟩ | ⟨bs, rs, pb, rfl, hbs⟩
  · rw [hstop] at hs
    cases hs
  · exact ⟨⟨rfl, rfl, rfl⟩, log_appended hbs, rfl, rfl, rfl, rfl⟩

theorem sameFilter_entered (w : Work) (r : Str) (item : Item) : SameFilter w (w.entered r item) :=
  sameFilter_of_frame (w.frame_entered r item)

theorem sameFilter_observed {w w₁ : Work} {r : Str} {o : Observed} (h : w.Observes r o w₁)
    (change : Option OwnMembership) : SameFilter w (fence w₁ r change) :=
  (sameFilter_of_frame h.frame).trans
    (sameFilter_of_processor (processor_fence w₁ r change))

/-- Only a section is passed over. -/
theorem event_of_skip {w w₁ : Work} {r : Str} {item : Item}
    (h : observe env w r item = (w₁, .skip)) : item.event = none := by
  cases hevent : item.event with
  | none => rfl
  | some event =>
    unfold observe at h
    rw [hevent] at h
    unfold observeEvent at h
    dsimp only at h
    split at h
    · cases h
    · cases h

theorem log_entered (w : Work) (r : Str) (item : Item) : (w.entered r item).log = w.log := by
  unfold Work.entered
  split
  · rfl
  · rfl

/-- The record of an item, and the filter that it leaves -/
theorem consumeItem_shown {w w' : Work} {item : Item}
    (hstop : w.processor.stopOnOversized = false) (h : consumeItem env w item = .ok w') :
    SameFilter w w' ∧ ∃ rs, w'.log = w.log ++ rs ∧
      shown rs = frozen w.processor.suppressed [item] := by
  rcases consumeItem_cases h with ⟨hr, b, happend⟩ | ⟨r, w₁, o, hr, hobserve, hrest⟩
  · obtain ⟨hsame, hlog, -⟩ := appendRecord_log hstop happend
    have hshown : item.isShown w.processor.suppressed = item.event.isSome := by
      unfold Item.isShown
      rw [hr]
      cases item.event with
      | none => rfl
      | some event => rfl
    refine ⟨hsame, _, hlog, ?_⟩
    rw [shown_item (plain_freezeEvent item), frozen_singleton, hshown]
  · have hobs := observe_cases hobserve
    have hfilter : ∀ change, SameFilter w (fence w₁ r change) := fun change =>
      (sameFilter_entered w r item).trans (sameFilter_observed hobs change)
    have hlog : ∀ change, (fence w₁ r change).log = w.log := fun change =>
      (log_fence w₁ r change).trans (hobs.log.trans (log_entered w r item))
    rcases hrest with ⟨rfl, rfl⟩ | ⟨change, rfl, ⟨hsuppressed, rfl⟩ | ⟨hkept, b, happend⟩⟩
    · have hevent : item.event = none := event_of_skip hobserve
      refine ⟨hfilter none, [], by rw [List.append_nil]; exact hlog none, ?_⟩
      unfold frozen Item.isShown
      simp [hevent]
    · have hshown := isShown_of_isSuppressed hr hsuppressed
      rw [(hfilter change).suppressed] at hshown
      refine ⟨(hfilter change).trans (sameFilter_of_processor (processor_dropChange _ r change)), [],
        by rw [log_dropChange, hlog, List.append_nil], ?_⟩
      rw [frozen_singleton, hshown]
      simp
    · obtain ⟨hsame, hlog', -⟩ := appendRecord_log
        ((hfilter change).stopOnOversized.trans hstop) happend
      have hshown := isShown_of_isSuppressed hr hkept
      rw [(hfilter change).suppressed] at hshown
      refine ⟨(hfilter change).trans hsame, _, by rw [hlog', hlog], ?_⟩
      rw [shown_item (plain_roomRecord _ r item change), frozen_singleton, hshown]
      simp

/-! ## The own membership of a room -/

/-- What the processor knows of a room: whether an event has spoken of the own membership, and the
membership -/
abbrev Reading := Bool × Option Membership

def Work.reading (w : Work) (r : Str) : Reading :=
  (decide (r ∈ w.processor.explicitMemberships), (w.session.getMetadata r).membership)

/-- The reading of a room after one of its sections -/
def afterSection (roomSection : Option RoomSection) (reading : Reading) : Reading :=
  match roomSection with
  | none => reading
  | some roomSection =>
    if roomSection = .leave ∧ (reading.2 = some .leave ∨ reading.2 = some .ban) ∨
        roomSection ≠ .leave ∧ reading.1 then reading
    else (reading.1, some roomSection.membership)

namespace Item

/-- The reading of a room after an item of it -/
def after (userId : Str) (item : Item) (reading : Reading) : Reading :=
  match item.event with
  | none => afterSection item.section reading
  | some _ =>
    match item.reported userId with
    | some membership => (true, some membership)
    | none => reading

/-- An event that was applied before reports the membership that the room has. -/
def agrees (userId : Str) (suppressed : List Json) (item : Item) (reading : Reading) : Bool :=
  match item.event, item.reported userId with
  | some event, some membership =>
    event.identity ∉ suppressed || reading.2 = some membership
  | _, _ => true

end Item

/-- Each event of a room that was applied before reports the membership that the room has by then. -/
def agree (userId : Str) (suppressed : List Json) : List Item → Reading → Bool
  | [], _ => true
  | item :: items, reading =>
    item.agrees userId suppressed reading &&
      agree userId suppressed items (item.after userId reading)

/-- The items of a room -/
def itemsIn (r : Str) (items : List Item) : List Item :=
  items.filter fun item => item.roomId = some r

/-- After `_change_membership` a room that no local operation holds has the membership. -/
theorem Session.changeMembership_held {s s' : Session} {r : Str} {m : Membership}
    {change : Option OwnMembership} (h : s.changeMembership r m = (s', change)) :
    (∀ r', r' ≠ r → s'.getMetadata r' = s.getMetadata r') ∧
    (s.unobserved r = false → (s'.getMetadata r).membership = some m) ∧
    (∀ c, change = some c → s.unobserved r = false ∧ (s.getMetadata r).membership ≠ some m) := by
  unfold changeMembership at h
  split at h
  · next hu =>
    cases h
    refine ⟨fun _ _ => rfl, fun hu' => ?_, fun c hc => nomatch hc⟩
    rw [hu] at hu'
    cases hu'
  · next hu =>
    dsimp only at h
    split at h
    · next hm =>
      cases h
      refine ⟨fun r' _ => getMetadata_updateMetadata_id s r r', fun _ => ?_, fun c hc => nomatch hc⟩
      rw [getMetadata_updateMetadata_id, hm]
    · next hm =>
      cases h
      refine ⟨fun r' hr' => ?_, fun _ => ?_, fun c _ => ⟨by simpa using hu, hm⟩⟩
      · rw [getMetadata_updateMetadata, if_neg hr']
      · rw [getMetadata_updateMetadata, if_pos rfl]

/-- A change of membership is read for its own room. -/
theorem changeMembership_reading {w w' : Work} {r : Str} {m : Membership}
    {change : Option OwnMembership} (h : w.changeMembership r m = (w', change)) :
    (∀ r', r' ≠ r → w'.reading r' = w.reading r') ∧
    (w.session.unobserved r = false → w'.reading r = ((w.reading r).1, some m)) ∧
    (∀ c, change = some c → w.session.unobserved r = false ∧ (w.reading r).2 ≠ some m) := by
  unfold Work.changeMembership at h
  cases hs : w.session.changeMembership r m with
  | mk s c =>
    rw [hs] at h
    cases h
    obtain ⟨hothers, hheld, hchange⟩ := Session.changeMembership_held hs
    refine ⟨fun r' hr' => ?_, fun hu => ?_, hchange⟩
    · unfold Work.reading
      rw [hothers r' hr']
    · unfold Work.reading
      rw [hheld hu]

/-- So is the section that an item comes from. -/
theorem observeSection_reading {w w' : Work} {r : Str} {roomSection : Option RoomSection}
    {o : Observed} (h : observeSection w r roomSection = (w', o)) :
    (∀ r', r' ≠ r → w'.reading r' = w.reading r') ∧
    (w.session.unobserved r = false → w'.reading r = afterSection roomSection (w.reading r)) ∧
    (∀ c, o = .go (some c) → w.session.unobserved r = false) := by
  have hleft : (w.session.getMetadata r).left = true ↔
      (w.reading r).2 = some .leave ∨ (w.reading r).2 = some .ban := by
    unfold Metadata.left Work.reading
    simp
  have hexplicit : (w.reading r).1 = true ↔ r ∈ w.processor.explicitMemberships := by
    simp [Work.reading]
  unfold observeSection at h
  unfold afterSection
  cases roomSection with
  | none =>
    have hsame : w' = w ∧ o = .skip := by
      split at h
      · cases h
        exact ⟨rfl, rfl⟩
      · split at h
        · cases h
          exact ⟨rfl, rfl⟩
        · cases h
          exact ⟨rfl, rfl⟩
    obtain ⟨rfl, rfl⟩ := hsame
    exact ⟨fun _ _ => rfl, fun _ => rfl, fun c hc => nomatch hc⟩
  | some roomSection =>
    dsimp only
    simp only [Option.some.injEq, ne_eq, hleft, ← hexplicit] at h
    split at h
    · next hl =>
      cases h
      exact ⟨fun _ _ => rfl, fun _ => (if_pos (Or.inl hl)).symm, fun c hc => nomatch hc⟩
    · next hl =>
      split at h
      · next he =>
        cases h
        exact ⟨fun _ _ => rfl, fun _ => (if_pos (Or.inr he)).symm, fun c hc => nomatch hc⟩
      · next he =>
        rw [if_neg (not_or.mpr ⟨hl, he⟩)]
        cases hc : w.changeMembership r roomSection.membership with
        | mk w₁ change =>
          obtain ⟨hothers, hheld, hchange⟩ := changeMembership_reading hc
          rw [hc] at h
          cases change with
          | none =>
            cases h
            exact ⟨hothers, hheld, fun c hc => nomatch hc⟩
          | some c =>
            cases h
            exact ⟨hothers, hheld, fun _ _ => (hchange c rfl).1⟩

/-- What an item of a room does to the reading of the rooms, and which events change it -/
theorem observe_reading {w w' : Work} {r : Str} {item : Item} {o : Observed}
    (h : observe env w r item = (w', o)) :
    (∀ r', r' ≠ r → w'.reading r' = w.reading r') ∧
    (w.session.unobserved r = false → w'.reading r = item.after env.userId (w.reading r)) ∧
    (∀ c, o = .go (some c) → w.session.unobserved r = false ∧ ∀ event, item.event = some event →
      ∃ m, item.reported env.userId = some m ∧ (w.reading r).2 ≠ some m) := by
  unfold observe at h
  unfold Item.after
  cases hevent : item.event with
  | none =>
    rw [hevent] at h
    obtain ⟨hothers, hheld, hchange⟩ := observeSection_reading h
    exact ⟨hothers, hheld, fun c hc => ⟨hchange c hc, fun event he => nomatch he⟩⟩
  | some event =>
    rw [hevent] at h
    dsimp only at h ⊢
    unfold observeEvent at h
    cases hm : item.reported env.userId with
    | none =>
      rw [hm] at h
      cases h
      exact ⟨fun _ _ => rfl, fun _ => rfl, fun c hc => nomatch hc⟩
    | some m =>
      rw [hm] at h
      dsimp only at h ⊢
      cases hc : (w.addExplicit r).changeMembership r m with
      | mk w₁ change =>
        rw [hc] at h
        cases h
        obtain ⟨hothers, hheld, hchange⟩ := changeMembership_reading hc
        refine ⟨fun r' hr' => ?_, fun hu => ?_, fun c hgo => ?_⟩
        · rw [hothers r' hr']
          unfold Work.reading Work.addExplicit
          simp [Work.mem_insertNew, hr']
        · rw [hheld hu]
          unfold Work.reading Work.addExplicit
          simp [Work.mem_insertNew]
        · cases hgo
          obtain ⟨hu, hne⟩ := hchange c rfl
          exact ⟨hu, fun _ _ => ⟨m, rfl, hne⟩⟩

/-- The reading depends on the metadata and the explicit memberships. -/
theorem reading_congr {w w' : Work} (hm : w'.session.metadata = w.session.metadata)
    (he : w'.processor.explicitMemberships = w.processor.explicitMemberships) (r : Str) :
    w'.reading r = w.reading r := by
  unfold Work.reading Session.getMetadata
  rw [hm, he]

theorem unobserved_congr {s s' : Session} (h : s'.disk.intent = s.disk.intent) (r : Str) :
    s'.unobserved r = s.unobserved r := by
  unfold Session.unobserved
  rw [h]

/-- Fences do not change it. -/
theorem reading_fence (w : Work) (r : Str) (change : Option OwnMembership) (r' : Str) :
    (fence w r change).reading r' = w.reading r' := by
  have htenure := congrArg Prod.fst (tenure_fence w r change r')
  unfold Work.reading
  rw [processor_fence]
  exact congrArg (Prod.mk _) htenure

theorem reading_dropChange (w : Work) (r : Str) (change : Option OwnMembership) (r' : Str) :
    (dropChange w r change).reading r' = w.reading r' := by
  unfold dropChange
  split
  · rfl
  · rfl

theorem intent_dropChange (w : Work) (r : Str) (change : Option OwnMembership) :
    (dropChange w r change).session.disk.intent = w.session.disk.intent := by
  unfold dropChange
  split
  · rfl
  · rfl

theorem reading_entered (w : Work) (r : Str) (item : Item) (r' : Str) :
    (w.entered r item).reading r' = w.reading r' := by
  unfold Work.entered
  split
  · rfl
  · rfl

theorem intent_entered (w : Work) (r : Str) (item : Item) :
    (w.entered r item).session.disk.intent = w.session.disk.intent :=
  (still_entered w r item).intent

/-- No change of the transaction so far was left without a record. -/
def Undropped (es : List Effect) : Prop := ∀ r c, Effect.dropped r c ∉ es

/-- The reading of the rooms after an item; a change is only dropped for an event that does not agree
with the reading. -/
theorem consumeItem_reading {w w' : Work} {item : Item}
    (hstop : w.processor.stopOnOversized = false) (h : consumeItem env w item = .ok w') :
    w'.session.disk.intent = w.session.disk.intent ∧
    (∀ r, item.roomId ≠ some r → w'.reading r = w.reading r) ∧
    (∀ r, item.roomId = some r → w.session.unobserved r = false →
      w'.reading r = item.after env.userId (w.reading r)) ∧
    ((∀ r, item.roomId = some r → w.session.unobserved r = false →
        item.agrees env.userId (w.processor.suppressed r) (w.reading r) = true) →
      Undropped w.session.effects → Undropped w'.session.effects) := by
  rcases consumeItem_cases h with ⟨hr, b, happend⟩ | ⟨r, w₁, o, hr, hobserve, hrest⟩
  · obtain ⟨-, -, hm, he, hi, hx⟩ := appendRecord_log hstop happend
    refine ⟨hi, fun r _ => reading_congr hm hx r, fun r hr' => ?_, fun _ hw => he ▸ hw⟩
    rw [hr] at hr'
    cases hr'
  · have hobs := observe_cases hobserve
    obtain ⟨hothers, hafter, hchange⟩ := observe_reading hobserve
    have hfilter : ∀ change, SameFilter w (fence w₁ r change) := fun change =>
      (sameFilter_entered w r item).trans (sameFilter_observed hobs change)
    have hintent : ∀ change, (fence w₁ r change).session.disk.intent = w.session.disk.intent :=
      fun change => (intent_fence w₁ r change).trans (hobs.intent.trans (intent_entered w r item))
    have hunobserved : (w.entered r item).session.unobserved r = w.session.unobserved r :=
      unobserved_congr (intent_entered w r item) r
    have heffects : ∀ change, (fence w₁ r change).session.effects = w.session.effects := by
      intro change
      have hf := ((w.frame_entered r item).trans hobs.frame).trans (frame_fence w₁ r change)
      simpa using hf.effects
    -- the reading after the membership part of the item
    have hreads : ∀ change, (∀ r', item.roomId ≠ some r' →
          (fence w₁ r change).reading r' = w.reading r') ∧
        (∀ r', item.roomId = some r' → w.session.unobserved r' = false →
          (fence w₁ r change).reading r' = item.after env.userId (w.reading r')) := by
      intro change
      refine ⟨fun r' hr' => ?_, fun r' hr' hu => ?_⟩
      · rw [reading_fence, hothers r' fun heq => hr' (heq ▸ hr), reading_entered]
      · obtain rfl := Option.some.inj (hr.symm.trans hr')
        rw [reading_fence, hafter (hunobserved.trans hu), reading_entered]
    rcases hrest with ⟨rfl, rfl⟩ | ⟨change, rfl, ⟨hsuppressed, rfl⟩ | ⟨-, b, happend⟩⟩
    · exact ⟨hintent none, (hreads none).1, (hreads none).2, fun _ hw => (heffects none).symm ▸ hw⟩
    · refine ⟨(intent_dropChange _ r change).trans (hintent change), fun r' hr' => ?_,
        fun r' hr' hu => ?_, fun hagrees hw => ?_⟩
      · rw [reading_dropChange]
        exact (hreads change).1 r' hr'
      · rw [reading_dropChange]
        exact (hreads change).2 r' hr' hu
      · cases change with
        | none => exact (heffects none).symm ▸ hw
        | some c =>
          -- the event was applied before, and reports another membership
          exfalso
          obtain ⟨hu, hreported⟩ := hchange c rfl
          obtain ⟨event, hevent⟩ := Option.ne_none_iff_exists'.mp (isSuppressed_true hsuppressed).1
          obtain ⟨m, hm, hne⟩ := hreported event hevent
          have hshown := isShown_of_isSuppressed hr hsuppressed
          rw [(hfilter (some c)).suppressed] at hshown
          have hagree := hagrees r hr (hunobserved.symm.trans hu)
          unfold Item.isShown at hshown
          unfold Item.agrees at hagree
          rw [hevent, hr] at hshown
          rw [hevent, hm] at hagree
          rw [reading_entered] at hne
          simp [hne] at hagree
          simp [hagree] at hshown
    · obtain ⟨-, -, hm, he, hi, hx⟩ := appendRecord_log
        ((hfilter change).stopOnOversized.trans hstop) happend
      refine ⟨hi.trans (hintent change), fun r' hr' => ?_, fun r' hr' hu => ?_, fun _ hw => ?_⟩
      · rw [reading_congr hm hx]
        exact (hreads change).1 r' hr'
      · rw [reading_congr hm hx]
        exact (hreads change).2 r' hr' hu
      · rw [he, heffects]
        exact hw

/-! ## Several items -/

/-- What happens to the client and to the queue of records between two items -/
structure Aside (w w' : Work) : Prop extends Still w w' where
  explicit : w'.processor.explicitMemberships = w.processor.explicitMemberships

/-- The items that a transaction takes, one after the other -/
inductive Consumes (env : Env) : Work → List Item → Work → Prop
  | nil (w : Work) : Consumes env w [] w
  | item {w w₁ w' : Work} {item : Item} {items : List Item}
      (taken : consumeItem env w item = .ok w₁) (rest : Consumes env w₁ items w') :
      Consumes env w (item :: items) w'
  | aside {w w₁ w' : Work} {items : List Item} (aside : Aside w w₁)
      (rest : Consumes env w₁ items w') : Consumes env w items w'

/-- Two lists of items are consumed one after the other. -/
theorem Consumes.append {w w₁ w' : Work} {items items' : List Item} (h : Consumes env w items w₁)
    (h' : Consumes env w₁ items' w') : Consumes env w (items ++ items') w' := by
  induction h with
  | nil => exact h'
  | item taken _ ih => exact .item taken (ih h')
  | aside aside _ ih => exact .aside aside (ih h')

theorem Aside.reading {w w' : Work} (h : Aside w w') (r : Str) : w'.reading r = w.reading r := by
  have htenure : (w'.session.getMetadata r).membership = (w.session.getMetadata r).membership :=
    congrArg Prod.fst (h.tenure r)
  unfold Work.reading
  rw [htenure, h.explicit]

/-- The records of the items are those of their events, in order. -/
theorem Consumes.shown {w w' : Work} {items : List Item} (h : Consumes env w items w')
    (hstop : w.processor.stopOnOversized = false) : SameFilter w w' ∧ ∃ rs, w'.log = w.log ++ rs ∧
      Durable.shown rs = frozen w.processor.suppressed items := by
  induction h with
  | nil => exact ⟨⟨rfl, rfl, rfl⟩, [], (List.append_nil _).symm, rfl⟩
  | @item w w₁ w' item items taken _ ih =>
    obtain ⟨hsame, rs, hlog, hshown⟩ := consumeItem_shown hstop taken
    obtain ⟨hsame', rs', hlog', hshown'⟩ := ih (hsame.stopOnOversized.trans hstop)
    refine ⟨hsame.trans hsame', rs ++ rs', by rw [hlog', hlog, List.append_assoc], ?_⟩
    rw [shown_append, hshown, hshown', hsame.suppressed, ← frozen_append]
    rfl
  | aside aside _ ih =>
    have hsame := sameFilter_of_frame aside.frame
    obtain ⟨hsame', rs, hlog, hshown⟩ := ih (hsame.stopOnOversized.trans hstop)
    refine ⟨hsame.trans hsame', rs, by rw [hlog, aside.log], ?_⟩
    rw [hshown, hsame.suppressed]

/-- The items of each room that no local operation holds agree with what is known of it by then. -/
def Agreeing (userId : Str) (w : Work) (items : List Item) : Prop :=
  ∀ r, w.session.unobserved r = false →
    agree userId (w.processor.suppressed r) (itemsIn r items) (w.reading r) = true

/-- A room that suppresses no identity agrees with every item. -/
theorem agree_of_nil (userId : Str) (items : List Item) (reading : Reading) :
    agree userId [] items reading = true := by
  induction items generalizing reading with
  | nil => rfl
  | cons item items ih =>
    unfold agree
    rw [ih, Bool.and_true]
    unfold Item.agrees
    split
    · simp
    · rfl

/-- Items that agree leave no change without a record. -/
theorem Consumes.undropped {w w' : Work} {items : List Item} (h : Consumes env w items w')
    (hstop : w.processor.stopOnOversized = false) (hagree : Agreeing env.userId w items)
    (hw : Undropped w.session.effects) : Undropped w'.session.effects := by
  induction h with
  | nil => exact hw
  | @item w w₁ w' item items taken _ ih =>
    obtain ⟨hintent, hothers, hafter, hdropped⟩ := consumeItem_reading hstop taken
    obtain ⟨hsame, -⟩ := consumeItem_shown hstop taken
    have hhead : ∀ r, item.roomId = some r → w.session.unobserved r = false →
        item.agrees env.userId (w.processor.suppressed r) (w.reading r) = true ∧
          agree env.userId (w.processor.suppressed r) (itemsIn r items)
            (item.after env.userId (w.reading r)) = true := by
      intro r hr hu
      have hagree := hagree r hu
      unfold itemsIn at hagree
      rw [List.filter_cons_of_pos (by simpa using hr)] at hagree
      exact Bool.and_eq_true_iff.mp hagree
    refine ih (hsame.stopOnOversized.trans hstop) (fun r hu => ?_)
      (hdropped (fun r hr hu => (hhead r hr hu).1) hw)
    rw [unobserved_congr hintent r] at hu
    rw [hsame.suppressed]
    by_cases hr : item.roomId = some r
    · rw [hafter r hr hu]
      exact (hhead r hr hu).2
    · have hagree := hagree r hu
      unfold itemsIn at hagree
      rw [List.filter_cons_of_neg (by simpa using hr)] at hagree
      rw [hothers r hr]
      exact hagree
  | aside aside _ ih =>
    have hsame := sameFilter_of_frame aside.frame
    refine ih (hsame.stopOnOversized.trans hstop) (fun r hu => ?_) ?_
    · rw [hsame.suppressed, aside.reading]
      exact hagree r (unobserved_congr aside.intent r ▸ hu)
    · rw [aside.frame.effects, List.append_nil]
      exact hw

/-! ## Iterators -/

/-- The items of some moves -/
def itemsOf (moves : List Move) : List Item :=
  moves.filterMap fun
    | .yield item => some item
    | _ => none

@[simp] theorem itemsOf_nil : itemsOf [] = [] := rfl

/-- The items of the moves are those of their parts. -/
@[simp] theorem itemsOf_append (moves moves' : List Move) :
    itemsOf (moves ++ moves') = itemsOf moves ++ itemsOf moves' := List.filterMap_append

theorem aside_clientMove (w : Work) (move : Move) :
    Aside w { w with session := clientMove env w.session move } :=
  ⟨still_clientMove w move, rfl⟩

theorem aside_pendingBytes (w : Work) (pendingBytes : Option Nat) :
    Aside w { w with processor := { w.processor with pendingBytes } } :=
  ⟨⟨⟨rfl, rfl, rfl, rfl, rfl, rfl, rfl, rfl, rfl, by simp, List.prefix_rfl, fun _ h => h,
    fun _ h => h, rfl, rfl, rfl, rfl, rfl⟩, rfl, fun _ => rfl, rfl⟩, rfl⟩

theorem aside_flush {w w' : Work} (h : w.flush env = .ok w') : Aside w w' := by
  have hlog := log_flush h
  obtain ⟨bs, pb, rfl, -⟩ := flush_cases h
  exact ⟨⟨w.frame_publishing bs [] pb, hlog, fun _ => rfl, rfl⟩, rfl⟩

/-- A loop that no record stops consumes its items. -/
theorem foldlM_runMove_consumes {w w' : Work} {moves : List Move}
    (hstop : w.processor.stopOnOversized = false) (hover : w.processor.oversized = false)
    (h : moves.foldlM (runMove env) w = .ok w') : Consumes env w (itemsOf moves) w' := by
  induction moves generalizing w with
  | nil =>
    cases h
    exact .nil w'
  | cons move moves ih =>
    rw [List.foldlM_cons] at h
    obtain ⟨w₁, h₁, hrest⟩ := bind_eq_ok.mp h
    unfold runMove at h₁
    rw [hover, if_neg (by simp)] at h₁
    cases move with
    | yield item =>
      obtain ⟨hsame, -⟩ := consumeItem_shown hstop h₁
      exact .item h₁ (ih (hsame.stopOnOversized.trans hstop) (hsame.oversized.trans hover) hrest)
    | _ =>
      cases h₁
      exact .aside (aside_clientMove w _) (ih hstop hover hrest)

theorem runMoves_consumes {w w' : Work} {moves : List Move}
    (hstop : w.processor.stopOnOversized = false) (hover : w.processor.oversized = false)
    (h : runMoves env w moves = .ok w') : Consumes env w (itemsOf moves) w' := by
  unfold runMoves at h
  obtain ⟨w₁, hfold, hflush⟩ := bind_eq_ok.mp h
  have hitems := @foldlM_runMove_consumes env
    { w with processor := { w.processor with pendingBytes := none } } w₁ moves hstop hover hfold
  have hend := hitems.append (.aside (aside_flush hflush) (.nil w'))
  rw [List.append_nil] at hend
  exact .aside (aside_pendingBytes w none) hend

end Nio.Durable
