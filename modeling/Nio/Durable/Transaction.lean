import Nio.Durable.Client
import Nio.Py.Dict

/-!
# What a transaction can do

The functions of a transaction, each with the shape of its result. Invariants of the session are
derived from these lemmas and never unfold a function again.

* `publishRecords_cases`, `flush_cases` — records only move from the processor to batches
* `consumeItem_cases` — an item is passed over, or its record is appended
* `Work.Grows` — what no part of an interpretation takes back
-/

namespace Nio.Durable

open Nio.Py
open Nio.Lib

/-! ## Metadata -/

namespace Session

/-- Only the metadata of one room are updated. -/
theorem getMetadata_updateMetadata (s : Session) (r r' : Str) (f : Metadata → Metadata) :
    (s.updateMetadata r f).getMetadata r' = if r' = r then f (s.getMetadata r) else s.getMetadata r' := by
  unfold getMetadata updateMetadata
  simp only [dictGet?_dictSet]
  split <;> rfl

/-- `setdefault` changes no metadata. -/
theorem getMetadata_updateMetadata_id (s : Session) (r r' : Str) :
    (s.updateMetadata r id).getMetadata r' = s.getMetadata r' := by
  rw [getMetadata_updateMetadata]
  split
  · next h => rw [h]; rfl
  · rfl

/-- Two sessions that differ at most in their metadata -/
def SameButMetadata (s s' : Session) : Prop := s' = { s with metadata := s'.metadata }

/-- `_change_membership` changes nothing, or makes a change that leads from the metadata of the room. -/
theorem changeMembership_cases {s s' : Session} {r : Str} {m : Membership}
    {change : Option OwnMembership} (h : s.changeMembership r m = (s', change)) :
    (change = none ∧ s.SameButMetadata s' ∧ ∀ r', s'.getMetadata r' = s.getMetadata r') ∨
    (∃ c, change = some c ∧ s.unobserved r = false ∧ (s.getMetadata r).membership ≠ some m ∧
      c.previous = (s.getMetadata r).membership ∧ c.current = m ∧
      c.previousEpoch = (s.getMetadata r).membershipEpoch ∧
      c.currentEpoch = c.previousEpoch + (if c.previous = some .join ∧ m ≠ .join then 1 else 0) ∧
      s' = s.updateMetadata r fun md =>
        { md with membership := some m, membershipEpoch := c.currentEpoch }) := by
  unfold changeMembership at h
  split at h
  · cases h
    exact Or.inl ⟨rfl, rfl, fun _ => rfl⟩
  · next hu =>
    dsimp only at h
    split at h
    · cases h
      exact Or.inl ⟨rfl, rfl, fun r' => getMetadata_updateMetadata_id s r r'⟩
    · next hm =>
      cases h
      exact Or.inr ⟨_, rfl, by simpa using hu, hm, rfl, rfl, rfl, rfl, rfl⟩

/-! ## Batches -/

def addBatches (s : Session) (bs : List Batch) : Session :=
  { s with disk := { s.disk with batches := s.disk.batches ++ bs } }

theorem addBatches_nil (s : Session) : s.addBatches [] = s := by
  simp [addBatches]

/-- Batches are added one after the other. -/
theorem addBatches_addBatches (s : Session) (bs bs' : List Batch) :
    (s.addBatches bs).addBatches bs' = s.addBatches (bs ++ bs') := by
  simp [addBatches, List.append_assoc]

theorem storeBatch_eq (s : Session) (records : List SyncRecord) (c : Bool) (size : Nat) :
    s.storeBatch records c size = s.addBatches [⟨records, c, size⟩] := rfl

end Session

/-- The records of batches, in order -/
def recordsOf (bs : List Batch) : List SyncRecord := bs.flatMap (·.records)

theorem recordsOf_append (bs bs' : List Batch) :
    recordsOf (bs ++ bs') = recordsOf bs ++ recordsOf bs' := List.flatMap_append

/-- What is published grows by the records of the new batches. -/
theorem published_addBatches (s : Session) (bs : List Batch) :
    (s.addBatches bs).disk.published = s.disk.published ++ recordsOf bs := recordsOf_append _ _

open Session in
/-- A publication in halves adds batches with exactly these records. -/
theorem publishSized_cases {env : Env} {fuel : Nat} {records : List SyncRecord} {pb n : Nat}
    {s s' : Session} (h : publishSized env fuel records pb s = .ok (s', n)) :
    ∃ bs, s' = s.addBatches bs ∧ recordsOf bs = records := by
  induction fuel generalizing records pb n s s' with
  | zero =>
    unfold publishSized at h
    obtain ⟨size, -, h⟩ := bind_eq_ok.mp h
    split at h
    · split at h
      · cases h
      · cases h
        exact ⟨_, storeBatch_eq .., by simp [recordsOf]⟩
    · cases h
  | succ fuel ih =>
    unfold publishSized at h
    obtain ⟨size, -, h⟩ := bind_eq_ok.mp h
    split at h
    · split at h
      · cases h
      · cases h
        exact ⟨_, storeBatch_eq .., by simp [recordsOf]⟩
    · dsimp only at h
      split at h
      · cases h
      · obtain ⟨⟨s₁, n₁⟩, h₁, h⟩ := bind_eq_ok.mp h
        obtain ⟨bs₁, rfl, hr₁⟩ := ih h₁
        obtain ⟨bs₂, rfl, hr₂⟩ := ih h
        exact ⟨bs₁ ++ bs₂, addBatches_addBatches .., by
          rw [recordsOf_append, hr₁, hr₂, List.take_append_drop]⟩

/-- The slices are the records, in order. -/
theorem slices_flatten (limit fuel : Nat) (records : List SyncRecord) :
    (Session.slices limit fuel records).flatten = records := by
  induction fuel generalizing records with
  | zero => simp [Session.slices]
  | succ fuel ih =>
    unfold Session.slices
    split
    · simp
    · rw [List.flatten_cons, ih, List.take_append_drop]

open Session in
/-- Publishing only adds batches, which hold the records in their order. -/
theorem publishRecords_cases {env : Env} {s s' : Session} {records : List SyncRecord}
    {pb : Option Nat} {n : Nat} (h : s.publishRecords env records pb = .ok (s', n)) :
    ∃ bs, s' = s.addBatches bs ∧ recordsOf bs = records := by
  have hfold : ∀ (parts : List (List SyncRecord)) (s : Session) (n : Nat) (s' : Session) (n' : Nat),
      parts.foldlM (fun (x : Session × Nat) slice =>
        publishSized env slice.length slice x.2 x.1) (s, n) = .ok (s', n') →
      ∃ bs, s' = s.addBatches bs ∧ recordsOf bs = parts.flatten := by
    intro parts
    induction parts with
    | nil =>
      intro s n s' n' h
      cases h
      exact ⟨[], (addBatches_nil s).symm, rfl⟩
    | cons part parts ih =>
      intro s n s' n' h
      rw [List.foldlM_cons] at h
      obtain ⟨⟨s₁, n₁⟩, h₁, h⟩ := bind_eq_ok.mp h
      obtain ⟨bs₁, rfl, hr₁⟩ := publishSized_cases h₁
      obtain ⟨bs₂, rfl, hr₂⟩ := ih _ _ _ _ h
      exact ⟨bs₁ ++ bs₂, addBatches_addBatches .., by
        rw [recordsOf_append, hr₁, hr₂, List.flatten_cons]⟩
  obtain ⟨bs, hs, hr⟩ := hfold _ _ _ _ _ h
  exact ⟨bs, hs, hr.trans (slices_flatten ..)⟩

/-! ## The processor -/

namespace Work

/-- Every record of the transaction so far, published or not -/
def log (w : Work) : List SyncRecord := w.session.disk.published ++ w.processor.records

/-- Records have moved into batches, and `rs` are left. -/
def publishing (w : Work) (bs : List Batch) (rs : List SyncRecord) (pb : Option Nat) : Work :=
  { w with
    session := w.session.addBatches bs
    processor := { w.processor with records := rs, pendingBytes := pb } }

/-- Records that move into batches stay in the log. -/
theorem log_publishing (w : Work) (bs : List Batch) (rs : List SyncRecord) (pb : Option Nat) :
    (w.publishing bs rs pb).log = w.session.disk.published ++ (recordsOf bs ++ rs) := by
  unfold log publishing
  simp only [published_addBatches, List.append_assoc]

theorem publishing_self (w : Work) :
    w.publishing [] w.processor.records w.processor.pendingBytes = w := by
  simp only [publishing, Session.addBatches_nil]

end Work

/-- `flush` moves all records into batches. -/
theorem flush_cases {env : Env} {w w' : Work} (h : w.flush env = .ok w') :
    ∃ bs pb, w' = w.publishing bs [] pb ∧ recordsOf bs = w.processor.records := by
  unfold Work.flush at h
  split at h
  · next hnil =>
    cases h
    refine ⟨[], w.processor.pendingBytes, ?_, by rw [hnil]; rfl⟩
    conv_lhs => rw [← w.publishing_self, hnil]
  · obtain ⟨⟨s, n⟩, hp, h⟩ := bind_eq_ok.mp h
    obtain ⟨bs, rfl, hbs⟩ := publishRecords_cases hp
    cases h
    exact ⟨bs, some n, rfl, hbs⟩

/-- It keeps the log. -/
theorem log_flush {env : Env} {w w' : Work} (h : w.flush env = .ok w') : w'.log = w.log := by
  obtain ⟨bs, pb, rfl, hbs⟩ := flush_cases h
  rw [Work.log_publishing, hbs, List.append_nil]
  rfl

namespace Work

/-- The record was appended: a part of the records may be published by now. -/
def appended (w : Work) (bs : List Batch) (rs : List SyncRecord) (pb : Option Nat) : Work :=
  let w := w.publishing bs rs pb
  { w with processor := { w.processor with processedRecords := w.processor.processedRecords + 1 } }

end Work

/-- Where it is not needed, the records wait. -/
theorem flushIf_cases {env : Env} {w w' : Work} {b : Bool} (h : w.flushIf env b = .ok w') :
    ∃ bs rs pb, w' = w.publishing bs rs pb ∧ recordsOf bs ++ rs = w.processor.records := by
  unfold Work.flushIf at h
  split at h
  · obtain ⟨bs, pb, rfl, hbs⟩ := flush_cases h
    exact ⟨bs, [], pb, rfl, by rw [hbs, List.append_nil]⟩
  · cases h
    exact ⟨[], _, _, w.publishing_self.symm, rfl⟩

/-- A record stops the loop, or it is appended to what is published and what waits. -/
theorem appendRecord_cases {env : Env} {w w' : Work} {record : SyncRecord} {barrier : Bool}
    (h : appendRecord env w record barrier = .ok w') :
    (w.processor.stopOnOversized = true ∧ w' = w.overflow record.membership) ∨
    ∃ bs rs pb, w' = w.appended bs rs pb ∧ recordsOf bs ++ rs = w.processor.records ++ [record] := by
  unfold appendRecord at h
  obtain ⟨oversized, hover, h⟩ := bind_eq_ok.mp h
  split at h
  · next ho =>
    cases h
    refine Or.inl ⟨?_, rfl⟩
    unfold Work.isOversized at hover
    split at hover
    · assumption
    · rw [ho] at hover; cases hover
  · right
    obtain ⟨w₁, hw₁, h⟩ := bind_eq_ok.mp h
    obtain ⟨bs₁, rs₁, pb₁, rfl, hbs₁⟩ := flushIf_cases hw₁
    obtain ⟨bs₂, rs₂, pb₂, rfl, hbs₂⟩ := flushIf_cases h
    refine ⟨bs₁ ++ bs₂, rs₂, pb₂, ?_, ?_⟩
    · simp only [Work.appended, Work.publishing, Work.push, Session.addBatches_addBatches]
    · have hbs₂' : recordsOf bs₂ ++ rs₂ = rs₁ ++ [record] := hbs₂
      rw [recordsOf_append, List.append_assoc, hbs₂', ← List.append_assoc, hbs₁]

/-- The log grows by the record. -/
theorem log_appended {w : Work} {bs : List Batch} {rs : List SyncRecord} {pb : Option Nat}
    {record : SyncRecord} (h : recordsOf bs ++ rs = w.processor.records ++ [record]) :
    (w.appended bs rs pb).log = w.log ++ [record] := by
  have hlog : (w.appended bs rs pb).log = (w.publishing bs rs pb).log := rfl
  rw [hlog, Work.log_publishing, h, ← List.append_assoc]
  rfl

/-! ### Items -/

namespace Work

def withSession (w : Work) (s : Session) : Work := { w with session := s }

/-- The processor has met a room. -/
def entered (w : Work) (roomId : Str) (item : Item) : Work :=
  (if item.section = some .invite then
    w.withSession { w.session with rooms := removeKey w.session.rooms roomId } else w).addRoom roomId

/-- What the membership part of an item leaves -/
structure Observes (w : Work) (roomId : Str) (o : Observed) (w' : Work) : Prop where
  shape : w' = { w with
    session := { w.session with metadata := w'.session.metadata }
    processor := { w.processor with explicitMemberships := w'.processor.explicitMemberships } }
  quiet : (∀ c, o ≠ .go (some c)) → ∀ r, w'.session.getMetadata r = w.session.getMetadata r
  change : ∀ c, o = .go (some c) → w.session.unobserved roomId = false ∧
    (w.session.getMetadata roomId).membership ≠ some c.current ∧
    c.previous = (w.session.getMetadata roomId).membership ∧
    c.previousEpoch = (w.session.getMetadata roomId).membershipEpoch ∧
    c.currentEpoch = c.previousEpoch +
      (if c.previous = some .join ∧ c.current ≠ .join then 1 else 0) ∧
    ∀ r, w'.session.getMetadata r = if r = roomId then { w.session.getMetadata roomId with
        membership := some c.current
        membershipEpoch := c.currentEpoch }
      else w.session.getMetadata r

/-- An item may leave the memberships as they are. -/
theorem Observes.refl (w : Work) (roomId : Str) (o : Observed) (ho : ∀ c, o ≠ .go (some c)) :
    w.Observes roomId o w :=
  ⟨rfl, fun _ _ => rfl, fun c hc => absurd hc (ho c)⟩

end Work

/-- A change of a membership is what the item observes. -/
theorem observes_changeMembership {w w' : Work} {roomId : Str} {m : Membership}
    {change : Option OwnMembership} (h : w.changeMembership roomId m = (w', change)) :
    w.Observes roomId (.go change) w' := by
  unfold Work.changeMembership at h
  cases hs : w.session.changeMembership roomId m with
  | mk s' c =>
    rw [hs] at h
    cases h
    rcases Session.changeMembership_cases hs with
      ⟨rfl, hsame, hget⟩ | ⟨c, rfl, hu, hm, hp, hc, he, hn, rfl⟩
    · refine ⟨?_, fun _ r => hget r, fun c hc => by cases hc⟩
      conv_lhs => rw [hsame]
    · refine ⟨rfl, fun hno => absurd rfl (hno c), fun c' hc' => ?_⟩
      cases hc'
      subst hc
      refine ⟨hu, hm, hp, he, hn, fun r => ?_⟩
      rw [Session.getMetadata_updateMetadata]

/-- The membership part of an item changes the metadata of its room at most. -/
theorem observe_cases {env : Env} {w w' : Work} {roomId : Str} {item : Item} {o : Observed}
    (h : observe env w roomId item = (w', o)) : w.Observes roomId o w' := by
  unfold observe at h
  split at h
  · unfold observeSection at h
    split at h
    · cases h
      exact .refl w roomId _ (by simp)
    · split at h
      · cases h
        exact .refl w roomId _ (by simp)
      · split at h
        · cases h
          exact .refl w roomId _ (by simp)
        · split at h
          · next hc =>
            cases h
            have := observes_changeMembership hc
            exact ⟨this.shape, fun _ => this.quiet (by simp), fun c hc => by cases hc⟩
          · next hc =>
            cases h
            exact observes_changeMembership hc
  · unfold observeEvent at h
    split at h
    · cases h
      exact .refl w roomId _ (by simp)
    · next m hm =>
      cases hc : (w.addExplicit roomId).changeMembership roomId m with
      | mk w₁ change =>
        simp only [hc] at h
        cases h
        obtain ⟨hshape, hquiet, hchange⟩ := observes_changeMembership hc
        refine ⟨?_, hquiet, hchange⟩
        rw [hshape]
        rfl

/-- An item that belongs to a room is passed over, its change is dropped, or its record is
appended. -/
theorem consumeItem_cases {env : Env} {w w' : Work} {item : Item}
    (h : consumeItem env w item = .ok w') :
    (item.roomId = none ∧ ∃ b, appendRecord env w (freezeEvent item) b = .ok w') ∨
    ∃ roomId w₁ o, item.roomId = some roomId ∧ observe env (w.entered roomId item) roomId item = (w₁, o) ∧
      (o = .skip ∧ w' = w₁ ∨
        ∃ change, o = .go change ∧
          (isSuppressed (fence w₁ roomId change) roomId item = .ok true ∧
              w' = dropChange (fence w₁ roomId change) roomId change ∨
            isSuppressed (fence w₁ roomId change) roomId item = .ok false ∧
              ∃ b, appendRecord env (fence w₁ roomId change)
                (roomRecord (fence w₁ roomId change) roomId item change) b = .ok w')) := by
  unfold consumeItem at h
  split at h
  · next hr => exact Or.inl ⟨hr, _, h⟩
  · next roomId hr =>
    split at h
    · cases h
    split at h
    · cases h
    · dsimp only at h
      refine Or.inr ⟨roomId, ?_⟩
      have hentered : (if item.section = some .invite then
          { w with session := { w.session with rooms := removeKey w.session.rooms roomId } }
          else w).addRoom roomId = w.entered roomId item := rfl
      rw [hentered] at h
      cases ho : observe env (w.entered roomId item) roomId item with
      | mk w₁ o =>
        rw [ho] at h
        refine ⟨w₁, o, hr, rfl, ?_⟩
        cases o with
        | skip => exact Or.inl ⟨rfl, (Except.ok.inj h).symm⟩
        | go change =>
          refine Or.inr ⟨change, rfl, ?_⟩
          unfold recordItem at h
          obtain ⟨b, hsuppressed, h⟩ := bind_eq_ok.mp h
          cases b with
          | true => exact Or.inl ⟨hsuppressed, (Except.ok.inj h).symm⟩
          | false => exact Or.inr ⟨hsuppressed, _, h⟩

end Nio.Durable
