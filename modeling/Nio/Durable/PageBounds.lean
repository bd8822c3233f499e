import Nio.Durable.Observations
import Nio.Py.JsonAscii
import Nio.Py.JsonSize

/-!
# Pages that fit

A page of history is published record by record. Whether its records can be encoded, and whether
they fit into the bounds of the session, is told from the events of the page and from the room.

* `bytes_roomRecord` — what a room adds to the bytes of a record
* `publishRecords_fits` — records that fit are published
* `consumeItem_fits` — an event that fits is consumed
* `consumePage_fits`, `pageLoss_fits` — a page and its loss
-/

namespace Nio.Durable

open Nio.Py
open Nio.Lib

variable {env : Env}

/-! ## Texts -/

/-- The size of a value is what its text takes. -/
theorem encodedJsonSize_eq_ok {v : Json} {n : Nat} :
    encodedJsonSize v = .ok n ↔ Takes strict v n := by
  unfold encodedJsonSize encodeJson Takes Str.Takes
  cases dumps strict v with
  | error e => simp
  | ok t => cases ht : Str.encode t <;> simp [ht]

theorem comma : strict.itemSeparator.length = 1 := rfl

theorem colon : strict.keySeparator.length = 1 := rfl

/-- A clean well-formed value has a text that UTF-8 encodes. -/
theorem writes_clean {v : Json} (hwf : v.WF) (hclean : v.Clean) : Writes strict v := by
  obtain ⟨t, ht⟩ := exists_dumps strict hwf hclean
  obtain ⟨b, hb⟩ := (Str.encode_isOk_iff t).mpr ((encodable_iff_clean ⟨rfl, rfl⟩ ht).mpr hclean)
  exact ⟨b.length, t, ht, b, hb, rfl⟩

instance (v : Json) : Decidable (Writes strict v) :=
  decidable_of_iff ((encodedJsonSize v).toBool = true) <| by
    cases hsize : encodedJsonSize v with
    | error e =>
      refine iff_of_false (by simp [Except.toBool]) fun ⟨n, hn⟩ => ?_
      rw [encodedJsonSize_eq_ok.mpr hn] at hsize
      cases hsize
    | ok n => exact iff_of_true rfl ⟨n, encodedJsonSize_eq_ok.mp hsize⟩

theorem writes_str {s : Str} (h : s.Encodable) : Writes strict (.str s) :=
  writes_clean rfl (Json.clean_str.mpr h)

theorem writes_py (s : String) : Writes strict (.str (py s)) := writes_str (encodable_py s)

theorem writes_null : Writes strict .null := ⟨4, _, rfl, _, rfl, rfl⟩

theorem writes_optional {α : Type} {f : α → Json} {x : Option α}
    (h : ∀ a ∈ x, Writes strict (f a)) : Writes strict (optional f x) := by
  cases x with
  | none => exact writes_null
  | some a => exact h a rfl

theorem writes_arr_iff {xs : List Json} : Writes strict (.arr xs) ↔ ∀ x ∈ xs, Writes strict x :=
  ⟨fun ⟨_, h⟩ => (takes_arr.mp h).1, fun h => ⟨_, takes_arr.mpr ⟨h, rfl⟩⟩⟩

theorem writes_obj_iff {kvs : List (Str × Json)} :
    Writes strict (.obj kvs) ↔ ∀ p ∈ kvs, Writes strict (.str p.1) ∧ Writes strict p.2 :=
  ⟨fun ⟨_, h⟩ => (takes_obj.mp h).1, fun h => ⟨_, takes_obj.mpr ⟨h, rfl⟩⟩⟩

/-- A number of at most 18 digits -/
theorem takes_nat {n : Nat} (h : n < 10 ^ 18) : ∃ m, Takes strict (.int n) m ∧ m ≤ 18 := by
  have hlen : (Nat.toDigits 10 n).length ≤ 18 := by
    rcases Nat.eq_zero_or_pos n with rfl | hpos
    · decide
    · exact (Nat.length_toDigits_le_iff (by decide) (by decide)).mpr h
  have hascii : Str.Ascii (ofChars (Nat.toDigits 10 n)) :=
    ascii_ofChars fun c hc => ascii_digit (Decimal.digits_toDigits n |>.2 c hc)
  have hmax : ¬ maxStrDigits < (Nat.toDigits 10 (n : Int).natAbs).length := by
    show ¬ 4300 < (Nat.toDigits 10 n).length
    omega
  refine ⟨(Nat.toDigits 10 n).length, ⟨ofChars (Nat.toDigits 10 n), ?_, _, encode_ascii hascii, ?_⟩, hlen⟩
  · rw [dumps, dumpsInt]
    simp only [if_neg hmax]
    rw [if_neg (by omega)]
    rfl
  · simp [ofChars]

/-! ## Records -/

/-- The parts of a record that are not written by rote have texts that UTF-8 encodes. -/
structure SyncRecord.Written (r : SyncRecord) : Prop where
  roomId : Writes strict (optional .str r.roomId)
  source : Writes strict r.source
  clear : Writes strict (optional id r.clear)
  membershipEpoch : Writes strict (optional (fun e => .int (e : Nat)) r.membershipEpoch)
  crypto : Writes strict (optional CryptoEvidence.asdict r.crypto)
  membership : Writes strict (optional OwnMembership.asdict r.membership)
  route : Writes strict (optional .str r.route)
  codec : Writes strict (optional .str r.codec)

/-- The bytes of the object that stands for a record -/
def SyncRecord.bytes (r : SyncRecord) : Nat :=
  115 + Py.bytes strict (.str r.kind.value) + Py.bytes strict (optional .str r.roomId) +
    Py.bytes strict r.source + Py.bytes strict (optional id r.clear) +
    Py.bytes strict (optional (fun p => .str p.value) r.provenance) +
    Py.bytes strict (optional (fun e => .int (e : Nat)) r.membershipEpoch) +
    Py.bytes strict (optional CryptoEvidence.asdict r.crypto) +
    Py.bytes strict (optional OwnMembership.asdict r.membership) +
    Py.bytes strict (optional .str r.route) + Py.bytes strict (optional .str r.codec)

theorem takes_carrier {r : SyncRecord} (h : r.Written) : Takes strict r.carrier r.bytes := by
  have hkind : Writes strict (.str r.kind.value) := by
    cases r.kind <;> exact writes_py _
  have hprovenance : Writes strict (optional (fun p => .str p.value) r.provenance) :=
    writes_optional fun p _ => by cases p <;> exact writes_py _
  have h₁ : Takes strict (.str (py "kind")) 6 := ⟨_, rfl, _, rfl, rfl⟩
  have h₂ : Takes strict (.str (py "room_id")) 9 := ⟨_, rfl, _, rfl, rfl⟩
  have h₃ : Takes strict (.str (py "source")) 8 := ⟨_, rfl, _, rfl, rfl⟩
  have h₄ : Takes strict (.str (py "clear")) 7 := ⟨_, rfl, _, rfl, rfl⟩
  have h₅ : Takes strict (.str (py "provenance")) 12 := ⟨_, rfl, _, rfl, rfl⟩
  have h₆ : Takes strict (.str (py "membership_epoch")) 18 := ⟨_, rfl, _, rfl, rfl⟩
  have h₇ : Takes strict (.str (py "crypto")) 8 := ⟨_, rfl, _, rfl, rfl⟩
  have h₈ : Takes strict (.str (py "membership")) 12 := ⟨_, rfl, _, rfl, rfl⟩
  have h₉ : Takes strict (.str (py "route")) 7 := ⟨_, rfl, _, rfl, rfl⟩
  have h₀ : Takes strict (.str (py "codec")) 7 := ⟨_, rfl, _, rfl, rfl⟩
  unfold SyncRecord.carrier
  rw [takes_obj]
  refine ⟨?_, ?_⟩
  · simp only [List.forall_mem_cons]
    exact ⟨⟨⟨_, h₁⟩, hkind⟩, ⟨⟨_, h₂⟩, h.roomId⟩, ⟨⟨_, h₃⟩, h.source⟩, ⟨⟨_, h₄⟩, h.clear⟩,
      ⟨⟨_, h₅⟩, hprovenance⟩, ⟨⟨_, h₆⟩, h.membershipEpoch⟩, ⟨⟨_, h₇⟩, h.crypto⟩,
      ⟨⟨_, h₈⟩, h.membership⟩, ⟨⟨_, h₉⟩, h.route⟩, ⟨⟨_, h₀⟩, h.codec⟩, List.forall_mem_nil _⟩
  · simp only [SyncRecord.bytes, pairBytes, List.map_cons, List.map_nil, List.sum_cons, List.sum_nil,
      h₁.bytes_eq, h₂.bytes_eq, h₃.bytes_eq, h₄.bytes_eq, h₅.bytes_eq, h₆.bytes_eq, h₇.bytes_eq,
      h₈.bytes_eq, h₉.bytes_eq, h₀.bytes_eq, comma, colon]
    omega

/-- The bytes of some records, each as in a batch of its own -/
def recordBytes (records : List SyncRecord) : Nat := (records.map fun r => 2 + r.bytes).sum

theorem recordBytes_append (rs rs' : List SyncRecord) :
    recordBytes (rs ++ rs') = recordBytes rs + recordBytes rs' := by
  simp [recordBytes]

theorem recordBytes_singleton (r : SyncRecord) : recordBytes [r] = 2 + r.bytes := by
  simp [recordBytes]

/-- A batch takes at most what its records take alone. -/
theorem encodedSize_le {records : List SyncRecord} (h : ∀ r ∈ records, r.Written)
    (hne : records ≠ []) : ∃ n, Session.encodedSize records = .ok n ∧ n ≤ recordBytes records := by
  have hitems : ∀ v ∈ records.map SyncRecord.carrier, Writes strict v := by
    intro v hv
    obtain ⟨r, hr, rfl⟩ := List.mem_map.mp hv
    exact ⟨_, takes_carrier (h r hr)⟩
  have htakes := takes_arr.mpr ⟨hitems, rfl⟩
  refine ⟨_, encodedJsonSize_eq_ok.mpr htakes, ?_⟩
  have hsum : ∀ rs : List SyncRecord, (∀ r ∈ rs, r.Written) →
      rs.length ≤ itemBytes strict (rs.map SyncRecord.carrier) ∧
        itemBytes strict (rs.map SyncRecord.carrier) + rs.length = recordBytes rs := by
    intro rs
    induction rs with
    | nil => exact fun _ => ⟨Nat.le_refl 0, rfl⟩
    | cons r rs ih =>
      intro hrs
      obtain ⟨hr, hrs⟩ := List.forall_mem_cons.mp hrs
      have hbytes := (takes_carrier hr).bytes_eq
      have hrest := ih hrs
      simp only [itemBytes, recordBytes, List.map_cons, List.sum_cons, List.length_cons, comma,
        hbytes] at hrest ⊢
      omega
  have hrecords := hsum records h
  have hlen := List.length_pos_iff.mpr hne
  rw [comma]
  omega

theorem encodedSize_singleton {r : SyncRecord} (h : r.Written) :
    Session.encodedSize [r] = .ok (2 + r.bytes) := by
  refine encodedJsonSize_eq_ok.mpr (takes_arr.mpr ⟨?_, ?_⟩)
  · intro v hv
    rw [List.mem_singleton.mp hv]
    exact ⟨_, takes_carrier h⟩
  · simp only [itemBytes, List.map_cons, List.map_nil, List.sum_cons, List.sum_nil, comma,
      (takes_carrier h).bytes_eq]
    omega

/-! ## Records of events -/

/-- What a record keeps of the event of an item holds no infinite number, no NaN and no surrogate. -/
structure Legible (item : Item) (event : Event) : Prop where
  roomId : ∀ r ∈ item.roomId, r.Encodable
  source : ∀ source ∈ item.source, source.WF ∧ source.Clean
  payload : (payload event).1.WF ∧ (payload event).1.Clean
  senderKey : ∀ k ∈ event.senderKey, k.Encodable
  sessionId : ∀ k ∈ event.sessionId, k.Encodable
  device : ∀ d ∈ event.authenticatedSender, d.asdict.WF ∧ d.asdict.Clean

instance (item : Item) (event : Event) : Decidable (Legible item event) :=
  decidable_of_iff
    ((∀ r ∈ item.roomId, r.Encodable) ∧ (∀ source ∈ item.source, source.WF ∧ source.Clean) ∧
      ((payload event).1.WF ∧ (payload event).1.Clean) ∧ (∀ k ∈ event.senderKey, k.Encodable) ∧
      (∀ k ∈ event.sessionId, k.Encodable) ∧
      ∀ d ∈ event.authenticatedSender, d.asdict.WF ∧ d.asdict.Clean)
    ⟨fun ⟨h₁, h₂, h₃, h₄, h₅, h₆⟩ => ⟨h₁, h₂, h₃, h₄, h₅, h₆⟩,
      fun h => ⟨h.roomId, h.source, h.payload, h.senderKey, h.sessionId, h.device⟩⟩

theorem writes_evidence {item : Item} {event : Event} (h : Legible item event) :
    Writes strict (evidence item event).asdict := by
  have hempty : Str.Encodable [] := List.forall_mem_nil _
  have hsender : Str.Encodable (evidence item event).senderKey := by
    show Str.Encodable (if event.senderKey.getD [] = [] then envelopeSenderKey item else _)
    split
    · cases hitem : item.source with
      | none =>
        unfold envelopeSenderKey
        rw [hitem]
        exact hempty
      | some source => exact encodable_envelopeSenderKey hitem (h.source source hitem).2
    · cases hkey : event.senderKey with
      | none => exact hempty
      | some k => exact h.senderKey k hkey
  unfold CryptoEvidence.asdict
  rw [writes_obj_iff]
  simp only [List.forall_mem_cons]
  refine ⟨⟨writes_py _, ?_⟩, ⟨writes_py _, writes_str hsender⟩, ⟨writes_py _, ?_⟩,
    ⟨writes_py _, ?_⟩, List.forall_mem_nil _⟩
  · exact writes_optional fun b _ => by cases b <;> exact writes_clean rfl rfl
  · exact writes_optional fun k hk => writes_str (h.sessionId k hk)
  · exact writes_optional fun d hd => writes_clean (h.device d hd).1 (h.device d hd).2

/-- The record of a legible event can be written. -/
theorem written_freezeEvent {item : Item} {event : Event} (hevent : item.event = some event)
    (h : Legible item event) : (freezeEvent item).Written := by
  have hpayload : Writes strict (payload event).1 := writes_clean h.payload.1 h.payload.2
  have hroute : Writes strict (optional .str (item.route.map Route.value)) :=
    writes_optional fun route hr => by
      obtain ⟨r, -, rfl⟩ := Option.map_eq_some_iff.mp hr
      cases r <;> exact writes_py _
  have hcodec : Writes strict (optional .str (payload event).2) := by
    rcases codec_payload event with hc | ⟨c, hc⟩
    · rw [hc]
      exact writes_null
    · rw [hc]
      exact writes_py c
  unfold freezeEvent
  rw [hevent]
  refine ⟨?_, ?_, ?_, writes_null, ?_, writes_null, hroute, hcodec⟩
  · exact writes_optional fun r hr => writes_str (h.roomId r hr)
  · show Writes strict (if _ then (payload event).1 else item.source.getD (payload event).1)
    split
    · exact hpayload
    · cases hsource : item.source with
      | none => exact hpayload
      | some source => exact writes_clean (h.source source hsource).1 (h.source source hsource).2
  · refine writes_optional fun clear hclear => ?_
    have hclear : (if _ then some (payload event).1 else none) = some clear := hclear
    split at hclear
    · exact Option.some.inj hclear ▸ hpayload
    · cases hclear
  · refine writes_optional fun e he => ?_
    have he : (if _ then some (evidence item event) else none) = some e := he
    split at he
    · exact Option.some.inj he ▸ writes_evidence h
    · cases he

/-! ## What a room adds -/

/-- The epochs of a change are numbers of at most 18 digits. -/
def Small (c : OwnMembership) : Prop := c.previousEpoch < 10 ^ 18 ∧ c.currentEpoch < 10 ^ 18

theorem bytes_membership (m : Membership) : Takes strict (.str m.value) (bytes strict (.str m.value)) ∧
    bytes strict (.str m.value) ≤ 8 := by
  refine ⟨takes_iff.mpr ⟨?_, rfl⟩, ?_⟩
  · cases m <;> exact writes_py _
  · cases m <;> decide

/-- A change of a membership takes at most 256 bytes. -/
theorem takes_change {c : OwnMembership} (h : Small c) : ∃ n, Takes strict c.asdict n ∧ n ≤ 256 := by
  have hprevious : ∃ n, Takes strict (optional (fun p => .str p.value) c.previous) n ∧ n ≤ 8 := by
    cases c.previous with
    | none => exact ⟨4, ⟨_, rfl, _, rfl, rfl⟩, by decide⟩
    | some m => exact ⟨_, bytes_membership m⟩
  have hsource : ∃ n, Takes strict (.str c.source.value) n ∧ n ≤ 10 := by
    cases c.source with
    | «local» => exact ⟨7, ⟨_, rfl, _, rfl, rfl⟩, by decide⟩
    | reported => exact ⟨10, ⟨_, rfl, _, rfl, rfl⟩, by decide⟩
  obtain ⟨a, ha, hale⟩ := hprevious
  obtain ⟨hb, hble⟩ := bytes_membership c.current
  obtain ⟨p, hp, hple⟩ := takes_nat h.1
  obtain ⟨q, hq, hqle⟩ := takes_nat h.2
  obtain ⟨d, hd, hdle⟩ := hsource
  have h₁ : Takes strict (.str (py "previous")) 10 := ⟨_, rfl, _, rfl, rfl⟩
  have h₂ : Takes strict (.str (py "current")) 9 := ⟨_, rfl, _, rfl, rfl⟩
  have h₃ : Takes strict (.str (py "previous_epoch")) 16 := ⟨_, rfl, _, rfl, rfl⟩
  have h₄ : Takes strict (.str (py "current_epoch")) 15 := ⟨_, rfl, _, rfl, rfl⟩
  have h₅ : Takes strict (.str (py "source")) 8 := ⟨_, rfl, _, rfl, rfl⟩
  refine ⟨_, takes_obj.mpr ⟨?_, rfl⟩, ?_⟩
  · simp only [List.forall_mem_cons]
    exact ⟨⟨⟨_, h₁⟩, _, ha⟩, ⟨⟨_, h₂⟩, _, hb⟩, ⟨⟨_, h₃⟩, _, hp⟩, ⟨⟨_, h₄⟩, _, hq⟩,
      ⟨⟨_, h₅⟩, _, hd⟩, List.forall_mem_nil _⟩
  · simp only [pairBytes, List.map_cons, List.map_nil, List.sum_cons, List.sum_nil, h₁.bytes_eq,
      h₂.bytes_eq, h₃.bytes_eq, h₄.bytes_eq, h₅.bytes_eq, ha.bytes_eq, hp.bytes_eq, hq.bytes_eq,
      hd.bytes_eq, comma, colon]
    omega

theorem takes_optionalChange {change : Option OwnMembership} (h : ∀ c ∈ change, Small c) :
    ∃ n, Takes strict (optional OwnMembership.asdict change) n ∧ n ≤ 256 := by
  cases change with
  | none => exact ⟨4, ⟨_, rfl, _, rfl, rfl⟩, by decide⟩
  | some c => exact takes_change (h c rfl)

/-- The room of a record adds at most 512 bytes to it. -/
theorem bytes_roomRecord {w : Work} {r : Str} {item : Item} {event : Event}
    {change : Option OwnMembership} (hevent : item.event = some event) (h : Legible item event)
    (hepoch : (w.session.getMetadata r).membershipEpoch < 10 ^ 18) (hchange : ∀ c ∈ change, Small c) :
    (roomRecord w r item change).Written ∧
      (roomRecord w r item change).bytes ≤ (freezeEvent item).bytes + 512 := by
  have hwritten := written_freezeEvent hevent h
  obtain ⟨e, he, hele⟩ := takes_nat hepoch
  obtain ⟨m, hm, hmle⟩ := takes_optionalChange hchange
  have hprovenance : bytes strict (optional (fun p => .str p.value)
      (roomRecord w r item change).provenance) ≤ 11 := by
    cases (roomRecord w r item change).provenance with
    | none => decide
    | some p => cases p <;> decide
  refine ⟨⟨hwritten.roomId, hwritten.source, hwritten.clear, ⟨e, he⟩, hwritten.crypto, ⟨m, hm⟩,
    hwritten.route, hwritten.codec⟩, ?_⟩
  have hepochBytes : bytes strict (optional (fun e => .int (e : Nat))
      (roomRecord w r item change).membershipEpoch) = e := he.bytes_eq
  have hchangeBytes : bytes strict (optional OwnMembership.asdict
      (roomRecord w r item change).membership) = m := hm.bytes_eq
  unfold SyncRecord.bytes
  rw [hepochBytes, hchangeBytes]
  show 115 + bytes strict (.str (freezeEvent item).kind.value) +
    bytes strict (optional .str (freezeEvent item).roomId) + bytes strict (freezeEvent item).source +
    bytes strict (optional id (freezeEvent item).clear) +
    bytes strict (optional (fun p => .str p.value) (roomRecord w r item change).provenance) + e +
    bytes strict (optional CryptoEvidence.asdict (freezeEvent item).crypto) + m +
    bytes strict (optional .str (freezeEvent item).route) +
    bytes strict (optional .str (freezeEvent item).codec) ≤ _
  omega

/-! ## Publication -/

/-- A publication moves the counter and the queue by at most this many bytes. -/
structure Queued (n : Nat) (s : Session) (p : Nat) (s' : Session) (p' : Nat) : Prop where
  counter : p' ≤ p + n
  pending : s'.disk.pendingBytes ≤ s.disk.pendingBytes + n
  metadata : s'.metadata = s.metadata

theorem Queued.trans {n m p p' p'' : Nat} {s s' s'' : Session} (h : Queued n s p s' p')
    (h' : Queued m s' p' s'' p'') : Queued (n + m) s p s'' p'' := by
  have hcounter := h.counter
  have hpending := h.pending
  refine ⟨?_, ?_, h'.metadata.trans h.metadata⟩
  · have hcounter' := h'.counter
    omega
  · have hpending' := h'.pending
    omega

theorem queued_storeBatch (s : Session) (records : List SyncRecord) (c : Bool) (p n : Nat) :
    Queued n s p (s.storeBatch records c n) (p + n) := by
  refine ⟨Nat.le_refl _, ?_, rfl⟩
  unfold Disk.pendingBytes Disk.pending
  show (((s.disk.batches ++ [(⟨records, c, n⟩ : Batch)]).drop s.disk.acked).map Batch.size).sum ≤ _
  rw [List.drop_append, List.map_append, List.sum_append]
  refine Nat.add_le_add_left ?_ _
  cases s.disk.acked - s.disk.batches.length with
  | zero => simp
  | succ k => simp

/-- The record can be written, and a batch can hold it. -/
def Holdable (env : Env) (r : SyncRecord) : Prop := r.Written ∧ 2 + r.bytes ≤ env.config.maxBatchBytes

open Session in
/-- Records that fit into the queue are published, in halves where a batch is too small. -/
theorem publishSized_fits {fuel p : Nat} {records : List SyncRecord} {s : Session}
    (hne : records ≠ []) (hfuel : records.length ≤ fuel) (hw : ∀ r ∈ records, Holdable env r)
    (hroom : p + recordBytes records ≤ env.config.maxPendingBytes) :
    ∃ s' p', publishSized env fuel records p s = .ok (s', p') ∧
      Queued (recordBytes records) s p s' p' := by
  induction fuel generalizing records p s with
  | zero => exact absurd (List.length_eq_zero_iff.mp (Nat.le_zero.mp hfuel)) hne
  | succ fuel ih =>
    obtain ⟨size, hsize, hle⟩ := encodedSize_le (fun r hr => (hw r hr).1) hne
    unfold publishSized
    rw [hsize, ok_bind]
    split
    · rw [if_neg (by omega)]
      have hqueued := queued_storeBatch s records false p size
      have hcounter := hqueued.counter
      have hpending := hqueued.pending
      exact ⟨_, _, rfl, by omega, by omega, hqueued.metadata⟩
    · next hlarge =>
      have hlen : 2 ≤ records.length := by
        -- a single record fits into a batch
        refine Nat.lt_of_not_le fun hone => ?_
        obtain ⟨r, rfl⟩ := List.length_eq_one_iff.mp
          (Nat.le_antisymm hone (List.length_pos_iff.mpr hne))
        rw [recordBytes_singleton] at hle
        exact hlarge (hle.trans (hw r (List.mem_singleton_self r)).2)
      dsimp only
      rw [if_neg (by omega)]
      have hsplit : recordBytes records = recordBytes (records.take (records.length / 2)) +
          recordBytes (records.drop (records.length / 2)) := by
        rw [← recordBytes_append, List.take_append_drop]
      have htake : (records.take (records.length / 2)).length = records.length / 2 := by
        rw [List.length_take]
        omega
      have hdrop : (records.drop (records.length / 2)).length =
          records.length - records.length / 2 := List.length_drop
      obtain ⟨s₁, p₁, h₁, hq₁⟩ := @ih p (records.take (records.length / 2)) s
        (List.ne_nil_of_length_pos (by omega)) (by omega)
        (fun r hr => hw r (List.mem_of_mem_take hr)) (by omega)
      have hcounter := hq₁.counter
      obtain ⟨s₂, p₂, h₂, hq₂⟩ := @ih p₁ (records.drop (records.length / 2)) s₁
        (List.ne_nil_of_length_pos (by omega)) (by omega)
        (fun r hr => hw r (List.mem_of_mem_drop hr)) (by omega)
      refine ⟨s₂, p₂, ?_, hsplit ▸ hq₁.trans hq₂⟩
      rw [h₁, ok_bind]
      exact h₂

/-- Slice after slice -/
theorem slices_fits {limit fuel p : Nat} {records : List SyncRecord} {s : Session}
    (hlimit : 0 < limit) (hne : records ≠ []) (hfuel : records.length ≤ fuel)
    (hw : ∀ r ∈ records, Holdable env r)
    (hroom : p + recordBytes records ≤ env.config.maxPendingBytes) :
    ∃ s' p', (Session.slices limit fuel records).foldlM
        (fun (x : Session × Nat) slice => Session.publishSized env slice.length slice x.2 x.1)
        (s, p) = .ok (s', p') ∧ Queued (recordBytes records) s p s' p' := by
  induction fuel generalizing records p s with
  | zero => exact absurd (List.length_eq_zero_iff.mp (Nat.le_zero.mp hfuel)) hne
  | succ fuel ih =>
    unfold Session.slices
    split
    · obtain ⟨s₁, p₁, h₁, hq₁⟩ := @publishSized_fits env records.length p records s hne
        (Nat.le_refl _) hw hroom
      refine ⟨s₁, p₁, ?_, hq₁⟩
      rw [List.foldlM_cons, h₁]
      rfl
    · next hmore =>
      have hsplit : recordBytes records = recordBytes (records.take limit) +
          recordBytes (records.drop limit) := by
        rw [← recordBytes_append, List.take_append_drop]
      have htake : (records.take limit).length = limit := by
        rw [List.length_take]
        omega
      have hdrop : (records.drop limit).length = records.length - limit := List.length_drop
      obtain ⟨s₁, p₁, h₁, hq₁⟩ := @publishSized_fits env _ p (records.take limit) s
        (List.ne_nil_of_length_pos (by omega)) (Nat.le_refl _)
        (fun r hr => hw r (List.mem_of_mem_take hr)) (by omega)
      have hcounter := hq₁.counter
      obtain ⟨s₂, p₂, h₂, hq₂⟩ := @ih p₁ (records.drop limit) s₁
        (List.ne_nil_of_length_pos (by omega)) (by omega)
        (fun r hr => hw r (List.mem_of_mem_drop hr)) (by omega)
      refine ⟨s₂, p₂, ?_, hsplit ▸ hq₁.trans hq₂⟩
      rw [List.foldlM_cons, h₁, ok_bind]
      exact h₂

theorem publishRecords_fits {records : List SyncRecord} {s : Session} {pendingBytes : Option Nat}
    (hne : records ≠ []) (hw : ∀ r ∈ records, Holdable env r)
    (hroom : pendingBytes.getD s.disk.pendingBytes + recordBytes records ≤
      env.config.maxPendingBytes) :
    ∃ s' p', s.publishRecords env records pendingBytes = .ok (s', p') ∧
      Queued (recordBytes records) s (pendingBytes.getD s.disk.pendingBytes) s' p' :=
  slices_fits env.config.positive.2.1 hne (Nat.le_refl _) hw hroom

/-! ## The loop -/

/-- What the loop has collected in its room fits, and `left` bytes fit beside it. -/
structure Fits (env : Env) (r : Str) (left : Nat) (w : Work) : Prop where
  stopOnOversized : w.processor.stopOnOversized = true
  holdable : ∀ record ∈ w.processor.records, Holdable env record
  counted : ∀ n ∈ w.processor.pendingBytes,
    n + recordBytes w.processor.records + left ≤ env.config.maxPendingBytes
  pending : w.session.disk.pendingBytes + recordBytes w.processor.records + left ≤
    env.config.maxPendingBytes
  epoch : (w.session.getMetadata r).membershipEpoch + left < 10 ^ 18
  overflowed : ∀ c ∈ w.processor.oversizedMembership, Small c

theorem Fits.flush {r : Str} {left : Nat} {w : Work} (h : Fits env r left w) :
    ∃ w', w.flush env = .ok w' ∧ Fits env r left w' ∧ w'.processor.records = [] := by
  unfold Work.flush
  split
  · next hnil => exact ⟨w, rfl, h, hnil⟩
  · next hne =>
    have hroom : w.processor.pendingBytes.getD w.session.disk.pendingBytes +
        recordBytes w.processor.records ≤ env.config.maxPendingBytes := by
      have hpending := h.pending
      cases hp : w.processor.pendingBytes with
      | none =>
        show w.session.disk.pendingBytes + _ ≤ _
        omega
      | some n =>
        have hcounted := h.counted n hp
        show n + _ ≤ _
        omega
    obtain ⟨s', p', hpublish, hq⟩ := publishRecords_fits hne h.holdable hroom
    rw [hpublish, ok_bind]
    have hpending := h.pending
    have hqueue := hq.pending
    have hcounter := hq.counter
    refine ⟨_, rfl, ⟨h.stopOnOversized, ?_, ?_, ?_, ?_, h.overflowed⟩, rfl⟩
    · intro record hr
      cases hr
    · intro n hn
      obtain rfl := Option.some.inj hn
      show p' + 0 + left ≤ _
      cases hp : w.processor.pendingBytes with
      | none =>
        rw [hp, Option.getD_none] at hcounter
        omega
      | some n =>
        have hcounted := h.counted n hp
        rw [hp, Option.getD_some] at hcounter
        omega
    · show s'.disk.pendingBytes + 0 + left ≤ _
      omega
    · show (s'.getMetadata r).membershipEpoch + left < _
      unfold Session.getMetadata
      rw [hq.metadata]
      exact h.epoch

theorem Fits.flushIf {r : Str} {left : Nat} {w : Work} (h : Fits env r left w) (b : Bool) :
    ∃ w', w.flushIf env b = .ok w' ∧ Fits env r left w' := by
  cases b with
  | false => exact ⟨w, rfl, h⟩
  | true =>
    obtain ⟨w', hflush, hfits, -⟩ := h.flush
    exact ⟨w', hflush, hfits⟩

theorem Fits.mono {r : Str} {left left' : Nat} {w : Work} (h : Fits env r left w)
    (hle : left' ≤ left) : Fits env r left' w := by
  have hpending := h.pending
  have hepoch := h.epoch
  refine ⟨h.stopOnOversized, h.holdable, fun n hn => ?_, by omega, by omega, h.overflowed⟩
  have hcounted := h.counted n hn
  omega

/-- A record takes its bytes from those that are left. -/
theorem Fits.push {r : Str} {left : Nat} {w : Work} {record : SyncRecord}
    (h : Fits env r (2 + record.bytes + left) w) (hrecord : Holdable env record) :
    Fits env r left (w.push record) := by
  have hrecords : recordBytes (w.push record).processor.records =
      recordBytes w.processor.records + (2 + record.bytes) := by
    show recordBytes (w.processor.records ++ [record]) = _
    rw [recordBytes_append, recordBytes_singleton]
  have hpending := h.pending
  have hepoch := h.epoch
  refine ⟨h.stopOnOversized, ?_, fun n hn => ?_, ?_, ?_, h.overflowed⟩
  · intro record' hr
    rcases List.mem_append.mp hr with hr | hr
    · exact h.holdable record' hr
    · rw [List.mem_singleton.mp hr]
      exact hrecord
  · have hcounted := h.counted n hn
    omega
  · show w.session.disk.pendingBytes + _ + left ≤ _
    omega
  · show (w.session.getMetadata r).membershipEpoch + left < _
    omega

/-- A record that fits is collected, or stops the loop where no batch can hold it. -/
theorem appendRecord_fits {r : Str} {left : Nat} {w : Work} {record : SyncRecord} (barrier : Bool)
    (h : Fits env r (2 + record.bytes + left) w) (hwritten : record.Written)
    (hchange : ∀ c ∈ record.membership, Small c) :
    ∃ w', appendRecord env w record barrier = .ok w' ∧ Fits env r left w' := by
  unfold appendRecord Work.isOversized
  rw [if_pos h.stopOnOversized, encodedSize_singleton hwritten]
  by_cases hlarge : env.config.maxBatchBytes < 2 + record.bytes
  · refine ⟨w.overflow record.membership, ?_, ?_⟩
    · show (if decide _ = true then _ else _) = _
      rw [if_pos (decide_eq_true hlarge)]
      rfl
    · have hless := h.mono (Nat.le_add_left left (2 + record.bytes))
      exact ⟨hless.stopOnOversized, hless.holdable, hless.counted, hless.pending, hless.epoch, hchange⟩
  · show ∃ w', (if decide _ = true then _ else _) = _ ∧ _
    rw [if_neg (by simpa using hlarge)]
    obtain ⟨w₁, h₁, hfits₁⟩ := h.flushIf barrier
    have hpushed := hfits₁.push ⟨hwritten, Nat.le_of_not_lt hlarge⟩
    obtain ⟨w₂, h₂, hfits₂⟩ := hpushed.flushIf
      (barrier || env.config.maxBatchRecords ≤ (w₁.push record).processor.records.length)
    refine ⟨w₂, ?_, hfits₂⟩
    rw [h₁, ok_bind]
    exact h₂

/-! ## One event -/

/-- Neither what waits nor what is queued changes, nor how the loop stops. -/
structure SameQueue (w w' : Work) : Prop where
  batches : w'.session.disk.batches = w.session.disk.batches
  acked : w'.session.disk.acked = w.session.disk.acked
  records : w'.processor.records = w.processor.records
  pendingBytes : w'.processor.pendingBytes = w.processor.pendingBytes
  stopOnOversized : w'.processor.stopOnOversized = w.processor.stopOnOversized
  oversizedMembership : w'.processor.oversizedMembership = w.processor.oversizedMembership

theorem SameQueue.refl (w : Work) : SameQueue w w := ⟨rfl, rfl, rfl, rfl, rfl, rfl⟩

theorem SameQueue.trans {w w' w'' : Work} (h : SameQueue w w') (h' : SameQueue w' w'') :
    SameQueue w w'' :=
  ⟨h'.batches.trans h.batches, h'.acked.trans h.acked, h'.records.trans h.records,
    h'.pendingBytes.trans h.pendingBytes, h'.stopOnOversized.trans h.stopOnOversized,
    h'.oversizedMembership.trans h.oversizedMembership⟩

/-- What fits is told from the queue and from the epoch of the room. -/
theorem Fits.same {r : Str} {left left' : Nat} {w w' : Work} (h : Fits env r left w)
    (hsame : SameQueue w w') (hle : left' ≤ left)
    (hepoch : (w'.session.getMetadata r).membershipEpoch + left' < 10 ^ 18) : Fits env r left' w' := by
  have hless := h.mono hle
  have hpending : w'.session.disk.pendingBytes = w.session.disk.pendingBytes := by
    unfold Disk.pendingBytes Disk.pending
    rw [hsame.batches, hsame.acked]
  refine ⟨hsame.stopOnOversized.trans h.stopOnOversized, ?_, ?_, ?_, hepoch, ?_⟩
  · rw [hsame.records]
    exact hless.holdable
  · rw [hsame.records, hsame.pendingBytes]
    exact hless.counted
  · rw [hpending, hsame.records]
    exact hless.pending
  · rw [hsame.oversizedMembership]
    exact hless.overflowed

theorem sameQueue_entered (w : Work) (r : Str) (item : Item) : SameQueue w (w.entered r item) := by
  unfold Work.entered
  split
  · exact ⟨rfl, rfl, rfl, rfl, rfl, rfl⟩
  · exact ⟨rfl, rfl, rfl, rfl, rfl, rfl⟩

theorem sameQueue_observes {w w' : Work} {r : Str} {o : Observed} (h : w.Observes r o w') :
    SameQueue w w' := by
  rw [h.shape]
  exact ⟨rfl, rfl, rfl, rfl, rfl, rfl⟩

theorem sameQueue_fence (w : Work) (r : Str) (change : Option OwnMembership) :
    SameQueue w (fence w r change) := by
  unfold fence
  split
  · split
    · exact ⟨rfl, rfl, rfl, rfl, rfl, rfl⟩
    · exact .refl w
  · exact .refl w

theorem sameQueue_dropChange (w : Work) (r : Str) (change : Option OwnMembership) :
    SameQueue w (dropChange w r change) := by
  unfold dropChange
  split
  · exact ⟨rfl, rfl, rfl, rfl, rfl, rfl⟩
  · exact .refl w

theorem sameQueue_timelineRoom (w : Work) (r : Str) (event : Event) :
    SameQueue w { w with session := w.session.timelineRoom env r event } := by
  unfold Session.timelineRoom
  split
  · split
    · exact ⟨rfl, rfl, rfl, rfl, rfl, rfl⟩
    · exact .refl w
  · exact .refl w

/-- Equal tenures have equal epochs. -/
theorem epoch_of_tenure {s s' : Session} {r : Str} (h : s'.tenure r = s.tenure r) :
    (s'.getMetadata r).membershipEpoch = (s.getMetadata r).membershipEpoch := congrArg Prod.snd h

/-- An item moves the epoch of its room by at most one. -/
theorem Work.Observes.epoch {w w' : Work} {r : Str} {change : Option OwnMembership}
    (h : w.Observes r (.go change) w') :
    (w'.session.getMetadata r).membershipEpoch ≤ (w.session.getMetadata r).membershipEpoch + 1 ∧
      ∀ c ∈ change, c.previousEpoch ≤ (w.session.getMetadata r).membershipEpoch ∧
        c.currentEpoch ≤ (w.session.getMetadata r).membershipEpoch + 1 := by
  cases change with
  | none =>
    have hstill := epoch_of_tenure (h.tenure_still (fun c hc => by cases hc) r)
    exact ⟨by omega, fun c hc => by cases hc⟩
  | some c =>
    obtain ⟨-, -, -, hprevious, hcurrent, hget⟩ := h.change c rfl
    have hafter : (w'.session.getMetadata r).membershipEpoch = c.currentEpoch := by
      rw [hget, if_pos rfl]
    have hle : c.currentEpoch ≤ c.previousEpoch + 1 := by
      rw [hcurrent]
      split
      · omega
      · omega
    refine ⟨by omega, fun c' hc' => ?_⟩
    obtain rfl := Option.some.inj hc'
    exact ⟨by omega, by omega⟩

/-- The value can be an element of a set. -/
def Hashable (id : Json) : Prop := (inSet id []).toBool = true

instance (id : Json) : Decidable (Hashable id) := inferInstanceAs (Decidable (_ = true))

theorem Hashable.inSet {id : Json} (h : Hashable id) (ids : List Json) :
    ∃ b, inSet id ids = .ok b := by
  cases id with
  | arr xs => cases h
  | obj kvs => cases h
  | _ => exact ⟨_, rfl⟩

/-- An item with this event can be recorded: it is legible and no malformed state, and its identity
can be an element of a set. -/
structure Recordable (item : Item) (event : Event) : Prop where
  legible : Legible item event
  regular : item.isMalformedState = false
  hashable : Hashable event.identity

instance (item : Item) (event : Event) : Decidable (Recordable item event) :=
  decidable_of_iff
    (Legible item event ∧ item.isMalformedState = false ∧ Hashable event.identity)
    ⟨fun ⟨h₁, h₂, h₃⟩ => ⟨h₁, h₂, h₃⟩, fun h => ⟨h.legible, h.regular, h.hashable⟩⟩

/-- The bytes that are put by for an item: those of its record and what its room adds to it -/
def itemCost (item : Item) : Nat := (freezeEvent item).bytes + 1024

/-- An event that fits is consumed. -/
theorem consumeItem_fits {r : Str} {left : Nat} {w : Work} {item : Item} {event : Event}
    (hroom : item.roomId = some r) (hevent : item.event = some event) (hitem : Recordable item event)
    (h : Fits env r (itemCost item + left) w) :
    ∃ w', consumeItem env w item = .ok w' ∧ Fits env r left w' := by
  have hcost : itemCost item = (freezeEvent item).bytes + 1024 := rfl
  have hepoch := h.epoch
  have hentered : (if item.section = some .invite then
      { w with session := { w.session with rooms := removeKey w.session.rooms r } }
      else w).addRoom r = w.entered r item := rfl
  unfold consumeItem
  rw [hroom]
  dsimp only
  rw [if_neg (by simp [hitem.regular]), if_neg (by simp [hevent]), hentered]
  cases ho : observe env (w.entered r item) r item with
  | mk w₁ o =>
    have hobserves := observe_cases ho
    cases o with
    | skip =>
      have hnone := event_of_skip ho
      rw [hevent] at hnone
      cases hnone
    | go change =>
      dsimp only
      -- the state in which the record is made
      have hsame := ((sameQueue_entered w r item).trans (sameQueue_observes hobserves)).trans
        (sameQueue_fence w₁ r change)
      have hbefore := epoch_of_tenure ((still_entered w r item).tenure r)
      have hafter := epoch_of_tenure (tenure_fence w₁ r change r)
      obtain ⟨hobserved, hchange⟩ := hobserves.epoch
      have hfenced : ((fence w₁ r change).session.getMetadata r).membershipEpoch ≤
          (w.session.getMetadata r).membershipEpoch + 1 := by omega
      have hsmall : ∀ c ∈ change, Small c := by
        intro c hc
        obtain ⟨hprevious, hcurrent⟩ := hchange c hc
        exact ⟨by omega, by omega⟩
      unfold recordItem
      have hsuppressed : ∃ b, isSuppressed (fence w₁ r change) r item = .ok b := by
        unfold isSuppressed
        rw [hevent]
        exact hitem.hashable.inSet _
      obtain ⟨b, hb⟩ := hsuppressed
      rw [hb, ok_bind]
      cases b with
      | true =>
        have hdropped : ((dropChange (fence w₁ r change) r change).session.getMetadata r) =
            (fence w₁ r change).session.getMetadata r := by
          unfold dropChange
          split
          · rfl
          · rfl
        refine ⟨_, rfl, h.same (hsame.trans (sameQueue_dropChange _ r change)) (by omega) ?_⟩
        rw [hdropped]
        omega
      | false =>
        obtain ⟨hwritten, hbytes⟩ := @bytes_roomRecord (fence w₁ r change) r item event change hevent
          hitem.legible (by omega) hsmall
        have hfits : Fits env r (2 + (roomRecord (fence w₁ r change) r item change).bytes + left)
            (fence w₁ r change) := h.same hsame (by omega) (by omega)
        exact appendRecord_fits _ hfits hwritten hsmall

/-! ## One page -/

/-- The item of an event of a page -/
def pageItem (crypto : Crypto) (entry : RoomEntry) (event : Event) : Item :=
  timelineItem crypto entry.roomId entry.section none event

/-- The events of a page can be recorded as they are shown. -/
def RecordablePage (crypto : Crypto) (entry : RoomEntry) (events : List Event) : Prop :=
  ∀ event ∈ events, Recordable (pageItem crypto entry event) (crypto.shownAs entry.roomId event)

instance (crypto : Crypto) (entry : RoomEntry) (events : List Event) :
    Decidable (RecordablePage crypto entry events) :=
  List.decidableBAll
    (fun event => Recordable (pageItem crypto entry event) (crypto.shownAs entry.roomId event)) events

/-- The bytes that are put by for the events of a page -/
def pageCost (crypto : Crypto) (entry : RoomEntry) (events : List Event) : Nat :=
  (events.map fun event => itemCost (pageItem crypto entry event)).sum

theorem pageCost_le {crypto : Crypto} {entry : RoomEntry} {events events' : List Event}
    (h : events.Sublist events') : pageCost crypto entry events ≤ pageCost crypto entry events' := by
  unfold pageCost
  induction h with
  | slnil => exact Nat.le_refl _
  | cons event _ ih =>
    rw [List.map_cons, List.sum_cons]
    omega
  | cons_cons event _ ih =>
    rw [List.map_cons, List.sum_cons, List.map_cons, List.sum_cons]
    omega

/-- A loop that has stopped goes over the moves that are left. -/
theorem runMove_fits {crypto : Crypto} {entry : RoomEntry} {event : Event} {left : Nat} {w : Work}
    (hevent : Recordable (pageItem crypto entry event) (crypto.shownAs entry.roomId event))
    (h : Fits env entry.roomId (itemCost (pageItem crypto entry event) + left) w) :
    ∃ w₁ w', runMove env w (.timelineRoom entry.roomId event) = .ok w₁ ∧
      runMove env w₁ (.yield (pageItem crypto entry event)) = .ok w' ∧
      Fits env entry.roomId left w' := by
  cases hover : w.processor.oversized with
  | true =>
    have hstopped : ∀ move, runMove env w move = .ok w := by
      intro move
      unfold runMove
      rw [if_pos hover]
    exact ⟨w, w, hstopped _, hstopped _, h.mono (Nat.le_add_left _ _)⟩
  | false =>
    have hclient : runMove env w (.timelineRoom entry.roomId event) =
        .ok { w with session := w.session.timelineRoom env entry.roomId event } := by
      unfold runMove
      rw [if_neg (by simp [hover])]
      rfl
    have htenure := epoch_of_tenure
      ((@still_timelineRoom env w entry.roomId event).tenure entry.roomId)
    have hepoch := h.epoch
    have hfits := h.same (@sameQueue_timelineRoom env w entry.roomId event) (Nat.le_refl _)
      (by omega)
    obtain ⟨w', hconsume, hfits'⟩ := consumeItem_fits rfl rfl hevent hfits
    refine ⟨_, w', hclient, ?_, hfits'⟩
    unfold runMove
    rw [if_neg (by simp [hover])]
    exact hconsume

theorem foldlM_fits {crypto : Crypto} {entry : RoomEntry} {events : List Event} {left : Nat}
    {w : Work} (hevents : RecordablePage crypto entry events)
    (h : Fits env entry.roomId (pageCost crypto entry events + left) w) :
    ∃ w', (iterRoomTimeline crypto entry.roomId events entry.section true none).foldlM
        (runMove env) w = .ok w' ∧ Fits env entry.roomId left w' := by
  induction events generalizing w with
  | nil => exact ⟨w, rfl, h.mono (Nat.le_add_left _ _)⟩
  | cons event events ih =>
    obtain ⟨hevent, hrest⟩ := List.forall_mem_cons.mp hevents
    have hmoves : iterRoomTimeline crypto entry.roomId (event :: events) entry.section true none =
        .timelineRoom entry.roomId event :: .yield (pageItem crypto entry event) ::
          iterRoomTimeline crypto entry.roomId events entry.section true none := rfl
    have hcost : pageCost crypto entry (event :: events) + left =
        itemCost (pageItem crypto entry event) + (pageCost crypto entry events + left) := by
      simp only [pageCost, List.map_cons, List.sum_cons]
      omega
    rw [hcost] at h
    obtain ⟨w₁, w₂, h₁, h₂, hfits⟩ := runMove_fits hevent h
    obtain ⟨w', h', hfits'⟩ := ih hrest hfits
    refine ⟨w', ?_, hfits'⟩
    rw [hmoves, List.foldlM_cons, h₁, ok_bind, List.foldlM_cons, h₂, ok_bind]
    exact h'

/-- A page that fits is consumed. -/
theorem consumePage_fits {crypto : Crypto} {entry : RoomEntry} {events : List Event} {left : Nat}
    {w : Work} (hevents : RecordablePage crypto entry events)
    (h : Fits env entry.roomId (pageCost crypto entry events + left) w)
    (hstart : w.processor.records = []) :
    ∃ w', consumePage env crypto w entry events = .ok w' ∧ Fits env entry.roomId left w' ∧
      w'.processor.records = [] := by
  unfold consumePage
  split
  · exact ⟨w, rfl, h.mono (Nat.le_add_left _ _), hstart⟩
  · have hentered : Fits env entry.roomId (pageCost crypto entry events + left)
        { w with
          session := { w.session with rooms := insertNew w.session.rooms entry.roomId }
          processor := { w.processor with pendingBytes := none } } :=
      ⟨h.stopOnOversized, h.holdable, fun n hn => absurd hn (Option.not_mem_none n), h.pending,
        h.epoch, h.overflowed⟩
    obtain ⟨w₁, h₁, hfits₁⟩ := foldlM_fits hevents hentered
    obtain ⟨w₂, h₂, hfits₂, hempty⟩ := hfits₁.flush
    refine ⟨w₂, ?_, hfits₂, hempty⟩
    unfold runMoves
    dsimp only
    rw [h₁, ok_bind, h₂]

/-! ## Its loss -/

/-- The bytes that are put by for a loss -/
def lossCost (r : Str) : Nat := bytes strict (.str r) + 1024

/-- The record of a loss takes what was put by for it. -/
theorem bytes_lossRecord {r : Str} {reason : String} {pages epoch : Nat}
    {membership : Option OwnMembership} (hroom : r.Encodable)
    (hreason : bytes strict (.str (py reason)) ≤ 64) (hpages : pages < 10 ^ 18)
    (hepoch : epoch < 10 ^ 18) (hmembership : ∀ c ∈ membership, Small c) :
    (lossRecord r reason pages epoch membership).Written ∧
      2 + (lossRecord r reason pages epoch membership).bytes ≤ lossCost r := by
  obtain ⟨p, hp, hple⟩ := takes_nat hpages
  obtain ⟨e, he, hele⟩ := takes_nat hepoch
  obtain ⟨m, hm, hmle⟩ := takes_optionalChange hmembership
  have hnull : Takes strict .null 4 := ⟨_, rfl, _, rfl, rfl⟩
  have h₁ : Takes strict (.str (py "reason")) 8 := ⟨_, rfl, _, rfl, rfl⟩
  have h₂ : Takes strict (.str (py "pages")) 7 := ⟨_, rfl, _, rfl, rfl⟩
  have h₃ : Takes strict (.str RecordKind.loss.value) 6 := ⟨_, rfl, _, rfl, rfl⟩
  have hsource : Takes strict (lossSource reason pages)
      (2 + (1 + 8 + 1 + bytes strict (.str (py reason)) + (1 + 7 + 1 + p) - 1)) := by
    refine takes_obj.mpr ⟨?_, ?_⟩
    · simp only [List.forall_mem_cons]
      exact ⟨⟨⟨_, h₁⟩, writes_py reason⟩, ⟨⟨_, h₂⟩, _, hp⟩, List.forall_mem_nil _⟩
    · simp only [pairBytes, List.map_cons, List.map_nil, List.sum_cons, List.sum_nil, h₁.bytes_eq,
        h₂.bytes_eq, hp.bytes_eq, comma, colon]
      omega
  refine ⟨⟨writes_str hroom, ⟨_, hsource⟩, writes_null, ⟨e, he⟩, writes_null, ⟨m, hm⟩, writes_null,
    writes_null⟩, ?_⟩
  show 2 + (115 + bytes strict (.str RecordKind.loss.value) + bytes strict (.str r) +
    bytes strict (lossSource reason pages) + bytes strict .null + bytes strict .null +
    bytes strict (.int epoch) + bytes strict .null +
    bytes strict (optional OwnMembership.asdict membership) + bytes strict .null +
    bytes strict .null) ≤ bytes strict (.str r) + 1024
  rw [h₃.bytes_eq, hsource.bytes_eq, hnull.bytes_eq, he.bytes_eq, hm.bytes_eq]
  omega

theorem publishOne_fits {w : Work} {record : SyncRecord} (h : Holdable env record)
    (hroom : w.session.disk.pendingBytes + (2 + record.bytes) ≤ env.config.maxPendingBytes) :
    ∃ w', publishOne env w record = .ok w' := by
  have hone : ∀ r ∈ [record], Holdable env r := by
    intro r hr
    rw [List.mem_singleton.mp hr]
    exact h
  obtain ⟨s', p', hpublish, -⟩ := @publishRecords_fits env [record] w.session none (by simp) hone
    (by rwa [recordBytes_singleton])
  unfold publishOne
  rw [hpublish]
  exact ⟨_, rfl⟩

/-- A loss that fits is published. -/
theorem pageLoss_fits {r : Str} {pages : Nat} {w : Work} {reason : Option String}
    (h : Fits env r (lossCost r) w) (hroom : r.Encodable)
    (hbatch : lossCost r ≤ env.config.maxBatchBytes) (hpages : pages < 10 ^ 18)
    (hreason : ∀ text ∈ reason, bytes strict (.str (py text)) ≤ 64) :
    ∃ w', pageLoss env w r pages reason = .ok w' := by
  cases reason with
  | none => exact ⟨w, rfl⟩
  | some text =>
    have hepoch : ((w.session.clearBaseline r).getMetadata r).membershipEpoch < 10 ^ 18 := by
      have htenure := epoch_of_tenure (Session.tenure_clearBaseline w.session r r)
      have hbefore := h.epoch
      omega
    obtain ⟨hwritten, hbytes⟩ := bytes_lossRecord hroom (hreason text rfl) hpages hepoch h.overflowed
    have hloss : ∃ w', loss env w r text pages w.processor.oversizedMembership = .ok w' := by
      refine publishOne_fits ⟨hwritten, hbytes.trans hbatch⟩ ?_
      have hpending := h.pending
      show w.session.disk.pendingBytes + (2 + (lossRecord r text pages
        ((w.session.clearBaseline r).getMetadata r).membershipEpoch
          w.processor.oversizedMembership).bytes) ≤ _
      omega
    obtain ⟨w', hw'⟩ := hloss
    unfold pageLoss
    dsimp only
    rw [hw']
    exact ⟨_, rfl⟩

end Nio.Durable
