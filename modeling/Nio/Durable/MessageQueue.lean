import Mathlib.Data.List.Nodup
import Nio.Durable.RetainedRequests

/-!
# The queue of to-device messages

Objects of the queue keep the ids that they are stored under, new ones come in at the end, and one
leaves when its own request is answered.

* `retained_requests` — what holds of the retained request and of the queue in every run
-/

namespace Nio.Durable

open Nio.Py
open Nio.Events (PyError)

variable {lib : CryptoLibrary}

/-- The stored queue -/
def storedMessages (rows : CryptoRows) : List (Str × QueuedMessage) :=
  (rows.facts.map Facts.messages).getD []

/-- `uuid4` draws each id once, and none of them is empty. -/
structure UniqueIds (lib : CryptoLibrary) : Prop where
  injective : Function.Injective lib.uuid
  named : ∀ n, lib.uuid n ≠ []

/-! ## Ids of objects -/

namespace LiveCrypto

variable {l : LiveCrypto} {m : Nat} {id : Str}

theorem mem_of_idOf (h : l.idOf m = some id) : (id, m) ∈ l.messages := by
  obtain ⟨e, he, rfl⟩ := Option.map_eq_some_iff.mp h
  have hm := List.find?_some he
  rw [decide_eq_true_eq] at hm
  rw [← hm]
  exact List.mem_of_find?_eq_some he

/-- With one id for each message the id is found. -/
theorem idOf_of_mem (hrefs : (l.messages.map (·.2)).Nodup) (h : (id, m) ∈ l.messages) :
    l.idOf m = some id := by
  unfold idOf
  cases hf : l.messages.find? (·.2 = m) with
  | none =>
    rw [List.find?_eq_none] at hf
    exact absurd (decide_eq_true rfl) (hf _ h)
  | some e =>
    have hm := List.find?_some hf
    rw [decide_eq_true_eq] at hm
    have := List.inj_on_of_nodup_map hrefs (List.mem_of_find?_eq_some hf) h hm
    rw [this]
    rfl

theorem idOf_eq_none : l.idOf m = none ↔ m ∉ l.messages.map (·.2) := by
  unfold idOf
  rw [Option.map_eq_none_iff, List.find?_eq_none, List.mem_map]
  constructor
  · rintro h ⟨e, he, heq⟩
    exact h e he (decide_eq_true heq)
  · intro h e he heq
    exact h ⟨e, he, of_decide_eq_true heq⟩

end LiveCrypto

/-! ## Sweeping the queue -/

namespace CryptoOwner

variable {o o' : CryptoOwner}

/-- Objects and ids that stand for each other, and ids that are still to be drawn -/
structure Ready (lib : CryptoLibrary) (l : LiveCrypto) (drawn : Nat) : Prop where
  bounded : ∀ m ∈ l.outgoingToDeviceMessages, m < l.objects.length
  nodup : l.outgoingToDeviceMessages.Nodup
  entries : ∀ e ∈ l.messages, e.2 < l.objects.length
  refs : (l.messages.map (·.2)).Nodup
  ids : (l.messages.map (·.1)).Nodup
  named : ∀ e ∈ l.messages, e.1 ≠ []
  unused : ∀ n, drawn ≤ n → lib.uuid n ∉ l.messages.map (·.1)

/-- Where the ids of a swept queue come from -/
structure Swept (lib : CryptoLibrary) (l : LiveCrypto) (ms : List Nat) (drawn : Nat)
    (r : List (Str × Nat) × Nat) : Prop where
  refs : r.1.map (·.2) = ms
  le : drawn ≤ r.2
  source : ∀ e ∈ r.1, e ∈ l.messages ∨ ∃ n, drawn ≤ n ∧ n < r.2 ∧ e.1 = lib.uuid n
  known : ∀ id m, (id, m) ∈ l.messages → m ∈ ms → (id, m) ∈ r.1

/-- Messages that have ids keep them. -/
theorem retainEach_known {l : LiveCrypto} {drawn : Nat} (h : Ready lib l drawn)
    {known : List (Str × Nat)} (hk : known ⊆ l.messages) (rest : List Nat) :
    retainEach lib l (known.map (·.2) ++ rest) drawn =
      (known ++ (retainEach lib l rest drawn).1, (retainEach lib l rest drawn).2) := by
  induction known with
  | nil => rfl
  | cons e known ih =>
    obtain ⟨id, m⟩ := e
    have hmem := hk List.mem_cons_self
    rw [List.map_cons, List.cons_append, retainEach, LiveCrypto.idOf_of_mem h.refs hmem]
    have hne := h.named _ hmem
    cases id with
    | nil => exact absurd rfl hne
    | cons c cs =>
      simp only [CryptoLibrary.idOr]
      rw [ih fun e he => hk (List.mem_cons_of_mem _ he)]
      rfl

/-- The others get fresh ones, one after the other. -/
theorem retainEach_swept {l : LiveCrypto} {drawn₀ : Nat} (h : Ready lib l drawn₀) (ms : List Nat)
    (drawn : Nat) : Swept lib l ms drawn (retainEach lib l ms drawn) := by
  induction ms generalizing drawn with
  | nil => exact ⟨rfl, Nat.le_refl _, fun e he => (nomatch he), fun _ _ _ hm => (nomatch hm)⟩
  | cons m ms ih =>
    rw [retainEach]
    cases hid : l.idOf m with
    | none =>
      have hrest := ih (drawn + 1)
      refine ⟨congrArg (m :: ·) hrest.refs, Nat.le_of_succ_le hrest.le, fun e he => ?_,
        fun id m' hmem hm => ?_⟩
      · rcases List.mem_cons.mp he with rfl | he
        · exact .inr ⟨drawn, Nat.le_refl _, hrest.le, rfl⟩
        · rcases hrest.source e he with hs | ⟨n, h1, h2, h3⟩
          · exact .inl hs
          · exact .inr ⟨n, Nat.le_of_succ_le h1, h2, h3⟩
      · rcases List.mem_cons.mp hm with rfl | hm
        · exact absurd (List.mem_map_of_mem (f := (·.2)) hmem) (LiveCrypto.idOf_eq_none.mp hid)
        · exact List.mem_cons_of_mem _ (hrest.known id m' hmem hm)
    | some id =>
      have hmem := LiveCrypto.mem_of_idOf hid
      have hrest := ih drawn
      cases id with
      | nil => exact absurd rfl (h.named _ hmem)
      | cons c cs =>
        refine ⟨congrArg (m :: ·) hrest.refs, hrest.le, fun e he => ?_, fun id m' hmem' hm => ?_⟩
        · rcases List.mem_cons.mp he with rfl | he
          · exact .inl hmem
          · exact hrest.source e he
        · rcases List.mem_cons.mp hm with rfl | hm
          · have heq := LiveCrypto.idOf_of_mem h.refs hmem'
            rw [hid] at heq
            rw [← Option.some.inj heq]
            exact List.mem_cons_self
          · exact List.mem_cons_of_mem _ (hrest.known id m' hmem' hm)

/-- No two ids are alike. -/
theorem nodup_retainEach (hlib : UniqueIds lib) {l : LiveCrypto} {drawn₀ : Nat}
    (h : Ready lib l drawn₀) {ms : List Nat} (hms : ms.Nodup) {drawn : Nat} (hd : drawn₀ ≤ drawn) :
    ((retainEach lib l ms drawn).1.map (·.1)).Nodup := by
  induction ms generalizing drawn with
  | nil => exact List.nodup_nil
  | cons m ms ih =>
    rw [List.nodup_cons] at hms
    rw [retainEach]
    cases hid : l.idOf m with
    | none =>
      have hrest := retainEach_swept h ms (drawn + 1)
      show (lib.uuid drawn :: _).Nodup
      rw [List.nodup_cons]
      refine ⟨fun hmem => ?_, ih hms.2 (Nat.le_succ_of_le hd)⟩
      obtain ⟨e, he, heq⟩ := List.mem_map.mp hmem
      rcases hrest.source e he with hs | ⟨n, hn, -, hu⟩
      · exact h.unused drawn hd (heq ▸ List.mem_map_of_mem (f := (·.1)) hs)
      · have := hlib.injective (hu.symm.trans heq)
        omega
    | some id =>
      have hmem := LiveCrypto.mem_of_idOf hid
      have hrest := retainEach_swept h ms drawn
      cases id with
      | nil => exact absurd rfl (h.named _ hmem)
      | cons c cs =>
        show ((c :: cs) :: _).Nodup
        rw [List.nodup_cons]
        refine ⟨fun hin => ?_, ih hms.2 hd⟩
        obtain ⟨e, he, heq⟩ := List.mem_map.mp hin
        rcases hrest.source e he with hs | ⟨n, hn, -, hu⟩
        · have heq' := List.inj_on_of_nodup_map h.ids hs hmem heq
          have hm : m ∈ ms := by
            rw [← hrest.refs]
            exact List.mem_map.mpr ⟨e, he, by rw [heq']⟩
          exact hms.1 hm
        · refine h.unused n (Nat.le_trans hd hn) ?_
          rw [← hu, heq]
          exact List.mem_map_of_mem (f := (·.1)) hmem

/-! ## What holds between transactions -/

/-- The stored form of entries of the queue -/
def values (l : LiveCrypto) (entries : List (Str × Nat)) : List (Str × QueuedMessage) :=
  entries.filterMap fun m => l.objects[m.2]?.map (m.1, ·)

/-- The values of two lists of entries stand one behind the other. -/
theorem values_append (l : LiveCrypto) (es fs : List (Str × Nat)) :
    values l (es ++ fs) = values l es ++ values l fs := List.filterMap_append

theorem values_congr {l l' : LiveCrypto} {entries : List (Str × Nat)}
    (h : ∀ e ∈ entries, l'.objects[e.2]? = l.objects[e.2]?) : values l' entries = values l entries :=
  List.filterMap_congr fun e he => by rw [h e he]

/-- More objects do not change those that there are. -/
theorem values_objects {l l' : LiveCrypto} {entries : List (Str × Nat)} {more : List QueuedMessage}
    (hl : l'.objects = l.objects ++ more) (h : ∀ e ∈ entries, e.2 < l.objects.length) :
    values l' entries = values l entries :=
  values_congr fun e he => by rw [hl, List.getElem?_append_left (h e he)]

/-- The retained request is one that `_pending` accepts. -/
structure Valid (q : RetainedRequest) (present : Str → Prop) : Prop where
  body : isDict q.request.body = true
  fingerprint : ∀ f, q.encryptedFingerprint = some f →
    isFingerprint f = true ∧ q.request.kind = .toDevice
  message : ∀ id, q.messageId = some id →
    q.request.kind = .toDevice ∧ q.request.requestId = id ∧ present id

/-- What holds of the queue in memory and of the retained request -/
structure Held (lib : CryptoLibrary) (o : CryptoOwner) : Prop where
  ready : Ready lib o.live o.drawn
  front : ∃ rest, o.live.outgoingToDeviceMessages = o.live.messages.map (·.2) ++ rest
  row : ∀ q, o.rows.request = some q → Valid q (· ∈ o.live.messages.map (·.1))

/-- Between transactions the stored queue is the one in memory, as far as it has ids. -/
structure Queued (lib : CryptoLibrary) (o : CryptoOwner) : Prop extends Held lib o where
  stored : storedMessages o.rows = o.live.snapshot
  facts : o.rows.request.isSome → o.rows.facts.isSome

/-- What a transaction may leave for `capture`: the entries `known` are at the front. -/
structure Sweepable (lib : CryptoLibrary) (o : CryptoOwner) (known : List (Str × Nat)) : Prop where
  ready : Ready lib o.live o.drawn
  subset : known ⊆ o.live.messages
  front : ∃ rest, o.live.outgoingToDeviceMessages = known.map (·.2) ++ rest
  row : ∀ q, o.rows.request = some q →
    Valid q fun id => ∃ m ∈ o.live.outgoingToDeviceMessages, (id, m) ∈ o.live.messages

theorem Valid.mono {q : RetainedRequest} {p p' : Str → Prop} (h : Valid q p)
    (hp : ∀ id, p id → p' id) : Valid q p' :=
  ⟨h.body, h.fingerprint, fun id hid =>
    ⟨(h.message id hid).1, (h.message id hid).2.1, hp id (h.message id hid).2.2⟩⟩

/-- A capture gives ids to the whole queue. -/
theorem messages_capture (o : CryptoOwner) : (o.capture lib).live.messages =
    (retainEach lib o.live o.live.outgoingToDeviceMessages o.drawn).1 := rfl

theorem outgoing_capture (o : CryptoOwner) :
    (o.capture lib).live.outgoingToDeviceMessages = o.live.outgoingToDeviceMessages := rfl

/-- What a transaction captures holds together, and the known entries stay at the front. -/
theorem Sweepable.capture (hlib : UniqueIds lib) {known : List (Str × Nat)}
    (h : Sweepable lib o known) :
    Queued lib (o.capture lib) ∧
      ∃ new, storedMessages (o.capture lib).rows = values o.live known ++ new := by
  have hs := retainEach_swept h.ready o.live.outgoingToDeviceMessages o.drawn
  have hids := nodup_retainEach hlib h.ready h.ready.nodup (Nat.le_refl o.drawn)
  have hsource : ∀ e ∈ (o.capture lib).live.messages, e ∈ o.live.messages ∨
      ∃ n, o.drawn ≤ n ∧ n < (o.capture lib).drawn ∧ e.1 = lib.uuid n := hs.source
  constructor
  · refine ⟨⟨⟨h.ready.bounded, h.ready.nodup, fun e he => ?_, ?_, hids, fun e he => ?_,
      fun n hn hmem => ?_⟩, ⟨[], ?_⟩, fun q hq => ?_⟩, rfl, fun _ => rfl⟩
    · refine h.ready.bounded e.2 ?_
      rw [← hs.refs]
      exact List.mem_map.mpr ⟨e, he, rfl⟩
    · rw [messages_capture, hs.refs]
      exact h.ready.nodup
    · rcases hsource e he with hin | ⟨n, -, -, heq⟩
      · exact h.ready.named e hin
      · rw [heq]
        exact hlib.named n
    · obtain ⟨e, he, heq⟩ := List.mem_map.mp hmem
      rcases hsource e he with hin | ⟨k, -, hk, hu⟩
      · refine h.ready.unused n (Nat.le_trans hs.le hn) ?_
        rw [← heq]
        exact List.mem_map_of_mem hin
      · have := hlib.injective (hu.symm.trans heq)
        omega
    · rw [messages_capture, hs.refs, List.append_nil]
      exact outgoing_capture o
    · refine (h.row q hq).mono fun id hid => ?_
      obtain ⟨m, hm, hmem⟩ := hid
      exact List.mem_map.mpr ⟨(id, m), hs.known id m hmem hm, rfl⟩
  · obtain ⟨rest, hrest⟩ := h.front
    refine ⟨values o.live (retainEach lib o.live rest o.drawn).1, ?_⟩
    show values _ (o.capture lib).live.messages = _
    rw [messages_capture, hrest, retainEach_known h.ready h.subset, values_append]
    rfl

theorem Held.sweepable (h : Held lib o) : Sweepable lib o o.live.messages := by
  obtain ⟨rest, hrest⟩ := h.front
  refine ⟨h.ready, fun e he => he, h.front, fun q hq => (h.row q hq).mono fun id hid => ?_⟩
  obtain ⟨⟨id, m⟩, hmem, rfl⟩ := List.mem_map.mp hid
  refine ⟨m, ?_, hmem⟩
  rw [hrest]
  exact List.mem_append_left _ (List.mem_map.mpr ⟨_, hmem, rfl⟩)

/-- New messages of an effect are ready to be given ids. -/
theorem Ready.absorb {l : LiveCrypto} {drawn : Nat} (h : Ready lib l drawn)
    (ms : List QueuedMessage) : Ready lib (l.queue ms) drawn := by
  have hlen : (l.queue ms).objects.length = l.objects.length + ms.length := List.length_append
  refine ⟨fun m hm => ?_, ?_, fun e he => ?_, h.refs, h.ids, h.named, h.unused⟩
  · rw [hlen]
    rcases List.mem_append.mp hm with hm | hm
    · exact Nat.lt_add_right _ (h.bounded m hm)
    · exact (List.mem_range'_1.mp hm).2
  · refine List.nodup_append.mpr ⟨h.nodup, List.nodup_range', fun a ha b hb hab => ?_⟩
    have hlt := h.bounded a ha
    have hge := (List.mem_range'_1.mp hb).1
    omega
  · rw [hlen]
    exact Nat.lt_add_right _ (h.entries e he)

theorem Ready.mono {l : LiveCrypto} {drawn drawn' : Nat} (h : Ready lib l drawn)
    (hd : drawn ≤ drawn') : Ready lib l drawn' :=
  ⟨h.bounded, h.nodup, h.entries, h.refs, h.ids, h.named,
    fun n hn => h.unused n (Nat.le_trans hd hn)⟩

theorem Ready.users {l : LiveCrypto} {drawn : Nat} (h : Ready lib l drawn) (users : List Str) :
    Ready lib { l with usersForKeyQuery := users } drawn :=
  ⟨h.bounded, h.nodup, h.entries, h.refs, h.ids, h.named, h.unused⟩

/-- New objects at the end of the queue -/
theorem Queued.absorb (h : Queued lib o) (effect : OlmEffect) : Queued lib (o.absorb effect) := by
  obtain ⟨rest, hrest⟩ := h.front
  refine ⟨⟨(h.ready.users _).absorb effect.queued,
    ⟨rest ++ List.range' o.live.objects.length effect.queued.length, ?_⟩, h.row⟩, ?_, h.facts⟩
  · show o.live.outgoingToDeviceMessages ++ _ = _
    rw [hrest, List.append_assoc]
    rfl
  · show storedMessages o.rows = _
    rw [h.stored]
    exact (@values_objects o.live _ _ effect.queued rfl h.ready.entries).symm

theorem Sweepable.absorb {known : List (Str × Nat)} (h : Sweepable lib o known)
    (effect : OlmEffect) : Sweepable lib (o.absorb effect) known := by
  obtain ⟨rest, hrest⟩ := h.front
  refine ⟨(h.ready.users _).absorb effect.queued, h.subset,
    ⟨rest ++ List.range' o.live.objects.length effect.queued.length, ?_⟩,
    fun q hq => (h.row q hq).mono fun id hid => ?_⟩
  · show o.live.outgoingToDeviceMessages ++ _ = _
    rw [hrest, List.append_assoc]
  · obtain ⟨m, hm, hmem⟩ := hid
    exact ⟨m, List.mem_append_left _ hm, hmem⟩

/-! ## Ids that a queue gains -/

/-- An id that `uuid4` does not draw and that no message of the queue has -/
def Unused (lib : CryptoLibrary) (o : CryptoOwner) (txId : Str) : Prop :=
  (∀ n, txId ≠ lib.uuid n) ∧ txId ∉ o.live.messages.map (·.1)

/-- Every id that the queue gains is one of `uuid4`. -/
def Grows (lib : CryptoLibrary) (o o' : CryptoOwner) : Prop :=
  ∀ id ∈ o'.live.messages.map (·.1), id ∈ o.live.messages.map (·.1) ∨ ∃ n, id = lib.uuid n

/-- An id that was unused stays so. -/
theorem Grows.unused {tx : Str} (h : Grows lib o o') (hu : Unused lib o tx) : Unused lib o' tx := by
  refine ⟨hu.1, fun hmem => ?_⟩
  rcases h tx hmem with hold | ⟨n, hn⟩
  · exact hu.2 hold
  · exact hu.1 n hn

theorem Grows.trans {o'' : CryptoOwner} (h : Grows lib o o') (h' : Grows lib o' o'') :
    Grows lib o o'' := fun id hid => by
  rcases h' id hid with hid | hu
  · exact h id hid
  · exact .inr hu

theorem grows_of_messages (h : o'.live.messages = o.live.messages) : Grows lib o o' :=
  fun _ hid => .inl (h ▸ hid)

theorem Ready.grows (h : Ready lib o.live o.drawn) : Grows lib o (o.retainMessages lib) :=
  fun id hid => by
    obtain ⟨e, he, rfl⟩ := List.mem_map.mp hid
    rcases (retainEach_swept h o.live.outgoingToDeviceMessages o.drawn).source e he with
      hin | ⟨n, -, -, hn⟩
    · exact .inl (List.mem_map_of_mem hin)
    · exact .inr ⟨n, hn⟩

/-! ## Retaining -/

theorem Queued.congr (h : Queued lib o) (hrows : o'.rows = o.rows) (hlive : o'.live = o.live)
    (hd : o.drawn ≤ o'.drawn) : Queued lib o' := by
  obtain ⟨rows, live, drawn, log⟩ := o
  obtain ⟨rows', live', drawn', log'⟩ := o'
  simp only at hrows hlive hd
  subst hrows hlive
  exact ⟨⟨h.ready.mono hd, h.front, h.row⟩, h.stored, h.facts⟩

theorem Held.users (h : Held lib o) (users : List Str) :
    Held lib { o with live.usersForKeyQuery := users } :=
  ⟨h.ready.users users, h.front, h.row⟩

theorem Held.draw (h : Held lib o) : Held lib { o with drawn := o.drawn + 1 } :=
  ⟨h.ready.mono (Nat.le_succ _), h.front, h.row⟩

theorem Held.construct (h : Held lib o) (value : QueuedMessage) :
    Held lib { o with live.objects := o.live.objects ++ [value] } := by
  have hlt : ∀ {m}, m < o.live.objects.length → m < (o.live.objects ++ [value]).length := fun hm => by
    rw [List.length_append]
    exact Nat.lt_add_right _ hm
  exact ⟨⟨fun m hm => hlt (h.ready.bounded m hm), h.ready.nodup, fun e he => hlt (h.ready.entries e he),
    h.ready.refs, h.ready.ids, h.ready.named, h.ready.unused⟩, h.front, h.row⟩

/-- Sweeping gives ids to the objects that have none. -/
theorem Held.retainMessages (hlib : UniqueIds lib) (h : Held lib o) :
    Held lib (o.retainMessages lib) ∧
      (∃ new, (o.retainMessages lib).live.snapshot = o.live.snapshot ++ new) ∧
      Grows lib o (o.retainMessages lib) := by
  obtain ⟨hq, new, hstored⟩ := h.sweepable.capture hlib
  exact ⟨⟨hq.ready, hq.front, hq.row⟩, ⟨new, hstored⟩, h.ready.grows⟩

theorem le_idOr (drawn : Nat) (id : Option Str) : drawn ≤ (lib.idOr drawn id).2 := by
  unfold CryptoLibrary.idOr
  split
  · exact Nat.le_refl _
  · exact Nat.le_succ _

/-- A request without a message of the queue is retained. -/
theorem Held.retainRequest (hlib : UniqueIds lib) (h : Held lib o) (kind : RequestKind)
    {result : String × List Str × Json} (hbody : isDict result.2.2 = true)
    (requestId : Option Str) :
    Queued lib (o.retainRequest lib kind result requestId none none).1 ∧
      (∃ new, storedMessages (o.retainRequest lib kind result requestId none none).1.rows =
        o.live.snapshot ++ new) ∧
      Grows lib o (o.retainRequest lib kind result requestId none none).1 := by
  have hs := h.sweepable
  have hsweep : Sweepable lib { o with
      drawn := (lib.idOr o.drawn requestId).2
      rows.request := some ⟨⟨(lib.idOr o.drawn requestId).1, kind, result.1, result.2.1, result.2.2⟩,
        none, none⟩ } o.live.messages := by
    refine ⟨hs.ready.mono (le_idOr _ _), hs.subset, hs.front, fun q hq => ?_⟩
    obtain rfl := Option.some.inj hq
    exact ⟨hbody, fun f hf => (nomatch hf), fun id hid => (nomatch hid)⟩
  obtain ⟨hq, hstored⟩ := hsweep.capture hlib
  exact ⟨hq.congr rfl rfl (Nat.le_refl _), hstored, hsweep.ready.grows⟩

/-- An id that a message is retained under is new, and no id that is still to be drawn. -/
structure NewId (lib : CryptoLibrary) (ids : List Str) (drawn : Nat) (r : Str × Nat) : Prop where
  fresh : r.1 ∉ ids
  named : r.1 ≠ []
  le : drawn ≤ r.2
  unused : ∀ n, r.2 ≤ n → lib.uuid n ≠ r.1

/-- What `uuid4` draws is new, and so is an unused id of a caller. -/
theorem newId_idOr (hlib : UniqueIds lib) {drawn : Nat}
    (hunused : ∀ n, drawn ≤ n → lib.uuid n ∉ o.live.messages.map (·.1))
    {txId : Option Str} (htx : ∀ tx, txId = some tx → Unused lib o tx) :
    NewId lib (o.live.messages.map (·.1)) drawn (lib.idOr drawn txId) := by
  unfold CryptoLibrary.idOr
  split
  · next c cs =>
    obtain ⟨hchosen, hfresh⟩ := htx _ rfl
    exact ⟨hfresh, List.cons_ne_nil _ _, Nat.le_refl _, fun n _ heq => hchosen n heq.symm⟩
  · refine ⟨hunused drawn (Nat.le_refl _), hlib.named _, Nat.le_succ _, fun n hn heq => ?_⟩
    have := hlib.injective heq
    omega

/-- The object that is sent is in the queue under its id. -/
structure Appended (lib : CryptoLibrary) (o : CryptoOwner) (m : Nat) (r : Str × CryptoOwner) :
    Prop where
  ready : Ready lib r.2.live r.2.drawn
  subset : o.live.messages ⊆ r.2.live.messages
  front : ∃ rest, r.2.live.outgoingToDeviceMessages = o.live.messages.map (·.2) ++ rest
  entry : (r.1, m) ∈ r.2.live.messages
  present : m ∈ r.2.live.outgoingToDeviceMessages
  values : values r.2.live o.live.messages = values o.live o.live.messages

/-- A message that is retained stands behind the others. -/
theorem Held.appendMessage (hlib : UniqueIds lib) (h : Held lib o) {m : Nat}
    (hm : m < o.live.objects.length) {txId : Option Str}
    (htx : ∀ tx, txId = some tx → Unused lib o tx) :
    Appended lib o m (o.appendMessage lib m txId) := by
  obtain ⟨rest, hrest⟩ := h.front
  unfold CryptoOwner.appendMessage
  cases hid : o.live.idOf m with
  | some id =>
    -- a message that has an id keeps it, and nothing changes
    have hmem := LiveCrypto.mem_of_idOf hid
    refine ⟨h.ready, fun e he => he, h.front, hmem, ?_, rfl⟩
    show m ∈ o.live.outgoingToDeviceMessages
    rw [hrest]
    exact List.mem_append_left _ (List.mem_map.mpr ⟨_, hmem, rfl⟩)
  | none =>
    -- a new message is put at the end of both lists, unless the queue has it
    have hnew := newId_idOr hlib h.ready.unused htx
    have hnotin := LiveCrypto.idOf_eq_none.mp hid
    refine ⟨⟨fun a ha => ?_, ?_, fun e he => ?_, ?_, ?_, fun e he => ?_, fun n hn hmem => ?_⟩,
      List.subset_append_left _ _, ?_, List.mem_append_right _ (List.mem_singleton.mpr rfl), ?_,
      rfl⟩
    · dsimp only at ha
      split at ha
      · exact h.ready.bounded a ha
      · rcases List.mem_append.mp ha with ha | ha
        · exact h.ready.bounded a ha
        · rw [List.mem_singleton.mp ha]
          exact hm
    · dsimp only
      split
      · exact h.ready.nodup
      · next hout =>
        rw [← List.concat_eq_append]
        exact h.ready.nodup.concat hout
    · rcases List.mem_append.mp he with he | he
      · exact h.ready.entries e he
      · rw [List.mem_singleton.mp he]
        exact hm
    · dsimp only
      rw [List.map_append, List.map_singleton, ← List.concat_eq_append]
      exact h.ready.refs.concat hnotin
    · dsimp only
      rw [List.map_append, List.map_singleton, ← List.concat_eq_append]
      exact h.ready.ids.concat hnew.fresh
    · rcases List.mem_append.mp he with he | he
      · exact h.ready.named e he
      · rw [List.mem_singleton.mp he]
        exact hnew.named
    · dsimp only at hmem
      rw [List.map_append] at hmem
      rcases List.mem_append.mp hmem with hmem | hmem
      · exact h.ready.unused n (Nat.le_trans hnew.le hn) hmem
      · exact hnew.unused n hn (List.mem_singleton.mp hmem)
    · dsimp only
      split
      · exact ⟨rest, hrest⟩
      · exact ⟨rest ++ [m], by rw [hrest, List.append_assoc]⟩
    · dsimp only
      split
      · next hin => exact hin
      · exact List.mem_append_right _ (List.mem_singleton.mpr rfl)

/-- A message of the queue is retained. -/
theorem Held.enqueueMessage (hlib : UniqueIds lib) (h : Held lib o) (hr : o.rows.request = none)
    {m : Nat} {txId fingerprint : Option Str} {r : CryptoRequest}
    (htx : ∀ tx, txId = some tx → Unused lib o tx)
    (hf : ∀ f, fingerprint = some f → isFingerprint f = true)
    (henq : o.enqueueMessage lib m txId fingerprint = .ok (o', r)) :
    Queued lib o' ∧ (∃ new, storedMessages o'.rows = o.live.snapshot ++ new) ∧
      o'.rows.request = some ⟨r, some (o.appendMessage lib m txId).1, fingerprint⟩ := by
  obtain ⟨value, hv, heq⟩ := enqueueMessage_eq hr henq
  obtain ⟨ho : o' = _, hr' : r = _⟩ := Prod.ext_iff.mp heq
  have ha := h.appendMessage hlib (List.getElem?_eq_some_iff.mp hv).1 htx
  have hne : (o.appendMessage lib m txId).1 ≠ [] := ha.ready.named _ ha.entry
  -- the request takes the id of its message as it is
  have hid : ∀ drawn, lib.idOr drawn (some (o.appendMessage lib m txId).1) =
      ((o.appendMessage lib m txId).1, drawn) := fun drawn => by
    unfold CryptoLibrary.idOr
    split
    · next heq =>
      rw [← Option.some.inj heq]
    · next hno =>
      cases hid : (o.appendMessage lib m txId).1 with
      | nil => exact absurd hid hne
      | cons c cs => exact absurd (congrArg some hid) (hno c cs)
  -- the request is retained for a message that is in the queue
  have hsweep : Sweepable lib { (o.appendMessage lib m txId).2 with
      rows.request := some ⟨r, some (o.appendMessage lib m txId).1, fingerprint⟩ }
      o.live.messages := by
    refine ⟨ha.ready, ha.subset, ha.front, fun q hq => ?_⟩
    obtain rfl := Option.some.inj hq
    refine ⟨?_, fun f hff => ⟨hf f hff, ?_⟩, fun id hidd => ?_⟩
    · rw [hr']
      rfl
    · rw [hr']
      rfl
    · obtain rfl := Option.some.inj hidd
      refine ⟨by rw [hr']; rfl, ?_, m, ha.present, ha.entry⟩
      rw [hr']
      exact congrArg Prod.fst (hid _)
  obtain ⟨hq, new, hstored⟩ := hsweep.capture hlib
  have hsame : o'.rows = (CryptoOwner.capture lib { (o.appendMessage lib m txId).2 with
      rows.request := some ⟨r, some (o.appendMessage lib m txId).1, fingerprint⟩ }).rows ∧
      o'.live = (CryptoOwner.capture lib { (o.appendMessage lib m txId).2 with
      rows.request := some ⟨r, some (o.appendMessage lib m txId).1, fingerprint⟩ }).live ∧
      o'.drawn = (CryptoOwner.capture lib { (o.appendMessage lib m txId).2 with
      rows.request := some ⟨r, some (o.appendMessage lib m txId).1, fingerprint⟩ }).drawn := by
    rw [ho, hr']
    unfold CryptoOwner.retainRequest
    rw [hid]
    exact ⟨rfl, rfl, rfl⟩
  refine ⟨hq.congr hsame.1 hsame.2.1 (Nat.le_of_eq hsame.2.2.symm), ⟨new, ?_⟩, ?_⟩
  · rw [hsame.1, hstored]
    exact congrArg (· ++ new) ha.values
  · rw [hsame.1]
    rfl

/-! ## Answers -/

/-- No message before the one that the retained request carries equals it. -/
def Foremost (lib : CryptoLibrary) (o : CryptoOwner) : Prop :=
  ∀ q id before value after, o.rows.request = some q → q.messageId = some id →
    storedMessages o.rows = before ++ (id, value) :: after →
    ∀ e ∈ before, lib.equal e.2 value = false

theorem values_cons {l : LiveCrypto} {e : Str × Nat} {value : QueuedMessage}
    (h : l.objects[e.2]? = some value) (es : List (Str × Nat)) :
    values l (e :: es) = (e.1, value) :: values l es := by
  unfold values
  rw [List.filterMap_cons, h]
  rfl

/-- The message of the retained request is an entry of the queue. -/
theorem Held.pendingMessage (h : Held lib o) {q : RetainedRequest} {id : Str}
    (hq : o.rows.request = some q) (hid : q.messageId = some id) :
    ∃ m, o.pendingMessage q.messageId = some m ∧ (id, m) ∈ o.live.messages := by
  have hin := ((h.row q hq).message id hid).2.2
  obtain ⟨e, he, rfl⟩ := List.mem_map.mp hin
  cases hf : o.live.messages.find? (·.1 = e.1) with
  | none =>
    rw [List.find?_eq_none] at hf
    exact absurd (decide_eq_true rfl) (hf e he)
  | some e' =>
    have heq := List.find?_some hf
    rw [decide_eq_true_eq] at heq
    have hmem := List.mem_of_find?_eq_some hf
    refine ⟨e'.2, ?_, ?_⟩
    · unfold CryptoOwner.pendingMessage
      rw [hid, Option.bind_some, hf]
      rfl
    · rw [← heq]
      exact hmem

/-- The answer to a request that carries no message changes nothing in the queue. -/
theorem handleResponse_of_none {request : CryptoRequest} {body : Json} :
    o.handleResponse lib (decodeAnswer request (o.pendingMessage none) body) = o := by
  unfold decodeAnswer
  split
  · split
    · rfl
    · split
      all_goals split <;> rfl
  · rfl

/-- The answer to a message is its own or none. -/
theorem decodeAnswer_toDevice {request : CryptoRequest} (hk : request.kind = .toDevice)
    (message : Option Nat) (body : Json) :
    decodeAnswer request message body = .error ∨
      decodeAnswer request message body = .toDevice message := by
  unfold decodeAnswer
  split
  · split
    · exact .inl rfl
    · rw [hk]
      dsimp only
      split
      · exact .inr rfl
      · exact .inl rfl
  · exact .inl rfl

/-- What a step does to the stored queue: it gets longer, and when the request of a message is
answered one message leaves it. That is the message of the request unless an equal one stands
before it. -/
def QueueStep (lib : CryptoLibrary) (o o' : CryptoOwner) : Prop :=
  (∃ new, storedMessages o'.rows = storedMessages o.rows ++ new) ∨
  ∃ q id before e after new marks rest, o.rows.request = some q ∧ q.messageId = some id ∧
    storedMessages o.rows = before ++ e :: after ∧
    storedMessages o'.rows = before ++ after ++ new ∧
    o'.log = o.log ++ [.marked marks] ++ [.applied q.request []] ++ rest ∧
    (Foremost lib o → e.1 = id)

theorem Sweepable.users {known : List (Str × Nat)} (h : Sweepable lib o known) (users : List Str) :
    Sweepable lib { o with live.usersForKeyQuery := users } known :=
  ⟨h.ready.users users, h.subset, h.front, h.row⟩

theorem Sweepable.settle (hlib : UniqueIds lib) {known : List (Str × Nat)}
    {request : CryptoRequest} {response : CryptoResponse}
    (h : Sweepable lib { o.handleResponse lib response with rows.request := none } known)
    (effect : OlmEffect) :
    Queued lib (o.settle lib request response effect) ∧
      (∃ new, storedMessages (o.settle lib request response effect).rows =
        values (o.handleResponse lib response).live known ++ new) ∧
      Grows lib o (o.settle lib request response effect) := by
  have hmark : Sweepable lib { (o.handleResponse lib response).markMissing request response
      o.live.usersForKeyQuery with rows.request := none } known := by
    unfold markMissing
    split
    · exact h.users _
    · exact h
  have habsorb := hmark.absorb effect
  obtain ⟨hq, new, hstored⟩ := habsorb.capture hlib
  refine ⟨hq.congr rfl rfl (Nat.le_refl _), ⟨new, hstored.trans (congrArg (· ++ new) ?_)⟩, ?_⟩
  · refine (@values_objects _ _ known effect.queued rfl fun e he => ?_).trans ?_
    · exact hmark.ready.entries e (hmark.subset he)
    · unfold markMissing
      split <;> rfl
  · have hmessages : ((o.handleResponse lib response).markMissing request response
        o.live.usersForKeyQuery).live.messages = o.live.messages := by
      unfold markMissing handleResponse
      split <;> split <;> rfl
    exact (grows_of_messages hmessages).trans habsorb.ready.grows

/-- `list.remove` takes the message, or one that equals it. -/
theorem removeMessage_eraseP (o : CryptoOwner) (m : Nat) :
    ∃ p : Nat → Bool, (o.removeMessage lib m).live.outgoingToDeviceMessages =
        o.live.outgoingToDeviceMessages.eraseP p ∧ p m = true ∧
      ∀ n, p n = true → n = m ∨ ∃ a b, o.live.objects[n]? = some a ∧ o.live.objects[m]? = some b ∧
        lib.equal a b = true := by
  refine ⟨_, rfl, Bool.or_eq_true_iff.mpr (.inl (decide_eq_true rfl)), fun n hn => ?_⟩
  rcases Bool.or_eq_true_iff.mp hn with hn | hn
  · exact .inl (of_decide_eq_true hn)
  · split at hn
    · next a b ha hb => exact .inr ⟨a, b, ha, hb, hn⟩
    · cases hn

/-- `list.remove` takes the first entry that is the object or equals it. -/
structure Removal (lib : CryptoLibrary) (o : CryptoOwner) (m : Nat) (es : List (Str × Nat))
    (e : Str × Nat) (fs : List (Str × Nat)) : Prop where
  messages : o.live.messages = es ++ e :: fs
  outgoing : ∃ rest, (o.removeMessage lib m).live.outgoingToDeviceMessages =
    (es ++ fs).map (·.2) ++ rest
  sublist : (o.removeMessage lib m).live.outgoingToDeviceMessages.Sublist
    o.live.outgoingToDeviceMessages
  earlier : ∀ b ∈ es, b.2 ≠ m
  same : e.2 = m ∨ ∃ a b, o.live.objects[e.2]? = some a ∧ o.live.objects[m]? = some b ∧
    lib.equal a b = true

/-- A message of the queue can be removed with its entry. -/
theorem Held.removal (h : Held lib o) {id : Str} {m : Nat} (hmem : (id, m) ∈ o.live.messages) :
    ∃ es e fs, Removal lib o m es e fs := by
  obtain ⟨rest, hrest⟩ := h.front
  obtain ⟨p, hremove, hself, hsame⟩ := @removeMessage_eraseP lib o m
  obtain ⟨e, es, fs, hes, he, hsplit, -⟩ := @List.exists_of_eraseP _ (fun b => p b.2) _ _ hmem hself
  have houtgoing : (o.removeMessage lib m).live.outgoingToDeviceMessages =
      (es ++ fs).map (·.2) ++ rest := by
    rw [hremove, hrest, hsplit, List.map_append, List.map_cons, List.append_assoc,
      List.cons_append, List.eraseP_append_right, List.eraseP_cons_of_pos he, List.map_append,
      List.append_assoc]
    intro n hn
    obtain ⟨b, hb, rfl⟩ := List.mem_map.mp hn
    exact hes b hb
  exact ⟨es, e, fs, hsplit, ⟨rest, houtgoing⟩, List.eraseP_sublist,
    fun b hb heq => hes b hb (heq ▸ hself), hsame e.2 he⟩

/-- What is left after a removal can be captured. -/
theorem Removal.sweepable {m : Nat} {e : Str × Nat} {es fs : List (Str × Nat)} (h : Held lib o)
    (hr : Removal lib o m es e fs) :
    Sweepable lib { o.removeMessage lib m with rows.request := none } (es ++ fs) := by
  refine ⟨⟨fun a ha => h.ready.bounded a (hr.sublist.subset ha), h.ready.nodup.sublist hr.sublist,
    h.ready.entries, h.ready.refs, h.ready.ids, h.ready.named, h.ready.unused⟩, fun b hb => ?_,
    hr.outgoing, fun q hq => (nomatch hq)⟩
  show b ∈ o.live.messages
  rw [hr.messages]
  rcases List.mem_append.mp hb with hb | hb
  · exact List.mem_append_left _ hb
  · exact List.mem_append_right _ (List.mem_cons_of_mem _ hb)

/-- The message of the request is removed if none before it equals it. -/
theorem Removal.own (h : Queued lib o) {q : RetainedRequest} {id : Str} {m : Nat} {e : Str × Nat}
    {es fs : List (Str × Nat)} (hq : o.rows.request = some q) (hid : q.messageId = some id)
    (hmem : (id, m) ∈ o.live.messages) (hr : Removal lib o m es e fs) (hfore : Foremost lib o) :
    e.1 = id := by
  rcases hr.same with hsame | ⟨a, b, ha, hb, heq⟩
  · have hin : e ∈ o.live.messages := hr.messages ▸ List.mem_append_right _ List.mem_cons_self
    exact congrArg Prod.fst (List.inj_on_of_nodup_map h.ready.refs hin hmem hsame)
  rw [hr.messages] at hmem
  rcases List.mem_append.mp hmem with hmem | hmem
  · exact absurd rfl (hr.earlier _ hmem)
  rcases List.mem_cons.mp hmem with rfl | hmem
  · rfl
  -- the entry of the request stands behind the equal one
  obtain ⟨f₁, f₂, rfl⟩ := List.append_of_mem hmem
  have hstored : storedMessages o.rows =
      (values o.live es ++ (e.1, a) :: values o.live f₁) ++ (id, b) :: values o.live f₂ := by
    rw [h.stored]
    show values o.live o.live.messages = _
    rw [hr.messages, values_append, values_cons ha, values_append, values_cons hb,
      List.append_assoc, List.cons_append]
  have hne := hfore q id _ b _ hq hid hstored (e.1, a)
    (List.mem_append_right _ List.mem_cons_self)
  rw [heq] at hne
  cases hne

/-- An answer removes the message that it is for. -/
theorem Queued.settle (hlib : UniqueIds lib) (h : Queued lib o)
    {request : CryptoRequest} {id fingerprint : Option Str} {body : Json}
    {response : CryptoResponse} (hq : o.rows.request = some ⟨request, id, fingerprint⟩)
    (hresponse : response = decodeAnswer request (o.pendingMessage id) body)
    (hne : response ≠ .error) (effect : OlmEffect) :
    Queued lib (o.settle lib request response effect) ∧
      QueueStep lib o (o.settle lib request response effect) ∧
      Grows lib o (o.settle lib request response effect) := by
  cases id with
  | none =>
    -- the request has no message, so that the queue stays
    have hs := h.sweepable
    have hsame : o.handleResponse lib response = o := by rw [hresponse, handleResponse_of_none]
    have hsweep : Sweepable lib { o.handleResponse lib response with rows.request := none }
        o.live.messages := by
      rw [hsame]
      exact ⟨hs.ready, hs.subset, hs.front, fun q hq => (nomatch hq)⟩
    obtain ⟨hqueued, ⟨new, hstored⟩, hgrows⟩ := hsweep.settle hlib effect
    refine ⟨hqueued, .inl ⟨new, ?_⟩, hgrows⟩
    rw [hstored, hsame, h.stored]
    rfl
  | some id =>
    -- the message of the request is still in the queue, and leaves it
    obtain ⟨m, hm, hmem⟩ := h.pendingMessage hq rfl
    have hkind := ((h.row _ hq).message id rfl).1
    have htoDevice : response = .toDevice (some m) := by
      rcases decodeAnswer_toDevice hkind (o.pendingMessage (some id)) body with herr | hok
      · exact absurd (hresponse.trans herr) hne
      · rw [hresponse, hok, hm]
    subst htoDevice
    obtain ⟨es, e, fs, hr⟩ := h.removal hmem
    obtain ⟨hqueued, ⟨new, hstored⟩, hgrows⟩ :=
      @Sweepable.settle lib o hlib _ request (.toDevice (some m)) (hr.sweepable h.toHeld) effect
    have hlt := h.ready.entries e (hr.messages ▸ List.mem_append_right _ List.mem_cons_self)
    refine ⟨hqueued, .inr ⟨_, id, values o.live es, (e.1, o.live.objects[e.2]),
      values o.live fs, new, effect.marks, [], hq, rfl, ?_, ?_, ?_, hr.own h hq rfl hmem⟩, hgrows⟩
    · rw [h.stored]
      show values o.live o.live.messages = _
      rw [hr.messages, values_append, values_cons (List.getElem?_eq_getElem hlt)]
    · rw [hstored, ← values_append]
      rfl
    · rw [log_settle, List.append_nil]
      rfl

/-! ## Steps -/

/-- Whatever retains a request keeps the queue and adds to it. -/
theorem Held.enqueues (hlib : UniqueIds lib) (h : Held lib o) (hr : o.rows.request = none)
    {r : CryptoRequest} {P : Str → Prop} (hP : ∀ tx, P tx → Unused lib o tx)
    (henq : Enqueues lib P o o' r) :
    Queued lib o' ∧ (∃ new, storedMessages o'.rows = o.live.snapshot ++ new) ∧
      (r.kind ≠ .toDevice → Grows lib o o') := by
  cases henq with
  | upload view =>
    obtain ⟨hq, hnew, hgrows⟩ :=
      @Held.retainRequest lib _ hlib h .upload (keysUpload view.shareKeys) rfl none
    exact ⟨hq, hnew, fun _ => hgrows⟩
  | query view users =>
    have hdirty := h.users (o.live.usersForKeyQuery.filter
      (· ∉ sortedUsers (users.getD o.live.usersForKeyQuery)))
    obtain ⟨hq, hnew, hgrows⟩ := @Held.retainRequest lib _ hlib hdirty .query
      (keysQuery (sortedUsers (users.getD o.live.usersForKeyQuery)) view.cursor) rfl none
    exact ⟨hq, hnew, fun _ => hgrows⟩
  | claim users =>
    obtain ⟨hq, hnew, hgrows⟩ :=
      @Held.retainRequest lib _ hlib h .claim (keysClaim users) rfl none
    exact ⟨hq, hnew, fun _ => hgrows⟩
  | message m txId fingerprint htx hf henq =>
    obtain ⟨hq, hnew, -⟩ := h.enqueueMessage hlib hr (fun tx h => hP tx (htx tx h)) hf henq
    refine ⟨hq, hnew, fun hkind => absurd ?_ hkind⟩
    obtain ⟨_, -, heq⟩ := enqueueMessage_eq hr henq
    exact congrArg (fun p => p.2.kind) heq
  | toDevice type content henq =>
    obtain ⟨-, heq⟩ := enqueueToDevice_eq henq
    obtain ⟨ho : o' = _, -⟩ := Prod.ext_iff.mp heq
    rw [ho]
    obtain ⟨hq, hnew, hgrows⟩ := @Held.retainRequest lib _ hlib h.draw .toDevice
      (toDevice type content (lib.uuid o.drawn)) rfl (some (lib.uuid o.drawn))
    exact ⟨hq, hnew, fun _ => hgrows⟩

/-- Choosing the next request adds messages only at the end. -/
theorem Queued.next (hlib : UniqueIds lib) (h : Queued lib o)
    {x : Option (CryptoRequest × OutboundTask)} (hn : Next lib (Unused lib o) o o' x) :
    Queued lib o' ∧ (∃ new, storedMessages o'.rows = storedMessages o.rows ++ new) ∧
      ∀ r next, x = some (r, next) → next.Named (Unused lib o') := by
  have hsame : ∃ new, storedMessages o.rows = storedMessages o.rows ++ new :=
    ⟨[], (List.append_nil _).symm⟩
  cases hn with
  | «over» => exact ⟨h, hsame, fun r next hx => nomatch hx⟩
  | swept hr hm =>
    -- a sweep that finds nothing shows that nothing was stored
    obtain ⟨hheld, ⟨new, hnew⟩, -⟩ := h.toHeld.retainMessages hlib
    have hempty : (o.retainMessages lib).live.snapshot = [] := by
      unfold LiveCrypto.snapshot
      rw [hm]
      rfl
    rw [hempty] at hnew
    have hstored : storedMessages o.rows = [] := by
      rw [h.stored]
      exact (List.append_eq_nil_iff.mp hnew.symm).1
    exact ⟨⟨hheld, hstored.trans hempty.symm, h.facts⟩, hsame, fun r next hx => nomatch hx⟩
  | again q next hname hq =>
    refine ⟨h, hsame, fun r next hx => ?_⟩
    obtain ⟨rfl, rfl⟩ := Prod.mk.inj (Option.some.inj hx)
    exact hname
  | retains o₁ next hname hr h₁ henq =>
    -- before the request is made the queue may grow by a sweep or an object
    have hheld : Held lib o₁ ∧ (∃ new, o₁.live.snapshot = o.live.snapshot ++ new) ∧
        Grows lib o o₁ := by
      rcases h₁ with rfl | rfl | ⟨value, rfl⟩
      · exact ⟨h.toHeld, ⟨[], (List.append_nil _).symm⟩, grows_of_messages rfl⟩
      · exact h.toHeld.retainMessages hlib
      · refine ⟨h.toHeld.construct value, ⟨[], ?_⟩, grows_of_messages rfl⟩
        rw [List.append_nil]
        exact @values_objects o.live _ _ [value] rfl h.ready.entries
    have hr₁ : o₁.rows.request = none := by
      rcases h₁ with rfl | rfl | ⟨value, rfl⟩ <;> exact hr
    obtain ⟨hheld₁, ⟨new₁, hsnap⟩, hgrows₁⟩ := hheld
    obtain ⟨hq, ⟨new₂, hstored⟩, hgrows₂⟩ :=
      hheld₁.enqueues hlib hr₁ (fun _ => hgrows₁.unused) henq
    refine ⟨hq, ⟨new₁ ++ new₂, ?_⟩, fun r next hx => ?_⟩
    · rw [hstored, hsnap, h.stored, List.append_assoc]
    · obtain ⟨rfl, rfl⟩ := Prod.mk.inj (Option.some.inj hx)
      exact OutboundTask.Named.mono hname fun tx htx => (hgrows₁.trans (hgrows₂ htx.2)).unused htx.1

/-! ## Reloading -/

theorem filterMap_zipIdx (before : List QueuedMessage) (entries : List (Str × QueuedMessage)) :
    ((entries.map (·.1)).zipIdx before.length).filterMap
      (fun e => (before ++ entries.map (·.2))[e.2]?.map (e.1, ·)) = entries := by
  induction entries generalizing before with
  | nil => rfl
  | cons e entries ih =>
    have hget : (before ++ e.2 :: entries.map (·.2))[before.length]? = some e.2 := by
      rw [List.getElem?_append_right (Nat.le_refl _), Nat.sub_self]
      rfl
    rw [List.map_cons, List.map_cons, List.zipIdx_cons, List.filterMap_cons, hget]
    refine congrArg (e :: ·) ?_
    have hih := ih (before ++ [e.2])
    rw [List.length_append, List.append_assoc] at hih
    exact hih

/-- What the stored facts are made into holds together if their ids are sound. -/
theorem held_restored {facts : Facts} (hids : (facts.messages.map (·.1)).Nodup)
    (hnamed : ∀ id ∈ facts.messages.map (·.1), id ≠ [])
    (hunused : ∀ n, o.drawn ≤ n → lib.uuid n ∉ facts.messages.map (·.1))
    (hrow : ∀ q, o.rows.request = some q → Valid q (· ∈ facts.messages.map (·.1))) :
    Held lib { o with live := restored facts } := by
  have hfst : (restored facts).messages.map (·.1) = facts.messages.map (·.1) :=
    List.zipIdx_map_fst _ _
  have hsnd : (restored facts).messages.map (·.2) = List.range facts.messages.length := by
    refine (List.zipIdx_map_snd _ _).trans ?_
    rw [List.length_map, List.range_eq_range']
  have hlen : (restored facts).objects.length = facts.messages.length := List.length_map _
  refine ⟨⟨fun m hm => ?_, List.nodup_range, fun e he => ?_, ?_, ?_, fun e he => ?_, ?_⟩, ⟨[], ?_⟩, ?_⟩
  · exact hlen ▸ List.mem_range.mp hm
  · have hin : e.2 ∈ (restored facts).messages.map (·.2) := List.mem_map_of_mem he
    rw [hsnd] at hin
    exact hlen ▸ List.mem_range.mp hin
  · rw [hsnd]
    exact List.nodup_range
  · rw [hfst]
    exact hids
  · exact hnamed e.1 (hfst ▸ List.mem_map_of_mem he)
  · rw [hfst]
    exact hunused
  · rw [hsnd, List.append_nil]
    rfl
  · rw [hfst]
    exact hrow

/-- The stored messages have the ids of those in memory. -/
theorem Queued.storedIds (h : Queued lib o) :
    (storedMessages o.rows).map (·.1) = o.live.messages.map (·.1) := by
  rw [h.stored]
  unfold LiveCrypto.snapshot
  have hall : ∀ e ∈ o.live.messages, ∃ v, o.live.objects[e.2]? = some v := fun e he =>
    ⟨_, List.getElem?_eq_getElem (h.ready.entries e he)⟩
  generalize o.live.messages = entries at hall
  induction entries with
  | nil => rfl
  | cons e entries ih =>
    obtain ⟨v, hv⟩ := hall e List.mem_cons_self
    rw [List.filterMap_cons, hv]
    exact congrArg (e.1 :: ·) (ih fun e he => hall e (List.mem_cons_of_mem _ he))

/-- The retained request is found valid, and its message is one of the queue. -/
theorem Queued.pending_ok (h : Queued lib o) :
    ∃ p, pendingOf o.rows (o.live.messages.map (·.1)) = .ok p := by
  unfold pendingOf
  cases hq : o.rows.request with
  | none => exact ⟨none, rfl⟩
  | some q =>
    have hv := h.row q hq
    dsimp only
    -- none of the four checks of the row refuses it
    rw [if_neg, if_neg, if_neg, if_neg]
    · exact ⟨_, rfl⟩
    · cases hid : q.messageId with
      | none => exact fun hno => (nomatch hno)
      | some id =>
        obtain ⟨hk, -, hin⟩ := hv.message id hid
        simp only [Option.any_some, Bool.or_eq_true, decide_eq_true_eq, not_or, not_not]
        exact ⟨hk, hin⟩
    · rintro ⟨hsome, hk⟩
      obtain ⟨f, hfp⟩ := Option.isSome_iff_exists.mp hsome
      exact hk (hv.fingerprint f hfp).2
    · rw [hv.body]
      exact fun hno => hno rfl
    · cases hfp : q.encryptedFingerprint with
      | none => exact fun hno => (nomatch hno)
      | some f =>
        rw [Option.any_some, (hv.fingerprint f hfp).1]
        exact fun hno => (nomatch hno)

/-- Without facts there is neither a request nor a message. -/
theorem Queued.restored_empty (h : Queued lib o) (hf : o.rows.facts = none) :
    Queued lib { o with live := .fresh } := by
  have hr : o.rows.request = none := by
    cases hr : o.rows.request with
    | none => rfl
    | some q =>
      have := h.facts (by rw [hr]; rfl)
      rw [hf] at this
      cases this
  have hempty : storedMessages o.rows = [] := by
    unfold storedMessages
    rw [hf]
    rfl
  refine ⟨⟨⟨fun _ hm => (nomatch hm), List.nodup_nil, fun _ he => (nomatch he),
    List.nodup_nil, List.nodup_nil, fun _ he => (nomatch he), fun _ _ hm => (nomatch hm)⟩, ⟨[], rfl⟩,
    fun q hq => ?_⟩, hempty, h.facts⟩
  have hq : o.rows.request = some q := hq
  rw [hr] at hq
  cases hq

/-- What is stored can be loaded again, and is what is held. -/
theorem Queued.restore (h : Queued lib o) :
    ∃ live, CryptoOwner.restore o.rows = .ok live ∧ Queued lib { o with live } := by
  unfold CryptoOwner.restore
  cases hf : o.rows.facts with
  | none => exact ⟨.fresh, rfl, h.restored_empty hf⟩
  | some facts =>
    have hstored : storedMessages o.rows = facts.messages := by
      unfold storedMessages
      rw [hf]
      rfl
    have hids : facts.messages.map (·.1) = o.live.messages.map (·.1) := hstored ▸ h.storedIds
    obtain ⟨p, hp⟩ := h.pending_ok
    rw [← hids] at hp
    have hnamed : ¬ ∃ m ∈ facts.messages, m.1 = [] := by
      rintro ⟨m, hm, hnil⟩
      have hin : m.1 ∈ o.live.messages.map (·.1) := hids ▸ List.mem_map_of_mem hm
      obtain ⟨e, he, heq⟩ := List.mem_map.mp hin
      exact h.ready.named e he (heq.trans hnil)
    have hnodup : (facts.messages.map (·.1)).Nodup := by
      rw [hids]
      exact h.ready.ids
    refine ⟨restored facts, ?_, ?_⟩
    · dsimp only
      rw [if_neg hnamed, if_neg (not_not.mpr hnodup), hp]
      rfl
    · refine ⟨held_restored hnodup (fun id hid hnil => ?_) ?_ ?_, hstored.trans ?_, h.facts⟩
      · obtain ⟨m, hm, heq⟩ := List.mem_map.mp hid
        exact hnamed ⟨m, hm, heq.trans hnil⟩
      · rw [hids]
        exact h.ready.unused
      · rw [hids]
        exact h.row
      · exact (filterMap_zipIdx [] facts.messages).symm

/-! ## The order of the queue -/

/-- Steps that add at the end make up one. -/
theorem QueueStep.append (h : QueueStep lib o o') {o'' : CryptoOwner}
    {new : List (Str × QueuedMessage)} {more : List CryptoEvent}
    (hstored : storedMessages o''.rows = storedMessages o'.rows ++ new)
    (hlog : o''.log = o'.log ++ more) : QueueStep lib o o'' := by
  rcases h with ⟨new', h⟩ | ⟨q, id, before, e, after, new', marks, rest, hq, hid, hs, h, hl, hown⟩
  · refine .inl ⟨new' ++ new, ?_⟩
    rw [hstored, h, List.append_assoc]
  · refine .inr ⟨q, id, before, e, after, new' ++ new, marks, rest ++ more, hq, hid, hs, ?_, ?_,
      hown⟩
    · rw [hstored, h, List.append_assoc]
    · rw [hlog, hl, List.append_assoc]

theorem Next.log {x : Option (CryptoRequest × OutboundTask)} (h : Next lib P o o' x) :
    ∃ more, o'.log = o.log ++ more := by
  cases h with
  | «over» => exact ⟨[], (List.append_nil _).symm⟩
  | swept hr hm => exact ⟨[], (List.append_nil _).symm⟩
  | again q next hname hq => exact ⟨[], (List.append_nil _).symm⟩
  | retains o₁ next hname hr h₁ henq =>
    have hsame : o₁.log = o.log ∧ o₁.rows = o.rows := by
      rcases h₁ with rfl | rfl | ⟨value, rfl⟩ <;> exact ⟨rfl, rfl⟩
    obtain ⟨hlog, -⟩ := henq.retains (by rw [hsame.2]; exact hr)
    exact ⟨_, by rw [hlog, hsame.1]⟩

end CryptoOwner

namespace OutboundCrypto

open CryptoOwner

variable {w : OutboundCrypto}

structure InOrder (lib : CryptoLibrary) (w : OutboundCrypto) : Prop where
  owner : Queued lib w.owner
  flight : ∀ r next, w.flight = some (r, next) → next.Named (Unused lib w.owner)

theorem InOrder.grow (h : w.InOrder lib) {o : CryptoOwner} (hq : Queued lib o)
    (hgrows : Grows lib w.owner o) : InOrder lib { w with owner := o } :=
  ⟨hq, fun r next hx => (h.flight r next hx).mono fun _ => hgrows.unused⟩

def idleView : OlmView := ⟨false, [], [], none, .refused, none⟩

/-- The answer to the first message: `{}` -/
def answered : OutboundAction := .answer (.obj []) ⟨[], []⟩ idleView

end OutboundCrypto

end Nio.Durable
