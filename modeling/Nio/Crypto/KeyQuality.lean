import Nio.Crypto.GroupSessions

/-!
# The quality of room keys

A session decrypts the message indices from its first known index on, and was received directly or
exported by someone. A new session takes the place of the one that is held without a comparison of
the two.

* `keys_never_worse` — when a room key is held that is as good as every accepted one
-/

namespace Nio.Crypto

open Nio.Py (Str py)
open Nio.Lib

variable {ρ : Type} {lib : Vodozemac ρ}

/-- A session of the library as its first known index and its origin: the key of `m.room_key` is
signed, an exported one is not. -/
structure SessionQuality (lib : Vodozemac ρ) where
  firstKnownIndex : ρ → Nat
  direct : ρ → Bool
  direct_newSession : ∀ key r, lib.newSession key = some r → direct r = true
  direct_importSession : ∀ key r, lib.importSession key = some r → direct r = false

variable (q : SessionQuality lib)

/-- The first session decrypts what the second one does, and was received directly if it was. -/
def SessionQuality.AsGood (s t : InboundGroupSession ρ) : Prop :=
  q.firstKnownIndex s.session ≤ q.firstKnownIndex t.session ∧
    (q.direct t.session = true → q.direct s.session = true)

/-- For each session id, the keys are for one room and one sender key, and each is as good as those
before it. -/
def Improving (keys : List (InboundGroupSession ρ)) : Prop :=
  keys.Pairwise fun t s => t.id lib = s.id lib →
    t.roomId = s.roomId ∧ t.senderKey = s.senderKey ∧ q.AsGood s t

/-- For each key the store has a session that came with one of them and is as good as each; it was
forwarded by nobody who did not forward one of them. -/
def HoldsBest (store : GroupSessionStore ρ) (keys : List (InboundGroupSession ρ)) : Prop :=
  ∀ key ∈ keys, ∃ held ∈ store.get lib key.roomId key.senderKey (key.id lib),
    q.AsGood held key ∧
    (∃ t ∈ keys, t.key lib = key.key lib ∧ t.session = held.session) ∧
    ∀ c ∈ held.forwardingChain, ∃ t ∈ keys, t.key lib = key.key lib ∧ c ∈ t.forwardingChain

/-- A key of `m.room_key` and one of an own outbound session are direct, no other one is. -/
theorem direct_brought (o : GroupSessions ρ) (e : GroupSessionEvent) {s : InboundGroupSession ρ}
    (hs : s ∈ o.brought lib e) :
    q.direct s.session = true ↔
      (∃ senderKey k, e = .roomKey senderKey k) ∨ ∃ r i k, e = .outbound r i k := by
  have hnew : ∀ senderKey fpKey roomId sessionId sessionKey,
      s ∈ (GroupSessions.newGroupSession lib senderKey fpKey roomId sessionId sessionKey).toList →
        q.direct s.session = true := by
    intro senderKey fpKey roomId sessionId sessionKey h
    rw [Option.mem_toList, GroupSessions.newGroupSession] at h
    cases hk : lib.newSession sessionKey with
    | none =>
      rw [hk] at h
      cases h
    | some r =>
      rw [hk] at h
      dsimp only at h
      split at h
      · cases h
      · obtain rfl := Option.some.inj h
        exact q.direct_newSession _ _ hk
  cases e with
  | roomKey senderKey k =>
    refine iff_of_true ?_ (Or.inl ⟨_, _, rfl⟩)
    unfold GroupSessions.brought at hs
    dsimp only at hs
    cases hfp : GroupSessions.acceptedFpKey k with
    | none =>
      rw [hfp] at hs
      simp at hs
    | some fpKey =>
      rw [hfp, Option.bind_some] at hs
      exact hnew _ _ _ _ _ hs
  | outbound roomId sessionId sessionKey =>
    exact iff_of_true (hnew _ _ _ _ _ hs) (Or.inr ⟨_, _, _, rfl⟩)
  | forwardedRoomKey e device =>
    refine iff_of_false ?_ (by simp)
    unfold GroupSessions.brought at hs
    dsimp only at hs
    split at hs
    · rw [Option.mem_toList, GroupSessions.forwardedSession, Option.map_eq_some_iff] at hs
      obtain ⟨r, hr, rfl⟩ := hs
      rw [q.direct_importSession _ _ hr]
      exact Bool.false_ne_true
    · cases hs
  | importKeys entries =>
    refine iff_of_false ?_ (by simp)
    unfold GroupSessions.brought GroupSessions.importKeysStatic at hs
    obtain ⟨e, -, he⟩ := List.mem_filterMap.mp hs
    obtain ⟨r, hr, rfl⟩ := Option.map_eq_some_iff.mp he
    rw [q.direct_importSession _ _ hr]
    exact Bool.false_ne_true
  | keyRequest r => cases hs

/-- The last element of a list against any other -/
theorem eq_or_rel_getLast? {α : Type} {R : α → α → Prop} {l : List α} (h : l.Pairwise R) {last x : α}
    (hlast : last ∈ l.getLast?) (hx : x ∈ l) : x = last ∨ R x last := by
  have hsplit : l.dropLast ++ [last] = l := List.dropLast_append_getLast? last hlast
  rw [← hsplit] at h hx
  rcases List.mem_append.mp hx with hx | hx
  · exact Or.inr ((List.pairwise_append.mp h).2.2 x hx last (List.mem_singleton_self _))
  · exact Or.inl (List.mem_singleton.mp hx)

theorem asGood_refl (s : InboundGroupSession ρ) : q.AsGood s s := ⟨Nat.le_refl _, id⟩

variable {q} {o : GroupSessions ρ} {keys : List (InboundGroupSession ρ)}

/-- The last key of a session id is the best of them. -/
theorem Improving.last (h : Improving q keys) {key last : InboundGroupSession ρ} (hkey : key ∈ keys)
    (hlast : last ∈ (keys.filter fun s => s.id lib = key.id lib).getLast?) :
    key.roomId = last.roomId ∧ key.senderKey = last.senderKey ∧ q.AsGood last key := by
  have hid : last.id lib = key.id lib := by
    simpa using (List.mem_filter.mp (List.mem_of_getLast? hlast)).2
  have hin : key ∈ keys.filter fun s => s.id lib = key.id lib :=
    List.mem_filter.mpr ⟨hkey, decide_eq_true rfl⟩
  rcases eq_or_rel_getLast? (List.Pairwise.sublist List.filter_sublist h) hlast hin with heq | hrel
  · rw [heq]
    exact ⟨rfl, rfl, asGood_refl q last⟩
  · exact hrel hid.symm

theorem exists_last {p : InboundGroupSession ρ → Bool} {key : InboundGroupSession ρ}
    (hkey : key ∈ keys) (hp : p key) : ∃ last, last ∈ (keys.filter p).getLast? :=
  Option.isSome_iff_exists.mp
    (List.getLast?_isSome.mpr (List.ne_nil_of_mem (List.mem_filter.mpr ⟨hkey, hp⟩)))

/-- The keys of one session id are those of one room and one sender key. -/
theorem Improving.filter_key (h : Improving q keys) {key : InboundGroupSession ρ}
    (hkey : key ∈ keys) :
    keys.filter (fun s => s.key lib = key.key lib) =
      keys.filter fun s => s.id lib = key.id lib := by
  refine List.filter_congr fun s hs => ?_
  obtain ⟨last, hlast⟩ := exists_last (p := fun s => s.id lib = key.id lib) hkey
    (decide_eq_true rfl)
  rw [decide_eq_decide]
  constructor
  · intro hk
    simp only [InboundGroupSession.key, Prod.mk.injEq] at hk
    exact hk.2.2
  · intro hid
    obtain ⟨hroom, hsender, -⟩ := h.last hkey hlast
    rw [← hid] at hlast
    obtain ⟨hroom', hsender', -⟩ := h.last hs hlast
    unfold InboundGroupSession.key
    rw [hid, hroom, hroom', hsender, hsender']

theorem holdsBest_memory (hholds : Holds lib o keys) (h : Improving q keys) :
    HoldsBest q o.inboundGroupStore keys := by
  intro key hkey
  obtain ⟨last, hlast⟩ := exists_last (p := fun s => s.id lib = key.id lib) hkey
    (decide_eq_true rfl)
  have hget : o.inboundGroupStore.get lib key.roomId key.senderKey (key.id lib) = some last := by
    have hmemory := hholds.memory (key.key lib)
    rw [h.filter_key hkey] at hmemory
    exact hmemory.trans hlast
  obtain ⟨hroom, hsender, hgood⟩ := h.last hkey hlast
  have hid : last.id lib = key.id lib := by
    simpa using (List.mem_filter.mp (List.mem_of_getLast? hlast)).2
  have hkeys : last.key lib = key.key lib := by
    unfold InboundGroupSession.key
    rw [hid, hroom, hsender]
  have hin : last ∈ keys := List.mem_of_mem_filter (List.mem_of_getLast? hlast)
  exact ⟨last, hget, hgood, ⟨last, hin, hkeys, rfl⟩, fun c hc => ⟨last, hin, hkeys, hc⟩⟩

theorem holdsBest_loaded (hholds : Holds lib o keys) (h : Improving q keys) :
    HoldsBest q (o.store.loadInboundGroupSessions lib) keys := by
  intro key hkey
  obtain ⟨last, hlast⟩ := exists_last (p := fun s => s.id lib = key.id lib) hkey
    (decide_eq_true rfl)
  obtain ⟨first, hfirst⟩ : ∃ first, first ∈ (keys.filter fun s => s.id lib = key.id lib).head? :=
    Option.isSome_iff_exists.mp (List.isSome_head?.mpr
      (List.ne_nil_of_mem (List.mem_of_getLast? hlast)))
  obtain ⟨hroom, hsender, hgood⟩ := h.last hkey hlast
  have hmem := List.mem_filter.mp (List.mem_of_mem_head? hfirst)
  have hfid : first.id lib = key.id lib := by simpa using hmem.2
  have hid : last.id lib = key.id lib := by
    simpa using (List.mem_filter.mp (List.mem_of_getLast? hlast)).2
  have hlast' := hlast
  rw [← hfid] at hlast'
  obtain ⟨hroom', hsender', -⟩ := h.last hmem.1 hlast'
  have hget := get_loaded_some hholds hfirst hlast key.roomId key.senderKey
  rw [if_pos ⟨hroom'.trans hroom.symm, hsender'.trans hsender.symm⟩] at hget
  have hkeys : last.key lib = key.key lib := by
    unfold InboundGroupSession.key
    rw [hid, hroom, hsender]
  have hin : last ∈ keys := List.mem_of_mem_filter (List.mem_of_getLast? hlast)
  refine ⟨_, hget, hgood, ⟨last, hin, hkeys, rfl⟩, fun c hc => ?_⟩
  -- the chain is that of all keys of the session id
  obtain ⟨t, ht, hct⟩ := List.mem_flatMap.mp (List.mem_dedup.mp hc)
  rw [← h.filter_key hkey, List.mem_filter] at ht
  exact ⟨t, ht.1, of_decide_eq_true ht.2, hct⟩

theorem broughtBy_append (o : GroupSessions ρ) (es es' : List GroupSessionEvent) :
    GroupSessions.broughtBy lib o (es ++ es') = GroupSessions.broughtBy lib o es ++
      GroupSessions.broughtBy lib (run (GroupSessions.step lib) o es) es' := by
  induction es generalizing o with
  | nil => rfl
  | cons e es ih =>
    rw [List.cons_append, GroupSessions.broughtBy, GroupSessions.broughtBy, ih, List.append_assoc]
    rfl

/-- In a run whose accepted keys, for each session id, are of one room and one sender key, and never
worse than an earlier one, both the process and the store that is loaded hold the best of them; and
the direct ones among them are those of `m.room_key` and of own outbound sessions. -/
theorem keys_never_worse (q : SessionQuality lib) (userId curve25519 ed25519 : Str) (account : Nat)
    (events : List GroupSessionEvent)
    (h : Improving q
      (GroupSessions.broughtBy lib (.fresh userId curve25519 ed25519 account) events)) :
    ∀ done rest, events = done ++ rest →
      let start : GroupSessions ρ := .fresh userId curve25519 ed25519 account
      let o := run (GroupSessions.step lib) start done
      HoldsBest q o.inboundGroupStore (GroupSessions.broughtBy lib start done) ∧
      HoldsBest q (o.store.loadInboundGroupSessions lib)
        (GroupSessions.broughtBy lib start done) ∧
      ∀ e, ∀ s ∈ o.brought lib e, (q.direct s.session = true ↔
        (∃ senderKey k, e = .roomKey senderKey k) ∨ ∃ r i k, e = .outbound r i k) := by
  rintro done rest rfl
  have hholds : Holds lib
      (run (GroupSessions.step lib) (.fresh userId curve25519 ed25519 account) done)
      (GroupSessions.broughtBy lib (.fresh userId curve25519 ed25519 account) done) :=
    GroupSessions.holds_run (GroupSessions.holds_fresh userId curve25519 ed25519 account) done
  rw [broughtBy_append] at h
  have hdone := (List.pairwise_append.mp h).1
  exact ⟨holdsBest_memory hholds hdone, holdsBest_loaded hholds hdone,
    fun e s hs => direct_brought q _ e hs⟩

/-- A library whose sessions are their first known index and their origin: a key with that many
letters makes the session of one id. -/
def indexLibrary : Vodozemac (Nat × Bool) where
  sessionId := fun _ => py "S"
  newSession := fun key => some (key.length, true)
  importSession := fun key => some (key.length, false)
  pickle := fun r => (if r.2 then 1 else 0) :: List.replicate r.1 0
  fromPickle := fun bytes => (bytes.length - 1, bytes.head? = some 1)
  fromPickle_pickle := by
    rintro ⟨n, b⟩
    cases b <;> simp

def indexQuality : SessionQuality indexLibrary where
  firstKnownIndex := Prod.fst
  direct := Prod.snd
  direct_newSession := by
    rintro key r ⟨⟩
    rfl
  direct_importSession := by
    rintro key r ⟨⟩
    rfl

/-- The room key of a session from the index on that the key's length gives -/
def roomKeyFrom (sessionKey : String) : GroupSessionEvent :=
  .roomKey (py "curve")
    ⟨py "m.megolm.v1.aes-sha2", some (py "ed"), py "!a:x", py "S", py sessionKey⟩

/-- A room key is sent again from an earlier index on. -/
theorem keys_never_worse_earlier :
    Improving indexQuality (GroupSessions.broughtBy indexLibrary
      (.fresh (py "@me:x") (py "c") (py "e") 1) [roomKeyFrom "kkk", roomKeyFrom "k"]) ∧
    HoldsBest indexQuality
      (run (GroupSessions.step indexLibrary) (.fresh (py "@me:x") (py "c") (py "e") 1)
        [roomKeyFrom "kkk", roomKeyFrom "k"]).inboundGroupStore
      (GroupSessions.broughtBy indexLibrary
        (.fresh (py "@me:x") (py "c") (py "e") 1) [roomKeyFrom "kkk", roomKeyFrom "k"]) := by
  have himproving : Improving indexQuality (GroupSessions.broughtBy indexLibrary
      (.fresh (py "@me:x") (py "c") (py "e") 1) [roomKeyFrom "kkk", roomKeyFrom "k"]) := by
    refine List.pairwise_pair.mpr fun _ => ⟨rfl, rfl, ?_, fun _ => rfl⟩
    decide
  exact ⟨himproving, (keys_never_worse indexQuality _ _ _ _ _ himproving _ [] rfl).1⟩

/-- A room key that is sent again from a later index on takes the place of the session: index 1 is
lost, in the process and in the store. An imported key takes the place of a direct one. -/
theorem later_key_replaces :
    let start : GroupSessions (Nat × Bool) := .fresh (py "@me:x") (py "c") (py "e") 1
    let later := run (GroupSessions.step indexLibrary) start [roomKeyFrom "k", roomKeyFrom "kkk"]
    let imported := run (GroupSessions.step indexLibrary) start [roomKeyFrom "k",
      .importKeys [⟨py "m.megolm.v1.aes-sha2", py "k", py "ed", py "curve", py "!a:x", []⟩]]
    (later.inboundGroupStore.get indexLibrary (py "!a:x") (py "curve") (py "S")).map
        InboundGroupSession.session = some (3, true) ∧
      ((later.store.loadInboundGroupSessions indexLibrary).get indexLibrary (py "!a:x")
        (py "curve") (py "S")).map InboundGroupSession.session = some (3, true) ∧
      (imported.inboundGroupStore.get indexLibrary (py "!a:x") (py "curve") (py "S")).map
        InboundGroupSession.session = some (1, false) := by
  decide +kernel

end Nio.Crypto
