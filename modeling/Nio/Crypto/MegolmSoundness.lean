import Nio.Crypto.MegolmDecryption

/-!
# Replays and verified events

As long as the store of message indices has room, an index is only used by one event. A verified
event comes from this device or from a verified device with the right keys; a key that was forwarded
makes no event verified, unless the event is one of this device.

* `megolm_sound` — both, over a run
-/

namespace Nio.Crypto

open Nio.Py
open Nio.Lib
open Nio.Events (PyError BadEventType RoomEvent)

variable {ρ : Type} {lib : Vodozemac ρ}

/-! ## What is to hold -/

/-- Events of one index that both decrypt are one event. -/
def NoReplay (lib : Vodozemac ρ)
    (run : List (MegolmStep ρ × Except MegolmError MegolmResult)) : Prop :=
  ∀ p ∈ run, ∀ p' ∈ run, p.2.isOk → p'.2.isOk → p.1.usedIndex lib = p'.1.usedIndex lib →
    p.1.event.eventId = p'.1.event.eventId ∧
      p.1.event.serverTimestamp = p'.1.event.serverTimestamp

/-- The event names a device that is verified now, has the signing key of the session and sent the
session. -/
def FromVerified (v : MegolmView ρ) (event : MegolmEvent) (session : InboundGroupSession ρ) : Prop :=
  ∃ device, v.eventDevice event = some device ∧ v.isDeviceVerified device = true ∧
    device.keys.ed25519 = session.ed25519 ∧ device.keys.curve25519 = event.senderKey

/-- A verified event was decrypted with a session that nobody forwarded, and is of this device or of
a verified one. -/
def FlagSound (lib : Vodozemac ρ) (step : MegolmStep ρ) (result : MegolmResult) : Prop :=
  result.verified = true → ∃ session index,
    step.view.decryptsWith lib step.event step.roomId = some (session, index) ∧
    session.forwardingChain = [] ∧
    (step.view.IsOwn step.event session ∨ FromVerified step.view step.event session)

/-- The event names this device with both of its keys, and its session was forwarded. -/
def OwnForwarded (lib : Vodozemac ρ) (step : MegolmStep ρ) : Prop :=
  ∃ session index, step.view.decryptsWith lib step.event step.roomId = some (session, index) ∧
    step.view.IsOwn step.event session ∧ session.forwardingChain ≠ []

/-! ## One event -/

variable {v : MegolmView ρ} {s : MegolmState} {event : MegolmEvent}

theorem messageIndexOk_store (index : MessageIndex) :
    (MegolmView.messageIndexOk s index event).1.messageIndexStore =
      (s.messageIndexStore.record messageIndexStoreSize index
        (event.eventId, event.serverTimestamp)).2 := rfl

theorem messageIndexOk_iff (index : MessageIndex) :
    (MegolmView.messageIndexOk s index event).2 = true ↔
      (s.messageIndexStore.record messageIndexStoreSize index
        (event.eventId, event.serverTimestamp)).1 = (event.eventId, event.serverTimestamp) :=
  decide_eq_true_iff

theorem verify_store (session : InboundGroupSession ρ) :
    (v.verify s event session).1.messageIndexStore = s.messageIndexStore := by
  unfold MegolmView.verify
  split
  · rfl
  · split
    · rfl
    · split
      · split <;> rfl
      · rfl

theorem checkIfWedged_store : (v.checkIfWedged s event).messageIndexStore = s.messageIndexStore := by
  unfold MegolmView.checkIfWedged
  cases v.eventDevice event with
  | none => rfl
  | some device =>
    dsimp only
    cases v.recentSession device with
    | none => rfl
    | some recent =>
      dsimp only
      by_cases hr : recent = true ∧ event.sessionId ∉ v.outgoingKeyRequests
      · rw [if_pos hr]
        split <;> rfl
      · rw [if_neg hr]
        split <;> rfl

/-- When an event is verified -/
theorem verify_eq_true {session : InboundGroupSession ρ}
    (h : (v.verify s event session).2 = .ok true) :
    v.IsOwn event session ∨ session.forwardingChain = [] ∧ FromVerified v event session := by
  unfold MegolmView.verify at h
  split at h
  · next hown => exact Or.inl hown
  · cases hdevice : v.eventDevice event with
    | none =>
      rw [hdevice] at h
      cases h
    | some device =>
      rw [hdevice] at h
      dsimp only at h
      split at h
      · next hverified =>
        split at h
        · cases h
        · next hkeys =>
          rw [not_or, not_not, not_not] at hkeys
          exact Or.inr ⟨hverified.2, device, hdevice, hverified.1, hkeys⟩
      · cases h

theorem verify_own {session : InboundGroupSession ρ} (h : v.IsOwn event session) :
    (v.verify s event session).2 = .ok true := by
  unfold MegolmView.verify
  rw [if_pos h]

/-- The flag of the parsed event is the one that was found before. -/
theorem flag_eventOf {roomId plaintext : Str} {verified : Bool} {e : RoomEvent} {b : Bool}
    {i j k : Str}
    (h : MegolmView.eventOf event roomId plaintext verified = .ok (.event e b i j k)) :
    b = verified := by
  unfold MegolmView.eventOf at h
  split at h
  · dsimp only at h
    split at h
    · split at h <;> cases h
    · split at h
      · cases h
      · cases h
      · have heq := Except.ok.inj h
        exact (MegolmResult.event.inj heq).2.1.symm
    · cases h
  · cases h

/-- An event is refused before its index is looked at, or its index is recorded. -/
theorem decryptMegolmEvent_cases (roomId : Option Str) :
    ((v.decryptMegolmEvent lib s event roomId).1.messageIndexStore = s.messageIndexStore ∧
      ∃ e, (v.decryptMegolmEvent lib s event roomId).2 = .error e) ∨
    ∃ session index, v.decryptsWith lib event roomId = some (session, index) ∧
      (v.decryptMegolmEvent lib s event roomId).1.messageIndexStore =
        (s.messageIndexStore.record messageIndexStoreSize
          (event.senderKey, event.sessionId, index) (event.eventId, event.serverTimestamp)).2 ∧
      ∀ result, (v.decryptMegolmEvent lib s event roomId).2 = .ok result →
        (s.messageIndexStore.record messageIndexStoreSize
          (event.senderKey, event.sessionId, index) (event.eventId, event.serverTimestamp)).1 =
          (event.eventId, event.serverTimestamp) ∧
        (result.verified = true → v.IsOwn event session ∨
          session.forwardingChain = [] ∧ FromVerified v event session) ∧
        (v.IsOwn event session → ∀ e b i j k, result = .event e b i j k → b = true) := by
  unfold MegolmView.decryptMegolmEvent MegolmView.decryptsWith
  cases hroom : MegolmView.roomOf event roomId with
  | none => exact Or.inl ⟨rfl, _, rfl⟩
  | some room =>
    dsimp only
    by_cases hempty : event.senderKey = [] ∨ event.sessionId = []
    · rw [if_pos hempty]
      exact Or.inl ⟨rfl, _, rfl⟩
    rw [if_neg hempty]
    cases hget : v.inboundGroupStore.get lib room event.senderKey event.sessionId with
    | none => exact Or.inl ⟨checkIfWedged_store, _, rfl⟩
    | some session =>
      dsimp only
      cases hdecrypt : v.decrypt session.session event.ciphertext with
      | none => exact Or.inl ⟨rfl, _, rfl⟩
      | some decrypted =>
        obtain ⟨plaintext, index⟩ := decrypted
        refine Or.inr ⟨session, index, ?_, ?_⟩
        · simp [hget, hdecrypt]
        · dsimp only
          -- from here on the index is recorded, whether the event is returned or not
          generalize hindex : (event.senderKey, event.sessionId, index) = k
          have hstore := @messageIndexOk_store s event k
          have hfresh := @messageIndexOk_iff s event k
          cases hok : MegolmView.messageIndexOk s k event with
          | mk s' fresh =>
          rw [hok] at hstore hfresh
          cases fresh with
          | false =>
            refine ⟨hstore, fun result h => ?_⟩
            cases h
          | true =>
            have hknown := hfresh.mp rfl
            have hverify : (v.verify s' event session).1.messageIndexStore =
                s'.messageIndexStore := verify_store session
            dsimp only
            rw [if_neg (show ¬(!true) = true by decide)]
            cases hv : v.verify s' event session with
            | mk s'' flag =>
              rw [hv] at hverify
              cases flag with
              | error e =>
                refine ⟨hverify.trans hstore, fun result h => ?_⟩
                cases h
              | ok verified =>
                refine ⟨hverify.trans hstore, fun result h => ⟨hknown, fun hr => ?_, ?_⟩⟩
                · cases result with
                  | bad e => cases hr
                  | event e b i j k =>
                    refine verify_eq_true (s := s') ?_
                    rw [hv, ← flag_eventOf h]
                    exact congrArg Except.ok hr
                · rintro hown e b i j k rfl
                  have hself := verify_own (s := s') hown
                  rw [hv] at hself
                  exact (flag_eventOf h).trans (Except.ok.inj hself)

/-! ## Runs -/

variable {steps : List (MegolmStep ρ)}

/-- What an event that decrypts leaves in the store of message indices -/
theorem recorded_step {keys : List MessageIndex} {step : MegolmStep ρ}
    (hkeeps : LruCache.Keeps messageIndexStoreSize keys s.messageIndexStore)
    (hkey : ∀ k ∈ step.usedIndex lib, k ∈ keys) :
    let r := step.view.decryptMegolmEvent lib s step.event step.roomId
    LruCache.Keeps messageIndexStoreSize keys r.1.messageIndexStore ∧
    (∀ k p, lookup Prod.fst k s.messageIndexStore = some p →
      lookup Prod.fst k r.1.messageIndexStore = some p) ∧
    ∀ result, r.2 = .ok result → ∃ k ∈ step.usedIndex lib,
      lookup Prod.fst k r.1.messageIndexStore =
        some (k, step.event.eventId, step.event.serverTimestamp) := by
  intro r
  rcases @decryptMegolmEvent_cases ρ lib step.view s step.event step.roomId with
    ⟨hstore, e, he⟩ | ⟨session, index, hsession, hstore, hok⟩
  · rw [hstore]
    refine ⟨hkeeps, fun _ _ => id, fun result h => ?_⟩
    cases he.symm.trans h
  · have hused : step.usedIndex lib = some (step.event.senderKey, step.event.sessionId, index) := by
      rw [MegolmStep.usedIndex, hsession]
      rfl
    have hin := hkey _ hused
    rw [hstore]
    refine ⟨LruCache.keeps_record hkeeps hin _,
      fun k p hp => LruCache.lookup_record_of_some hkeeps hin _ hp, fun result h => ?_⟩
    refine ⟨_, hused, ?_⟩
    rw [LruCache.lookup_record hkeeps hin, if_pos rfl, (hok result h).1]

/-- The indices of all events that decrypt in a run are found at its end. -/
theorem recorded_run {keys : List MessageIndex}
    (hkeeps : LruCache.Keeps messageIndexStoreSize keys s.messageIndexStore)
    (hkeys : ∀ step ∈ steps, ∀ k ∈ step.usedIndex lib, k ∈ keys) :
    ∃ store : LruCache MessageIndex (Str × Int),
      (∀ k p, lookup Prod.fst k s.messageIndexStore = some p → lookup Prod.fst k store = some p) ∧
      ∀ q ∈ decryptMegolmEvents lib s steps, q.2.isOk → ∃ k ∈ q.1.usedIndex lib,
        lookup Prod.fst k store = some (k, q.1.event.eventId, q.1.event.serverTimestamp) := by
  induction steps generalizing s with
  | nil =>
    refine ⟨s.messageIndexStore, fun _ _ => id, fun q hq => ?_⟩
    cases hq
  | cons step steps ih =>
    obtain ⟨hkeeps', hstays, hfound⟩ :=
      recorded_step hkeeps (hkeys step List.mem_cons_self)
    obtain ⟨store, hstore, hall⟩ :=
      ih hkeeps' fun step' hstep' => hkeys step' (List.mem_cons_of_mem _ hstep')
    refine ⟨store, fun k p hp => hstore k p (hstays k p hp), fun q hq hok => ?_⟩
    rcases List.mem_cons.mp hq with heq | hq
    · rw [heq] at hok ⊢
      change (step.view.decryptMegolmEvent lib s step.event step.roomId).2.isOk at hok
      cases hr : (step.view.decryptMegolmEvent lib s step.event step.roomId).2 with
      | error e =>
        rw [hr] at hok
        cases hok
      | ok result =>
        obtain ⟨k, hk, hp⟩ := hfound result hr
        exact ⟨k, hk, hstore k _ hp⟩
    · exact hall q hq hok

/-- A run that uses no more message indices than there is room for admits no replay. -/
theorem no_replay
    (hfew : (steps.filterMap (MegolmStep.usedIndex lib)).dedup.length ≤ messageIndexStoreSize) :
    NoReplay lib (decryptMegolmEvents lib .fresh steps) := by
  have hkeeps : LruCache.Keeps messageIndexStoreSize (steps.filterMap (MegolmStep.usedIndex lib))
      MegolmState.fresh.messageIndexStore :=
    ⟨List.nodup_nil, List.nil_subset _, hfew⟩
  have hused : ∀ step ∈ steps, ∀ k ∈ step.usedIndex lib,
      k ∈ steps.filterMap (MegolmStep.usedIndex lib) := by
    intro step hstep k hk
    exact List.mem_filterMap.mpr ⟨step, hstep, hk⟩
  obtain ⟨store, -, hall⟩ := recorded_run hkeeps hused
  intro p hp p' hp' hok hok' hsame
  obtain ⟨k, hk, hfound⟩ := hall p hp hok
  obtain ⟨k', hk', hfound'⟩ := hall p' hp' hok'
  -- both events were recorded under one index
  have hkk : k = k' := Option.some.inj (hk.symm.trans (hsame.trans hk'))
  rw [hkk, hfound'] at hfound
  have hpair := Option.some.inj hfound
  simp only [Prod.mk.injEq] at hpair
  exact ⟨hpair.2.1.symm, hpair.2.2.symm⟩

/-- The events of a run are decrypted one by one. -/
theorem mem_decryptMegolmEvents {q : MegolmStep ρ × Except MegolmError MegolmResult}
    (hq : q ∈ decryptMegolmEvents lib s steps) :
    ∃ s', q.2 = (q.1.view.decryptMegolmEvent lib s' q.1.event q.1.roomId).2 := by
  induction steps generalizing s with
  | nil => cases hq
  | cons step steps ih =>
    rcases List.mem_cons.mp hq with rfl | hq
    · exact ⟨s, rfl⟩
    · exact ih hq

/-- In a run that uses fewer message indices than there is room for, no event is replayed; and an
event that is returned is only verified as it should be, exactly when it is not one of this device
that a forwarded session decrypted. -/
theorem megolm_sound (lib : Vodozemac ρ) (steps : List (MegolmStep ρ))
    (hfew : (steps.filterMap (MegolmStep.usedIndex lib)).dedup.length < messageIndexStoreSize) :
    NoReplay lib (decryptMegolmEvents lib .fresh steps) ∧
    ∀ q ∈ decryptMegolmEvents lib .fresh steps, ∀ result, q.2 = .ok result →
      (¬OwnForwarded lib q.1 → FlagSound lib q.1 result) ∧
      ∀ e b i j k, result = .event e b i j k → OwnForwarded lib q.1 →
        ¬FlagSound lib q.1 result := by
  refine ⟨no_replay hfew.le, fun q hq result hresult => ?_⟩
  obtain ⟨s, hs⟩ := mem_decryptMegolmEvents hq
  rw [hresult] at hs
  rcases @decryptMegolmEvent_cases ρ lib q.1.view s q.1.event q.1.roomId with
    ⟨-, e, he⟩ | ⟨session, index, hsession, -, hok⟩
  · cases hs.trans he
  obtain ⟨-, hverified, hflag⟩ := hok result hs.symm
  constructor
  · intro hnot hv
    refine ⟨session, index, hsession, ?_⟩
    rcases hverified hv with hown | ⟨hchain, hfrom⟩
    · by_cases hchain : session.forwardingChain = []
      · exact ⟨hchain, Or.inl hown⟩
      · exact absurd ⟨session, index, hsession, hown, hchain⟩ hnot
    · exact ⟨hchain, Or.inr hfrom⟩
  · rintro e b i j k rfl ⟨session', index', hsession', hown, hchain⟩ hsound
    obtain ⟨rfl, rfl⟩ := Prod.mk.inj (Option.some.inj (hsession.symm.trans hsession'))
    have hb : b = true := hflag hown e b i j k rfl
    obtain ⟨session'', index'', hsession'', hempty, -⟩ := hsound hb
    obtain ⟨rfl, -⟩ := Prod.mk.inj (Option.some.inj (hsession.symm.trans hsession''))
    exact hchain hempty

/-! ## A replay, and an own session that was forwarded -/

/-- A device of Bob sends a session. -/
def sessionOfBob : GroupSessions Nat :=
  run (GroupSessions.step unaryLibrary) (.fresh (py "@me:x") (py "c") (py "e") 1)
    [.roomKey (py "curve") ⟨py "m.megolm.v1.aes-sha2", some (py "ed"), py "!a:x", py "Sxx", py "kk"⟩]

/-- An event of Bob, whose device is verified. The library finds the message index 0 in it. -/
def bobsEvent (eventId : String) : MegolmStep Nat where
  view :=
    { userId := py "@me:x", deviceId := py "ME", curve25519 := py "c", ed25519 := py "e"
      inboundGroupStore := sessionOfBob.inboundGroupStore
      deviceStore := [⟨py "@bob:x", py "D", ⟨py "ed", py "curve"⟩, .str [], false, .verified⟩]
      isDeviceVerified := fun device => device.trustState = .verified
      decrypt := fun _ ciphertext => some (ciphertext, 0)
      recentSession := fun _ => none, outgoingKeyRequests := [], wedgedDevices := [] }
  event :=
    { source := .obj [(py "content", .obj [])], eventId := py eventId, sender := py "@bob:x"
      serverTimestamp := 1, senderKey := py "curve", sessionId := py "Sxx", deviceId := py "D"
      ciphertext := py "\x7b\"type\":\"a\",\"content\":\x7b\x7d\x7d", roomId := none
      transactionId := none }
  roomId := some (py "!a:x")

/-- The second event comes with the message index of the first, which then comes once more. -/
def replayed : List (MegolmStep Nat) := [bobsEvent "$a", bobsEvent "$b", bobsEvent "$a"]

theorem not_ownForwarded_bobsEvent (eventId : String) :
    ¬OwnForwarded unaryLibrary (bobsEvent eventId) := by
  rintro ⟨session, index, -, hown, -⟩
  have hsender : py "@bob:x" = py "@me:x" := hown.1
  exact absurd hsender (by decide)

/-- The replay is refused, and the event of the verified device is verified both times. -/
theorem megolm_sound_replayed :
    (decryptMegolmEvents unaryLibrary .fresh replayed).map
        (fun q => q.2.toOption.map MegolmResult.verified) = [some true, none, some true] ∧
    NoReplay unaryLibrary (decryptMegolmEvents unaryLibrary .fresh replayed) ∧
    ∀ q ∈ decryptMegolmEvents unaryLibrary .fresh replayed, ∀ result, q.2 = .ok result →
      FlagSound unaryLibrary q.1 result := by
  obtain ⟨hreplay, hflag⟩ := megolm_sound unaryLibrary replayed (by decide +kernel)
  refine ⟨by decide +kernel, hreplay, fun q hq result hresult => ?_⟩
  refine (hflag q hq result hresult).1 ?_
  rcases List.mem_cons.mp hq with rfl | hq
  · exact not_ownForwarded_bobsEvent _
  rcases List.mem_cons.mp hq with rfl | hq
  · exact not_ownForwarded_bobsEvent _
  · obtain rfl := List.mem_singleton.mp hq
    exact not_ownForwarded_bobsEvent _

/-- An own device forwards a session of this device that was lost. -/
def ownSessionForwarded : GroupSessions Nat :=
  run (GroupSessions.step unaryLibrary) (.fresh (py "@me:x") (py "curve") (py "ed") 1)
    [.keyRequest ⟨py "Sxx", py "Sxx", py "!a:x", py "m.megolm.v1.aes-sha2"⟩,
      .forwardedRoomKey ⟨py "m.megolm.v1.aes-sha2", py "!a:x", py "Sxx", py "kk", py "curve",
        py "ed", []⟩ (some ⟨py "@me:x", true⟩)]

/-- An event that comes back to the device which sent it; its ciphertext is its plaintext. -/
def ownEvent : MegolmStep Nat where
  view :=
    { userId := py "@me:x", deviceId := py "ME", curve25519 := py "curve", ed25519 := py "ed"
      inboundGroupStore := ownSessionForwarded.inboundGroupStore
      deviceStore := [], isDeviceVerified := fun _ => false
      decrypt := fun _ ciphertext => some (ciphertext, 0)
      recentSession := fun _ => none, outgoingKeyRequests := [], wedgedDevices := [] }
  event :=
    { source := .obj [(py "content", .obj [])], eventId := py "$a", sender := py "@me:x"
      serverTimestamp := 1, senderKey := py "curve", sessionId := py "Sxx", deviceId := py "ME"
      ciphertext := py "\x7b\"type\":\"a\",\"content\":\x7b\x7d\x7d", roomId := none
      transactionId := none }
  roomId := some (py "!a:x")

/-- The event is verified although its session was forwarded. -/
theorem own_forwarded_verified :
    ∃ result, (ownEvent.view.decryptMegolmEvent unaryLibrary .fresh ownEvent.event
        ownEvent.roomId).2 = .ok result ∧ ¬FlagSound unaryLibrary ownEvent result := by
  have hverified : ((ownEvent.view.decryptMegolmEvent unaryLibrary .fresh ownEvent.event
      ownEvent.roomId).2.toOption.map MegolmResult.verified) = some true := by decide +kernel
  have hchain : (ownEvent.view.decryptsWith unaryLibrary ownEvent.event ownEvent.roomId).map
      (fun p => p.1.forwardingChain) = some [py "curve"] := by decide +kernel
  unfold FlagSound
  generalize ownEvent.view.decryptsWith unaryLibrary ownEvent.event ownEvent.roomId = found
    at hchain
  generalize (ownEvent.view.decryptMegolmEvent unaryLibrary .fresh ownEvent.event
    ownEvent.roomId).2 = r at hverified
  cases r with
  | error e => cases hverified
  | ok result =>
    refine ⟨result, rfl, fun hsound => ?_⟩
    obtain ⟨session, index, rfl, hempty, -⟩ := hsound (Option.some.inj hverified)
    have hchain : session.forwardingChain = [py "curve"] := Option.some.inj hchain
    rw [hempty] at hchain
    cases hchain

end Nio.Crypto
