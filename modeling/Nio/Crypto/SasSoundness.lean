import Nio.Crypto.Sas

/-!
# What a verified session proves

A session that reaches `mac_received` has checked the other device's key, unless the MAC event that
brought it there named no key of that device: after the loop `receive_mac_event` cancels such a
session but goes on to overwrite the state.

* `Sas.step_cases` — what one call can do
* `Sas.sound_run` — a session that never took such an event is sound
* `Sas.verified_run` — what holds when it is verified
-/

namespace Nio.Crypto

open Nio.Py
open Nio.Store (OlmDevice)

variable {L : SasLibrary}

/-! ## Calls -/

/-- A call on a session, with what the library and the clock answer. -/
inductive SasCall (L : SasLibrary) where
  | receiveAccept (event : KeyVerificationAccept)
  | receiveKey (event : KeyVerificationKey) (diffieHellman : Option L.Established)
  | receiveMac (event : KeyVerificationMac)
  | acceptSas
  | rejectSas
  | cancel
  | timedOut (now : Int)
  | acceptVerification

namespace Sas

/-- The object after a call; one that raises leaves it as it was. -/
def orSame (s : Sas L) : Except SasError (Sas L) → Sas L
  | .ok s' => s'
  | .error _ => s

def step (s : Sas L) : SasCall L → Sas L
  | .receiveAccept event => s.receiveAcceptEvent event
  | .receiveKey event dh => s.orSame (s.receiveKeyEvent event dh)
  | .receiveMac event => s.orSame (s.receiveMacEvent event)
  | .acceptSas => s.orSame s.acceptSas
  | .rejectSas => s.orSame s.rejectSas
  | .cancel => s.cancel
  | .timedOut now => (s.timedOut now).2
  | .acceptVerification => s.orSame (s.acceptVerification.map (·.2))

def run (s : Sas L) (calls : List (SasCall L)) : Sas L := calls.foldl step s

/-! ## What a MAC event shows -/

def otherKeyId (s : Sas L) : Str := py "ed25519:" ++ s.otherOlmDevice.deviceId

/-- The event belongs to the session and its MAC of the key ids is right. -/
def Addressed (s : Sas L) (established : L.Established) (e : KeyVerificationMac) : Prop :=
  e.transactionId = .str s.transactionId ∧ e.sender = s.otherOlmDevice.userId ∧
    calculateMac established (keyIds e.mac) (s.macInfo ++ py "KEY_IDS") = .ok e.keys

/-- The event authenticates the fingerprint key that is stored for the other device. -/
def Accepts (s : Sas L) (e : KeyVerificationMac) : Prop :=
  ∃ established, s.establishedSas = some established ∧ s.Addressed established e ∧
    ∃ mac, calculateMac established s.otherOlmDevice.ed25519 (s.macInfo ++ s.otherKeyId) = .ok mac ∧
      (s.otherKeyId, Json.str mac) ∈ e.mac

/-- The event passes every check before the loop, and each of its keys belongs to some other device
of that user. -/
def OmitsDevice (s : Sas L) (e : KeyVerificationMac) : Prop :=
  s.state = .keyReceived ∧ s.chosenMacMethod ≠ [] ∧
    (∃ established, s.establishedSas = some established ∧ s.Addressed established e) ∧
    ∀ p ∈ e.mac, ∃ device, split (chr ':') 2 p.1 = [py "ed25519", device] ∧
      device ≠ s.otherOlmDevice.deviceId

/-- The identity of the session, and a shared secret once there is one, never change. -/
structure Follows (s s' : Sas L) : Prop where
  ownUser : s'.ownUser = s.ownUser
  ownDevice : s'.ownDevice = s.ownDevice
  otherOlmDevice : s'.otherOlmDevice = s.otherOlmDevice
  transactionId : s'.transactionId = s.transactionId
  establishedSas : ∀ k, s.establishedSas = some k → s'.establishedSas = some k

theorem Follows.refl (s : Sas L) : Follows s s := ⟨rfl, rfl, rfl, rfl, fun _ h => h⟩

theorem Follows.cancelWith {s s' : Sas L} (h : Follows s s') (error : CancelError) :
    Follows s (s'.cancelWith error) := ⟨h.1, h.2, h.3, h.4, h.5⟩

theorem Follows.macInfo {s s' : Sas L} (h : Follows s s') : s'.macInfo = s.macInfo := by
  simp only [Sas.macInfo, h.ownUser, h.ownDevice, h.otherOlmDevice, h.transactionId]

/-- What was accepted before is accepted by every state that follows. -/
theorem Accepts.follows {s s' : Sas L} {e : KeyVerificationMac} (ha : Accepts s e)
    (h : Follows s s') : Accepts s' e := by
  obtain ⟨k, hk, ⟨ht, hs, hkeys⟩, mac, hmac, hmem⟩ := ha
  refine ⟨k, h.establishedSas k hk, ⟨?_, ?_, ?_⟩, mac, ?_, ?_⟩
  · rw [ht, h.transactionId]
  · rw [hs, h.otherOlmDevice]
  · rw [h.macInfo]
    exact hkeys
  · rw [h.macInfo, otherKeyId, h.otherOlmDevice]
    exact hmac
  · rw [otherKeyId, h.otherOlmDevice]
    exact hmem

/-! ## The loop over the keys -/

/-- Two parts are joined by their separator. -/
theorem split_two {sep : CodePoint} {s a b : Str} (h : split sep 2 s = [a, b]) :
    s = a ++ sep :: b := by
  have hdrop : ∀ (t : Str) (c : CodePoint) (rest : Str), t.dropWhile (· ≠ sep) = c :: rest →
      c = sep := by
    intro t c rest ht
    induction t with
    | nil => cases ht
    | cons x t ih =>
      rw [List.dropWhile_cons] at ht
      split at ht
      · exact ih ht
      · next hx =>
        rw [← (List.cons.inj ht).1]
        simpa using hx
  rw [split] at h
  split at h
  · cases h
  · next c rest hc =>
    obtain rfl := hdrop s c rest hc
    obtain ⟨ha, htail⟩ := List.cons.inj h
    rw [split] at htail
    split at htail
    · obtain rfl := (List.cons.inj htail).1
      rw [← ha, ← hc]
      exact (List.takeWhile_append_dropWhile).symm
    · cases htail

/-- What the loop leaves when it runs to its end. -/
theorem checkMacs_ok {established : L.Established} {info : Str} {mac : List (Str × Json)} :
    ∀ {s s' : Sas L}, s.checkMacs established info mac = .finished s' →
    s' = { s with verifiedDevices := s'.verifiedDevices } ∧
    ((s'.verifiedDevices = s.verifiedDevices ∧
        ∀ p ∈ mac, ∃ device, split (chr ':') 2 p.1 = [py "ed25519", device] ∧
          device ≠ s.otherOlmDevice.deviceId) ∨
      (s.otherOlmDevice.deviceId ∈ s'.verifiedDevices ∧
        ∃ keyMac, calculateMac established s.otherOlmDevice.ed25519 (info ++ s.otherKeyId) = .ok keyMac ∧
          (s.otherKeyId, Json.str keyMac) ∈ mac)) := by
  induction mac with
  | nil =>
    intro s s' h
    obtain rfl := MacLoop.finished.inj h
    exact ⟨rfl, Or.inl ⟨rfl, fun p hp => nomatch hp⟩⟩
  | cons q rest ih =>
    obtain ⟨keyId, keyMac⟩ := q
    intro s s' h
    simp only [checkMacs] at h
    split at h
    · next keyType deviceId hsplit =>
      split at h
      · cases h
      · next htype =>
        rw [not_not] at htype
        subst htype
        split at h
        · next hdev =>
          obtain ⟨hs, hcases⟩ := ih h
          refine ⟨hs, ?_⟩
          rcases hcases with ⟨hv, hall⟩ | ⟨hmem, m, hmac, hin⟩
          · refine Or.inl ⟨hv, fun p hp => ?_⟩
            rcases List.mem_cons.mp hp with rfl | hp
            · exact ⟨deviceId, hsplit, hdev⟩
            · exact hall p hp
          · exact Or.inr ⟨hmem, m, hmac, List.mem_cons_of_mem _ hin⟩
        · next hdev =>
          rw [not_not] at hdev
          subst hdev
          split at h
          · cases h
          next m hcalc =>
          split at h
          · cases h
          · next hmac =>
            rw [not_not] at hmac
            obtain ⟨hs, hcases⟩ := ih h
            have hkey : keyId = s.otherKeyId := by
              rw [split_two hsplit, otherKeyId, show py "ed25519:" = py "ed25519" ++ [chr ':'] from rfl,
                List.append_assoc]
              rfl
            refine ⟨by rw [hs], Or.inr ⟨?_, ?_⟩⟩
            · rcases hcases with ⟨hv, -⟩ | ⟨hmem, -⟩
              · rw [hv]
                exact List.mem_append_right _ (List.mem_singleton.mpr rfl)
              · exact hmem
            · rw [hkey] at hcalc
              refine ⟨m, hcalc, ?_⟩
              rw [hmac, hkey]
              exact List.mem_cons_self
    · cases h

/-- A `return` inside the loop cancels. -/
theorem checkMacs_error {established : L.Established} {info : Str} {mac : List (Str × Json)} :
    ∀ {s s' : Sas L}, s.checkMacs established info mac = .returned s' →
    ∃ devices error, s' = ({ s with verifiedDevices := devices }).cancelWith error := by
  induction mac with
  | nil =>
    intro s s' h
    cases h
  | cons q rest ih =>
    obtain ⟨keyId, keyMac⟩ := q
    intro s s' h
    simp only [checkMacs] at h
    split at h
    · split at h
      · exact ⟨s.verifiedDevices, keyMismatchError, (MacLoop.returned.inj h).symm⟩
      · split at h
        · exact ih h
        · split at h
          · cases h
          · split at h
            · exact ⟨s.verifiedDevices, keyMismatchError, (MacLoop.returned.inj h).symm⟩
            · obtain ⟨devices, error, rfl⟩ := ih h
              exact ⟨devices, error, rfl⟩
    · exact ⟨s.verifiedDevices, invalidMessageError, (MacLoop.returned.inj h).symm⟩

/-! ## One call -/

/-- The call leaves the state, the verified devices and the user's acceptance alone. -/
structure Stays (s s' : Sas L) : Prop where
  follows : Follows s s'
  accepted : s'.sasAccepted = s.sasAccepted
  state : s'.state = s.state
  verifiedDevices : s'.verifiedDevices = s.verifiedDevices

theorem Stays.refl (s : Sas L) : Stays s s := ⟨.refl s, rfl, rfl, rfl⟩

/-- The call moves a session that is under way to another state before `mac_received`. -/
structure MovesOn (s s' : Sas L) : Prop where
  follows : Follows s s'
  accepted : s'.sasAccepted = s.sasAccepted
  before : s.state ≠ .canceled ∧ s.state ≠ .macReceived
  after : s'.state = .accepted ∨ s'.state = .keyReceived
  verifiedDevices : s'.verifiedDevices = s.verifiedDevices

/-- The call cancels. -/
structure Cancels (s s' : Sas L) : Prop where
  follows : Follows s s'
  accepted : s'.sasAccepted = s.sasAccepted
  state : s'.state = .canceled

theorem cancels_cancelWith (s : Sas L) (error : CancelError) : Cancels s (s.cancelWith error) :=
  ⟨(Follows.refl s).cancelWith error, rfl, rfl⟩

/-- The call takes a MAC event to its end. -/
structure TakesMac (s s' : Sas L) (e : KeyVerificationMac) : Prop where
  follows : Follows s s'
  accepted : s'.sasAccepted = s.sasAccepted
  before : s.state = .keyReceived
  after : s'.state = .macReceived
  checked : (s.otherOlmDevice.deviceId ∈ s'.verifiedDevices ∧ Accepts s e) ∨
    (s'.verifiedDevices = s.verifiedDevices ∧ OmitsDevice s e)

/-- An event is refused, with or without a cancel, or goes on with the state. -/
theorem eventOk_cases (s : Sas L) (sender : Str) (transactionId : Json) :
    (∃ s', s.eventOk sender transactionId = (false, s') ∧ (Stays s s' ∨ Cancels s s')) ∨
    (s.eventOk sender transactionId = (true, s) ∧ s.state ≠ .canceled ∧
      transactionId = .str s.transactionId ∧ sender = s.otherOlmDevice.userId) := by
  unfold eventOk
  split
  · exact Or.inl ⟨s, rfl, Or.inl (.refl s)⟩
  · next hstate =>
    split
    · exact Or.inl ⟨_, rfl, Or.inr (cancels_cancelWith s _)⟩
    · next htx =>
      split
      · exact Or.inl ⟨_, rfl, Or.inr (cancels_cancelWith s _)⟩
      · next hsender => exact Or.inr ⟨rfl, hstate, not_not.mp htx, (not_not.mp hsender).symm⟩

/-- An accept event cancels, moves on or does nothing. -/
theorem receiveAcceptEvent_cases (s : Sas L) (e : KeyVerificationAccept) :
    Stays s (s.receiveAcceptEvent e) ∨ Cancels s (s.receiveAcceptEvent e) ∨
      MovesOn s (s.receiveAcceptEvent e) := by
  unfold receiveAcceptEvent
  rcases s.eventOk_cases e.sender (.str e.transactionId) with ⟨s', h, hs'⟩ | ⟨h, hstate, -, -⟩
  · rw [h]
    exact hs'.elim Or.inl fun h => Or.inr (Or.inl h)
  · rw [h]
    simp only
    split
    · exact Or.inr (Or.inl (cancels_cancelWith s _))
    · next hcreated =>
      rw [not_not] at hcreated
      split
      · exact Or.inr (Or.inl (cancels_cancelWith s _))
      · refine Or.inr (Or.inr ⟨⟨rfl, rfl, rfl, rfl, fun _ h => h⟩, rfl, ⟨hstate, ?_⟩, Or.inl rfl,
          rfl⟩)
        rw [hcreated]
        exact SasState.noConfusion

/-- So does a key event. -/
theorem receiveKeyEvent_cases (s : Sas L) (e : KeyVerificationKey) (dh : Option L.Established) :
    Stays s (s.orSame (s.receiveKeyEvent e dh)) ∨ Cancels s (s.orSame (s.receiveKeyEvent e dh)) ∨
      MovesOn s (s.orSame (s.receiveKeyEvent e dh)) := by
  unfold receiveKeyEvent
  split
  · exact Or.inr (Or.inl (cancels_cancelWith s _))
  · next hnew =>
    rw [not_or] at hnew
    obtain ⟨hnone, hbefore⟩ := hnew
    rcases s.eventOk_cases e.sender (.str e.transactionId) with ⟨s', h, hs'⟩ | ⟨h, hstate, -, -⟩
    · rw [h]
      exact hs'.elim Or.inl fun h => Or.inr (Or.inl h)
    · rw [h]
      simp only
      split
      · exact Or.inl (.refl s)
      · exact Or.inr (Or.inl (cancels_cancelWith s _))
      · cases dh with
        | none => exact Or.inl (.refl s)
        | some k =>
          refine Or.inr (Or.inr ⟨⟨rfl, rfl, rfl, rfl, fun k' hk' => ?_⟩, rfl, ⟨hstate, ?_⟩,
            Or.inr rfl, rfl⟩)
          · rw [hk'] at hnone
            exact absurd rfl hnone
          · intro hmac
            rw [hmac] at hbefore
            exact hbefore ⟨SasState.noConfusion, SasState.noConfusion⟩

/-- A MAC event is taken, cancels or does nothing. -/
theorem receiveMacEvent_cases (s : Sas L) (e : KeyVerificationMac) :
    Stays s (s.orSame (s.receiveMacEvent e)) ∨ Cancels s (s.orSame (s.receiveMacEvent e)) ∨
      TakesMac s (s.orSame (s.receiveMacEvent e)) e := by
  unfold receiveMacEvent
  split
  · exact Or.inl (.refl s)
  · rcases s.eventOk_cases e.sender e.transactionId with ⟨s', h, hs'⟩ | ⟨h, -, htx, hsender⟩
    · rw [h]
      exact hs'.elim Or.inl fun h => Or.inr (Or.inl h)
    · rw [h]
      simp only
      split
      · exact Or.inr (Or.inl (cancels_cancelWith s _))
      · next hstate =>
        rw [not_not] at hstate
        split
        · exact Or.inl (.refl s)
        · next k hk =>
          split
          · exact Or.inl (.refl s)
          · next hmethod =>
            split
            · exact Or.inl (.refl s)
            next keys hcalc =>
            split
            · exact Or.inr (Or.inl (cancels_cancelWith s _))
            · next hkeys =>
              rw [not_not] at hkeys
              rw [← hkeys] at hcalc
              have haddr : s.Addressed k e := ⟨htx, hsender, hcalc⟩
              split
              · exact Or.inl (.refl s)
              · next s' hloop =>
                obtain ⟨devices, error, rfl⟩ := checkMacs_error hloop
                exact Or.inr (Or.inl ⟨⟨rfl, rfl, rfl, rfl, fun _ h => h⟩, rfl, rfl⟩)
              · next s' hloop =>
                obtain ⟨hs, hcases⟩ := checkMacs_ok hloop
                have hdevices : (if s'.verifiedDevices = [] then s'.cancelWith keyMismatchError
                    else s').verifiedDevices = s'.verifiedDevices := by
                  split <;> rfl
                have haccepted : (if s'.verifiedDevices = [] then s'.cancelWith keyMismatchError
                    else s').sasAccepted = s.sasAccepted := by
                  rw [hs]
                  split <;> rfl
                have hfollows : Follows s (if s'.verifiedDevices = [] then
                    s'.cancelWith keyMismatchError else s') := by
                  have : Follows s s' := by
                    rw [hs]
                    exact ⟨rfl, rfl, rfl, rfl, fun _ h => h⟩
                  split
                  · exact this.cancelWith _
                  · exact this
                refine Or.inr (Or.inr ⟨⟨hfollows.1, hfollows.2, hfollows.3, hfollows.4,
                  hfollows.5⟩, haccepted, hstate, rfl, ?_⟩)
                simp only [orSame, hdevices]
                rcases hcases with ⟨hv, hall⟩ | ⟨hmem, hmac⟩
                · exact Or.inr ⟨hv, hstate, hmethod, ⟨k, hk, haddr⟩, hall⟩
                · exact Or.inl ⟨hmem, k, hk, haddr, hmac⟩

/-- What one call can do to a session. -/
theorem step_cases (s : Sas L) (c : SasCall L) :
    Stays s (s.step c) ∨ Cancels s (s.step c) ∨ MovesOn s (s.step c) ∨
      (∃ e, c = .receiveMac e ∧ TakesMac s (s.step c) e) ∨
      (c = .acceptSas ∧ s.step c = { s with sasAccepted := true }) := by
  cases c with
  | receiveAccept e =>
    rcases s.receiveAcceptEvent_cases e with h | h | h
    · exact Or.inl h
    · exact Or.inr (Or.inl h)
    · exact Or.inr (Or.inr (Or.inl h))
  | receiveKey e dh =>
    rcases s.receiveKeyEvent_cases e dh with h | h | h
    · exact Or.inl h
    · exact Or.inr (Or.inl h)
    · exact Or.inr (Or.inr (Or.inl h))
  | receiveMac e =>
    rcases s.receiveMacEvent_cases e with h | h | h
    · exact Or.inl h
    · exact Or.inr (Or.inl h)
    · exact Or.inr (Or.inr (Or.inr (Or.inl ⟨e, rfl, h⟩)))
  | acceptSas =>
    simp only [step, acceptSas]
    split
    · exact Or.inl (.refl s)
    · split
      · exact Or.inl (.refl s)
      · exact Or.inr (Or.inr (Or.inr (Or.inr ⟨trivial, rfl⟩)))
  | rejectSas =>
    simp only [step, rejectSas]
    split
    · exact Or.inl (.refl s)
    · exact Or.inr (Or.inl (cancels_cancelWith s _))
  | cancel => exact Or.inr (Or.inl (cancels_cancelWith s _))
  | timedOut now =>
    simp only [step, timedOut]
    split
    · exact Or.inl (.refl s)
    · split
      · exact Or.inr (Or.inl (cancels_cancelWith s _))
      · exact Or.inl (.refl s)
  | acceptVerification =>
    simp only [step, acceptVerification]
    split
    · exact Or.inl (.refl s)
    · split
      · exact Or.inl (.refl s)
      · exact Or.inl ⟨⟨rfl, rfl, rfl, rfl, fun _ h => h⟩, rfl, rfl, rfl⟩

/-! ## Runs -/

/-- The MAC events among the calls. -/
def macs (calls : List (SasCall L)) : List KeyVerificationMac :=
  calls.filterMap fun c => match c with | .receiveMac e => some e | _ => none

/-- What a session proves, given the MAC events that it has received. -/
structure Sound (received : List KeyVerificationMac) (s : Sas L) : Prop where
  /-- Only a MAC event that runs to its end adds to the verified devices. -/
  empty : s.state ≠ .macReceived → s.state ≠ .canceled → s.verifiedDevices = []
  authenticated : s.state = .macReceived →
    s.otherOlmDevice.deviceId ∈ s.verifiedDevices ∧ ∃ e ∈ received, Accepts s e

/-- A session as it is made: by this user, or on the request of the other device. -/
inductive Made : Sas L → Prop where
  | init (ownUser ownDevice ownFpKey : Str) (otherOlmDevice : OlmDevice)
      (transactionId pubkey : Str) (shortAuthString : List Str) (now : Int) :
      Made (.init ownUser ownDevice ownFpKey otherOlmDevice transactionId pubkey shortAuthString now)
  | start {ownUser ownDevice ownFpKey : Str} {otherOlmDevice : OlmDevice}
      {event : KeyVerificationStart} {pubkey uuid : Str} {now : Int} {s : Sas L}
      (h : fromKeyVerificationStart ownUser ownDevice ownFpKey otherOlmDevice event pubkey uuid now =
        .ok s) : Made s

/-- A new session is new or canceled, and nothing was accepted or verified. -/
theorem Made.cases {s : Sas L} (h : Made s) : s.state ≠ .macReceived ∧ s.sasAccepted = false ∧
    s.verifiedDevices = [] := by
  cases h with
  | init => exact ⟨SasState.noConfusion, rfl, rfl⟩
  | start h =>
    unfold fromKeyVerificationStart at h
    simp only at h
    split at h
    · cases h
    · split at h
      · obtain rfl := Except.ok.inj h
        exact ⟨SasState.noConfusion, rfl, rfl⟩
      · obtain rfl := Except.ok.inj h
        exact ⟨SasState.noConfusion, rfl, rfl⟩

theorem Made.sound {s : Sas L} (h : Made s) : Sound [] s :=
  ⟨fun _ _ => h.cases.2.2, fun hm => absurd hm h.cases.1⟩

/-- More events that were received justify as much. -/
theorem Sound.mono {received received' : List KeyVerificationMac} {s : Sas L}
    (h : Sound received s) (hsub : received ⊆ received') : Sound received' s := by
  refine ⟨h.empty, fun hm => ?_⟩
  obtain ⟨hmem, e, he, ha⟩ := h.authenticated hm
  exact ⟨hmem, e, hsub he, ha⟩

/-- The step lemma: a session stays sound unless a MAC event names no key of the other device. -/
theorem Sound.step {received : List KeyVerificationMac} {s : Sas L} (h : Sound received s)
    {c : SasCall L} (hc : ∀ e, c = .receiveMac e → ¬ OmitsDevice s e) :
    Sound (received ++ macs [c]) (s.step c) := by
  rcases s.step_cases c with hs | hs | hs | ⟨e, rfl, hs⟩ | ⟨-, hs⟩
  · refine ⟨fun h1 h2 => ?_, fun hm => ?_⟩
    · rw [hs.state] at h1 h2
      rw [hs.verifiedDevices]
      exact h.empty h1 h2
    · rw [hs.state] at hm
      obtain ⟨hmem, e, he, ha⟩ := h.authenticated hm
      rw [hs.verifiedDevices, hs.follows.otherOlmDevice]
      exact ⟨hmem, e, List.mem_append_left _ he, ha.follows hs.follows⟩
  · refine ⟨fun _ h2 => absurd hs.state h2, fun hm => ?_⟩
    rw [hs.state] at hm
    cases hm
  · refine ⟨fun _ _ => ?_, fun hm => ?_⟩
    · rw [hs.verifiedDevices]
      exact h.empty hs.before.2 hs.before.1
    · rcases hs.after with ha | ha <;> rw [ha] at hm <;> cases hm
  · refine ⟨fun h1 => absurd hs.after h1, fun _ => ?_⟩
    rcases hs.checked with ⟨hmem, ha⟩ | ⟨-, ho⟩
    · rw [hs.follows.otherOlmDevice]
      exact ⟨hmem, e, List.mem_append_right _ (List.mem_singleton.mpr rfl), ha.follows hs.follows⟩
    · exact absurd ho (hc e rfl)
  · rw [hs]
    refine ⟨h.empty, fun hm => ?_⟩
    obtain ⟨hmem, e, he, ha⟩ := h.authenticated hm
    exact ⟨hmem, e, List.mem_append_left _ he, ha.follows ⟨rfl, rfl, rfl, rfl, fun _ h => h⟩⟩

/-- No MAC event of the run meets a session that would take it although it names no key of the other
device. -/
def NeverOmits (s : Sas L) (calls : List (SasCall L)) : Prop :=
  ∀ before e after, calls = before ++ .receiveMac e :: after → ¬ OmitsDevice (s.run before) e

theorem NeverOmits.tail {s : Sas L} {c : SasCall L} {calls : List (SasCall L)}
    (h : NeverOmits s (c :: calls)) : NeverOmits (s.step c) calls := fun before e after heq =>
  h (c :: before) e after (by rw [heq, List.cons_append])

theorem macs_cons (c : SasCall L) (calls : List (SasCall L)) :
    macs (c :: calls) = macs [c] ++ macs calls :=
  @List.filterMap_append _ _ [c] calls _

/-- Every run is justified by the MAC events it received. -/
theorem sound_run {received : List KeyVerificationMac} {s : Sas L} (h : Sound received s)
    {calls : List (SasCall L)} (hc : NeverOmits s calls) :
    Sound (received ++ macs calls) (s.run calls) := by
  induction calls generalizing s received with
  | nil =>
    rw [show macs ([] : List (SasCall L)) = [] from rfl, List.append_nil]
    exact h
  | cons c calls ih =>
    have hstep := h.step (c := c) fun e he => hc [] e calls (by rw [he]; rfl)
    rw [macs_cons, ← List.append_assoc]
    exact ih hstep hc.tail

/-- A canceled session stays canceled. -/
theorem canceled_step {s : Sas L} (h : s.state = .canceled) (c : SasCall L) :
    (s.step c).state = .canceled := by
  rcases s.step_cases c with hs | hs | hs | ⟨e, -, hs⟩ | ⟨-, hs⟩
  · rw [hs.state, h]
  · exact hs.state
  · exact absurd h hs.before.1
  · rw [hs.before] at h
    cases h
  · rw [hs]
    exact h

/-- A canceled verification stays canceled. -/
theorem canceled_run {s : Sas L} (h : s.state = .canceled) (calls : List (SasCall L)) :
    (s.run calls).state = .canceled := by
  unfold run
  induction calls generalizing s with
  | nil => exact h
  | cons c calls ih => exact ih (canceled_step h c)

/-- Only the user accepts the short string. -/
theorem sasAccepted_run {s : Sas L} {calls : List (SasCall L)}
    (h : (s.run calls).sasAccepted = true) : s.sasAccepted = true ∨ SasCall.acceptSas ∈ calls := by
  unfold run at h
  induction calls generalizing s with
  | nil => exact Or.inl h
  | cons c calls ih =>
    rcases ih h with hstep | hmem
    · rcases s.step_cases c with hs | hs | hs | ⟨e, -, hs⟩ | ⟨rfl, -⟩
      · exact Or.inl (hs.accepted ▸ hstep)
      · exact Or.inl (hs.accepted ▸ hstep)
      · exact Or.inl (hs.accepted ▸ hstep)
      · exact Or.inl (hs.accepted ▸ hstep)
      · exact Or.inr List.mem_cons_self
    · exact Or.inr (List.mem_cons_of_mem _ hmem)

theorem run_append (s : Sas L) (before after : List (SasCall L)) :
    s.run (before ++ after) = (s.run before).run after := List.foldl_append

/-- What a verified session has behind it: an accepted MAC event for the other device's key, the
user's acceptance, and no cancellation. -/
structure Authenticated (s : Sas L) (calls : List (SasCall L)) : Prop where
  device : (s.run calls).otherOlmDevice.deviceId ∈ (s.run calls).verifiedDevices
  mac : ∃ e ∈ macs calls, Accepts (s.run calls) e
  user : SasCall.acceptSas ∈ calls
  notCanceled : ∀ before, before <+: calls → (s.run before).state ≠ .canceled

/-- A device is verified only by a MAC that was received and matched. -/
theorem verified_run {s : Sas L} (hmade : Made s) {calls : List (SasCall L)}
    (hc : NeverOmits s calls) (hv : (s.run calls).verified = true) : Authenticated s calls := by
  simp only [verified, Bool.and_eq_true, decide_eq_true_eq] at hv
  obtain ⟨hstate, haccepted⟩ := hv
  have hsound := sound_run hmade.sound hc
  rw [List.nil_append] at hsound
  obtain ⟨hdevice, hmac⟩ := hsound.authenticated hstate
  refine ⟨hdevice, hmac, ?_, ?_⟩
  · rcases sasAccepted_run haccepted with hinit | hmem
    · rw [hmade.cases.2.1] at hinit
      cases hinit
    · exact hmem
  · rintro before ⟨after, rfl⟩ hcanceled
    rw [run_append, canceled_run hcanceled] at hstate
    cases hstate

end Sas

end Nio.Crypto
