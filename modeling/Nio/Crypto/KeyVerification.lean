import Nio.Crypto.SasSoundness
import Nio.Py.Dict
import Mathlib.Data.List.Induction

/-!
# Verified devices

The Olm machine keeps the sessions by transaction id, hands them the events of the other devices
and marks a device as verified when its session is. A session holds the device object of the device
store, so that a key query which replaces the keys of the device changes them in the session too.

* `OlmMachine.sound_run` — every session of a run is sound
* `OlmMachine.verification_sound` — a verified session, and a device that was marked, has its stored
  fingerprint key authenticated
-/

namespace Nio.Crypto

open Nio.Py
open Nio.Store (OlmDevice)

variable {L : SasLibrary}

structure OlmMachine (L : SasLibrary) where
  userId : Str
  deviceId : Str
  /-- `account.identity_keys["ed25519"]` -/
  identityKey : Str
  deviceStore : List OlmDevice
  keyVerifications : List (Str × Sas L)
  usersForKeyQuery : List Str
  outgoingToDeviceMessages : List ToDeviceMessage
  /-- The devices that were marked as verified, as they were then. -/
  marked : List OlmDevice

/-- A key verification event, with what the library, `uuid4`, the clock and the trust store answer
while it is handled. -/
inductive KeyVerificationEvent (L : SasLibrary) where
  | start (event : KeyVerificationStart) (pubkey uuid : Str) (now : Int)
  | accept (event : KeyVerificationAccept)
  | key (event : KeyVerificationKey) (diffieHellman : Option L.Established)
  | mac (event : KeyVerificationMac) (trusted : Bool)
  | cancel (event : KeyVerificationCancel)

namespace OlmMachine

def device? (o : OlmMachine L) (userId deviceId : Str) : Option OlmDevice :=
  o.deviceStore.find? fun d => d.userId = userId ∧ d.deviceId = deviceId

def setSas (o : OlmMachine L) (transactionId : Str) (s : Sas L) : OlmMachine L :=
  { o with keyVerifications := dictSet o.keyVerifications transactionId s }

def send (o : OlmMachine L) (message : ToDeviceMessage) : OlmMachine L :=
  { o with outgoingToDeviceMessages := o.outgoingToDeviceMessages ++ [message] }

def verifyDevice (o : OlmMachine L) (device : OlmDevice) : OlmMachine L :=
  { o with marked := o.marked ++ [device] }

/-- The machine after a method, and what the method raised. -/
abbrev Result (L : SasLibrary) := OlmMachine L × Except SasError Unit

/-- Appending a message, unless making it raises. -/
def sendResult (o : OlmMachine L) : Except SasError ToDeviceMessage → Result L
  | .ok message => (o.send message, .ok ())
  | .error e => (o, .error e)

/-- `get_active_sas`, with the key of the session -/
def getActiveSas (o : OlmMachine L) (userId deviceId : Str) : Option (Str × Sas L) :=
  ((o.keyVerifications.filter fun p => !p.2.isCanceled).mergeSort
    fun p q => decide (q.2.creationTime ≤ p.2.creationTime)).find?
      fun p => p.2.otherOlmDevice.userId = userId ∧ p.2.otherOlmDevice.deviceId = deviceId

def handleStart (o : OlmMachine L) (event : KeyVerificationStart) (pubkey uuid : Str) (now : Int) :
    Result L :=
  match o.device? event.sender event.fromDevice with
  | none => ({ o with usersForKeyQuery := o.usersForKeyQuery ++ [event.sender] }, .ok ())
  | some device =>
    match Sas.fromKeyVerificationStart o.userId o.deviceId o.identityKey device event pubkey uuid
        now with
    | .error e => (o, .error e)
    | .ok newSas =>
      if newSas.isCanceled then o.sendResult newSas.getCancellation
      else
        match o.getActiveSas event.sender event.fromDevice with
        | none => (o.setSas event.transactionId newSas, .ok ())
        | some (transactionId, oldSas) =>
          let o := o.setSas transactionId oldSas.cancel
          match o.sendResult oldSas.cancel.getCancellation with
          | (o, .error e) => (o, .error e)
          | (o, .ok _) => (o.setSas event.transactionId newSas, .ok ())

def handleAccept (o : OlmMachine L) (event : KeyVerificationAccept) : Result L :=
  match dictGet? o.keyVerifications event.transactionId with
  | none => (o, .ok ())
  | some sas =>
    let sas := sas.receiveAcceptEvent event
    let o := o.setSas event.transactionId sas
    o.sendResult (if sas.isCanceled then sas.getCancellation else sas.shareKey)

def handleCancel (o : OlmMachine L) (event : KeyVerificationCancel) : Result L :=
  ({ o with keyVerifications := dictErase o.keyVerifications event.transactionId }, .ok ())

def handleKey (o : OlmMachine L) (event : KeyVerificationKey)
    (diffieHellman : Option L.Established) : Result L :=
  match dictGet? o.keyVerifications event.transactionId with
  | none => (o, .ok ())
  | some sas =>
    match sas.receiveKeyEvent event diffieHellman with
    | .error e => (o, .error e)
    | .ok sas =>
      let o := o.setSas event.transactionId sas
      if sas.isCanceled then o.sendResult sas.getCancellation
      else if ¬ sas.weStartedIt then o.sendResult sas.shareKey
      else (o, .ok ())

/-- `self.key_verifications.get(transaction_id)` for any JSON value -/
def getVerification (o : OlmMachine L) : Json → Except SasError (Option (Str × Sas L))
  | .str t => .ok ((dictGet? o.keyVerifications t).map fun s => (t, s))
  | .arr _ | .obj _ => .error .unhashable
  | _ => .ok none

def handleMac (o : OlmMachine L) (event : KeyVerificationMac) (trusted : Bool) : Result L :=
  match o.getVerification event.transactionId with
  | .error e => (o, .error e)
  | .ok none => (o, .ok ())
  | .ok (some (transactionId, sas)) =>
    match sas.receiveMacEvent event with
    | .error e => (o, .error e)
    | .ok sas =>
      let o := o.setSas transactionId sas
      if sas.isCanceled then o.sendResult sas.getCancellation
      else if sas.verified then
        if trusted then (o.verifyDevice sas.otherOlmDevice, .ok ()) else (o, .error .trust)
      else (o, .ok ())

def handleKeyVerification (o : OlmMachine L) : KeyVerificationEvent L → Result L
  | .start event pubkey uuid now => o.handleStart event pubkey uuid now
  | .accept event => o.handleAccept event
  | .key event dh => o.handleKey event dh
  | .mac event trusted => o.handleMac event trusted
  | .cancel event => o.handleCancel event

/-- `create_sas` for a device of the device store -/
def createSas (o : OlmMachine L) (device : OlmDevice) (pubkey uuid : Str) (now : Int) :
    OlmMachine L :=
  o.setSas uuid (.init o.userId o.deviceId o.identityKey device uuid pubkey [] now)

/-- `Client.confirm_key_verification` -/
def confirmKeyVerification (o : OlmMachine L) (transactionId : Str) :
    OlmMachine L × Except SasError ToDeviceMessage :=
  match dictGet? o.keyVerifications transactionId with
  | none => (o, .error (.noVerification transactionId))
  | some sas =>
    match sas.acceptSas with
    | .error e => (o, .error e)
    | .ok sas =>
      let o := o.setSas transactionId sas
      match sas.getMac with
      | .error e => (o, .error e)
      | .ok message => (if sas.verified then o.verifyDevice sas.otherOlmDevice else o, .ok message)

def maxSasLife : Int := 20 * 60 * 1000000

/-- The entries of `clear_verifications`: those that stay, and the cancellations to send. -/
def clearEntries (now : Int) : List (Str × Sas L) →
    List (Str × Sas L) × List (Except SasError ToDeviceMessage)
  | [] => ([], [])
  | (transactionId, sas) :: rest =>
    let (active, messages) := clearEntries now rest
    match sas.timedOut now with
    | (true, sas) => (active, sas.getCancellation :: messages)
    | (false, sas) =>
      if (sas.isCanceled || sas.verified) && now - sas.creationTime > maxSasLife then
        (active, messages)
      else ((transactionId, sas) :: active, messages)

def clearVerifications (o : OlmMachine L) (now : Int) : OlmMachine L :=
  let (active, messages) := clearEntries now o.keyVerifications
  { o with
    keyVerifications := active
    outgoingToDeviceMessages := o.outgoingToDeviceMessages ++
      messages.filterMap fun m => match m with | .ok message => some message | .error _ => none }

/-- A key query replaces the fingerprint key of a device: `replace_rotated_device_keys`. Sessions
hold the same device object. -/
def replaceKeys (o : OlmMachine L) (userId deviceId signingKey : Str) : OlmMachine L :=
  let replace (d : OlmDevice) : OlmDevice :=
    if d.userId = userId ∧ d.deviceId = deviceId then { d with ed25519 := signingKey } else d
  { o with
    deviceStore := o.deviceStore.map replace
    keyVerifications := o.keyVerifications.map fun p =>
      (p.1, { p.2 with otherOlmDevice := replace p.2.otherOlmDevice }) }

/-! ## Runs -/

end OlmMachine

inductive VerificationAction (L : SasLibrary) where
  | handle (event : KeyVerificationEvent L)
  | create (userId deviceId pubkey uuid : Str) (now : Int)
  | confirm (transactionId : Str)
  /-- The application uses the session itself. -/
  | call (transactionId : Str) (c : SasCall L)
  | clear (now : Int)
  | replaceKeys (userId deviceId signingKey : Str)

namespace OlmMachine

def step (o : OlmMachine L) : VerificationAction L → OlmMachine L
  | .handle event => (o.handleKeyVerification event).1
  | .create userId deviceId pubkey uuid now =>
    match o.device? userId deviceId with
    | none => o
    | some device => o.createSas device pubkey uuid now
  | .confirm transactionId => (o.confirmKeyVerification transactionId).1
  | .call transactionId c =>
    match dictGet? o.keyVerifications transactionId with
    | none => o
    | some sas => o.setSas transactionId (sas.step c)
  | .clear now => o.clearVerifications now
  | .replaceKeys userId deviceId signingKey => o.replaceKeys userId deviceId signingKey

def run (o : OlmMachine L) (actions : List (VerificationAction L)) : OlmMachine L :=
  actions.foldl step o

/-- The MAC events that an action brings. -/
def received : VerificationAction L → List KeyVerificationMac
  | .handle (.mac e _) => [e]
  | .call _ c => Sas.macs [c]
  | _ => []

/-- The session at the transaction id is in `mac_received`. -/
def HasMac (o : OlmMachine L) (transactionId : Str) : Bool :=
  o.keyVerifications.any fun p => p.1 = transactionId && p.2.state = .macReceived

/-- A key query changes the key of the device of a session that is in `mac_received`. -/
def Rotates (userId deviceId signingKey : Str) (s : Sas L) : Bool :=
  s.state = .macReceived && s.otherOlmDevice.userId = userId &&
    s.otherOlmDevice.deviceId = deviceId && s.otherOlmDevice.ed25519 ≠ signingKey

/-- The sessions whose device has another key, with those of a key query -/
def withRotated (o : OlmMachine L) (rotated : List Str) : VerificationAction L → List Str
  | .replaceKeys userId deviceId signingKey => rotated ++
      (o.keyVerifications.filter fun p => Rotates userId deviceId signingKey p.2).map (·.1)
  | _ => rotated

/-- The sessions in `mac_received` whose device has another key since they went there -/
def rotatedAfter (o : OlmMachine L) (rotated : List Str) (a : VerificationAction L) : List Str :=
  (o.withRotated rotated a).filter fun t => (o.step a).HasMac t

/-- The same after a run -/
def track (o : OlmMachine L) (rotated : List Str) : List (VerificationAction L) → List Str
  | [] => rotated
  | a :: actions => track (o.step a) (o.rotatedAfter rotated a) actions

/-- The steps that keep the promise: a MAC event does not meet a session that would take it although
it names no key of the other device, and no session marks its device when the device has another key
since the session has its MAC. -/
def Safe (o : OlmMachine L) (rotated : List Str) : VerificationAction L → Prop
  | .handle (.mac e _) => ∀ t s, o.getVerification e.transactionId = .ok (some (t, s)) →
    ¬ s.OmitsDevice e ∧ (s.verified = true → t ∉ rotated)
  | .call t (.receiveMac e) => ∀ s, dictGet? o.keyVerifications t = some s → ¬ s.OmitsDevice e
  | .confirm t => ∀ s, dictGet? o.keyVerifications t = some s → s.state = .macReceived → t ∉ rotated
  | _ => True

def AlwaysSafe (o : OlmMachine L) (rotated : List Str) (actions : List (VerificationAction L)) :
    Prop :=
  ∀ before a after, actions = before ++ a :: after →
    Safe (o.run before) (o.track rotated before) a

/-- The session is sound, or it has its MAC and its device has another key since. -/
def Held (received : List KeyVerificationMac) (rotated : List Str) (t : Str) (s : Sas L) : Prop :=
  (t ∈ rotated ∧ s.state = .macReceived) ∨ s.Sound received

def SoundAll (received : List KeyVerificationMac) (rotated : List Str) (o : OlmMachine L) : Prop :=
  ∀ p ∈ o.keyVerifications, Held received rotated p.1 p.2

/-! ### Dictionaries -/

theorem mem_dictSet {α : Type} {d : List (Str × α)} {k : Str} {v : α} {p : Str × α}
    (h : p ∈ dictSet d k v) : p = (k, v) ∨ p ∈ d := by
  unfold dictSet at h
  split at h
  · obtain ⟨q, hq, rfl⟩ := List.mem_map.mp h
    split
    · exact Or.inl rfl
    · exact Or.inr hq
  · rcases List.mem_append.mp h with h | h
    · exact Or.inr h
    · exact Or.inl (List.mem_singleton.mp h)

theorem mem_dictSet_self {α : Type} (d : List (Str × α)) (k : Str) (v : α) :
    (k, v) ∈ dictSet d k v := by
  unfold dictSet
  split
  · next h =>
    obtain ⟨q, hq, hk⟩ := List.any_eq_true.mp h
    exact List.mem_map.mpr ⟨q, hq, if_pos (by simpa using hk)⟩
  · exact List.mem_append_right _ (List.mem_singleton.mpr rfl)

theorem forall_mem_dictSet {α : Type} {d : List (Str × α)} {k : Str} {v : α}
    {P : Str × α → Prop} (h : ∀ p ∈ d, P p) (hv : P (k, v)) : ∀ p ∈ dictSet d k v, P p := by
  intro p hp
  rcases mem_dictSet hp with rfl | hp
  · exact hv
  · exact h p hp

variable {r : List KeyVerificationMac} {rotated : List Str}

theorem SoundAll.get {o : OlmMachine L} (h : SoundAll r rotated o) {t : Str} {s : Sas L}
    (hs : dictGet? o.keyVerifications t = some s) : Held r rotated t s :=
  h _ (mem_of_dictGet? hs)

theorem Held.mono {r' : List KeyVerificationMac} {t : Str} {s : Sas L} (h : Held r rotated t s)
    (hr : r ⊆ r') : Held r' rotated t s :=
  h.imp_right fun hs => hs.mono hr

/-- More sessions may be excepted. -/
theorem Held.grow {rotated' : List Str} {t : Str} {s : Sas L} (h : Held r rotated t s)
    (hr : rotated ⊆ rotated') : Held r rotated' t s :=
  h.imp_left fun hs => ⟨hr hs.1, hs.2⟩

theorem subset_withRotated (o : OlmMachine L) (rotated : List Str) (a : VerificationAction L) :
    rotated ⊆ o.withRotated rotated a := by
  cases a with
  | replaceKeys userId deviceId signingKey => exact List.subset_append_left _ _
  | _ => exact List.Subset.refl _

/-- A session that has its MAC is sound unless its device has another key. -/
theorem Held.sound {t : Str} {s : Sas L} (h : Held r rotated t s)
    (hs : s.state = .macReceived → t ∉ rotated) : s.Sound r := by
  rcases h with ⟨hmem, hstate⟩ | h
  · exact absurd hmem (hs hstate)
  · exact h

/-- The verification that is found is that of the transaction. -/
theorem getVerification_some {o : OlmMachine L} {v : Json} {t : Str} {s : Sas L}
    (h : o.getVerification v = .ok (some (t, s))) : dictGet? o.keyVerifications t = some s := by
  unfold getVerification at h
  split at h
  · obtain ⟨s', hs', heq⟩ := Option.map_eq_some_iff.mp (Except.ok.inj h)
    obtain ⟨rfl, rfl⟩ := Prod.mk.inj heq
    exact hs'
  · cases h
  · cases h
  · cases h

/-! ### What a step does -/

/-- The call that an action makes on the session at a transaction id before it marks -/
inductive MarkingCall (o : OlmMachine L) : VerificationAction L → Str → Sas L → SasCall L → Prop
  | mac (event : KeyVerificationMac) (trusted : Bool) (t : Str) (s : Sas L)
      (found : o.getVerification event.transactionId = .ok (some (t, s))) :
      MarkingCall o (.handle (.mac event trusted)) t s (.receiveMac event)
  | confirm (t : Str) (s : Sas L) (found : dictGet? o.keyVerifications t = some s) :
      MarkingCall o (.confirm t) t s .acceptSas

/-- A step marks nothing, or the device of a session that is verified after its call. -/
def MarksVerified (o : OlmMachine L) (a : VerificationAction L) (o' : OlmMachine L) : Prop :=
  o'.marked = o.marked ∨ ∃ t s c, MarkingCall o a t s c ∧ (t, s.step c) ∈ o'.keyVerifications ∧
    (s.step c).verified = true ∧ o'.marked = o.marked ++ [(s.step c).otherOlmDevice]

/-- The call that an action makes on the session at a transaction id -/
inductive Calls (o : OlmMachine L) : VerificationAction L → Str → Sas L → SasCall L → Prop
  | accept (event : KeyVerificationAccept) (s : Sas L)
      (found : dictGet? o.keyVerifications event.transactionId = some s) :
      Calls o (.handle (.accept event)) event.transactionId s (.receiveAccept event)
  | key (event : KeyVerificationKey) (dh : Option L.Established) (s : Sas L)
      (found : dictGet? o.keyVerifications event.transactionId = some s) :
      Calls o (.handle (.key event dh)) event.transactionId s (.receiveKey event dh)
  | marking {a : VerificationAction L} {t : Str} {s : Sas L} {c : SasCall L}
      (call : MarkingCall o a t s c) : Calls o a t s c
  | call (t : Str) (s : Sas L) (c : SasCall L)
      (found : dictGet? o.keyVerifications t = some s) : Calls o (.call t c) t s c

/-- The session that an action makes for a transaction id -/
inductive NewSession (o : OlmMachine L) : VerificationAction L → Str → Sas L → Prop
  | start (device : OlmDevice) (event : KeyVerificationStart) (pubkey uuid : Str) (now : Int)
      (s : Sas L) (made : Sas.fromKeyVerificationStart o.userId o.deviceId o.identityKey device event
        pubkey uuid now = .ok s) :
      NewSession o (.handle (.start event pubkey uuid now)) event.transactionId s
  | create (device : OlmDevice) (userId deviceId pubkey uuid : Str) (now : Int) :
      NewSession o (.create userId deviceId pubkey uuid now) uuid
        (.init o.userId o.deviceId o.identityKey device uuid pubkey [] now)

/-- The sessions and the marked devices that an action leaves -/
inductive Outcome (o : OlmMachine L) :
    VerificationAction L → List (Str × Sas L) → List OlmDevice → Prop
  | same (a : VerificationAction L) : Outcome o a o.keyVerifications o.marked
  | called {a : VerificationAction L} {t : Str} {s : Sas L} {c : SasCall L}
      (call : Calls o a t s c) :
      Outcome o a (dictSet o.keyVerifications t (s.step c)) o.marked
  | marks {a : VerificationAction L} {t : Str} {s : Sas L} {c : SasCall L}
      (call : MarkingCall o a t s c) (verified : (s.step c).verified = true) :
      Outcome o a (dictSet o.keyVerifications t (s.step c))
        (o.marked ++ [(s.step c).otherOlmDevice])
  | opened {a : VerificationAction L} {t : Str} {s : Sas L} (new : NewSession o a t s) :
      Outcome o a (dictSet o.keyVerifications t s) o.marked
  -- the old session of the device is canceled first, and the new one is lost if that raises
  | canceled {event : KeyVerificationStart} {pubkey uuid : Str} {now : Int} {t : Str} {old : Sas L}
      (active : o.getActiveSas event.sender event.fromDevice = some (t, old)) :
      Outcome o (.handle (.start event pubkey uuid now))
        (dictSet o.keyVerifications t old.cancel) o.marked
  | replaced {event : KeyVerificationStart} {pubkey uuid : Str} {now : Int} {t t' : Str}
      {old s : Sas L} (active : o.getActiveSas event.sender event.fromDevice = some (t, old))
      (new : NewSession o (.handle (.start event pubkey uuid now)) t' s) :
      Outcome o (.handle (.start event pubkey uuid now))
        (dictSet (dictSet o.keyVerifications t old.cancel) t' s) o.marked
  | erased (event : KeyVerificationCancel) :
      Outcome o (.handle (.cancel event)) (dictErase o.keyVerifications event.transactionId) o.marked
  | cleared (now : Int) : Outcome o (.clear now) (clearEntries now o.keyVerifications).1 o.marked
  | renewed (userId deviceId signingKey : Str) :
      Outcome o (.replaceKeys userId deviceId signingKey)
        (o.replaceKeys userId deviceId signingKey).keyVerifications o.marked

/-- The action may take the machine there. -/
def Becomes (o : OlmMachine L) (a : VerificationAction L) (o' : OlmMachine L) : Prop :=
  Outcome o a o'.keyVerifications o'.marked

@[simp] theorem marked_sendResult (o : OlmMachine L) (r : Except SasError ToDeviceMessage) :
    (o.sendResult r).1.marked = o.marked := by
  cases r <;> rfl

@[simp] theorem keyVerifications_sendResult (o : OlmMachine L)
    (r : Except SasError ToDeviceMessage) :
    (o.sendResult r).1.keyVerifications = o.keyVerifications := by
  cases r <;> rfl

/-- The answer that is sent changes no session. -/
theorem Becomes.sendResult {o o' : OlmMachine L} {a : VerificationAction L} (h : Becomes o a o')
    (r : Except SasError ToDeviceMessage) : Becomes o a (o'.sendResult r).1 := by
  unfold Becomes
  rw [keyVerifications_sendResult, marked_sendResult]
  exact h

theorem becomes_handleStart (o : OlmMachine L) (event : KeyVerificationStart) (pubkey uuid : Str)
    (now : Int) : Becomes o (.handle (.start event pubkey uuid now))
      (o.handleStart event pubkey uuid now).1 := by
  simp only [handleStart]
  split
  · exact Outcome.same _
  · next device _ =>
    split
    · exact Outcome.same _
    · next newSas hnew =>
      have hopened := NewSession.start device event pubkey uuid now newSas hnew
      split
      · exact Becomes.sendResult (Outcome.same _) _
      · split
        · exact Outcome.opened hopened
        · next t old hactive =>
          have hkv := keyVerifications_sendResult (o.setSas t old.cancel) old.cancel.getCancellation
          have hmarked := marked_sendResult (o.setSas t old.cancel) old.cancel.getCancellation
          split
          · next o' e hres =>
            rw [hres] at hkv hmarked
            unfold Becomes
            rw [hkv, hmarked]
            exact Outcome.canceled hactive
          · next o' u hres =>
            rw [hres] at hkv hmarked
            unfold Becomes
            simp only [setSas] at hkv hmarked ⊢
            rw [hkv, hmarked]
            exact Outcome.replaced hactive hopened

theorem becomes_handleAccept (o : OlmMachine L) (event : KeyVerificationAccept) :
    Becomes o (.handle (.accept event)) (o.handleAccept event).1 := by
  simp only [handleAccept]
  split
  · exact Outcome.same _
  · next sas hsas =>
    have hset : Becomes o (.handle (.accept event))
        (o.setSas event.transactionId (sas.receiveAcceptEvent event)) :=
      Outcome.called (.accept event sas hsas)
    exact hset.sendResult _

theorem becomes_handleKey (o : OlmMachine L) (event : KeyVerificationKey)
    (dh : Option L.Established) : Becomes o (.handle (.key event dh)) (o.handleKey event dh).1 := by
  simp only [handleKey]
  split
  · exact Outcome.same _
  · next sas hsas =>
    split
    · exact Outcome.same _
    · next s' hs' =>
      have hstep : sas.step (.receiveKey event dh) = s' := by
        simp only [Sas.step, hs', Sas.orSame]
      have hset : Becomes o (.handle (.key event dh)) (o.setSas event.transactionId s') := by
        rw [← hstep]
        exact Outcome.called (.key event dh sas hsas)
      split
      · exact hset.sendResult _
      · split
        · exact hset.sendResult _
        · exact hset

/-- Only a MAC event that leaves its session verified marks a device. -/
theorem becomes_handleMac (o : OlmMachine L) (event : KeyVerificationMac) (trusted : Bool) :
    Becomes o (.handle (.mac event trusted)) (o.handleMac event trusted).1 := by
  simp only [handleMac]
  split
  · exact Outcome.same _
  · exact Outcome.same _
  · next t sas hget =>
    split
    · exact Outcome.same _
    · next s' hs' =>
      have hstep : sas.step (.receiveMac event) = s' := by
        simp only [Sas.step, hs', Sas.orSame]
      have hcall := MarkingCall.mac event trusted t sas hget
      subst hstep
      have hset : Becomes o (.handle (.mac event trusted))
          (o.setSas t (sas.step (.receiveMac event))) := Outcome.called (.marking hcall)
      split
      · exact hset.sendResult _
      · split
        · next hv =>
          split
          · exact Outcome.marks hcall hv
          · exact hset
        · exact hset

theorem becomes_confirm (o : OlmMachine L) (t : Str) :
    Becomes o (.confirm t) (o.confirmKeyVerification t).1 := by
  simp only [confirmKeyVerification]
  split
  · exact Outcome.same _
  · next sas hsas =>
    split
    · exact Outcome.same _
    · next s' hs' =>
      have hstep : sas.step .acceptSas = s' := by
        simp only [Sas.step, hs', Sas.orSame]
      have hcall := MarkingCall.confirm t sas hsas
      subst hstep
      have hset : Becomes o (.confirm t) (o.setSas t (sas.step .acceptSas)) :=
        Outcome.called (.marking hcall)
      split
      · exact hset
      · dsimp only
        split
        · next hv => exact Outcome.marks hcall hv
        · exact hset

/-- Every action has one of the outcomes. -/
theorem becomes_step (o : OlmMachine L) (a : VerificationAction L) : Becomes o a (o.step a) := by
  cases a with
  | handle event =>
    cases event with
    | start event pubkey uuid now => exact becomes_handleStart o event pubkey uuid now
    | accept event => exact becomes_handleAccept o event
    | key event dh => exact becomes_handleKey o event dh
    | mac event trusted => exact becomes_handleMac o event trusted
    | cancel event => exact Outcome.erased event
  | create userId deviceId pubkey uuid now =>
    simp only [step]
    split
    · exact Outcome.same _
    · next device _ => exact Outcome.opened (.create device userId deviceId pubkey uuid now)
  | confirm t => exact becomes_confirm o t
  | call t c =>
    simp only [step]
    split
    · exact Outcome.same _
    · next sas hsas => exact Outcome.called (.call t sas c hsas)
  | clear now => exact Outcome.cleared now
  | replaceKeys userId deviceId signingKey => exact Outcome.renewed userId deviceId signingKey

/-- Only a call on the session that is marked with leads to a mark. -/
theorem marksVerified_step (o : OlmMachine L) (a : VerificationAction L) :
    MarksVerified o a (o.step a) := by
  have h := becomes_step o a
  unfold MarksVerified
  unfold Becomes at h
  generalize (o.step a).keyVerifications = sessions at h ⊢
  generalize (o.step a).marked = marked at h ⊢
  cases h with
  | marks call verified => exact Or.inr ⟨_, _, _, call, mem_dictSet_self _ _ _, verified, rfl⟩
  | _ => exact Or.inl rfl

/-- A call is made on the session that stands under the transaction id. -/
theorem Calls.found {o : OlmMachine L} {a : VerificationAction L} {t : Str} {s : Sas L}
    {c : SasCall L} (h : Calls o a t s c) : dictGet? o.keyVerifications t = some s := by
  cases h with
  | accept event s found => exact found
  | key event dh s found => exact found
  | marking call =>
    cases call with
    | mac event trusted t s found => exact getVerification_some found
    | confirm t s found => exact found
  | call t s c found => exact found

/-- A call takes the MAC events that its action brings. -/
theorem Calls.received {o : OlmMachine L} {a : VerificationAction L} {t : Str} {s : Sas L}
    {c : SasCall L} (h : Calls o a t s c) : received a = Sas.macs [c] := by
  cases h with
  | accept event s found => rfl
  | key event dh s found => rfl
  | marking call => cases call <;> rfl
  | call t s c found => rfl

/-- A safe action calls no session with a MAC event that omits its device. -/
theorem Calls.names {o : OlmMachine L} {a : VerificationAction L} {t : Str} {s : Sas L}
    {c : SasCall L} (h : Calls o a t s c) (hsafe : Safe o rotated a) (e : KeyVerificationMac)
    (he : c = .receiveMac e) : ¬ s.OmitsDevice e := by
  subst he
  cases h with
  | marking call =>
    cases call with
    | mac event trusted t s found => exact (hsafe t s found).1
  | call t s c found => exact hsafe s found

/-- The session that is made for an offer or for a device is a new one. -/
theorem NewSession.made {o : OlmMachine L} {a : VerificationAction L} {t : Str} {s : Sas L}
    (h : NewSession o a t s) : s.Made := by
  cases h with
  | start device event pubkey uuid now s made => exact .start made
  | create device userId deviceId pubkey uuid now => exact .init _ _ _ _ _ _ _ _

/-- The active session of a device is one of those kept. -/
theorem mem_of_getActiveSas {o : OlmMachine L} {userId deviceId : Str} {p : Str × Sas L}
    (h : o.getActiveSas userId deviceId = some p) : p ∈ o.keyVerifications :=
  (List.mem_filter.mp (List.mem_mergeSort.mp (List.mem_of_find?_eq_some h))).1

/-! ### Every session of a run is sound -/

theorem sound_step {r : List KeyVerificationMac} {s : Sas L} (h : s.Sound r) {c : SasCall L}
    (hc : ∀ e, c = .receiveMac e → ¬ s.OmitsDevice e) {r' : List KeyVerificationMac}
    (hr : r ++ Sas.macs [c] ⊆ r') : (s.step c).Sound r' := (h.step hc).mono hr

/-- A session that has its MAC keeps it until it is canceled. -/
theorem macReceived_step {s : Sas L} (h : s.state = .macReceived) (c : SasCall L) :
    (s.step c).state = .macReceived ∨ (s.step c).state = .canceled := by
  rcases s.step_cases c with hs | hs | hs | ⟨e, -, hs⟩ | ⟨-, hs⟩
  · exact Or.inl (hs.state.trans h)
  · exact Or.inr hs.state
  · exact absurd h hs.before.2
  · rw [hs.before] at h
    cases h
  · rw [hs]
    exact Or.inl h

/-- A canceled session claims nothing. -/
theorem sound_of_canceled {s : Sas L} (h : s.state = .canceled) : s.Sound r := by
  refine ⟨fun _ hn => absurd h hn, fun hm => ?_⟩
  rw [h] at hm
  cases hm

/-- A call keeps its session as sound as the events that it received. -/
theorem held_step {t : Str} {s : Sas L} (h : Held r rotated t s) {c : SasCall L}
    (hc : ∀ e, c = .receiveMac e → ¬ s.OmitsDevice e) {r' : List KeyVerificationMac}
    (hr : r ++ Sas.macs [c] ⊆ r') : Held r' rotated t (s.step c) := by
  rcases h with ⟨hmem, hstate⟩ | h
  · rcases macReceived_step hstate c with hm | hm
    · exact Or.inl ⟨hmem, hm⟩
    · exact Or.inr (sound_of_canceled hm)
  · exact Or.inr (sound_step h hc hr)

/-- A call that is no MAC event keeps a session sound. -/
theorem held_quiet {t : Str} {s : Sas L} (h : Held r rotated t s) {c : SasCall L}
    (hc : Sas.macs [c] = []) : Held r rotated t (s.step c) := by
  refine held_step h (fun e he => ?_) (by rw [hc, List.append_nil]; exact List.Subset.refl _)
  rw [he] at hc
  cases hc

/-- Clearing keeps what is held. -/
theorem clearEntries_held {now : Int} {entries : List (Str × Sas L)}
    (h : ∀ p ∈ entries, Held r rotated p.1 p.2) :
    ∀ p ∈ (clearEntries now entries).1, Held r rotated p.1 p.2 := by
  induction entries with
  | nil => exact h
  | cons q rest ih =>
    obtain ⟨t, sas⟩ := q
    have ih := ih fun p hp => h p (List.mem_cons_of_mem _ hp)
    have hsas : Held r rotated t (sas.timedOut now).2 :=
      held_quiet (h (t, sas) List.mem_cons_self) (c := .timedOut now) rfl
    simp only [clearEntries]
    split
    · exact ih
    · next s' hs' =>
      rw [hs'] at hsas
      split
      · exact ih
      · intro p hp
        rcases List.mem_cons.mp hp with rfl | hp
        · exact hsas
        · exact ih p hp

/-- A replaced key does not harm a session that has no MAC yet. -/
theorem soundAll_replaceKeys {o : OlmMachine L} (h : SoundAll r rotated o)
    (userId deviceId signingKey : Str) :
    SoundAll r (rotated ++ (o.keyVerifications.filter fun p =>
      Rotates userId deviceId signingKey p.2).map (·.1)) (o.replaceKeys userId deviceId signingKey) := by
  intro p hp
  obtain ⟨q, hq, rfl⟩ := List.mem_map.mp hp
  rcases h q hq with ⟨hmem, hstate⟩ | hs
  · exact Or.inl ⟨List.mem_append_left _ hmem, hstate⟩
  · by_cases hdev : q.2.otherOlmDevice.userId = userId ∧ q.2.otherOlmDevice.deviceId = deviceId
    · by_cases hkey : q.2.otherOlmDevice.ed25519 = signingKey
      · have hsame : { q.2 with otherOlmDevice :=
            { q.2.otherOlmDevice with ed25519 := signingKey } } = q.2 := by
          rw [← hkey]
        simp only [if_pos hdev, hsame]
        exact Or.inr hs
      · by_cases hstate : q.2.state = .macReceived
        · have hrotates : Rotates userId deviceId signingKey q.2 = true := by
            simp [Rotates, hstate, hdev.1, hdev.2, hkey]
          refine Or.inl ⟨List.mem_append_right _ (List.mem_map.mpr ⟨q, ?_, rfl⟩), hstate⟩
          exact List.mem_filter.mpr ⟨hq, hrotates⟩
        · exact Or.inr ⟨hs.empty, fun hm => absurd hm hstate⟩
    · simp only [if_neg hdev]
      exact Or.inr hs

/-- A session that is not in `mac_received` any more needs no exception. -/
theorem SoundAll.filter {o : OlmMachine L} (h : SoundAll r rotated o) :
    SoundAll r (rotated.filter fun t => o.HasMac t) o := by
  intro p hp
  rcases h p hp with ⟨hmem, hstate⟩ | hs
  · refine Or.inl ⟨List.mem_filter.mpr ⟨hmem, ?_⟩, hstate⟩
    exact List.any_eq_true.mpr ⟨p, hp, by simp [hstate]⟩
  · exact Or.inr hs

/-- What a safe action leaves under the transaction ids is held. -/
theorem Outcome.held {o : OlmMachine L} {a : VerificationAction L} {sessions : List (Str × Sas L)}
    {marked : List OlmDevice} (h : Outcome o a sessions marked) (hall : SoundAll r rotated o)
    (hsafe : Safe o rotated a) :
    ∀ p ∈ sessions, Held (r ++ received a) (o.withRotated rotated a) p.1 p.2 := by
  have hrotated : ∀ {t : Str} {s : Sas L}, Held r rotated t s →
      Held (r ++ received a) (o.withRotated rotated a) t s := fun hs =>
    (hs.mono (List.subset_append_left _ _)).grow (subset_withRotated o rotated a)
  have hset : ∀ {t : Str} {s : Sas L} {c : SasCall L}, Calls o a t s c →
      Held (r ++ received a) (o.withRotated rotated a) t (s.step c) := fun call =>
    (held_step (hall.get call.found) (call.names hsafe)
      (by rw [call.received]; exact List.Subset.refl _)).grow (subset_withRotated o rotated a)
  have hnew : ∀ {t : Str} {s : Sas L}, NewSession o a t s →
      Held (r ++ received a) (o.withRotated rotated a) t s := fun new =>
    Or.inr (new.made.sound.mono (List.nil_subset _))
  cases h with
  | same a => exact fun p hp => hrotated (hall p hp)
  | called call => exact forall_mem_dictSet (fun p hp => hrotated (hall p hp)) (hset call)
  | marks call verified =>
    exact forall_mem_dictSet (fun p hp => hrotated (hall p hp)) (hset (.marking call))
  | opened new => exact forall_mem_dictSet (fun p hp => hrotated (hall p hp)) (hnew new)
  | canceled active =>
    exact forall_mem_dictSet (fun p hp => hrotated (hall p hp))
      (hrotated (held_quiet (hall _ (mem_of_getActiveSas active)) (c := .cancel) rfl))
  | replaced active new =>
    exact forall_mem_dictSet (forall_mem_dictSet (fun p hp => hrotated (hall p hp))
      (hrotated (held_quiet (hall _ (mem_of_getActiveSas active)) (c := .cancel) rfl))) (hnew new)
  | erased event => exact fun p hp => hrotated (hall p (List.mem_filter.mp hp).1)
  | cleared now => exact fun p hp => hrotated (clearEntries_held hall p hp)
  | renewed userId deviceId signingKey =>
    rw [show received (.replaceKeys userId deviceId signingKey : VerificationAction L) = [] from rfl,
      List.append_nil]
    exact soundAll_replaceKeys hall userId deviceId signingKey

/-- Every safe action keeps all sessions sound, -/
theorem soundAll_step {o : OlmMachine L} (h : SoundAll r rotated o) {a : VerificationAction L}
    (hsafe : Safe o rotated a) :
    SoundAll (r ++ received a) (o.rotatedAfter rotated a) (o.step a) :=
  SoundAll.filter ((becomes_step o a).held h hsafe)

theorem AlwaysSafe.tail {o : OlmMachine L} {a : VerificationAction L}
    {actions : List (VerificationAction L)} (h : AlwaysSafe o rotated (a :: actions)) :
    AlwaysSafe (o.step a) (o.rotatedAfter rotated a) actions := fun before b after heq =>
  h (a :: before) b after (by rw [heq, List.cons_append])

/-- and so does every run of them. -/
theorem sound_run {o : OlmMachine L} (h : SoundAll r rotated o)
    {actions : List (VerificationAction L)} (hsafe : AlwaysSafe o rotated actions) :
    SoundAll (r ++ actions.flatMap received) (o.track rotated actions) (o.run actions) := by
  induction actions generalizing o r rotated with
  | nil =>
    rw [List.flatMap_nil, List.append_nil]
    exact h
  | cons a actions ih =>
    rw [List.flatMap_cons, ← List.append_assoc]
    exact ih (soundAll_step h (hsafe [] a actions rfl)) hsafe.tail

/-- Only a session that took a MAC is verified. -/
theorem state_of_verified {s : Sas L} (h : s.verified = true) : s.state = .macReceived := by
  simp only [Sas.verified, Bool.and_eq_true, decide_eq_true_eq] at h
  exact h.1

/-- A MAC event does not verify a session that has its MAC already. -/
theorem verified_of_receiveMac {s : Sas L} {e : KeyVerificationMac} (h : s.state = .macReceived)
    (hv : (s.step (.receiveMac e)).verified = true) : s.verified = true := by
  have hstate := state_of_verified hv
  simp only [Sas.verified, Bool.and_eq_true, decide_eq_true_eq] at hv ⊢
  refine ⟨h, ?_⟩
  rcases s.step_cases (.receiveMac e) with hs | hs | hs | ⟨e, -, hs⟩ | ⟨heq, -⟩
  · exact hs.accepted ▸ hv.2
  · rw [hs.state] at hstate
    cases hstate
  · exact absurd h hs.before.2
  · exact hs.accepted ▸ hv.2
  · cases heq

/-- The session that a step marks with is sound. -/
theorem sound_of_markingCall {o : OlmMachine L} (h : SoundAll r rotated o)
    {a : VerificationAction L} (hsafe : Safe o rotated a) {t : Str} {s : Sas L} {c : SasCall L}
    (hcall : MarkingCall o a t s c) (hv : (s.step c).verified = true) :
    (s.step c).Sound (r ++ received a) := by
  cases hcall with
  | mac event trusted t s found =>
    obtain ⟨homits, hrotated⟩ := hsafe t s found
    refine sound_step ((h.get (getVerification_some found)).sound fun hstate =>
      hrotated (verified_of_receiveMac hstate hv)) (fun e he => ?_) (List.Subset.refl _)
    obtain rfl := SasCall.receiveMac.inj he
    exact homits
  | confirm t s found =>
    have hstate : s.state = .macReceived := by
      have hstate := state_of_verified hv
      rcases s.step_cases .acceptSas with hs | hs | hs | ⟨e, heq, -⟩ | ⟨-, hs⟩
      · exact hs.state ▸ hstate
      · rw [hs.state] at hstate
        cases hstate
      · rcases hs.after with ha | ha <;> rw [ha] at hstate <;> cases hstate
      · cases heq
      · rw [hs] at hstate
        exact hstate
    exact sound_step ((h.get found).sound fun _ => hsafe s found hstate) (by rintro e ⟨⟩)
      (List.Subset.refl _)

/-- The device was marked when a session with it was verified and had its fingerprint key, the one
that was marked, authenticated. -/
def MarkedSoundly (o : OlmMachine L) (actions : List (VerificationAction L)) (device : OlmDevice) :
    Prop :=
  ∃ before after, actions = before ++ after ∧ ∃ t s, (t, s) ∈ (o.run before).keyVerifications ∧
    s.verified = true ∧ s.otherOlmDevice = device ∧ device.deviceId ∈ s.verifiedDevices ∧
    ∃ e ∈ before.flatMap received, s.Accepts e

theorem AlwaysSafe.take {o : OlmMachine L} {before after : List (VerificationAction L)}
    (h : AlwaysSafe o rotated (before ++ after)) : AlwaysSafe o rotated before := by
  intro pre a post heq
  exact h pre a (post ++ after) (by rw [heq, List.append_assoc, List.cons_append])

/-- Every device that a run marks was verified by its own key. -/
theorem markedSoundly_run {o : OlmMachine L} (ho : o.keyVerifications = [])
    (hm : o.marked = []) {actions : List (VerificationAction L)} (hsafe : AlwaysSafe o [] actions) :
    ∀ device ∈ (o.run actions).marked, MarkedSoundly o actions device := by
  induction actions using List.reverseRecOn with
  | nil =>
    intro device hd
    rw [show (o.run []).marked = o.marked from rfl, hm] at hd
    cases hd
  | append_singleton before a ih =>
    intro device hd
    have hrun : o.run (before ++ [a]) = (o.run before).step a := List.foldl_concat _ _ _ _
    rw [hrun] at hd
    have hold : device ∈ (o.run before).marked → MarkedSoundly o (before ++ [a]) device := by
      intro hd
      obtain ⟨pre, post, heq, rest⟩ := ih hsafe.take device hd
      exact ⟨pre, post ++ [a], by rw [heq, List.append_assoc], rest⟩
    rcases marksVerified_step (o.run before) a with hsame | ⟨t, s, c, hcall, hmem, hv, hmarked⟩
    · rw [hsame] at hd
      exact hold hd
    · rw [hmarked] at hd
      rcases List.mem_append.mp hd with hd | hd
      · exact hold hd
      · obtain rfl := List.mem_singleton.mp hd
        have hempty : SoundAll [] [] o := by
          intro p hp
          rw [ho] at hp
          cases hp
        have hsound := sound_of_markingCall (sound_run hempty hsafe.take) (hsafe before a [] rfl) hcall hv
        obtain ⟨hdev, he⟩ := hsound.authenticated (state_of_verified hv)
        refine ⟨before ++ [a], [], (List.append_nil _).symm, t, _, hrun ▸ hmem, hv, rfl, hdev, ?_⟩
        rw [List.flatMap_append, List.flatMap_singleton]
        exact he

/-- A session is verified only with the other device's key authenticated, the short string accepted
and no cancellation; and only devices whose stored key was so authenticated are marked. -/
theorem verification_sound (L : SasLibrary) :
    (∀ (s : Sas L) (calls : List (SasCall L)), s.Made → s.NeverOmits calls →
      (s.run calls).verified = true → s.Authenticated calls) ∧
    (∀ (o : OlmMachine L) (actions : List (VerificationAction L)), o.keyVerifications = [] →
      o.marked = [] → AlwaysSafe o [] actions →
      ∀ device ∈ (o.run actions).marked, MarkedSoundly o actions device) :=
  ⟨fun _ _ hmade hc hv => Sas.verified_run hmade hc hv,
    fun _ _ ho hm hsafe => markedSoundly_run ho hm hsafe⟩

/-! ### The other device's requests, from the start to the mark -/

/-- A library whose secret is the other device's key and whose MAC is the text that it covers. -/
def plainLibrary : SasLibrary where
  Established := Str
  calculateMac established key info := established ++ key ++ info
  commitment pubkey _ := .ok pubkey

def aliceDevice : OlmDevice := ⟨py "@alice:example.org", py "ALICEDEV", py "alice-ed25519"⟩

def aliceStart : KeyVerificationStart where
  sender := py "@alice:example.org"
  transactionId := py "tx"
  content := .obj []
  fromDevice := py "ALICEDEV"
  method := Sas.sasMethodV1
  keyAgreementProtocols := Sas.keyAgreementProtocolsAll
  hashes := [Sas.hashV1]
  messageAuthenticationCodes := Sas.macV1
  shortAuthenticationString := Sas.stringsV1

def bob : OlmMachine plainLibrary where
  userId := py "@bob:example.org"
  deviceId := py "BOBDEV"
  identityKey := py "bob-ed25519"
  deviceStore := [aliceDevice]
  keyVerifications := []
  usersForKeyQuery := []
  outgoingToDeviceMessages := []
  marked := []

/-- The session after `start`, as the machine makes it. -/
def aliceSas : Sas plainLibrary where
  ownUser := py "@bob:example.org"
  ownDevice := py "BOBDEV"
  ownFpKey := py "bob-ed25519"
  otherOlmDevice := aliceDevice
  transactionId := py "tx"
  pubkey := py "bob-pub"
  shortAuthString := Sas.stringsV1
  chosenMacMethod := []
  keyAgreementProtocols := Sas.keyAgreementProtocolsAll
  chosenKeyAgreement := none
  state := .started
  weStartedIt := false
  sasAccepted := false
  commitment := some (py "bob-pub")
  cancelReason := []
  cancelCode := []
  establishedSas := none
  theirSasKey := []
  verifiedDevices := []
  creationTime := 0

theorem made_aliceSas : Sas.Made aliceSas :=
  .start (show Sas.fromKeyVerificationStart (py "@bob:example.org") (py "BOBDEV")
    (py "bob-ed25519") aliceDevice aliceStart (py "bob-pub") [] 0 = .ok aliceSas from rfl)

def aliceInfo : Str :=
  py "MATRIX_KEY_VERIFICATION_MAC@alice:example.orgALICEDEV@bob:example.orgBOBDEVtx"

/-- A MAC event of the session with the given keys and the right MAC of their ids. -/
def aliceMac (mac : List (Str × Json)) : KeyVerificationMac :=
  ⟨py "@alice:example.org", .str (py "tx"), mac,
    py "secret" ++ Sas.keyIds mac ++ (aliceInfo ++ py "KEY_IDS")⟩

def aliceKeys : List (Str × Json) :=
  [(py "ed25519:ALICEDEV",
    .str (py "secret" ++ py "alice-ed25519" ++ (aliceInfo ++ py "ed25519:ALICEDEV")))]

def aliceCalls (mac : List (Str × Json)) : List (SasCall plainLibrary) :=
  [.acceptVerification, .receiveKey ⟨py "@alice:example.org", py "tx", py "alice-pub"⟩
    (some (py "secret")), .acceptSas, .receiveMac (aliceMac mac)]

def aliceActions (mac : List (Str × Json)) : List (VerificationAction plainLibrary) :=
  [.handle (.start aliceStart (py "bob-pub") [] 0), .call (py "tx") .acceptVerification,
    .handle (.key ⟨py "@alice:example.org", py "tx", py "alice-pub"⟩ (some (py "secret"))),
    .handle (.mac (aliceMac mac) true), .confirm (py "tx")]

/-- A MAC event without any key is enough for a verified session and for a marked device. -/
theorem empty_mac_verifies :
    ¬ (∀ (s : Sas plainLibrary) (calls : List (SasCall plainLibrary)), s.Made →
      (s.run calls).verified = true → s.Authenticated calls) ∧
    ¬ (∀ (o : OlmMachine plainLibrary) (actions : List (VerificationAction plainLibrary)),
      o.keyVerifications = [] → o.marked = [] →
      ∀ device ∈ (o.run actions).marked, MarkedSoundly o actions device) := by
  have hnot : ∀ (s : Sas plainLibrary), ¬ s.Accepts (aliceMac []) := by
    rintro s ⟨k, -, -, m, -, hmem⟩
    exact List.not_mem_nil hmem
  constructor
  · intro h
    obtain ⟨e, he, ha⟩ := (h aliceSas (aliceCalls []) made_aliceSas (by decide +kernel)).mac
    obtain rfl : e = aliceMac [] := List.mem_singleton.mp he
    exact hnot _ ha
  · intro h
    obtain ⟨before, after, heq, t, s, -, -, -, -, e, he, ha⟩ :=
      h bob (aliceActions []) rfl rfl aliceDevice (by decide +kernel)
    have hmem : e ∈ (aliceActions []).flatMap received := by
      rw [heq, List.flatMap_append]
      exact List.mem_append_left _ he
    obtain rfl : e = aliceMac [] := List.mem_singleton.mp hmem
    exact hnot _ ha

theorem neverOmits_cons {s : Sas L} {c : SasCall L} {calls : List (SasCall L)}
    (hc : ∀ e, c = .receiveMac e → ¬ s.OmitsDevice e) (h : (s.step c).NeverOmits calls) :
    s.NeverOmits (c :: calls) := by
  intro before e after heq
  cases before with
  | nil => exact hc e (List.cons.inj heq).1
  | cons b before =>
    obtain ⟨rfl, htail⟩ := List.cons.inj heq
    exact h before e after htail

theorem alwaysSafe_cons {o : OlmMachine L} {a : VerificationAction L}
    {actions : List (VerificationAction L)} (ha : Safe o rotated a)
    (h : AlwaysSafe (o.step a) (o.rotatedAfter rotated a) actions) :
    AlwaysSafe o rotated (a :: actions) := by
  intro before b after heq
  cases before with
  | nil => exact (List.cons.inj heq).1 ▸ ha
  | cons b' before =>
    obtain ⟨rfl, htail⟩ := List.cons.inj heq
    exact h before b after htail

/-- An event with a key of the other device omits no device. -/
theorem aliceMac_names {s : Sas plainLibrary} (hs : s.otherOlmDevice.deviceId = py "ALICEDEV") :
    ¬ s.OmitsDevice (aliceMac aliceKeys) := by
  rintro ⟨-, -, -, hall⟩
  obtain ⟨device, hsplit, hne⟩ := hall _ List.mem_cons_self
  have hdev : Sas.split (chr ':') 2 (py "ed25519:ALICEDEV") = [py "ed25519", py "ALICEDEV"] := by
    decide +kernel
  rw [hdev] at hsplit
  rw [hs] at hne
  exact hne (List.cons.inj (List.cons.inj hsplit).2).1.symm

/-- The device is marked, and a key query replaces its key afterwards. -/
def rotatedActions (mac : List (Str × Json)) : List (VerificationAction plainLibrary) :=
  aliceActions mac ++ [.replaceKeys (py "@alice:example.org") (py "ALICEDEV") (py "alice-other")]

/-- The session of a device that sends its key is verified, and the device is marked; a key query may
replace the key of the device then. -/
theorem verification_sound_alice :
    Sas.Authenticated aliceSas (aliceCalls aliceKeys) ∧
      MarkedSoundly bob (rotatedActions aliceKeys) aliceDevice := by
  refine ⟨(verification_sound plainLibrary).1 aliceSas (aliceCalls aliceKeys) made_aliceSas ?_
    (by decide +kernel), (verification_sound plainLibrary).2 bob (rotatedActions aliceKeys) rfl rfl ?_
    aliceDevice (by decide +kernel)⟩
  · refine neverOmits_cons (by rintro e ⟨⟩) (neverOmits_cons (by rintro e ⟨⟩) (neverOmits_cons
      (by rintro e ⟨⟩) (neverOmits_cons ?_ ?_)))
    · rintro e ⟨⟩
      exact aliceMac_names rfl
    · intro before e after heq
      cases before <;> cases heq
  · refine alwaysSafe_cons trivial (alwaysSafe_cons trivial (alwaysSafe_cons trivial
      (alwaysSafe_cons ?_ (alwaysSafe_cons ?_ (alwaysSafe_cons trivial ?_)))))
    · intro t s hget
      refine ⟨aliceMac_names ?_, fun _ hmem => nomatch hmem⟩
      have hdev : ((((bob.step (.handle (.start aliceStart (py "bob-pub") [] 0))).step
          (.call (py "tx") .acceptVerification)).step (.handle (.key ⟨py "@alice:example.org",
            py "tx", py "alice-pub"⟩ (some (py "secret"))))).getVerification
              (aliceMac aliceKeys).transactionId).toOption.bind (fun p => p.map fun p =>
                p.2.otherOlmDevice.deviceId) = some (py "ALICEDEV") := by
        decide +kernel
      rw [hget] at hdev
      exact Option.some.inj hdev
    · exact fun s _ _ hmem => nomatch hmem
    · intro before a after heq
      cases before <;> cases heq

end OlmMachine

end Nio.Crypto
