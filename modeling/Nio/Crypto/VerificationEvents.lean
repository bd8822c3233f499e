import Nio.Crypto.KeyVerification
import Nio.Lib.Run

/-!
# Key verification events in any order

What makes `handle_key_verification` raise, and which sessions have a cancel code without being
canceled.

* `Sas.receiveKeyEvent_isOk_iff`, `Sas.receiveMacEvent_isOk_iff` — the two methods that can raise
* `OlmMachine.robust_iff` — the runs of events and calls in which no event raises and canceled
  sessions stay canceled
-/

namespace Nio.Crypto

open Nio.Py
open Nio.Lib
open Nio.Store (OlmDevice)

variable {L : SasLibrary}

namespace Sas

/-! ## Sessions that are what their cancel code says -/

/-- The errors that a session is canceled with -/
def cancelErrors : List CancelError :=
  [userCancelError, timeoutError, txidError, unknownMethodError, unexpectedMessageError,
    keyMismatchError, userMismatchError, invalidMessageError, commitmentMismatchError,
    sasMismatchError]

/-- The cancel code is set in canceled sessions and in no others. -/
structure Settled (s : Sas L) : Prop where
  codes : s.state = .canceled → s.cancelCode ≠ [] ∧ s.cancelReason ≠ []
  canceled : s.cancelCode ≠ [] → s.state = .canceled
  verifiedDevices : s.state ≠ .canceled → s.state ≠ .macReceived → s.verifiedDevices = []

/-- Every cancel error has a code and a reason. -/
theorem cancelErrors_texts : ∀ error ∈ cancelErrors, py error.1 ≠ [] ∧ py error.2 ≠ [] := by
  decide

theorem settled_cancelWith (s : Sas L) {error : CancelError} (h : error ∈ cancelErrors) :
    (s.cancelWith error).Settled :=
  ⟨fun _ => cancelErrors_texts error h, fun _ => rfl, fun h' => absurd rfl h'⟩

/-- A session that is not canceled and goes on without being canceled -/
theorem Settled.of_code {s s' : Sas L} (h : s.Settled) (hs : s.state ≠ .canceled)
    (hcode : s'.cancelCode = s.cancelCode) (hs' : s'.state ≠ .canceled)
    (hdevices : s'.state ≠ .macReceived → s'.verifiedDevices = []) : s'.Settled := by
  refine ⟨fun h' => absurd h' hs', fun h' => ?_, fun _ => hdevices⟩
  rw [hcode] at h'
  exact absurd (h.canceled h') hs

/-- `_event_ok` lets the session through, or a settled session comes out of it. -/
theorem Settled.eventOk {s : Sas L} (h : s.Settled) (sender : Str) (transactionId : Json) :
    (s.eventOk sender transactionId).2.Settled := by
  unfold Sas.eventOk
  split
  · exact h
  · split
    · exact settled_cancelWith s (by decide)
    · split
      · exact settled_cancelWith s (by decide)
      · exact h

theorem eventOk_fst (s : Sas L) (sender : Str) (transactionId : Json) :
    (s.eventOk sender transactionId).1 = true ↔ s.state ≠ .canceled ∧
      transactionId = .str s.transactionId ∧ sender = s.otherOlmDevice.userId := by
  unfold eventOk
  by_cases h1 : s.state = .canceled
  · simp [h1]
  · by_cases h2 : transactionId = .str s.transactionId
    · by_cases h3 : s.otherOlmDevice.userId = sender
      · simp [h1, h2, h3]
      · simp [h1, h2, h3, Ne.symm h3]
    · simp [h1, h2]

/-- What `_event_ok` lets through is the session as it was. -/
theorem eventOk_true {s s' : Sas L} {sender : Str} {transactionId : Json}
    (h : s.eventOk sender transactionId = (true, s')) : s' = s := by
  unfold eventOk at h
  split at h
  · cases h
  · split at h
    · cases h
    · split at h
      · cases h
      · exact (Prod.mk.inj h).2.symm

/-- An event of the other device's transaction is let through while the session is not canceled. -/
theorem eventOk_eq {s : Sas L} {sender : Str} {transactionId : Json} (hstate : s.state ≠ .canceled)
    (htx : transactionId = .str s.transactionId) (hsender : sender = s.otherOlmDevice.userId) :
    s.eventOk sender transactionId = (true, s) := by
  have hfst := (s.eventOk_fst sender transactionId).mpr ⟨hstate, htx, hsender⟩
  have heq : s.eventOk sender transactionId = (true, (s.eventOk sender transactionId).2) :=
    Prod.ext hfst rfl
  exact heq.trans (congrArg (Prod.mk true) (eventOk_true heq))

theorem Settled.receiveAcceptEvent {s : Sas L} (h : s.Settled) (e : KeyVerificationAccept) :
    (s.receiveAcceptEvent e).Settled := by
  have hok := h.eventOk e.sender (.str e.transactionId)
  unfold Sas.receiveAcceptEvent
  split
  · next s' heq =>
    rw [heq] at hok
    exact hok
  · next s' heq =>
    obtain rfl := eventOk_true heq
    split
    · exact settled_cancelWith s' (by decide)
    · next hcreated =>
      rw [not_not] at hcreated
      split
      · exact settled_cancelWith s' (by decide)
      · have hs : s'.state ≠ .canceled ∧ s'.state ≠ .macReceived := by
          rw [hcreated]
          exact ⟨SasState.noConfusion, SasState.noConfusion⟩
        exact h.of_code hs.1 rfl SasState.noConfusion fun _ => h.verifiedDevices hs.1 hs.2

theorem Settled.receiveKeyEvent {s : Sas L} (h : s.Settled) (e : KeyVerificationKey)
    (dh : Option L.Established) : (s.orSame (s.receiveKeyEvent e dh)).Settled := by
  have hok := h.eventOk e.sender (.str e.transactionId)
  unfold Sas.receiveKeyEvent
  split
  · exact settled_cancelWith s (by decide)
  · next hnew =>
    rw [not_or] at hnew
    split
    · next s' heq =>
      rw [heq] at hok
      exact hok
    · next s' heq =>
      obtain rfl := eventOk_true heq
      split
      · exact h
      · exact settled_cancelWith s' (by decide)
      · split
        · exact h
        · have hs : s'.state ≠ .canceled ∧ s'.state ≠ .macReceived := by
            refine ⟨fun h' => hnew.2 ?_, fun h' => hnew.2 ?_⟩
            · rw [h']
              exact ⟨SasState.noConfusion, SasState.noConfusion⟩
            · rw [h']
              exact ⟨SasState.noConfusion, SasState.noConfusion⟩
          exact h.of_code hs.1 rfl SasState.noConfusion fun _ => h.verifiedDevices hs.1 hs.2

/-- What the loop over the keys leaves of a session -/
def Leaves (s : Sas L) : MacLoop L → Prop
  | .raised _ => True
  | .returned s' => s'.Settled
  | .finished s' => s' = { s with verifiedDevices := s'.verifiedDevices }

/-- The loop returns early with a canceled session, or only notes devices. -/
theorem checkMacs_leaves {established : L.Established} {info : Str} {mac : List (Str × Json)} :
    ∀ {s : Sas L}, s.Leaves (s.checkMacs established info mac) := by
  induction mac with
  | nil => exact rfl
  | cons q rest ih =>
    intro s
    rw [checkMacs]
    split
    · split
      · exact settled_cancelWith s (by decide)
      · split
        · exact ih
        · split
          · trivial
          · split
            · exact settled_cancelWith s (by decide)
            · exact @ih { s with verifiedDevices := s.verifiedDevices ++ _ }
    · exact settled_cancelWith s (by decide)

theorem Settled.receiveMacEvent {s : Sas L} (h : s.Settled) {e : KeyVerificationMac}
    (hnot : ¬ s.OmitsDevice e) : (s.orSame (s.receiveMacEvent e)).Settled := by
  have hok := h.eventOk e.sender e.transactionId
  unfold Sas.receiveMacEvent
  split
  · exact h
  · split
    · next s' heq =>
      rw [heq] at hok
      exact hok
    · next s' heq =>
      have hfst := (s.eventOk_fst e.sender e.transactionId).mp (by rw [heq])
      obtain rfl := eventOk_true heq
      split
      · exact settled_cancelWith s' (by decide)
      · next hstate =>
        rw [not_not] at hstate
        split
        · exact h
        · next established hestablished =>
          split
          · exact h
          · next hmethod =>
            split
            · exact h
            · next keys hkeys =>
              split
              · exact settled_cancelWith s' (by decide)
              · next hsame =>
                rw [not_not] at hsame
                have hloop := @checkMacs_leaves L established s'.macInfo e.mac s'
                split
                · exact h
                · next s'' heq' =>
                  rw [heq'] at hloop
                  exact hloop
                · next s'' heq' =>
                  rw [heq'] at hloop
                  obtain ⟨-, hcases⟩ := checkMacs_ok heq'
                  -- a session that would be canceled here has been given no key of the device
                  have hne : s''.verifiedDevices ≠ [] := by
                    intro hnil
                    rcases hcases with ⟨-, hall⟩ | ⟨hmem, -⟩
                    · exact hnot ⟨hstate, hmethod, ⟨established, hestablished, hfst.2.1, hfst.2.2,
                        hsame ▸ hkeys⟩, hall⟩
                    · rw [hnil] at hmem
                      cases hmem
                  simp only [orSame, if_neg hne]
                  refine h.of_code hfst.1 ?_ SasState.noConfusion fun h' => absurd rfl h'
                  rw [hloop]

/-- A session of which no MAC event omits the device stays what its cancel code says. -/
theorem Settled.step {s : Sas L} (h : s.Settled) {c : SasCall L}
    (hnot : ∀ e, c = .receiveMac e → ¬ s.OmitsDevice e) : (s.step c).Settled := by
  cases c with
  | receiveAccept e => exact h.receiveAcceptEvent e
  | receiveKey e dh => exact h.receiveKeyEvent e dh
  | receiveMac e => exact h.receiveMacEvent (hnot e rfl)
  | acceptSas =>
    simp only [Sas.step, acceptSas]
    split
    · exact h
    · split
      · exact h
      · exact ⟨h.codes, h.canceled, h.verifiedDevices⟩
  | rejectSas =>
    simp only [Sas.step, rejectSas]
    split
    · exact h
    · exact settled_cancelWith s (by decide)
  | cancel => exact settled_cancelWith s (by decide)
  | timedOut now =>
    simp only [Sas.step, timedOut]
    split
    · exact h
    · split
      · exact settled_cancelWith s (by decide)
      · exact h
  | acceptVerification =>
    simp only [Sas.step, acceptVerification]
    split
    · exact h
    · split
      · exact h
      · exact ⟨h.codes, h.canceled, h.verifiedDevices⟩

/-- A loop over keys of other devices notes nothing. -/
theorem checkMacs_omits {established : L.Established} {info : Str} {mac : List (Str × Json)}
    {s : Sas L} (hall : ∀ p ∈ mac, ∃ device, split (chr ':') 2 p.1 = [py "ed25519", device] ∧
      device ≠ s.otherOlmDevice.deviceId) : s.checkMacs established info mac = .finished s := by
  induction mac with
  | nil => rfl
  | cons q rest ih =>
    rw [List.forall_mem_cons] at hall
    obtain ⟨⟨device, hsplit, hne⟩, hrest⟩ := hall
    rw [checkMacs, hsplit]
    simp only [not_true_eq_false, if_false, ne_eq, hne, not_false_eq_true, if_true]
    exact ih hrest

/-- A MAC event that omits the device cancels the session and takes it on to `mac_received`. -/
theorem not_settled_of_omits {s : Sas L} (h : s.Settled) {e : KeyVerificationMac}
    (homits : s.OmitsDevice e) : (s.step (.receiveMac e)).cancelCode ≠ [] ∧
      (s.step (.receiveMac e)).state = .macReceived := by
  obtain ⟨hstate, hmethod, ⟨established, hestablished, htx, hsender, hkeys⟩, hall⟩ := homits
  have hnc : s.state ≠ .canceled := by
    rw [hstate]
    exact SasState.noConfusion
  have hnm : s.state ≠ .macReceived := by
    rw [hstate]
    exact SasState.noConfusion
  have hverified : s.verified = false := by
    unfold verified
    rw [hstate]
    rfl
  have hok : s.eventOk e.sender e.transactionId = (true, s) := eventOk_eq hnc htx hsender
  have hdevices := h.verifiedDevices hnc hnm
  have hmac : s.receiveMacEvent e = .ok { s.cancelWith keyMismatchError with state := .macReceived } := by
    unfold Sas.receiveMacEvent
    rw [hverified, hok]
    simp only [hstate, hestablished, hkeys, checkMacs_omits hall, hdevices, hmethod, ne_eq,
      not_true_eq_false, if_false, if_true, Bool.false_eq_true]
  simp only [Sas.step, hmac, orSame]
  exact ⟨(cancelErrors_texts keyMismatchError (by decide)).1, trivial⟩

/-! ## What can raise -/

/-- The session takes a public key now. -/
structure ExpectsKey (s : Sas L) (e : KeyVerificationKey) : Prop where
  established : s.establishedSas = none
  state : s.state = .started ∨ s.state = .accepted
  transactionId : e.transactionId = s.transactionId
  sender : e.sender = s.otherOlmDevice.userId

/-- The library can work with a key that the session takes now. If this device started, then the
other one has sent a commitment, the ids and the key can be encoded, and the key may be anything if
it is not the one of the commitment. -/
def KeyUsable (s : Sas L) (e : KeyVerificationKey) (diffieHellman : Option L.Established) : Prop :=
  s.ExpectsKey e →
    (s.weStartedIt = true → ∃ commitment start calculated, s.commitment = some commitment ∧
      commitment ≠ [] ∧ s.startVerification = .ok start ∧
      L.commitment e.key start.content = .ok calculated ∧
      (commitment = calculated → diffieHellman.isSome)) ∧
    (s.weStartedIt = false → diffieHellman.isSome)

theorem checkCommitment_ok_iff {s : Sas L} {key : Str} {b : Bool} :
    s.checkCommitment key = .ok b ↔ ∃ commitment start calculated, s.commitment = some commitment ∧
      commitment ≠ [] ∧ s.startVerification = .ok start ∧
      L.commitment key start.content = .ok calculated ∧ b = decide (commitment = calculated) := by
  unfold checkCommitment
  cases s.commitment with
  | none => simp
  | some commitment =>
    by_cases hnil : commitment = []
    · simp [hnil]
    · cases s.startVerification with
      | error e => simp [hnil, bind, Except.bind]
      | ok start =>
        simp only [hnil, if_false, bind, Except.bind, Option.some.injEq, exists_and_left,
          exists_eq_left', ne_eq, not_false_eq_true, true_and, Except.ok.injEq]
        cases L.commitment key start.content with
        | error e => simp
        | ok calculated => simp [eq_comm]

theorem receiveKeyEvent_isOk_iff (s : Sas L) (e : KeyVerificationKey)
    (dh : Option L.Established) :
    (∃ s', s.receiveKeyEvent e dh = .ok s') ↔ s.KeyUsable e dh := by
  unfold receiveKeyEvent
  split
  · next hnew =>
    refine ⟨fun _ hexp => ?_, fun _ => ⟨_, rfl⟩⟩
    rcases hnew with h | h
    · rw [hexp.established] at h
      cases h
    · exact (hexp.state.elim h.1 h.2).elim
  · next hnew =>
    rw [not_or] at hnew
    have hfst := s.eventOk_fst e.sender (.str e.transactionId)
    split
    · next s' heq =>
      refine ⟨fun _ hexp => ?_, fun _ => ⟨_, rfl⟩⟩
      have hstate : s.state ≠ .canceled := by
        rcases hexp.state with h | h <;> rw [h] <;> exact SasState.noConfusion
      have := hfst.mpr ⟨hstate, by rw [hexp.transactionId], hexp.sender⟩
      rw [heq] at this
      cases this
    · next s' heq =>
      obtain rfl := eventOk_true heq
      rw [heq] at hfst
      obtain ⟨hstate, htx, hsender⟩ := hfst.mp rfl
      have hexp : s'.ExpectsKey e := by
        refine ⟨?_, ?_, Json.str.inj htx, hsender⟩
        · simpa using hnew.1
        · by_contra hno
          exact hnew.2 (not_or.mp hno)
      unfold KeyUsable
      cases hstarted : s'.weStartedIt with
      | false =>
        simp only [Bool.false_eq_true, if_false, false_imp_iff, true_and]
        cases dh with
        | none => simp [hexp]
        | some k => simp
      | true =>
        simp only [if_true, true_imp_iff, Bool.true_eq_false, false_imp_iff, and_true]
        cases hcheck : s'.checkCommitment e.key with
        | error err =>
          refine ⟨fun ⟨_, h⟩ => (nomatch h), fun h => ?_⟩
          obtain ⟨commitment, start, calculated, h1, h2, h3, h4, -⟩ := h hexp
          have := checkCommitment_ok_iff.mpr ⟨commitment, start, calculated, h1, h2, h3, h4, rfl⟩
          rw [hcheck] at this
          cases this
        | ok b =>
          obtain ⟨commitment, start, calculated, h1, h2, h3, h4, hb⟩ := checkCommitment_ok_iff.mp hcheck
          cases b with
          | false =>
            refine ⟨fun _ _ => ⟨commitment, start, calculated, h1, h2, h3, h4, fun h => ?_⟩,
              fun _ => ⟨_, rfl⟩⟩
            exact absurd h (of_decide_eq_false hb.symm)
          | true =>
            cases dh with
            | some k =>
              exact ⟨fun _ _ => ⟨commitment, start, calculated, h1, h2, h3, h4, fun _ => rfl⟩,
                fun _ => ⟨_, rfl⟩⟩
            | none =>
              refine ⟨fun ⟨_, h⟩ => (nomatch h), fun h => ?_⟩
              obtain ⟨commitment', start', calculated', h1', -, h3', h4', hdh⟩ := h hexp
              rw [h1] at h1'
              rw [h3] at h3'
              cases h1'
              cases h3'
              rw [h4] at h4'
              cases h4'
              exact absurd (hdh (of_decide_eq_true hb.symm)) (by simp)

/-- The session takes a MAC now. -/
structure ExpectsMac (s : Sas L) (e : KeyVerificationMac) : Prop where
  state : s.state = .keyReceived
  transactionId : e.transactionId = .str s.transactionId
  sender : e.sender = s.otherOlmDevice.userId

/-- The first key id of the event that does not belong to another device of the user belongs to the
other device. -/
def Reaches (s : Sas L) (mac : List (Str × Json)) : Prop :=
  ∃ before p after, mac = before ++ p :: after ∧
    split (chr ':') 2 p.1 = [py "ed25519", s.otherOlmDevice.deviceId] ∧
    ∀ q ∈ before, ∃ device, split (chr ':') 2 q.1 = [py "ed25519", device] ∧
      device ≠ s.otherOlmDevice.deviceId

/-- The library can work with a MAC event that the session takes now: there is a shared secret, the
offer was accepted, and what the MACs are calculated of can be encoded. -/
def MacUsable (s : Sas L) (e : KeyVerificationMac) : Prop :=
  s.ExpectsMac e → ∃ established, s.establishedSas = some established ∧ s.chosenMacMethod ≠ [] ∧
    (keyIds e.mac).Encodable ∧ s.macInfo.Encodable ∧
    (calculateMac established (keyIds e.mac) (s.macInfo ++ py "KEY_IDS") = .ok e.keys →
      s.Reaches e.mac → s.otherOlmDevice.ed25519.Encodable)

theorem encodable_of_keyIds {mac : List (Str × Json)} (h : (keyIds mac).Encodable) :
    ∀ p ∈ mac, p.1.Encodable := by
  intro p hp c hc
  refine h c ?_
  unfold keyIds
  have hmem : p.1 ∈ (mac.map (·.1)).mergeSort fun a b => decide (a ≤ b) :=
    List.mem_mergeSort.mpr (List.mem_map_of_mem hp)
  generalize ((mac.map (·.1)).mergeSort fun a b => decide (a ≤ b)) = ids at hmem
  rw [List.intercalate, List.mem_flatten]
  refine ⟨p.1, ?_, hc⟩
  induction ids with
  | nil => cases hmem
  | cons id ids ih =>
    cases ids with
    | nil => simpa using hmem
    | cons id' ids =>
      rw [List.intersperse_cons_cons]
      rcases List.mem_cons.mp hmem with h | h
      · rw [h]
        exact List.mem_cons_self
      · exact List.mem_cons_of_mem _ (List.mem_cons_of_mem _ (ih h))

/-- The loop raises where it comes to a key of the device whose stored fingerprint key cannot be
encoded. -/
theorem checkMacs_raises_iff {established : L.Established} {info : Str} (hinfo : info.Encodable)
    {mac : List (Str × Json)} (hids : ∀ p ∈ mac, p.1.Encodable) : ∀ {s : Sas L},
    (∃ err, s.checkMacs established info mac = .raised err) ↔
      s.Reaches mac ∧ ¬ s.otherOlmDevice.ed25519.Encodable := by
  induction mac with
  | nil =>
    intro s
    refine ⟨(by rintro ⟨_, h⟩; cases h), ?_⟩
    rintro ⟨⟨before, p, after, h, -⟩, -⟩
    cases before <;> cases h
  | cons q rest ih =>
    rw [List.forall_mem_cons] at hids
    have ih := @ih hids.2
    intro s
    -- where the first id is not one of another device, the loop has reached its end
    have hfirst : s.Reaches (q :: rest) ↔
        split (chr ':') 2 q.1 = [py "ed25519", s.otherOlmDevice.deviceId] ∨
        (∃ device, split (chr ':') 2 q.1 = [py "ed25519", device] ∧
          device ≠ s.otherOlmDevice.deviceId) ∧ s.Reaches rest := by
      constructor
      · rintro ⟨before, p, after, heq, hp, hbefore⟩
        cases before with
        | nil =>
          cases heq
          exact Or.inl hp
        | cons b before =>
          obtain ⟨rfl, rfl⟩ := List.cons.inj heq
          rw [List.forall_mem_cons] at hbefore
          exact Or.inr ⟨hbefore.1, before, p, after, rfl, hp, hbefore.2⟩
      · rintro (h | ⟨h, before, p, after, rfl, hp, hbefore⟩)
        · exact ⟨[], q, rest, rfl, h, by simp⟩
        · exact ⟨q :: before, p, after, rfl, hp, List.forall_mem_cons.mpr ⟨h, hbefore⟩⟩
    rw [hfirst, checkMacs]
    split
    · next keyType deviceId hsplit =>
      rw [hsplit]
      by_cases htype : keyType = py "ed25519"
      · by_cases hdev : deviceId = s.otherOlmDevice.deviceId
        · rw [if_neg (by simp [htype]), if_neg (by simp [hdev])]
          simp only [htype, hdev, true_or, true_and, List.cons.injEq, and_true, ne_eq]
          unfold calculateMac
          have henc : Str.Encodable (info ++ q.1) :=
            Str.Encodable.append.mpr ⟨hinfo, hids.1⟩
          by_cases hkey : s.otherOlmDevice.ed25519.Encodable
          · rw [if_pos ⟨hkey, henc⟩]
            simp only [hkey, not_true_eq_false, iff_false, not_exists]
            intro err
            split
            · exact fun h => by cases h
            · intro h
              have hraise := (@ih { s with verifiedDevices := s.verifiedDevices ++
                [s.otherOlmDevice.deviceId] }).mp ⟨err, h⟩
              exact hraise.2 hkey
          · rw [if_neg fun h => hkey h.1]
            simp [hkey]
        · rw [if_neg (by simp [htype]), if_pos hdev, ih]
          simp [htype, hdev]
      · rw [if_pos htype]
        simp [htype]
    · next hother =>
      refine ⟨(by rintro ⟨_, h⟩; cases h), ?_⟩
      rintro ⟨h | ⟨⟨device, h, -⟩, -⟩, -⟩
      · exact absurd h (hother _ _)
      · exact absurd h (hother _ _)

/-- A MAC event that the session takes now, with the right MACs -/
def Finishes (s : Sas L) (e : KeyVerificationMac) : Prop :=
  s.ExpectsMac e ∧ ∃ established, s.establishedSas = some established ∧ s.chosenMacMethod ≠ [] ∧
    calculateMac established (keyIds e.mac) (s.macInfo ++ py "KEY_IDS") = .ok e.keys ∧
    ∃ s', s.checkMacs established s.macInfo e.mac = .finished s'

/-- A MAC that is expected passes `_event_ok`. -/
theorem ExpectsMac.eventOk {s : Sas L} {e : KeyVerificationMac} (h : s.ExpectsMac e) :
    s.eventOk e.sender e.transactionId = (true, s) := by
  refine eventOk_eq ?_ h.transactionId h.sender
  rw [h.state]
  exact SasState.noConfusion

/-- A MAC event that the session does not take now verifies nothing and raises nothing. -/
theorem receiveMacEvent_unexpected {s : Sas L} {e : KeyVerificationMac} (h : ¬ s.ExpectsMac e) :
    ∃ s', s.receiveMacEvent e = .ok s' ∧ s'.verified = s.verified := by
  unfold receiveMacEvent
  split
  · exact ⟨s, rfl, rfl⟩
  · next hverified =>
    split
    · next s' heq =>
      refine ⟨s', rfl, ?_⟩
      rcases s.eventOk_cases e.sender e.transactionId with ⟨s'', h', hstays | hcancels⟩ | ⟨h', -⟩
      · rw [heq] at h'
        cases h'
        simp only [verified, hstays.state, hstays.accepted]
      · rw [heq] at h'
        cases h'
        simpa [verified, hcancels.state] using hverified
      · rw [heq] at h'
        cases h'
    · next s' heq =>
      have hfst := s.eventOk_fst e.sender e.transactionId
      obtain rfl := eventOk_true heq
      rw [heq] at hfst
      obtain ⟨-, htx, hsender⟩ := hfst.mp rfl
      rw [if_pos fun hkey => h ⟨hkey, htx, hsender⟩]
      exact ⟨_, rfl, by simpa [verified, cancelWith] using hverified⟩

/-- A MAC is calculated of what can be encoded. -/
theorem calculateMac_isOk_iff (established : L.Established) (input info : Str) :
    (∃ mac, calculateMac established input info = .ok mac) ↔ input.Encodable ∧ info.Encodable := by
  unfold calculateMac
  split
  · next h => exact iff_of_true ⟨_, rfl⟩ h
  · next h => exact iff_of_false (by rintro ⟨_, h'⟩; cases h') h

/-- The method raises where the event cannot be used; and a session is verified after it when it was
accepted and the event, or one before it, was right. -/
theorem receiveMacEvent_spec (s : Sas L) (e : KeyVerificationMac) :
    ((∃ s', s.receiveMacEvent e = .ok s') ↔ s.MacUsable e) ∧
    ∀ s', s.receiveMacEvent e = .ok s' → (s'.verified = true ↔
      s.sasAccepted = true ∧ (s.state = .macReceived ∨ s.Finishes e)) := by
  by_cases hexp : s.ExpectsMac e
  case neg =>
    obtain ⟨s', hs', hv⟩ := receiveMacEvent_unexpected hexp
    refine ⟨⟨fun _ h => absurd h hexp, fun _ => ⟨s', hs'⟩⟩, ?_⟩
    rintro s'' h
    rw [hs'] at h
    cases h
    have hno : ¬ s.Finishes e := fun h => hexp h.1
    rw [hv]
    simp [verified, hno, and_comm]
  have hverified : s.verified = false := by simp [verified, hexp.state]
  have hnm : s.state ≠ .macReceived := by
    rw [hexp.state]
    exact SasState.noConfusion
  unfold receiveMacEvent MacUsable Finishes
  simp only [hverified, hexp.eventOk, hexp.state, hexp, Bool.false_eq_true, if_false, ne_eq,
    not_true_eq_false, true_imp_iff, true_and, hexp.state ▸ hnm, false_or]
  cases hest : s.establishedSas with
  | none => simp
  | some established =>
    simp only [Option.some.injEq, exists_eq_left']
    by_cases hmethod : s.chosenMacMethod = []
    · simp [hmethod]
    · simp only [hmethod, if_false, not_false_eq_true, true_and]
      have hinfo : Str.Encodable (s.macInfo ++ py "KEY_IDS") ↔ s.macInfo.Encodable := by
        have : Str.Encodable (py "KEY_IDS") := by decide
        simp [Str.Encodable.append, this]
      have hcalc := calculateMac_isOk_iff established (keyIds e.mac) (s.macInfo ++ py "KEY_IDS")
      rw [hinfo] at hcalc
      rw [← and_assoc, ← hcalc]
      cases hkeys : calculateMac established (keyIds e.mac) (s.macInfo ++ py "KEY_IDS") with
      | error err => simp
      | ok keys =>
        obtain ⟨hids, hmacInfo⟩ := hcalc.mp ⟨keys, hkeys⟩
        by_cases hsame : e.keys = keys
        · subst hsame
          -- here the loop over the keys decides whether the method raises
          have hraise := @checkMacs_raises_iff L established _ hmacInfo _ (encodable_of_keyIds hids) s
          have husable : (s.Reaches e.mac → s.otherOlmDevice.ed25519.Encodable) ↔
              ¬ ∃ err, s.checkMacs established s.macInfo e.mac = .raised err := by
            rw [hraise, not_and_not_right]
          simp only [husable, not_true_eq_false, if_false, true_imp_iff, true_and]
          cases hloop : s.checkMacs established s.macInfo e.mac with
          | raised err => simp
          | returned s' =>
            obtain ⟨devices, error, rfl⟩ := checkMacs_error hloop
            simp [verified, cancelWith]
          | finished s' =>
            have haccepted : s'.sasAccepted = s.sasAccepted := by
              rw [(checkMacs_ok hloop).1]
            have hif : (if s'.verifiedDevices = [] then s'.cancelWith keyMismatchError
                else s').sasAccepted = s.sasAccepted := by
              split
              · exact haccepted
              · exact haccepted
            simp [verified, hif]
        · have hsame' : ¬ keys = e.keys := fun h => hsame h.symm
          simp [hsame, hsame', verified, cancelWith]

theorem Settled.getCancellation {s : Sas L} (h : s.Settled) (hs : s.isCanceled = true) :
    ∃ message, s.getCancellation = .ok message := by
  have hstate : s.state = .canceled := of_decide_eq_true hs
  obtain ⟨h1, h2⟩ := h.codes hstate
  unfold Sas.getCancellation
  rw [if_neg (not_not.mpr hstate), if_neg (not_or.mpr ⟨h1, h2⟩)]
  exact ⟨_, rfl⟩

theorem shareKey_ok {s : Sas L} (hs : ¬ s.isCanceled = true) : ∃ message, s.shareKey = .ok message := by
  unfold shareKey
  rw [if_neg (by simpa [isCanceled] using hs)]
  exact ⟨_, rfl⟩

/-- A new session is settled, whether or not its offer is one that can be taken. -/
theorem settled_fromStart {ownUser ownDevice ownFpKey : Str} {device : OlmDevice}
    {event : KeyVerificationStart} {pubkey uuid : Str} {now : Int} {s : Sas L}
    (h : fromKeyVerificationStart ownUser ownDevice ownFpKey device event pubkey uuid now = .ok s) :
    s.Settled := by
  unfold fromKeyVerificationStart at h
  generalize (if event.transactionId = [] then uuid else event.transactionId) = t at h
  cases hc : L.commitment pubkey event.content with
  | error e =>
    rw [hc] at h
    cases h
  | ok commitment =>
    rw [hc] at h
    dsimp only at h
    split at h
    · cases h
      exact settled_cancelWith _ (by decide)
    · cases h
      exact ⟨fun h' => (nomatch h'), fun h' => absurd rfl h', fun _ _ => rfl⟩

/-- A session is made for every offer whose content can be encoded. -/
theorem fromStart_isOk_iff {ownUser ownDevice ownFpKey : Str} {device : OlmDevice}
    {event : KeyVerificationStart} {pubkey uuid : Str} {now : Int} :
    (∃ s : Sas L, fromKeyVerificationStart ownUser ownDevice ownFpKey device event pubkey uuid now
      = .ok s) ↔ ∃ commitment, L.commitment pubkey event.content = .ok commitment := by
  unfold fromKeyVerificationStart
  generalize (if event.transactionId = [] then uuid else event.transactionId) = t
  cases L.commitment pubkey event.content with
  | error e => exact ⟨fun ⟨_, h⟩ => (nomatch h), fun ⟨_, h⟩ => (nomatch h)⟩
  | ok commitment =>
    refine ⟨fun _ => ⟨commitment, rfl⟩, fun _ => ?_⟩
    dsimp only
    split
    · exact ⟨_, rfl⟩
    · exact ⟨_, rfl⟩

end Sas

/-! ## Sessions of the machine -/

/-- The transaction id that an event names -/
def KeyVerificationEvent.transactionId : KeyVerificationEvent L → Json
  | .start e _ _ _ => .str e.transactionId
  | .accept e => .str e.transactionId
  | .key e _ => .str e.transactionId
  | .mac e _ => e.transactionId
  | .cancel e => .str e.transactionId

/-- The action puts a new session under a transaction id. -/
def VerificationAction.Opens (t : Str) : VerificationAction L → Prop
  | .handle (.start e _ _ _) => e.transactionId = t
  | .create _ _ _ uuid _ => uuid = t
  | _ => False

/-- The action hands a MAC event to the session of a transaction id. -/
def VerificationAction.Brings (t : Str) (e : KeyVerificationMac) : VerificationAction L → Prop
  | .handle (.mac e' _) => e' = e ∧ e'.transactionId = .str t
  | .call t' (.receiveMac e') => e' = e ∧ t' = t
  | _ => False

namespace OlmMachine

/-- The dictionary of sessions is in order. -/
structure Orderly (o : OlmMachine L) : Prop where
  nodup : (o.keyVerifications.map (·.1)).Nodup
  settled : ∀ t s, dictGet? o.keyVerifications t = some s → s.Settled

/-- Where a session comes from that stands under a transaction id after an action -/
inductive Origin (o : OlmMachine L) (a : VerificationAction L) (t : Str) (s' : Sas L) : Prop where
  | same (h : dictGet? o.keyVerifications t = some s')
  | called (s : Sas L) (c : SasCall L) (h : dictGet? o.keyVerifications t = some s)
      (hc : s' = s.step c) (hmac : ∀ e, c = .receiveMac e → a.Brings t e)
  | renewed (s : Sas L) (device : OlmDevice) (h : dictGet? o.keyVerifications t = some s)
      (hc : s' = { s with otherOlmDevice := device })
  | opened (h : a.Opens t) (hs : s'.Settled)

theorem dictGet?_setSas (o : OlmMachine L) (t t' : Str) (s : Sas L) :
    dictGet? (o.setSas t s).keyVerifications t' =
      if t' = t then some s else dictGet? o.keyVerifications t' :=
  dictGet?_dictSet o.keyVerifications t t' s

/-- One session was replaced by what a call made of it. -/
theorem Origin.of_call {o : OlmMachine L} {a : VerificationAction L} {t t' : Str} {s s' : Sas L}
    {c : SasCall L} (h : dictGet? o.keyVerifications t = some s)
    (hmac : ∀ e, c = .receiveMac e → a.Brings t e)
    (h' : dictGet? (dictSet o.keyVerifications t (s.step c)) t' = some s') : Origin o a t' s' := by
  rw [dictGet?_dictSet] at h'
  split at h'
  · next heq =>
    subst heq
    cases h'
    exact .called s c h rfl hmac
  · exact .same h'

theorem getActiveSas_some {o : OlmMachine L} {userId deviceId t : Str} {s : Sas L}
    (hn : (o.keyVerifications.map (·.1)).Nodup)
    (h : o.getActiveSas userId deviceId = some (t, s)) : dictGet? o.keyVerifications t = some s ∧
      s.otherOlmDevice.userId = userId ∧ s.otherOlmDevice.deviceId = deviceId := by
  unfold getActiveSas at h
  have hmem := List.mem_mergeSort.mp (List.mem_of_find?_eq_some h)
  have hids := List.find?_some h
  have hids := of_decide_eq_true hids
  exact ⟨dictGet?_of_mem hn (List.mem_filter.mp hmem).1, hids⟩

/-- Only a string finds a session. -/
theorem str_of_getVerification {o : OlmMachine L} {v : Json} {t : Str} {s : Sas L}
    (h : o.getVerification v = .ok (some (t, s))) : v = .str t := by
  unfold getVerification at h
  split at h
  · obtain ⟨s', -, heq⟩ := Option.map_eq_some_iff.mp (Except.ok.inj h)
    obtain ⟨rfl, rfl⟩ := Prod.mk.inj heq
    rfl
  · cases h
  · cases h
  · cases h

/-- A MAC event that a session is called with is brought by the action. -/
theorem Calls.brings {o : OlmMachine L} {a : VerificationAction L} {t : Str} {s : Sas L}
    {c : SasCall L} (h : Calls o a t s c) (e : KeyVerificationMac) (he : c = .receiveMac e) :
    a.Brings t e := by
  subst he
  cases h with
  | marking call =>
    cases call with
    | mac event trusted t s found => exact ⟨rfl, str_of_getVerification found⟩
  | call t s c found => exact ⟨rfl, rfl⟩

/-- A new session is settled and stands under the transaction id that the action gives it. -/
theorem NewSession.opens {o : OlmMachine L} {a : VerificationAction L} {t : Str} {s : Sas L}
    (h : NewSession o a t s) : a.Opens t ∧ s.Settled := by
  cases h with
  | start device event pubkey uuid now s made => exact ⟨rfl, Sas.settled_fromStart made⟩
  | create device userId deviceId pubkey uuid now =>
    exact ⟨rfl, fun h' => (by cases h'), fun h' => absurd rfl h', fun _ _ => rfl⟩

/-- An event calls the session that it names, -/
theorem Calls.transactionId {o : OlmMachine L} {event : KeyVerificationEvent L} {t : Str}
    {s : Sas L} {c : SasCall L} (h : Calls o (.handle event) t s c) :
    event.transactionId = .str t := by
  cases h with
  | accept event s found => rfl
  | key event dh s found => rfl
  | marking call =>
    cases call with
    | mac event trusted t s found => exact str_of_getVerification found

/-- and opens one under the transaction id that it names. -/
theorem NewSession.transactionId {o : OlmMachine L} {event : KeyVerificationEvent L} {t : Str}
    {s : Sas L} (h : NewSession o (.handle event) t s) : event.transactionId = .str t := by
  cases h with
  | start device event pubkey uuid now s made => rfl

theorem clearEntries_sublist (now : Int) (entries : List (Str × Sas L)) :
    (clearEntries now entries).1.Sublist entries := by
  induction entries with
  | nil => exact .slnil
  | cons q rest ih =>
    obtain ⟨t, sas⟩ := q
    have hsame : ∀ s', sas.timedOut now = (false, s') → s' = sas := by
      intro s' hs'
      unfold Sas.timedOut at hs'
      split at hs'
      · exact (Prod.mk.inj hs').2.symm
      · split at hs'
        · cases hs'
        · exact (Prod.mk.inj hs').2.symm
    simp only [clearEntries]
    split
    · exact ih.cons _
    · next s' hs' =>
      obtain rfl := hsame s' hs'
      split
      · exact ih.cons _
      · exact ih.cons_cons _

/-- Where the sessions come from that an action leaves -/
theorem Outcome.origin {o : OlmMachine L} {a : VerificationAction L} {sessions : List (Str × Sas L)}
    {marked : List OlmDevice} (h : Outcome o a sessions marked)
    (hn : (o.keyVerifications.map (·.1)).Nodup) {t : Str} {s' : Sas L}
    (hs' : dictGet? sessions t = some s') : Origin o a t s' := by
  cases h with
  | same a => exact .same hs'
  | called call => exact Origin.of_call call.found call.brings hs'
  | marks call verified =>
    exact Origin.of_call (Calls.marking call).found (Calls.marking call).brings hs'
  | opened new =>
    rw [dictGet?_dictSet] at hs'
    split at hs'
    · next heq =>
      cases hs'
      exact .opened (heq ▸ new.opens.1) new.opens.2
    · exact .same hs'
  | canceled active =>
    exact @Origin.of_call _ _ _ _ _ _ _ .cancel (getActiveSas_some hn active).1
      (fun e he => by cases he) hs'
  | replaced active new =>
    rw [dictGet?_dictSet] at hs'
    split at hs'
    · next heq =>
      cases hs'
      exact .opened (heq ▸ new.opens.1) new.opens.2
    · exact @Origin.of_call _ _ _ _ _ _ _ .cancel (getActiveSas_some hn active).1
        (fun e he => by cases he) hs'
  | erased event =>
    rw [dictGet?_dictErase] at hs'
    split at hs'
    · cases hs'
    · exact .same hs'
  | cleared now =>
    have hmem := (clearEntries_sublist now o.keyVerifications).subset (mem_of_dictGet? hs')
    exact .same (dictGet?_of_mem hn hmem)
  | renewed userId deviceId signingKey =>
    obtain ⟨q, hq, heq⟩ := List.mem_map.mp (mem_of_dictGet? hs')
    obtain ⟨rfl, rfl⟩ := Prod.mk.inj heq
    exact .renewed q.2 _ (dictGet?_of_mem hn hq) rfl

/-- An action puts no second session under a transaction id. -/
theorem Outcome.nodup {o : OlmMachine L} {a : VerificationAction L} {sessions : List (Str × Sas L)}
    {marked : List OlmDevice} (h : Outcome o a sessions marked)
    (hn : (o.keyVerifications.map (·.1)).Nodup) : (sessions.map (·.1)).Nodup := by
  cases h with
  | same a => exact hn
  | called call => exact nodup_dictSet hn _ _
  | marks call verified => exact nodup_dictSet hn _ _
  | opened new => exact nodup_dictSet hn _ _
  | canceled active => exact nodup_dictSet hn _ _
  | replaced active new => exact nodup_dictSet (nodup_dictSet hn _ _) _ _
  | erased event => exact hn.sublist (List.filter_sublist.map _)
  | cleared now => exact hn.sublist ((clearEntries_sublist now o.keyVerifications).map _)
  | renewed userId deviceId signingKey =>
    simp only [replaceKeys, List.map_map]
    exact hn

/-! ## The claim and its condition -/

/-- No event raises; an event changes its own session, and a start also cancels the session that the
device already had; a canceled session stays canceled, until its transaction id is given to another
one; and a session with a cancel code is canceled. -/
structure Robust (o : OlmMachine L) (a : VerificationAction L) : Prop where
  quiet : ∀ event, a = .handle event → (o.handleKeyVerification event).2 = .ok ()
  own : ∀ event, a = .handle event → ∀ t s, dictGet? o.keyVerifications t = some s →
    event.transactionId ≠ .str t → dictGet? (o.step a).keyVerifications t = some s ∨
      ∃ e pubkey uuid now, event = .start e pubkey uuid now ∧
        s.otherOlmDevice.userId = e.sender ∧ s.otherOlmDevice.deviceId = e.fromDevice ∧
        dictGet? (o.step a).keyVerifications t = some s.cancel
  stays : ∀ t s s', dictGet? o.keyVerifications t = some s → s.state = .canceled →
    dictGet? (o.step a).keyVerifications t = some s' → s'.state = .canceled ∨ a.Opens t
  settled : ∀ t s', dictGet? (o.step a).keyVerifications t = some s' → s'.cancelCode ≠ [] →
    s'.state = .canceled

/-- The events that the handler has an answer for -/
def Handled (o : OlmMachine L) : VerificationAction L → Prop
  | .handle (.start e pubkey _ _) => (o.device? e.sender e.fromDevice).isSome →
      ∃ commitment, L.commitment pubkey e.content = .ok commitment
  | .handle (.key e dh) => ∀ s, dictGet? o.keyVerifications e.transactionId = some s →
      s.KeyUsable e dh
  | .handle (.mac e trusted) => (∃ r, o.getVerification e.transactionId = .ok r) ∧
      ∀ t s, o.getVerification e.transactionId = .ok (some (t, s)) → s.MacUsable e ∧
        ¬ s.OmitsDevice e ∧
        (s.sasAccepted = true → s.state = .macReceived ∨ s.Finishes e → trusted = true)
  | .call t (.receiveMac e) => ∀ s, dictGet? o.keyVerifications t = some s → ¬ s.OmitsDevice e
  | _ => True

theorem getVerification_of_str {o : OlmMachine L} {v : Json} {t : Str} {s : Sas L} (hv : v = .str t)
    (hs : dictGet? o.keyVerifications t = some s) : o.getVerification v = .ok (some (t, s)) := by
  subst hv
  simp [getVerification, hs]

/-- What a handled action leaves is in order. -/
theorem Orderly.step {o : OlmMachine L} (h : o.Orderly) {a : VerificationAction L}
    (ha : o.Handled a) : (o.step a).Orderly := by
  refine ⟨(becomes_step o a).nodup h.nodup, fun t s' hs' => ?_⟩
  rcases (becomes_step o a).origin h.nodup hs' with
    hsame | ⟨s, c, hs, rfl, hmac⟩ | ⟨s, d, hs, rfl⟩ | ⟨-, hnew⟩
  · exact h.settled t s' hsame
  · refine (h.settled t s hs).step ?_
    rintro e rfl
    have hbrings := hmac e rfl
    unfold VerificationAction.Brings at hbrings
    split at hbrings
    · next e' trusted =>
      obtain ⟨rfl, htx⟩ := hbrings
      exact (ha.2 t s (getVerification_of_str htx hs)).2.1
    · next t' e' =>
      obtain ⟨rfl, rfl⟩ := hbrings
      exact ha s hs
    · exact hbrings.elim
  · have hset := h.settled t s hs
    exact ⟨hset.codes, hset.canceled, hset.verifiedDevices⟩
  · exact hnew

/-! ### Which events raise -/

theorem sendResult_ok {o : OlmMachine L} {r : Except SasError ToDeviceMessage}
    (h : ∃ message, r = .ok message) : (o.sendResult r).2 = .ok () := by
  obtain ⟨message, rfl⟩ := h
  rfl

theorem quiet_start_iff (o : OlmMachine L) (e : KeyVerificationStart)
    (pubkey uuid : Str) (now : Int) :
    (o.handleStart e pubkey uuid now).2 = .ok () ↔ o.Handled (.handle (.start e pubkey uuid now)) := by
  have hhandled : o.Handled (.handle (.start e pubkey uuid now)) ↔
      ((o.device? e.sender e.fromDevice).isSome →
        ∃ commitment, L.commitment pubkey e.content = .ok commitment) := Iff.rfl
  rw [hhandled]
  unfold handleStart
  cases hdev : o.device? e.sender e.fromDevice with
  | none => simp
  | some device =>
    simp only [Option.isSome_some, true_imp_iff]
    have hiff := @Sas.fromStart_isOk_iff L o.userId o.deviceId o.identityKey device e pubkey uuid now
    cases hnew : Sas.fromKeyVerificationStart o.userId o.deviceId o.identityKey device e pubkey uuid
        now with
    | error err =>
      refine ⟨fun h' => (nomatch h'), fun h' => ?_⟩
      obtain ⟨s, hs⟩ := hiff.mpr h'
      rw [hnew] at hs
      cases hs
    | ok s =>
      refine iff_of_true ?_ (hiff.mp ⟨s, hnew⟩)
      dsimp only
      split
      · next hcanceled => exact sendResult_ok ((Sas.settled_fromStart hnew).getCancellation hcanceled)
      · split
        · rfl
        · next t₀ old hactive =>
          have hcancel : old.cancel.Settled := Sas.settled_cancelWith old (by decide)
          obtain ⟨message, hmessage⟩ := hcancel.getCancellation rfl
          rw [hmessage]
          rfl

theorem quiet_accept {o : OlmMachine L} (h : o.Orderly) (e : KeyVerificationAccept) :
    (o.handleAccept e).2 = .ok () := by
  unfold handleAccept
  split
  · rfl
  · next s hs =>
    refine sendResult_ok ?_
    split
    · next hcanceled =>
      exact ((h.settled _ _ hs).receiveAcceptEvent e).getCancellation hcanceled
    · next hcanceled => exact Sas.shareKey_ok hcanceled

theorem quiet_key_iff {o : OlmMachine L} (h : o.Orderly) (e : KeyVerificationKey)
    (dh : Option L.Established) :
    (o.handleKey e dh).2 = .ok () ↔ o.Handled (.handle (.key e dh)) := by
  have hhandled : o.Handled (.handle (.key e dh)) ↔
      ∀ s, dictGet? o.keyVerifications e.transactionId = some s → s.KeyUsable e dh := Iff.rfl
  rw [hhandled]
  unfold handleKey
  cases hs : dictGet? o.keyVerifications e.transactionId with
  | none => simp
  | some s =>
    simp only [Option.some.injEq, forall_eq']
    rw [← s.receiveKeyEvent_isOk_iff]
    have hsettled := (h.settled _ _ hs).receiveKeyEvent e dh
    cases hkey : s.receiveKeyEvent e dh with
    | error err => simp
    | ok s' =>
      rw [hkey] at hsettled
      refine iff_of_true ?_ ⟨s', rfl⟩
      dsimp only
      split
      · next hcanceled => exact sendResult_ok (hsettled.getCancellation hcanceled)
      · next hcanceled =>
        split
        · exact sendResult_ok (Sas.shareKey_ok hcanceled)
        · rfl

/-- A MAC event for which there is an answer raises nothing. -/
theorem quiet_mac {o : OlmMachine L} (h : o.Orderly) {e : KeyVerificationMac} {trusted : Bool}
    (ha : o.Handled (.handle (.mac e trusted))) : (o.handleMac e trusted).2 = .ok () := by
  obtain ⟨⟨r, hr⟩, hall⟩ := ha
  unfold handleMac
  rw [hr]
  cases r with
  | none => rfl
  | some p =>
    obtain ⟨t, s⟩ := p
    obtain ⟨husable, homits, htrust⟩ := hall t s hr
    have hs := h.settled t s (getVerification_some hr)
    have hspec := s.receiveMacEvent_spec e
    obtain ⟨s', hs'⟩ := hspec.1.mpr husable
    have hsettled := hs.receiveMacEvent homits
    rw [hs'] at hsettled
    dsimp only
    rw [hs']
    dsimp only
    split
    · next hcanceled => exact sendResult_ok (hsettled.getCancellation hcanceled)
    · split
      · next hverified =>
        obtain ⟨haccepted, hright⟩ := (hspec.2 s' hs').mp hverified
        rw [htrust haccepted hright]
        rfl
      · rfl

/-- A MAC event that raises nothing was usable, and the store did not refuse to mark its device. -/
theorem usable_of_quiet {o : OlmMachine L} {e : KeyVerificationMac} {trusted : Bool}
    (hquiet : (o.handleMac e trusted).2 = .ok ()) :
    (∃ r, o.getVerification e.transactionId = .ok r) ∧
      ∀ t s, o.getVerification e.transactionId = .ok (some (t, s)) → s.MacUsable e ∧
        (s.sasAccepted = true → s.state = .macReceived ∨ s.Finishes e → trusted = true) := by
  unfold handleMac at hquiet
  cases hr : o.getVerification e.transactionId with
  | error err =>
    rw [hr] at hquiet
    cases hquiet
  | ok r =>
    refine ⟨⟨r, rfl⟩, ?_⟩
    rintro t s hts
    cases hts
    rw [hr] at hquiet
    dsimp only at hquiet
    have hspec := s.receiveMacEvent_spec e
    cases hs' : s.receiveMacEvent e with
    | error err =>
      rw [hs'] at hquiet
      cases hquiet
    | ok s' =>
      refine ⟨hspec.1.mp ⟨s', hs'⟩, fun haccepted hright => ?_⟩
      have hverified := (hspec.2 s' hs').mpr ⟨haccepted, hright⟩
      have hnot : ¬ s'.isCanceled = true := by
        intro hcanceled
        have hstate : s'.state = .canceled := of_decide_eq_true hcanceled
        simp [Sas.verified, hstate] at hverified
      rw [hs'] at hquiet
      dsimp only at hquiet
      rw [if_neg hnot, if_pos hverified] at hquiet
      by_contra htrusted
      rw [if_neg htrusted] at hquiet
      cases hquiet

/-- An event changes its own session; a start also cancels the one that the device had. -/
theorem Outcome.own {o : OlmMachine L} {event : KeyVerificationEvent L}
    {sessions : List (Str × Sas L)} {marked : List OlmDevice}
    (h : Outcome o (.handle event) sessions marked) (hn : (o.keyVerifications.map (·.1)).Nodup)
    {t : Str} {s : Sas L} (hs : dictGet? o.keyVerifications t = some s)
    (ht : event.transactionId ≠ .str t) : dictGet? sessions t = some s ∨
      ∃ e pubkey uuid now, event = .start e pubkey uuid now ∧
        s.otherOlmDevice.userId = e.sender ∧ s.otherOlmDevice.deviceId = e.fromDevice ∧
        dictGet? sessions t = some s.cancel := by
  -- what is written under the transaction id of the event is not read under another one
  have hother : ∀ {d : List (Str × Sas L)} {t' : Str} (s' : Sas L),
      event.transactionId = .str t' → dictGet? (dictSet d t' s') t = dictGet? d t := by
    intro d t' s' heq
    rw [dictGet?_dictSet, if_neg]
    rintro rfl
    exact ht heq
  have hcancel : ∀ {userId deviceId t₀ : Str} {old : Sas L},
      o.getActiveSas userId deviceId = some (t₀, old) →
      dictGet? (dictSet o.keyVerifications t₀ old.cancel) t = some s ∨
        s.otherOlmDevice.userId = userId ∧ s.otherOlmDevice.deviceId = deviceId ∧
        dictGet? (dictSet o.keyVerifications t₀ old.cancel) t = some s.cancel := by
    intro userId deviceId t₀ old hactive
    obtain ⟨hold, huser, hdevice⟩ := getActiveSas_some hn hactive
    rw [dictGet?_dictSet]
    split
    · next heq =>
      subst heq
      rw [hs] at hold
      cases hold
      exact Or.inr ⟨huser, hdevice, rfl⟩
    · exact Or.inl hs
  cases h with
  | same a => exact Or.inl hs
  | called call =>
    rw [hother _ call.transactionId]
    exact Or.inl hs
  | marks call verified =>
    rw [hother _ (Calls.marking call).transactionId]
    exact Or.inl hs
  | opened new =>
    rw [hother _ new.transactionId]
    exact Or.inl hs
  | canceled active => exact (hcancel active).imp_right fun h => ⟨_, _, _, _, rfl, h⟩
  | replaced active new =>
    rw [hother _ new.transactionId]
    exact (hcancel active).imp_right fun h => ⟨_, _, _, _, rfl, h⟩
  | erased event =>
    rw [dictGet?_dictErase, if_neg]
    · exact Or.inl hs
    · rintro rfl
      exact ht rfl

/-! ### Runs -/

theorem robust_of_handled {o : OlmMachine L} (h : o.Orderly) {a : VerificationAction L}
    (ha : o.Handled a) : o.Robust a := by
  refine ⟨?_, ?_, ?_, fun t s' hs' => ((h.step ha).settled t s' hs').canceled⟩
  · rintro event rfl
    cases event with
    | start e pubkey uuid now => exact (quiet_start_iff o e pubkey uuid now).mpr ha
    | accept e => exact quiet_accept h e
    | key e dh => exact (quiet_key_iff h e dh).mpr ha
    | mac e trusted => exact quiet_mac h ha
    | cancel e => rfl
  · rintro event rfl t s hs ht
    exact (becomes_step o (.handle event)).own h.nodup hs ht
  · intro t s s' hs hcanceled hs'
    rcases (becomes_step o a).origin h.nodup hs' with
      hsame | ⟨s₁, c, hs₁, rfl, -⟩ | ⟨s₁, d, hs₁, rfl⟩ | ⟨hopen, -⟩
    · rw [hs] at hsame
      cases hsame
      exact Or.inl hcanceled
    · rw [hs] at hs₁
      cases hs₁
      exact Or.inl (Sas.canceled_step hcanceled c)
    · rw [hs] at hs₁
      cases hs₁
      exact Or.inl hcanceled
    · exact Or.inr hopen

/-- A session that the step has taken past its cancellation shows it. -/
theorem not_robust_of_omits {o : OlmMachine L} (h : o.Orderly) {a : VerificationAction L} {t : Str}
    {s : Sas L} {e : KeyVerificationMac} (hs : dictGet? o.keyVerifications t = some s)
    (homits : s.OmitsDevice e)
    (hstep : dictGet? (o.step a).keyVerifications t = some (s.step (.receiveMac e))) :
    ¬ o.Robust a := by
  intro hr
  obtain ⟨hcode, hstate⟩ := Sas.not_settled_of_omits (h.settled t s hs) homits
  have hcanceled := hr.settled t _ hstep hcode
  rw [hstate] at hcanceled
  cases hcanceled

theorem handled_of_robust {o : OlmMachine L} (h : o.Orderly) {a : VerificationAction L}
    (hr : o.Robust a) : o.Handled a := by
  cases a with
  | handle event =>
    have hquiet := hr.quiet event rfl
    cases event with
    | start e pubkey uuid now => exact (quiet_start_iff o e pubkey uuid now).mp hquiet
    | accept e => trivial
    | key e dh => exact (quiet_key_iff h e dh).mp hquiet
    | mac e trusted =>
      obtain ⟨hget, hall⟩ := usable_of_quiet hquiet
      refine ⟨hget, fun t s hts => ?_⟩
      obtain ⟨husable, htrust⟩ := hall t s hts
      refine ⟨husable, fun homits => ?_, htrust⟩
      obtain ⟨s', hs'⟩ := (s.receiveMacEvent_spec e).1.mpr husable
      refine not_robust_of_omits h (getVerification_some hts) homits ?_ hr
      have hstep : s.step (.receiveMac e) = s' := by
        simp only [Sas.step, hs', Sas.orSame]
      have hset : dictGet? (o.setSas t s').keyVerifications t = some s' := by
        rw [dictGet?_setSas, if_pos rfl]
      rw [hstep]
      simp only [step, handleKeyVerification, handleMac, hts, hs']
      split
      · rw [keyVerifications_sendResult]
        exact hset
      · split
        · split
          · exact hset
          · exact hset
        · exact hset
    | cancel e => trivial
  | create userId deviceId pubkey uuid now => trivial
  | confirm t => trivial
  | call t c =>
    cases c with
    | receiveMac e =>
      intro s hs homits
      refine not_robust_of_omits h hs homits ?_ hr
      simp only [step, hs]
      rw [dictGet?_setSas, if_pos rfl]
    | _ => trivial
  | clear now => trivial
  | replaceKeys userId deviceId signingKey => trivial

/-- In a run of events and calls, in any order, no event raises and canceled sessions stay canceled
exactly when the machine has an answer for every event. -/
theorem verification_events_robust {o : OlmMachine L} (ho : o.keyVerifications = [])
    (actions : List (VerificationAction L)) :
    Along step Robust o actions ↔ Along step Handled o actions := by
  refine @along_congr _ _ step Robust Handled Orderly
    (fun o a h => ⟨handled_of_robust h, robust_of_handled h⟩)
    (fun o a h hr => h.step (handled_of_robust h hr)) o actions ⟨?_, ?_⟩
  · rw [ho]
    exact List.nodup_nil
  · intro t s hs
    rw [ho] at hs
    cases hs

/-! ### The other device's start, and a key -/

/-- The other device starts and sends a key, the user accepts in between or not. -/
def startAndKey (accepts : List (VerificationAction plainLibrary)) (dh : Option Str) :
    List (VerificationAction plainLibrary) :=
  .handle (.start aliceStart (py "bob-pub") [] 0) :: accepts ++
    [.handle (.key ⟨py "@alice:example.org", py "tx", py "alice-pub"⟩ dh)]

/-- A run in which the user accepts before the key arrives -/
theorem accepted_key_robust :
    Along step Robust bob (startAndKey [.call (py "tx") .acceptVerification] (some (py "secret"))) := by
  refine (@verification_events_robust plainLibrary bob rfl _).mpr
    ⟨fun _ => ⟨_, rfl⟩, trivial, fun s hs hexp => ⟨fun hstarted => ?_, fun _ => rfl⟩, trivial⟩
  have htheirs : (dictGet? ((bob.step (.handle (.start aliceStart (py "bob-pub") [] 0))).step
      (.call (py "tx") .acceptVerification)).keyVerifications (py "tx")).map (·.weStartedIt)
        = some false := by decide +kernel
  have hs' : dictGet? ((bob.step (.handle (.start aliceStart (py "bob-pub") [] 0))).step
      (.call (py "tx") .acceptVerification)).keyVerifications (py "tx") = some s := hs
  rw [hs', Option.map_some, hstarted] at htheirs
  cases htheirs

/-- A key that the library cannot decode raises, and so does a MAC that comes before the user has
accepted the offer. -/
theorem early_events_raise :
    ¬ Along step Robust bob (startAndKey [] none) ∧
    ¬ Along step Robust bob (startAndKey [] (some (py "secret")) ++
      [.handle (.mac (aliceMac aliceKeys) true)]) := by
  constructor
  · rintro ⟨-, h, -⟩
    exact absurd (h.quiet _ rfl) (by decide +kernel)
  · rintro ⟨-, -, h, -⟩
    exact absurd (h.quiet _ rfl) (by decide +kernel)

end OlmMachine

end Nio.Crypto
