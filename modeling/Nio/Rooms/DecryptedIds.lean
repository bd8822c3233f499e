import Nio.Events.EventIds
import Nio.Crypto.MegolmDecryption

/-!
# The ids that events are remembered by

An event is remembered by its id, as a key of a dictionary. The sender's copy of the id of an
encrypted event is dropped before the payload is checked, and the id of the ciphertext is put in
afterwards. What the machine returns has this id, or none at all.

* `trackedId` — the id that an event is remembered by
* `Sighting.decrypt` — what the machine returns for an event of a timeline
* `decrypt_plain` — it is not encrypted, and its id is that of the event if it has one
-/

namespace Nio.Rooms

open Nio.Py
open Nio.Events
open Nio.Crypto (MegolmResult MegolmView MegolmState Vodozemac)

/-! ## Keys -/

/-- The number of a float that has no fraction -/
def wholeNumber (x : PyFloat) : Option Int :=
  match x.unpack with
  | .zero _ => some 0
  | .finite sign m e _ =>
    let size : Option Nat :=
      if 0 ≤ e then some (m * 2 ^ e.toNat)
      else if 2 ^ (-e).toNat ∣ m then some (m / 2 ^ (-e).toNat)
      else none
    size.map fun n : Nat =>
      match sign with
      | .positive => (n : Int)
      | .negative => -(n : Int)
  | _ => none

/-- The key that stands for all equal ones, which are numbers; a list or an object has no hash. -/
def dictKey : Json → Except PyError Json
  | .arr _ | .obj _ => .error .type
  | .bool b => .ok (.int (if b then 1 else 0))
  | .float x => .ok ((wholeNumber x).elim (.float x) .int)
  | v => .ok v

/-- Only the zeros are the whole number 0: a mantissa is no smaller than a power that divides it. -/
theorem wholeNumber_eq_zero {x : PyFloat} : wholeNumber x = some 0 ↔ truthy (.float x) = false := by
  unfold wholeNumber truthy
  dsimp only
  cases hx : x.unpack with
  | zero sign => simp
  | infinity sign => simp
  | notANumber => simp
  | finite sign m e hm =>
    have hmul : 0 < m * 2 ^ e.toNat := Nat.mul_pos hm (Nat.two_pow_pos _)
    have hdiv : 2 ^ (-e).toNat ∣ m → 0 < m / 2 ^ (-e).toNat := fun hdvd =>
      Nat.div_pos (Nat.le_of_dvd hm hdvd) (Nat.two_pow_pos _)
    refine iff_of_false (fun h => ?_) (by simp)
    obtain ⟨n, hn, hzero⟩ := Option.map_eq_some_iff.mp h
    have hn0 : n = 0 := by
      cases sign <;> dsimp only at hzero <;> omega
    rw [hn0] at hn
    split at hn
    · exact absurd (Option.some.inj hn) hmul.ne'
    · split at hn
      · next hdvd => exact absurd (Option.some.inj hn) (hdiv hdvd).ne'
      · cases hn

/-- A key is empty when its value is. -/
theorem truthy_dictKey {v key : Json} (h : dictKey v = .ok key) : truthy key = truthy v := by
  cases v with
  | arr | obj => cases h
  | null | int | str =>
    cases h
    rfl
  | bool b =>
    cases h
    cases b <;> rfl
  | float x =>
    obtain rfl := Except.ok.inj h
    cases hx : wholeNumber x with
    | none => rfl
    | some i =>
      have hzero := @wholeNumber_eq_zero x
      rw [hx, Option.some.injEq] at hzero
      by_cases hi : i = 0
      · rw [hzero.mp hi, hi]
        rfl
      · rw [Bool.of_not_eq_false fun hf => hi (hzero.mpr hf)]
        exact decide_eq_true hi

/-- The key of the id of an event, unless the id is empty -/
def trackedId (e : RoomEvent) : Option Json :=
  (e.eventId?.filter truthy).bind fun id => (dictKey id).toOption

/-! ## Decryption -/

/-- The event that stands in the timeline -/
def roomEventOf : MegolmResult → RoomEvent
  | .bad event => .bad event none
  | .event event _ _ _ _ => event

/-- The event that the machine is given, with the room where it was found -/
def megolmEvent? (roomId : Str) : RoomEvent → Option Crypto.MegolmEvent
  | .event ⟨source, .str eventId, .str sender, .int serverTimestamp⟩
      (.megolm (.str senderKey) (.str sessionId) (.str deviceId) (.str ciphertext) _ _)
      transactionId =>
    some ⟨source, eventId, sender, serverTimestamp, senderKey, sessionId, deviceId, ciphertext,
      some roomId, transactionId⟩
  | _ => none

/-- An event of a timeline, with what the machine holds when it comes, if there is one -/
structure Sighting (ρ : Type) where
  event : RoomEvent
  olm : Option (MegolmView ρ × MegolmState)

namespace Sighting

variable {ρ : Type} (lib : Vodozemac ρ) (roomId : Str) (s : Sighting ρ)

def id : Option Json := trackedId s.event

/-- `_decrypt_timeline_event` -/
def decrypt : Except PyError (Option RoomEvent) :=
  match s.olm, megolmEvent? roomId s.event with
  | some (view, state), some event =>
    match (view.decryptMegolmEvent lib state event none).2 with
    | .ok result => .ok (some (roomEventOf result))
    | .error .encryption => .ok none
    | .error (.escaped e) => .error e
  | _, _ => .ok none

/-- The event that the timeline yields -/
def observed : RoomEvent :=
  match s.decrypt lib roomId with
  | .ok (some decrypted) => decrypted
  | _ => s.event

end Sighting

/-- Without an id, or with the given one, and not encrypted -/
structure Plain (id : Json) (e : RoomEvent) : Prop where
  notMegolm : e.isMegolm = false
  ownId : e.eventId? = none ∨ e.eventId? = some id

theorem dictGet?_erased (payload : List (Str × Json)) :
    dictGet? ([py "event_id", py "sender", py "origin_server_ts", py "unsigned"].foldl dictErase
      payload) (py "event_id") = none := by
  simp only [List.foldl_cons, List.foldl_nil, dictGet?_dictErase, py_inj]
  simp

theorem dictGet?_relate (event : Crypto.MegolmEvent) (payload : List (Str × Json)) :
    dictGet? (MegolmView.relate event payload) (py "event_id") =
      dictGet? payload (py "event_id") := by
  unfold MegolmView.relate
  split
  · split
    · rfl
    · split
      · rw [dictGet?_dictSet, if_neg fun h => absurd (py_inj.mp h) (by decide)]
      · rfl
  · rfl

theorem get?_eventPayload (event : Crypto.MegolmEvent) (payload : List (Str × Json)) :
    (MegolmView.eventPayload event payload).get? (py "event_id") = some (.str event.eventId) := by
  have hset : ∀ (kvs : List (Str × Json)) (name : String) (v : Json), name ≠ "event_id" →
      dictGet? (dictSet kvs (py name) v) (py "event_id") = dictGet? kvs (py "event_id") := by
    intro kvs name v hname
    rw [dictGet?_dictSet, if_neg fun h => hname (py_inj.mp h).symm]
  have hbase : dictGet? (dictSet (dictSet (MegolmView.relate event
      (dictSet payload (py "event_id") (.str event.eventId))) (py "sender") (.str event.sender))
        (py "origin_server_ts") (.int event.serverTimestamp)) (py "event_id") =
          some (.str event.eventId) := by
    rw [hset _ _ _ (by decide), hset _ _ _ (by decide), dictGet?_relate, dictGet?_dictSet,
      if_pos rfl]
  unfold MegolmView.eventPayload
  dsimp only
  split
  · split
    · exact (hset _ _ _ (by decide)).trans hbase
    · exact hbase
  · exact hbase

/-- What is made of a plaintext -/
theorem plain_eventOf {event : Crypto.MegolmEvent} {roomId plaintext : Str} {verified : Bool}
    {result : MegolmResult} (h : MegolmView.eventOf event roomId plaintext verified = .ok result) :
    Plain (.str event.eventId) (roomEventOf result) := by
  unfold MegolmView.eventOf at h
  split at h
  · dsimp only at h
    split at h
    · -- the payload has no id of its own any more
      split at h
      · next bad hbad =>
        cases h
        refine ⟨rfl, Or.inl ?_⟩
        rcases @badOrUnknown_ownId _ _ none hbad with hnone | hown
        · exact hnone
        · exact hown.trans (dictGet?_erased _)
      · cases h
    · split at h
      · cases h
      · cases h
        exact ⟨rfl, Or.inl rfl⟩
      · next hparsed =>
        cases h
        obtain ⟨hid, hmegolm⟩ := parseDecryptedEvent_plain _ _ hparsed
        unfold OwnId at hid
        rw [get?_eventPayload] at hid
        exact ⟨hmegolm, hid⟩
    · cases h
  · cases h

/-- The machine makes the event of a plaintext that it found. -/
theorem eventOf_of_decrypt {ρ : Type} {lib : Vodozemac ρ} {v : MegolmView ρ} {s : MegolmState}
    {m : Crypto.MegolmEvent} {roomId : Option Str} {result : MegolmResult}
    (h : (v.decryptMegolmEvent lib s m roomId).2 = .ok result) :
    ∃ room plaintext verified, MegolmView.eventOf m room plaintext verified = .ok result := by
  unfold MegolmView.decryptMegolmEvent at h
  split at h
  · cases h
  · split at h
    · cases h
    · split at h
      · cases h
      · split at h
        · cases h
        · dsimp only at h
          split at h
          · cases h
          · split at h
            · cases h
            · exact ⟨_, _, _, h⟩

/-- Whatever the machine holds, what it returns for an event is not encrypted, and has the id of the
event or none. -/
theorem decrypt_plain {ρ : Type} {lib : Vodozemac ρ} {roomId : Str} {s : Sighting ρ} {d : RoomEvent}
    (h : s.decrypt lib roomId = .ok (some d)) :
    d.isMegolm = false ∧ (d.eventId? = none ∨ d.eventId? = s.event.eventId?) := by
  unfold Sighting.decrypt at h
  split at h
  · next view state m _ hm =>
    have hid : s.event.eventId? = some (.str m.eventId) := by
      unfold megolmEvent? at hm
      split at hm
      · next hevent =>
        cases hm
        rw [hevent]
        rfl
      · cases hm
    split at h
    · next result hresult =>
      obtain rfl := Option.some.inj (Except.ok.inj h)
      obtain ⟨room, plaintext, verified, heventOf⟩ := eventOf_of_decrypt hresult
      obtain ⟨hplain, hown⟩ := plain_eventOf heventOf
      rw [hid]
      exact ⟨hplain, hown⟩
    · cases h
    · cases h
  · cases h

end Nio.Rooms
