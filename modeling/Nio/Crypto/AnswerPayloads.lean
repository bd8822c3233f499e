import Nio.Crypto.KeyAnswers

/-!
# What can be read of an answer

Which signed objects, payloads and one-time keys can be read without an exception that nobody
catches, and which of them are taken.

* `verifyJsonObject_isOk`, `acceptJson_isOk`, `oneTimeKey_isOk` — what can be read
* `WellFormedDevice`, `WellFormedKey` — entries that are well formed, signed and decodable
-/

namespace Nio.Crypto

open Nio.Py
open Nio.Lib
open Nio.Events (PyError getItem getDefault getItems)

variable {S : Type} {lib : SignatureLibrary} {userId deviceId : Str}

/-! ## Signatures -/

/-- The library answers, if only with an exception that `verify_json` catches. -/
def Decided (r : Except LibraryException Unit) : Prop :=
  r = .ok () ∨ r = .error .signature ∨ r = .error .key

/-- A signature can be checked: what the library is asked about is text, and it decides. -/
def Checkable (lib : SignatureLibrary) (userKey signed signature : Json) : Prop :=
  ∃ key, userKey = .str key ∧ key.Encodable ∧ Decided (lib.publicKey key) ∧
    (lib.publicKey key = .ok () →
      ∃ text, signature = .str text ∧ text.Encodable ∧ Decided (lib.signature text) ∧
        (lib.signature text = .ok () →
          ∃ bytes, canonicalBytes signed = .ok bytes ∧ Decided (lib.verify key bytes text)))

/-- A signature is the key's signature of the value. -/
def Verifies (lib : SignatureLibrary) (userKey signed signature : Json) : Prop :=
  ∃ key text bytes, userKey = .str key ∧ signature = .str text ∧
    (key.Encodable ∧ lib.publicKey key = .ok ()) ∧ (text.Encodable ∧ lib.signature text = .ok ()) ∧
    canonicalBytes signed = .ok bytes ∧ lib.verify key bytes text = .ok ()

/-- The call under `try` returns when the library accepts or refuses. -/
theorem attempt_isOk {r : Except LibraryException Unit} :
    (∃ b, attempt r = .ok b) ↔ Decided r := by
  unfold Decided
  cases r with
  | ok u => exact ⟨fun _ => Or.inl rfl, fun _ => ⟨true, rfl⟩⟩
  | error e =>
    cases e with
    | signature => exact ⟨fun _ => Or.inr (Or.inl rfl), fun _ => ⟨false, rfl⟩⟩
    | key => exact ⟨fun _ => Or.inr (Or.inr rfl), fun _ => ⟨false, rfl⟩⟩
    | base64 | decode | sessionCreation | sessionKeyDecode | olmDecryption => simp [attempt]

/-- It is true exactly when the library accepts. -/
theorem attempt_eq_true {r : Except LibraryException Unit} :
    attempt r = .ok true ↔ r = .ok () := by
  cases r with
  | ok u => simp [attempt]
  | error e => cases e <;> simp [attempt]

theorem textArgument_eq_ok {v : Json} {s : Str} :
    textArgument v = .ok s ↔ v = .str s ∧ s.Encodable := by
  cases v with
  | str t =>
    unfold textArgument
    simp only [Json.str.injEq]
    by_cases h : t.Encodable
    · rw [if_pos h, Except.ok.injEq]
      exact ⟨fun he => ⟨he, he ▸ h⟩, fun he => he.1⟩
    · rw [if_neg h]
      exact ⟨fun he => (nomatch he), fun he => absurd (he.1 ▸ he.2) h⟩
  | null | bool _ | int _ | float _ | arr _ | obj _ => simp [textArgument]

/-- A signature is checked without an error exactly on texts that the library decides. -/
theorem checkSignature_isOk {userKey signed signature : Json} :
    (∃ b, checkSignature lib userKey signed signature = .ok b) ↔
      Checkable lib userKey signed signature := by
  unfold checkSignature Checkable
  constructor
  · rintro ⟨b, hrun⟩
    obtain ⟨key, hkey, hrun₁⟩ := bind_eq_ok.mp hrun
    obtain ⟨b₁, hpublic, hrun₂⟩ := bind_eq_ok.mp hrun₁
    obtain ⟨hkey, henc⟩ := textArgument_eq_ok.mp hkey
    refine ⟨key, hkey, henc, attempt_isOk.mp ⟨b₁, hpublic⟩, fun hok => ?_⟩
    rw [attempt_eq_true.mpr hok] at hpublic
    obtain rfl := Except.ok.inj hpublic
    obtain ⟨text, htext, hrun₃⟩ := bind_eq_ok.mp hrun₂
    obtain ⟨b₂, hsignature, hrun₄⟩ := bind_eq_ok.mp hrun₃
    obtain ⟨htext, henc'⟩ := textArgument_eq_ok.mp htext
    refine ⟨text, htext, henc', attempt_isOk.mp ⟨b₂, hsignature⟩, fun hok' => ?_⟩
    rw [attempt_eq_true.mpr hok'] at hsignature
    obtain rfl := Except.ok.inj hsignature
    obtain ⟨bytes, hbytes, hrun₅⟩ := bind_eq_ok.mp hrun₄
    exact ⟨bytes, hbytes, attempt_isOk.mp ⟨b, hrun₅⟩⟩
  · rintro ⟨key, hkey, henc, hpublic, h⟩
    rw [textArgument_eq_ok.mpr ⟨hkey, henc⟩, ok_bind]
    obtain ⟨b₁, hb₁⟩ := attempt_isOk.mpr hpublic
    rw [hb₁, ok_bind]
    cases b₁ with
    | false => exact ⟨false, rfl⟩
    | true =>
      obtain ⟨text, htext, henc', hsignature, h⟩ := h (attempt_eq_true.mp hb₁)
      obtain ⟨b₂, hb₂⟩ := attempt_isOk.mpr hsignature
      simp only [Bool.not_true, Bool.false_eq_true, if_false]
      rw [textArgument_eq_ok.mpr ⟨htext, henc'⟩, ok_bind, hb₂, ok_bind]
      cases b₂ with
      | false => exact ⟨false, rfl⟩
      | true =>
        obtain ⟨bytes, hbytes, hverify⟩ := h (attempt_eq_true.mp hb₂)
        simp only [Bool.not_true, Bool.false_eq_true, if_false]
        rw [hbytes, ok_bind]
        exact attempt_isOk.mpr hverify

/-- It is found good exactly when the library verifies it. -/
theorem checkSignature_eq_true {userKey signed signature : Json} :
    checkSignature lib userKey signed signature = .ok true ↔
      Verifies lib userKey signed signature := by
  unfold checkSignature Verifies
  constructor
  · intro h
    obtain ⟨key, hkey, h₁⟩ := bind_eq_ok.mp h
    obtain ⟨b₁, hpublic, h₂⟩ := bind_eq_ok.mp h₁
    cases b₁ with
    | false => cases h₂
    | true =>
      obtain ⟨text, htext, h₃⟩ := bind_eq_ok.mp h₂
      obtain ⟨b₂, hsignature, h₄⟩ := bind_eq_ok.mp h₃
      cases b₂ with
      | false => cases h₄
      | true =>
        obtain ⟨bytes, hbytes, hverify⟩ := bind_eq_ok.mp h₄
        obtain ⟨hkey, henc⟩ := textArgument_eq_ok.mp hkey
        obtain ⟨htext, henc'⟩ := textArgument_eq_ok.mp htext
        exact ⟨key, text, bytes, hkey, htext, ⟨henc, attempt_eq_true.mp hpublic⟩,
          ⟨henc', attempt_eq_true.mp hsignature⟩, hbytes, attempt_eq_true.mp hverify⟩
  · rintro ⟨key, text, bytes, hkey, htext, ⟨henc, hpublic⟩, ⟨henc', hsignature⟩, hbytes, hverify⟩
    rw [textArgument_eq_ok.mpr ⟨hkey, henc⟩, ok_bind, attempt_eq_true.mpr hpublic, ok_bind]
    simp only [Bool.not_true, Bool.false_eq_true, if_false]
    rw [textArgument_eq_ok.mpr ⟨htext, henc'⟩, ok_bind, attempt_eq_true.mpr hsignature, ok_bind]
    simp only [Bool.not_true, Bool.false_eq_true, if_false]
    rw [hbytes, ok_bind]
    exact attempt_eq_true.mpr hverify

theorem subscript_eq_ok {v w : Json} {key : Str} :
    subscript v key = .ok w ↔ ∃ kvs, v = .obj kvs ∧ dictGet? kvs key = some w := by
  unfold subscript
  cases v with
  | obj kvs => cases h : dictGet? kvs key <;> simp [h]
  | null | bool _ | int _ | float _ | str _ | arr _ => simp

/-- Nothing is there under the key. -/
theorem subscript_eq_key {v : Json} {key : Str} :
    subscript v key = .error .key ↔ ∃ kvs, v = .obj kvs ∧ dictGet? kvs key = none := by
  unfold subscript
  cases v with
  | obj kvs => cases h : dictGet? kvs key <;> simp [h]
  | null | bool _ | int _ | float _ | str _ | arr _ => simp

theorem getItem_eq_subscript (v : Json) (key : String) : getItem v key = subscript v (py key) := rfl

/-- A signed object can be checked: its signatures are objects, as far as they are looked at. -/
def Verifiable (lib : SignatureLibrary) (userId deviceId : Str) (kvs : List (Str × Json))
    (userKey : Json) : Prop :=
  ∀ signatures, dictGet? kvs (py "signatures") = some signatures →
    ∃ users, signatures = .obj users ∧ ∀ keys, dictGet? users userId = some keys →
      ∃ ofUser, keys = .obj ofUser ∧
        ∀ signature, dictGet? ofUser (py "ed25519:" ++ deviceId) = some signature →
          Checkable lib userKey (signedPart kvs) signature

/-- An object has a signature by the key of the device. -/
def SignedBy (lib : SignatureLibrary) (userId deviceId : Str) (kvs : List (Str × Json))
    (userKey : Json) : Prop :=
  ∃ users ofUser signature, dictGet? kvs (py "signatures") = some (.obj users) ∧
    dictGet? users userId = some (.obj ofUser) ∧
    dictGet? ofUser (py "ed25519:" ++ deviceId) = some signature ∧
    Verifies lib userKey (signedPart kvs) signature

/-- The signature is read below its user and key id. -/
theorem lookUpSignature_eq_ok {signatures signature : Json} :
    lookUpSignature userId deviceId signatures = .ok signature ↔
      ∃ users ofUser, signatures = .obj users ∧ dictGet? users userId = some (.obj ofUser) ∧
        dictGet? ofUser (py "ed25519:" ++ deviceId) = some signature := by
  unfold lookUpSignature
  constructor
  · intro h
    obtain ⟨keys, hkeys, hsignature⟩ := bind_eq_ok.mp h
    obtain ⟨users, rfl, hkeys'⟩ := subscript_eq_ok.mp hkeys
    obtain ⟨ofUser, rfl, hsignature'⟩ := subscript_eq_ok.mp hsignature
    exact ⟨users, ofUser, rfl, hkeys', hsignature'⟩
  · rintro ⟨users, ofUser, rfl, hkeys, hsignature⟩
    rw [subscript_eq_ok.mpr ⟨users, rfl, hkeys⟩, ok_bind]
    exact subscript_eq_ok.mpr ⟨ofUser, rfl, hsignature⟩

/-- A `KeyError` says that one of the two levels lacks its key. -/
theorem lookUpSignature_eq_key {signatures : Json} :
    lookUpSignature userId deviceId signatures = .error .key ↔
      ∃ users, signatures = .obj users ∧ (dictGet? users userId = none ∨
        ∃ ofUser, dictGet? users userId = some (.obj ofUser) ∧
          dictGet? ofUser (py "ed25519:" ++ deviceId) = none) := by
  unfold lookUpSignature
  constructor
  · intro h
    cases hkeys : subscript signatures userId with
    | error e =>
      rw [hkeys] at h
      obtain rfl : e = .key := Except.error.inj h
      obtain ⟨users, rfl, hnone⟩ := subscript_eq_key.mp hkeys
      exact ⟨users, rfl, Or.inl hnone⟩
    | ok keys =>
      rw [hkeys] at h
      obtain ⟨users, rfl, hkeys'⟩ := subscript_eq_ok.mp hkeys
      obtain ⟨ofUser, rfl, hnone⟩ := subscript_eq_key.mp h
      exact ⟨users, rfl, Or.inr ⟨ofUser, hkeys', hnone⟩⟩
  · rintro ⟨users, rfl, hnone | ⟨ofUser, hkeys, hnone⟩⟩
    · rw [subscript_eq_key.mpr ⟨users, rfl, hnone⟩]
      rfl
    · rw [subscript_eq_ok.mpr ⟨users, rfl, hkeys⟩, ok_bind]
      exact subscript_eq_key.mpr ⟨ofUser, rfl, hnone⟩

theorem verifyJsonObject_obj (kvs : List (Str × Json)) (userKey : Json) :
    verifyJsonObject lib (.obj kvs) userKey userId deviceId =
      match dictGet? kvs (py "signatures") with
      | none => .ok false
      | some signatures =>
        match lookUpSignature userId deviceId signatures with
        | .error .key => .ok false
        | .error e => .error e
        | .ok signature => checkSignature lib userKey (signedPart kvs) signature := rfl

/-- `verify_json` returns exactly on objects whose signatures are well shaped. -/
theorem verifyJsonObject_isOk {json userKey : Json} :
    (∃ b, verifyJsonObject lib json userKey userId deviceId = .ok b) ↔
      ∃ kvs, json = .obj kvs ∧ Verifiable lib userId deviceId kvs userKey := by
  cases json with
  | null | bool _ | int _ | float _ | str _ | arr _ => simp [verifyJsonObject]
  | obj kvs =>
    simp only [Json.obj.injEq, exists_eq_left', verifyJsonObject_obj]
    unfold Verifiable
    cases dictGet? kvs (py "signatures") with
    | none => exact ⟨fun _ _ h => (nomatch h), fun _ => ⟨false, rfl⟩⟩
    | some signatures =>
      simp only [Option.some.injEq, forall_eq']
      cases hfound : lookUpSignature userId deviceId signatures with
      | ok signature =>
        obtain ⟨users, ofUser, rfl, hkeys, hsignature⟩ := lookUpSignature_eq_ok.mp hfound
        dsimp only
        rw [checkSignature_isOk]
        simp [hkeys, hsignature]
      | error e =>
        by_cases he : e = .key
        · subst he
          refine ⟨fun _ => ?_, fun _ => ⟨false, rfl⟩⟩
          obtain ⟨users, rfl, hnone | ⟨ofUser, hkeys, hnone⟩⟩ := lookUpSignature_eq_key.mp hfound
          · exact ⟨users, rfl, fun keys hkeys => (nomatch hnone.symm.trans hkeys)⟩
          · refine ⟨users, rfl, fun keys hkeys' => ?_⟩
            obtain rfl := Option.some.inj (hkeys.symm.trans hkeys')
            exact ⟨ofUser, rfl, fun signature h => (nomatch hnone.symm.trans h)⟩
        · -- Signatures that are no objects, or those of the user, are not caught.
          constructor
          · rintro ⟨b, hb⟩
            revert hb
            split
            · next h => exact absurd (Except.error.inj h) he
            · rintro ⟨⟩
            · next h => cases h
          · rintro ⟨users, rfl, hall⟩
            exfalso
            cases hkeys : dictGet? users userId with
            | none =>
              exact he (Except.error.inj (hfound.symm.trans
                (lookUpSignature_eq_key.mpr ⟨users, rfl, Or.inl hkeys⟩)))
            | some keys =>
              obtain ⟨ofUser, rfl, -⟩ := hall keys hkeys
              cases hsig : dictGet? ofUser (py "ed25519:" ++ deviceId) with
              | none =>
                exact he (Except.error.inj (hfound.symm.trans
                  (lookUpSignature_eq_key.mpr ⟨users, rfl, Or.inr ⟨ofUser, hkeys, hsig⟩⟩)))
              | some signature =>
                exact absurd (hfound.symm.trans
                  (lookUpSignature_eq_ok.mpr ⟨users, ofUser, rfl, hkeys, hsig⟩)) (by simp)

/-- It is true exactly on objects with a good signature. -/
theorem verifyJsonObject_eq_true {json userKey : Json} :
    verifyJsonObject lib json userKey userId deviceId = .ok true ↔
      ∃ kvs, json = .obj kvs ∧ SignedBy lib userId deviceId kvs userKey := by
  cases json with
  | null | bool _ | int _ | float _ | str _ | arr _ => simp [verifyJsonObject]
  | obj kvs =>
    simp only [Json.obj.injEq, exists_eq_left', verifyJsonObject_obj]
    unfold SignedBy
    cases dictGet? kvs (py "signatures") with
    | none => simp
    | some signatures =>
      dsimp only
      constructor
      · intro h
        revert h
        split
        · rintro ⟨⟩
        · rintro ⟨⟩
        · next signature hfound =>
          intro h
          obtain ⟨users, ofUser, rfl, hkeys, hsignature⟩ := lookUpSignature_eq_ok.mp hfound
          exact ⟨users, ofUser, signature, rfl, hkeys, hsignature, checkSignature_eq_true.mp h⟩
      · rintro ⟨users, ofUser, signature, hs, hkeys, hsignature, h⟩
        rw [lookUpSignature_eq_ok.mpr ⟨users, ofUser, Option.some.inj hs, hkeys, hsignature⟩]
        exact checkSignature_eq_true.mpr h

/-! ## Payloads of devices -/

variable {env : KeyQueryEnv}

/-- The payload of a device can be read. An id that it lacks is not caught, nor a value of another
type where an object is taken for granted. -/
def ReadablePayload (lib : SignatureLibrary) (userId deviceId : Str) (payload : Json) : Prop :=
  ∃ kvs payloadUser payloadDevice, payload = .obj kvs ∧
    dictGet? kvs (py "user_id") = some payloadUser ∧
    dictGet? kvs (py "device_id") = some payloadDevice ∧
    (payloadUser = .str userId → payloadDevice = .str deviceId →
      ∀ keys, dictGet? kvs (py "keys") = some keys → ∃ offered, keys = .obj offered ∧
        ∀ signingKey curveKey, dictGet? offered (py "ed25519:" ++ deviceId) = some signingKey →
          dictGet? offered (py "curve25519:" ++ deviceId) = some curveKey →
          (∀ unsigned, dictGet? kvs (py "unsigned") = some unsigned → ∃ fields, unsigned = .obj fields) ∧
          Verifiable lib userId deviceId kvs signingKey)

/-- A payload offers keys and a name: it has the ids that it stands under, both keys, and a
signature by the one of them. -/
def OffersDevice (lib : SignatureLibrary) (userId deviceId : Str)
    (payload signingKey curveKey name : Json) :
    Prop :=
  ∃ kvs, payload = .obj kvs ∧
    (dictGet? kvs (py "user_id") = some (.str userId) ∧
      dictGet? kvs (py "device_id") = some (.str deviceId)) ∧
    readKeys payload deviceId = .ok (signingKey, curveKey, name) ∧
    SignedBy lib userId deviceId kvs signingKey

/-- A device as it should be: its curve key is a key as well. -/
def WellFormedDevice (lib : SignatureLibrary) (userId deviceId : Str) (payload : Json) : Prop :=
  ∃ signingKey curveKey name, OffersDevice lib userId deviceId payload signingKey (.str curveKey) name ∧
    lib.curveKey curveKey = .ok ()

theorem getDefault_eq_ok {v w d : Json} {key : String} :
    getDefault v key d = .ok w ↔ ∃ kvs, v = .obj kvs ∧ (dictGet? kvs (py key)).getD d = w := by
  cases v with
  | obj kvs => simp [getDefault]
  | null | bool _ | int _ | float _ | str _ | arr _ => simp [getDefault]

/-- The keys are read exactly from a payload that has both of them. -/
theorem readKeys_eq_ok {kvs : List (Str × Json)} {signingKey curveKey name : Json} :
    readKeys (.obj kvs) deviceId = .ok (signingKey, curveKey, name) ↔
      ∃ offered, dictGet? kvs (py "keys") = some (.obj offered) ∧
        dictGet? offered (py "ed25519:" ++ deviceId) = some signingKey ∧
        dictGet? offered (py "curve25519:" ++ deviceId) = some curveKey ∧
        ((dictGet? kvs (py "unsigned") = none ∧ name = .str []) ∨
          ∃ fields, dictGet? kvs (py "unsigned") = some (.obj fields) ∧
            name = (dictGet? fields (py "device_display_name")).getD (.str [])) := by
  unfold readKeys
  constructor
  · intro h
    obtain ⟨keys, hkeys, h₁⟩ := bind_eq_ok.mp h
    obtain ⟨signingKey', hsigning, h₂⟩ := bind_eq_ok.mp h₁
    obtain ⟨curveKey', hcurve, h₃⟩ := bind_eq_ok.mp h₂
    rw [getItem_eq_subscript] at hkeys
    obtain ⟨kvs', hobj, hkeys'⟩ := subscript_eq_ok.mp hkeys
    obtain rfl := Json.obj.inj hobj
    obtain ⟨offered, rfl, hsigning'⟩ := subscript_eq_ok.mp hsigning
    obtain ⟨offered', hobj', hcurve'⟩ := subscript_eq_ok.mp hcurve
    obtain rfl := Json.obj.inj hobj'
    have hget : Json.get? (.obj kvs) (py "unsigned") = dictGet? kvs (py "unsigned") := rfl
    rw [hget] at h₃
    cases hunsigned : dictGet? kvs (py "unsigned") with
    | none =>
      rw [hunsigned] at h₃
      cases h₃
      exact ⟨offered, hkeys', hsigning', hcurve', Or.inl ⟨rfl, rfl⟩⟩
    | some unsigned =>
      rw [hunsigned] at h₃
      obtain ⟨name', hname, h₄⟩ := bind_eq_ok.mp h₃
      obtain ⟨fields, rfl, rfl⟩ := getDefault_eq_ok.mp hname
      cases h₄
      exact ⟨offered, hkeys', hsigning', hcurve', Or.inr ⟨fields, rfl, rfl⟩⟩
  · rintro ⟨offered, hkeys, hsigning, hcurve, hname⟩
    rw [getItem_eq_subscript, subscript_eq_ok.mpr ⟨kvs, rfl, hkeys⟩, ok_bind,
      subscript_eq_ok.mpr ⟨offered, rfl, hsigning⟩, ok_bind,
      subscript_eq_ok.mpr ⟨offered, rfl, hcurve⟩, ok_bind]
    have hget : Json.get? (.obj kvs) (py "unsigned") = dictGet? kvs (py "unsigned") := rfl
    rw [hget]
    rcases hname with ⟨hnone, rfl⟩ | ⟨fields, hfields, rfl⟩
    · rw [hnone]
      rfl
    · rw [hfields]
      rfl

/-- The keys that are missing are caught. -/
theorem readKeys_eq_key {kvs : List (Str × Json)} :
    readKeys (.obj kvs) deviceId = .error .key ↔
      dictGet? kvs (py "keys") = none ∨
        ∃ offered, dictGet? kvs (py "keys") = some (.obj offered) ∧
          (dictGet? offered (py "ed25519:" ++ deviceId) = none ∨
            dictGet? offered (py "curve25519:" ++ deviceId) = none) := by
  have hget : Json.get? (.obj kvs) (py "unsigned") = dictGet? kvs (py "unsigned") := rfl
  unfold readKeys
  rw [getItem_eq_subscript, hget]
  cases hkeys : dictGet? kvs (py "keys") with
  | none =>
    rw [subscript_eq_key.mpr ⟨kvs, rfl, hkeys⟩]
    exact ⟨fun _ => Or.inl rfl, fun _ => rfl⟩
  | some keys =>
    rw [subscript_eq_ok.mpr ⟨kvs, rfl, hkeys⟩, ok_bind]
    cases keys with
    | null | bool _ | int _ | float _ | str _ | arr _ => simp [subscript, bind, Except.bind]
    | obj offered =>
      simp only [reduceCtorEq, Option.some.injEq, Json.obj.injEq, exists_eq_left', false_or]
      cases hsigning : dictGet? offered (py "ed25519:" ++ deviceId) with
      | none =>
        rw [subscript_eq_key.mpr ⟨offered, rfl, hsigning⟩]
        exact ⟨fun _ => Or.inl rfl, fun _ => rfl⟩
      | some signingKey =>
        rw [subscript_eq_ok.mpr ⟨offered, rfl, hsigning⟩, ok_bind]
        cases hcurve : dictGet? offered (py "curve25519:" ++ deviceId) with
        | none =>
          rw [subscript_eq_key.mpr ⟨offered, rfl, hcurve⟩]
          exact ⟨fun _ => Or.inr rfl, fun _ => rfl⟩
        | some curveKey =>
          rw [subscript_eq_ok.mpr ⟨offered, rfl, hcurve⟩, ok_bind]
          simp only [reduceCtorEq, or_self, iff_false]
          cases dictGet? kvs (py "unsigned") with
          | none => simp [pure, Except.pure]
          | some unsigned => cases unsigned <;> simp [getDefault, bind, Except.bind, pure, Except.pure]

theorem acceptJson_obj {kvs : List (Str × Json)} {payloadUser payloadDevice : Json}
    (hu : dictGet? kvs (py "user_id") = some payloadUser)
    (hd : dictGet? kvs (py "device_id") = some payloadDevice) :
    acceptJson env lib userId deviceId (.obj kvs) =
      if payloadUser ≠ .str userId ∨ payloadDevice ≠ .str deviceId then .ok none
      else
        match readKeys (.obj kvs) deviceId with
        | .error .key => .ok none
        | .error e => .error e
        | .ok (signingKey, curveKey, name) => do
          if ← verifyJsonObject lib (.obj kvs) signingKey userId deviceId then
            return some (⟨keyText env signingKey, keyText env curveKey⟩, name)
          else return none := by
  unfold acceptJson
  rw [getItem_eq_subscript, getItem_eq_subscript, subscript_eq_ok.mpr ⟨kvs, rfl, hu⟩, ok_bind,
    subscript_eq_ok.mpr ⟨kvs, rfl, hd⟩, ok_bind]
  rfl

/-- A payload that is not refused by an exception has both ids. -/
theorem ids_of_acceptJson {payload : Json} {accepted : Option (Keys × Json)}
    (h : acceptJson env lib userId deviceId payload = .ok accepted) :
    ∃ kvs payloadUser payloadDevice, payload = .obj kvs ∧
      dictGet? kvs (py "user_id") = some payloadUser ∧
      dictGet? kvs (py "device_id") = some payloadDevice := by
  unfold acceptJson at h
  obtain ⟨payloadUser, hu, h₁⟩ := bind_eq_ok.mp h
  obtain ⟨payloadDevice, hd, -⟩ := bind_eq_ok.mp h₁
  rw [getItem_eq_subscript] at hu hd
  obtain ⟨kvs, rfl, hu'⟩ := subscript_eq_ok.mp hu
  obtain ⟨kvs', hobj, hd'⟩ := subscript_eq_ok.mp hd
  obtain rfl := Json.obj.inj hobj
  exact ⟨kvs, payloadUser, payloadDevice, rfl, hu', hd'⟩

/-- A payload is handled without an error exactly when it is readable. -/
theorem acceptJson_isOk {payload : Json} :
    (∃ accepted, acceptJson env lib userId deviceId payload = .ok accepted) ↔
      ReadablePayload lib userId deviceId payload := by
  constructor
  · rintro ⟨accepted, h⟩
    obtain ⟨kvs, payloadUser, payloadDevice, rfl, hu, hd⟩ := ids_of_acceptJson h
    refine ⟨kvs, payloadUser, payloadDevice, rfl, hu, hd, ?_⟩
    rintro rfl rfl keys hkeys
    rw [acceptJson_obj hu hd, if_neg (by simp)] at h
    cases hread : readKeys (.obj kvs) deviceId with
    | error e =>
      rw [hread] at h
      have he : e = .key := by
        cases e <;> first | rfl | cases h
      subst he
      rcases readKeys_eq_key.mp hread with hnone | ⟨offered, hkeys', hmissing⟩
      · exact (nomatch hnone.symm.trans hkeys)
      · obtain rfl := Option.some.inj (hkeys'.symm.trans hkeys)
        refine ⟨offered, rfl, fun signingKey curveKey hs hc => ?_⟩
        rcases hmissing with hnone | hnone
        · exact (nomatch hnone.symm.trans hs)
        · exact (nomatch hnone.symm.trans hc)
    | ok read =>
      obtain ⟨signingKey, curveKey, name⟩ := read
      rw [hread] at h
      obtain ⟨b, hverify, -⟩ := bind_eq_ok.mp h
      obtain ⟨kvs', hobj, hverifiable⟩ := verifyJsonObject_isOk.mp ⟨b, hverify⟩
      obtain rfl := Json.obj.inj hobj
      obtain ⟨offered, hkeys', hsigning, hcurve, hname⟩ := readKeys_eq_ok.mp hread
      obtain rfl := Option.some.inj (hkeys'.symm.trans hkeys)
      refine ⟨offered, rfl, fun signingKey' curveKey' hs hc => ?_⟩
      obtain rfl := Option.some.inj (hsigning.symm.trans hs)
      refine ⟨fun unsigned hunsigned => ?_, hverifiable⟩
      rcases hname with ⟨hnone, -⟩ | ⟨fields, hfields, -⟩
      · exact (nomatch hnone.symm.trans hunsigned)
      · exact ⟨fields, Option.some.inj (hunsigned.symm.trans hfields)⟩
  · rintro ⟨kvs, payloadUser, payloadDevice, rfl, hu, hd, hkeys⟩
    rw [acceptJson_obj hu hd]
    split
    · exact ⟨none, rfl⟩
    · next hids =>
      rw [not_or, not_not, not_not] at hids
      have hkeys := hkeys hids.1 hids.2
      cases hread : readKeys (.obj kvs) deviceId with
      | ok read =>
        obtain ⟨signingKey, curveKey, name⟩ := read
        obtain ⟨offered, hkeys', hsigning, hcurve, -⟩ := readKeys_eq_ok.mp hread
        obtain ⟨offered', hobj, hall⟩ := hkeys _ hkeys'
        obtain rfl := Json.obj.inj hobj
        obtain ⟨b, hb⟩ := verifyJsonObject_isOk.mpr
          ⟨kvs, rfl, (hall signingKey curveKey hsigning hcurve).2⟩
        dsimp only
        rw [hb, ok_bind]
        cases b with
        | true => exact ⟨_, rfl⟩
        | false => exact ⟨none, rfl⟩
      | error e =>
        -- Whatever is not caught is excluded, so the key that is missing is.
        have he : e = .key := by
          cases hk : dictGet? kvs (py "keys") with
          | none => exact Except.error.inj (hread.symm.trans (readKeys_eq_key.mpr (Or.inl hk)))
          | some keys =>
            obtain ⟨offered, rfl, hall⟩ := hkeys keys hk
            cases hs : dictGet? offered (py "ed25519:" ++ deviceId) with
            | none =>
              exact Except.error.inj (hread.symm.trans
                (readKeys_eq_key.mpr (Or.inr ⟨offered, hk, Or.inl hs⟩)))
            | some signingKey =>
              cases hc : dictGet? offered (py "curve25519:" ++ deviceId) with
              | none =>
                exact Except.error.inj (hread.symm.trans
                  (readKeys_eq_key.mpr (Or.inr ⟨offered, hk, Or.inr hc⟩)))
              | some curveKey =>
                exfalso
                have hunsigned := (hall signingKey curveKey hs hc).1
                cases hun : dictGet? kvs (py "unsigned") with
                | none =>
                  exact absurd (hread.symm.trans (readKeys_eq_ok.mpr
                    ⟨offered, hk, hs, hc, Or.inl ⟨hun, rfl⟩⟩)) (by simp)
                | some unsigned =>
                  obtain ⟨fields, rfl⟩ := hunsigned unsigned hun
                  exact absurd (hread.symm.trans (readKeys_eq_ok.mpr
                    ⟨offered, hk, hs, hc, Or.inr ⟨fields, hun, rfl⟩⟩)) (by simp)
        rw [he]
        exact ⟨none, rfl⟩

/-- It gives keys exactly when it is a signed offer for that device. -/
theorem acceptJson_eq_some {payload name : Json} {keys : Keys} :
    acceptJson env lib userId deviceId payload = .ok (some (keys, name)) ↔
      ∃ signingKey curveKey, OffersDevice lib userId deviceId payload signingKey curveKey name ∧
        keys = ⟨keyText env signingKey, keyText env curveKey⟩ := by
  constructor
  · intro h
    obtain ⟨kvs, payloadUser, payloadDevice, rfl, hu, hd⟩ := ids_of_acceptJson h
    rw [acceptJson_obj hu hd] at h
    split at h
    · cases h
    · next hids =>
      rw [not_or, not_not, not_not] at hids
      obtain ⟨rfl, rfl⟩ := hids
      split at h
      · cases h
      · cases h
      · next signingKey curveKey name' hread =>
        obtain ⟨b, hverify, h₁⟩ := bind_eq_ok.mp h
        cases b with
        | false => cases h₁
        | true =>
          obtain ⟨kvs', hobj, hsigned⟩ := verifyJsonObject_eq_true.mp hverify
          obtain rfl := Json.obj.inj hobj
          cases h₁
          exact ⟨signingKey, curveKey, ⟨kvs, rfl, ⟨hu, hd⟩, hread, hsigned⟩, rfl⟩
  · rintro ⟨signingKey, curveKey, ⟨kvs, rfl, ⟨hu, hd⟩, hread, hsigned⟩, rfl⟩
    rw [acceptJson_obj hu hd, if_neg (by simp), hread]
    dsimp only
    rw [verifyJsonObject_eq_true.mpr ⟨kvs, rfl, hsigned⟩, ok_bind]
    rfl

/-! ## One-time keys -/

/-- A one-time key can be read, for the device whose keys are known. -/
def ReadableKey (lib : ClaimLibrary S) (d : OlmDevice) (oneTimeKey : Json) : Prop :=
  ∃ id kvs rest, oneTimeKey = .obj ((id, .obj kvs) :: rest) ∧
    Verifiable lib.toSignatureLibrary d.userId d.deviceId kvs (.str d.keys.ed25519)

/-- A one-time key as it should be: a key that is signed by its device and can be decoded -/
def WellFormedKey (lib : ClaimLibrary S) (d : OlmDevice) (oneTimeKey : Json) : Prop :=
  ∃ id kvs rest key, oneTimeKey = .obj ((id, .obj kvs) :: rest) ∧
    SignedBy lib.toSignatureLibrary d.userId d.deviceId kvs (.str d.keys.ed25519) ∧
    dictGet? kvs (py "key") = some (.str key) ∧ key.Encodable ∧ lib.curveKey key = .ok ()

/-- A one-time key is signed, whatever else is in it. -/
def SignedKey (lib : ClaimLibrary S) (d : OlmDevice) (oneTimeKey : Json) : Prop :=
  ∃ id kvs rest, oneTimeKey = .obj ((id, .obj kvs) :: rest) ∧
    SignedBy lib.toSignatureLibrary d.userId d.deviceId kvs (.str d.keys.ed25519)

theorem firstValue_eq_ok {v w : Json} :
    firstValue v = .ok w ↔ ∃ id rest, v = .obj ((id, w) :: rest) := by
  cases v with
  | null | bool _ | int _ | float _ | str _ | arr _ => simp [firstValue, getItems, bind, Except.bind]
  | obj kvs =>
    cases kvs with
    | nil => simp [firstValue, getItems, bind, Except.bind]
    | cons p rest =>
      obtain ⟨id, v⟩ := p
      simp [firstValue, getItems, bind, Except.bind]

theorem uncaught_isOk {α : Type} {r : Except LibraryException α} {a : α} :
    uncaught r = .ok a ↔ r = .ok a := by
  cases r <;> simp [uncaught]

/-- A session is created exactly from two keys that the library takes. -/
theorem createSession_eq_ok {lib : ClaimLibrary S} {k : Str × Str} {oneTimeKey : Json}
    {curveKey : Str} {session : S} :
    createSession lib k oneTimeKey curveKey = .ok session ↔
      (curveKey.Encodable ∧ lib.curveKey curveKey = .ok ()) ∧
      ∃ key, oneTimeKey = .str key ∧ (key.Encodable ∧ lib.curveKey key = .ok ()) ∧
        lib.outbound k curveKey key = .ok session := by
  unfold createSession
  constructor
  · intro h
    obtain ⟨identityKey, h₁, h⟩ := bind_eq_ok.mp h
    obtain ⟨u, h₂, h⟩ := bind_eq_ok.mp h
    obtain ⟨key, h₃, h⟩ := bind_eq_ok.mp h
    obtain ⟨u', h₄, h₅⟩ := bind_eq_ok.mp h
    obtain ⟨hcurve, henc⟩ := textArgument_eq_ok.mp h₁
    obtain ⟨hkey, henc'⟩ := textArgument_eq_ok.mp h₃
    obtain rfl := Json.str.inj hcurve
    exact ⟨⟨henc, uncaught_isOk.mp h₂⟩, key, hkey, ⟨henc', uncaught_isOk.mp h₄⟩,
      uncaught_isOk.mp h₅⟩
  · rintro ⟨⟨henc, hdecode⟩, key, rfl, ⟨henc', hdecode'⟩, hout⟩
    rw [textArgument_eq_ok.mpr ⟨rfl, henc⟩, ok_bind, uncaught_isOk.mpr hdecode, ok_bind,
      textArgument_eq_ok.mpr ⟨rfl, henc'⟩, ok_bind, uncaught_isOk.mpr hdecode', ok_bind]
    exact uncaught_isOk.mpr hout

end Nio.Crypto
