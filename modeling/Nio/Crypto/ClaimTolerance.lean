import Nio.Crypto.AnswerTolerance

/-!
# Which answers to key claims are tolerated

A one-time key that is signed has to be one that the library can make a session with: what
`create_session` raises is caught nowhere.

* `ToleratesClaim`, `HarmlessClaim` — what is asked of the answer to a key claim, and when it holds
* `keysAnswers_tolerated_iff` — the answers of either kind
-/

namespace Nio.Crypto

open Nio.Py
open Nio.Lib
open Nio.Durable (CryptoOwner CryptoRequest CryptoLibrary CryptoResponse OlmEffect decodeAnswer
  queriedUsers)

variable {S : Type}

/-! ## Key claims -/

/-- A session can be made with a one-time key, and used if the device waits to be unwedged. -/
def UsableKey (lib : ClaimLibrary S) (wedged : List (Str × Str)) (d : OlmDevice)
    (oneTimeKey : Json) : Prop :=
  ∃ id kvs rest key session, oneTimeKey = .obj ((id, .obj kvs) :: rest) ∧
    dictGet? kvs (py "key") = some (.str key) ∧
    (d.keys.curve25519.Encodable ∧ lib.curveKey d.keys.curve25519 = .ok ()) ∧
    (key.Encodable ∧ lib.curveKey key = .ok ()) ∧
    lib.outbound d.key d.keys.curve25519 key = .ok session ∧
    (d.key ∈ wedged → ∃ r, lib.encrypt d.key session = .ok r)

/-- The answers to key claims that do no harm: what is signed can be used. -/
structure HarmlessClaim (lib : ClaimLibrary S) (m : KeyMachine S) (answer : KeysClaimAnswer) :
    Prop where
  objects : ∀ p ∈ answer.oneTimeKeys, ∃ entries, p.2 = .obj entries
  /-- The keys of devices that are known can be read. -/
  readable : ∀ k oneTimeKey d, HasEntry answer.oneTimeKeys k oneTimeKey →
    lookup OlmDevice.key k m.keeper.deviceStore = some d → ReadableKey lib d oneTimeKey
  usable : ∀ k oneTimeKey d, HasEntry answer.oneTimeKeys k oneTimeKey →
    lookup OlmDevice.key k m.keeper.deviceStore = some d → SignedKey lib d oneTimeKey →
    UsableKey lib m.wedgedDevices d oneTimeKey

def KeysClaimAnswer.without (answer : KeysClaimAnswer) (k : Str × Str) : KeysClaimAnswer :=
  ⟨withoutEntry answer.oneTimeKeys k⟩

/-- A key claim is handled without an exception, and what it comes to is what it comes to without a
key that is not well formed, or is of a device that is not known. -/
def ToleratesClaim (lib : ClaimLibrary S) (m : KeyMachine S) (answer : KeysClaimAnswer) : Prop :=
  ∃ m', handleKeyClaiming lib m answer = .ok m' ∧
    ∀ k oneTimeKey, HasEntry answer.oneTimeKeys k oneTimeKey →
      (¬ ∃ d, lookup OlmDevice.key k m.keeper.deviceStore = some d ∧ WellFormedKey lib d oneTimeKey) →
      handleKeyClaiming lib m (answer.without k) = .ok m'

variable {clib : ClaimLibrary S}

theorem unwedge_isOk {m : KeyMachine S} {d : OlmDevice} {session : S} :
    (∃ m', unwedge clib m d session = .ok m') ↔
      (d.key ∈ m.wedgedDevices → ∃ r, clib.encrypt d.key session = .ok r) := by
  unfold unwedge
  split
  · next h => exact ⟨fun _ hw => absurd hw h, fun _ => ⟨_, rfl⟩⟩
  · next h =>
    rw [not_not] at h
    constructor
    · rintro ⟨m', hm'⟩ -
      obtain ⟨r, hr, -⟩ := bind_eq_ok.mp hm'
      exact ⟨r, uncaught_isOk.mp hr⟩
    · intro hr
      obtain ⟨r, hr⟩ := hr h
      rw [uncaught_isOk.mpr hr]
      exact ⟨_, rfl⟩

/-- A device that has a session waits no longer to be unwedged. -/
theorem of_unwedge {m m' : KeyMachine S} {d : OlmDevice} {session : S}
    (h : unwedge clib m d session = .ok m') :
    m'.keeper = m.keeper ∧ m'.wedgedDevices = m.wedgedDevices.erase d.key := by
  unfold unwedge at h
  split at h
  · next hnot =>
    cases h
    exact ⟨rfl, (List.erase_of_not_mem hnot).symm⟩
  · obtain ⟨r, -, h₁⟩ := bind_eq_ok.mp h
    cases h₁
    exact ⟨rfl, rfl⟩

/-- A one-time key of a known device -/
theorem claimKey_known {m : KeyMachine S} {userId deviceId : Str} {d : OlmDevice} {oneTimeKey : Json}
    (hd : lookup OlmDevice.key (userId, deviceId) m.keeper.deviceStore = some d) :
    claimKey clib userId m (deviceId, oneTimeKey) = (do
      let keyObject ← firstValue oneTimeKey
      if ← verifyJsonObject clib.toSignatureLibrary keyObject (.str d.keys.ed25519) userId deviceId then
        let session ← createSession clib d.key (← Events.getItem keyObject "key") d.keys.curve25519
        let m ← unwedge clib m d session
        return { m with requests := m.requests.claimDevice d.key }
      else return m) := by
  unfold claimKey
  dsimp only
  rw [hd]

theorem claimKey_unknown {m : KeyMachine S} {userId deviceId : Str} {oneTimeKey : Json}
    (hd : lookup OlmDevice.key (userId, deviceId) m.keeper.deviceStore = none) :
    claimKey clib userId m (deviceId, oneTimeKey) = .ok m := by
  unfold claimKey
  dsimp only
  rw [hd]

theorem claimKey_isOk {m : KeyMachine S} {userId deviceId : Str} {d : OlmDevice} {oneTimeKey : Json}
    (hd : lookup OlmDevice.key (userId, deviceId) m.keeper.deviceStore = some d) :
    (∃ m', claimKey clib userId m (deviceId, oneTimeKey) = .ok m') ↔
      ReadableKey clib d oneTimeKey ∧
        (SignedKey clib d oneTimeKey → UsableKey clib m.wedgedDevices d oneTimeKey) := by
  have hkey : d.key = (userId, deviceId) := key_of_lookup hd
  obtain rfl : d.userId = userId := congrArg Prod.fst hkey
  obtain rfl : d.deviceId = deviceId := congrArg Prod.snd hkey
  rw [claimKey_known hd]
  constructor
  · rintro ⟨m', h⟩
    obtain ⟨keyObject, hfirst, h₁⟩ := bind_eq_ok.mp h
    obtain ⟨b, hverify, h₂⟩ := bind_eq_ok.mp h₁
    obtain ⟨id, rest, rfl⟩ := firstValue_eq_ok.mp hfirst
    obtain ⟨kvs, rfl, hverifiable⟩ := verifyJsonObject_isOk.mp ⟨b, hverify⟩
    refine ⟨⟨id, kvs, rest, rfl, hverifiable⟩, ?_⟩
    rintro ⟨id', kvs', rest', hobj, hsigned⟩
    obtain ⟨⟨rfl, rfl⟩, rfl⟩ : (id = id' ∧ kvs = kvs') ∧ rest = rest' := by simpa using hobj
    have htrue := verifyJsonObject_eq_true.mpr ⟨kvs, rfl, hsigned⟩
    obtain rfl := Except.ok.inj (hverify.symm.trans htrue)
    obtain ⟨keyValue, hitem, h₃⟩ := bind_eq_ok.mp h₂
    obtain ⟨session, hcreate, h₄⟩ := bind_eq_ok.mp h₃
    obtain ⟨m₁, hunwedge, -⟩ := bind_eq_ok.mp h₄
    obtain ⟨hcurve, key, rfl, hkey', hout⟩ := createSession_eq_ok.mp hcreate
    rw [getItem_eq_subscript] at hitem
    obtain ⟨kvs', hobj', hget⟩ := subscript_eq_ok.mp hitem
    obtain rfl := Json.obj.inj hobj'
    exact ⟨id, kvs, rest, key, session, rfl, hget, hcurve, hkey', hout,
      unwedge_isOk.mp ⟨m₁, hunwedge⟩⟩
  · rintro ⟨⟨id, kvs, rest, rfl, hverifiable⟩, husable⟩
    obtain ⟨b, hb⟩ := verifyJsonObject_isOk.mpr ⟨kvs, rfl, hverifiable⟩
    rw [firstValue_eq_ok.mpr ⟨id, rest, rfl⟩, ok_bind, hb, ok_bind]
    cases b with
    | false => exact ⟨m, rfl⟩
    | true =>
      obtain ⟨kvs', hobj, hsigned⟩ := verifyJsonObject_eq_true.mp hb
      obtain rfl := Json.obj.inj hobj
      obtain ⟨id', kvs', rest', key, session, hobj', hget, hcurve, hkey', hout, hwedged⟩ :=
        husable ⟨id, kvs, rest, rfl, hsigned⟩
      obtain ⟨⟨rfl, rfl⟩, rfl⟩ : (id = id' ∧ kvs = kvs') ∧ rest = rest' := by simpa using hobj'
      obtain ⟨m₁, hm₁⟩ := unwedge_isOk.mpr hwedged
      rw [if_pos rfl, getItem_eq_subscript, subscript_eq_ok.mpr ⟨kvs, rfl, hget⟩, ok_bind,
        createSession_eq_ok.mpr ⟨hcurve, key, rfl, hkey', hout⟩, ok_bind, hm₁]
      exact ⟨_, rfl⟩

/-- A one-time key of a known device is signed. -/
def SignedEntry (lib : ClaimLibrary S) (m : KeyMachine S) (k : Str × Str) (oneTimeKey : Json) : Prop :=
  ∃ d, lookup OlmDevice.key k m.keeper.deviceStore = some d ∧ SignedKey lib d oneTimeKey

/-- A key that is not signed does nothing. -/
theorem claimKey_unsigned {m m' : KeyMachine S} {userId : Str} {p : Str × Json}
    (hnot : ¬ SignedEntry clib m (userId, p.1) p.2) (h : claimKey clib userId m p = .ok m') :
    m' = m := by
  obtain ⟨deviceId, oneTimeKey⟩ := p
  cases hd : lookup OlmDevice.key (userId, deviceId) m.keeper.deviceStore with
  | none =>
    rw [claimKey_unknown hd] at h
    exact (Except.ok.inj h).symm
  | some d =>
    have hkey : d.key = (userId, deviceId) := key_of_lookup hd
    obtain rfl : d.userId = userId := congrArg Prod.fst hkey
    obtain rfl : d.deviceId = deviceId := congrArg Prod.snd hkey
    rw [claimKey_known hd] at h
    obtain ⟨keyObject, hfirst, h₁⟩ := bind_eq_ok.mp h
    obtain ⟨b, hverify, h₂⟩ := bind_eq_ok.mp h₁
    cases b with
    | false => exact (Except.ok.inj h₂).symm
    | true =>
      obtain ⟨id, rest, rfl⟩ := firstValue_eq_ok.mp hfirst
      obtain ⟨kvs, rfl, hsigned⟩ := verifyJsonObject_eq_true.mp hverify
      exact absurd ⟨d, hd, id, kvs, rest, rfl, hsigned⟩ hnot

theorem claimKey_signed {m m' : KeyMachine S} {userId : Str} {p : Str × Json}
    (hsigned : SignedEntry clib m (userId, p.1) p.2) (h : claimKey clib userId m p = .ok m') :
    m'.keeper = m.keeper ∧ m'.wedgedDevices = m.wedgedDevices.erase (userId, p.1) := by
  obtain ⟨deviceId, oneTimeKey⟩ := p
  obtain ⟨d, hd, id, kvs, rest, hobj, hsigned⟩ := hsigned
  dsimp only at hobj hd
  subst hobj
  have hkey : d.key = (userId, deviceId) := key_of_lookup hd
  obtain rfl : d.userId = userId := congrArg Prod.fst hkey
  obtain rfl : d.deviceId = deviceId := congrArg Prod.snd hkey
  rw [claimKey_known hd, firstValue_eq_ok.mpr ⟨id, rest, rfl⟩, ok_bind,
    verifyJsonObject_eq_true.mpr ⟨kvs, rfl, hsigned⟩, ok_bind, if_pos rfl] at h
  obtain ⟨keyValue, -, h₁⟩ := bind_eq_ok.mp h
  obtain ⟨session, -, h₂⟩ := bind_eq_ok.mp h₁
  obtain ⟨m₁, hunwedge, h₃⟩ := bind_eq_ok.mp h₂
  rw [← Except.ok.inj h₃]
  have := of_unwedge hunwedge
  exact this

theorem keeper_of_claimKey {m m' : KeyMachine S} {userId : Str} {p : Str × Json}
    (h : claimKey clib userId m p = .ok m') : m'.keeper = m.keeper := by
  rcases Classical.em (SignedEntry clib m (userId, p.1) p.2) with hsigned | hnot
  · exact (claimKey_signed hsigned h).1
  · rw [claimKey_unsigned hnot h]

/-- What a one-time key is handled by: the devices, and whether the device waits -/
def claimView (k : Str × Str) (m : KeyMachine S) : List OlmDevice × Nat :=
  (m.keeper.deviceStore, m.wedgedDevices.count k)

theorem claimKey_concerns (userId : Str) :
    Concerns (fun p : Str × Json => (userId, p.1)) claimView (claimKey clib userId) := by
  refine ⟨fun m p m' h k hk => ?_, fun m m₂ p m' hview h => ?_⟩
  · unfold claimView
    rw [keeper_of_claimKey h]
    rcases Classical.em (SignedEntry clib m (userId, p.1) p.2) with hsigned | hnot
    · rw [(claimKey_signed hsigned h).2, List.count_erase_of_ne hk]
    · rw [claimKey_unsigned hnot h]
  · obtain ⟨deviceId, oneTimeKey⟩ := p
    obtain ⟨hstore, hcount⟩ := Prod.mk.inj hview
    have hwedged : (userId, deviceId) ∈ m.wedgedDevices ↔ (userId, deviceId) ∈ m₂.wedgedDevices := by
      rw [← List.count_pos_iff, ← List.count_pos_iff]
      exact iff_of_eq (congrArg (0 < ·) hcount)
    have hok : ∃ m₂', claimKey clib userId m₂ (deviceId, oneTimeKey) = .ok m₂' := by
      cases hd : lookup OlmDevice.key (userId, deviceId) m.keeper.deviceStore with
      | none => exact ⟨m₂, claimKey_unknown (by rw [← hstore]; exact hd)⟩
      | some d =>
        refine (claimKey_isOk (by rw [← hstore]; exact hd)).mpr ?_
        obtain ⟨hread, husable⟩ := (claimKey_isOk hd).mp ⟨m', h⟩
        refine ⟨hread, fun hsigned => ?_⟩
        obtain ⟨id, kvs, rest, key, session, h₁, h₂, h₃, h₄, h₅, h₆⟩ := husable hsigned
        refine ⟨id, kvs, rest, key, session, h₁, h₂, h₃, h₄, h₅, fun hw => h₆ ?_⟩
        have hkey : d.key = (userId, deviceId) := key_of_lookup hd
        rw [hkey] at hw ⊢
        exact hwedged.mpr hw
    obtain ⟨m₂', h₂⟩ := hok
    refine ⟨m₂', h₂, ?_⟩
    have hsame : SignedEntry clib m (userId, deviceId) oneTimeKey ↔
        SignedEntry clib m₂ (userId, deviceId) oneTimeKey := by
      unfold SignedEntry
      rw [hstore]
    unfold claimView
    rw [keeper_of_claimKey h, keeper_of_claimKey h₂, hstore]
    refine congrArg _ ?_
    rcases Classical.em (SignedEntry clib m (userId, deviceId) oneTimeKey) with hsigned | hnot
    · rw [(claimKey_signed hsigned h).2, (claimKey_signed (hsame.mp hsigned) h₂).2]
      dsimp only at hcount ⊢
      rw [List.count_erase_self, List.count_erase_self, hcount]
    · rw [claimKey_unsigned hnot h, claimKey_unsigned (fun hs => hnot (hsame.mpr hs)) h₂]
      exact hcount

theorem claimUser_eq_ok {m m' : KeyMachine S} {userId : Str} {devices : Json} :
    claimUser clib m (userId, devices) = .ok m' ↔
      ∃ entries, devices = .obj entries ∧ entries.foldlM (claimKey clib userId) m = .ok m' := by
  unfold claimUser
  constructor
  · intro h
    obtain ⟨entries, hentries, hrun⟩ := bind_eq_ok.mp h
    exact ⟨entries, getItems_eq_ok.mp hentries, hrun⟩
  · rintro ⟨entries, rfl, hrun⟩
    rw [getItems_eq_ok.mpr rfl, ok_bind]
    exact hrun

theorem claimUser_concerns :
    Concerns (fun p : Str × Json => p.1)
      (fun userId (m : KeyMachine S) deviceId => claimView (userId, deviceId) m)
      (claimUser clib) := by
  refine ⟨fun m p m' h user huser => ?_, fun m m₂ p m' hview h => ?_⟩
  · obtain ⟨userId, devices⟩ := p
    obtain ⟨entries, rfl, hrun⟩ := claimUser_eq_ok.mp h
    funext deviceId
    refine foldlM_others (claimKey_concerns userId) hrun fun hmem => ?_
    obtain ⟨p, -, hp⟩ := List.mem_map.mp hmem
    exact huser (congrArg Prod.fst hp).symm
  · obtain ⟨userId, devices⟩ := p
    obtain ⟨entries, rfl, hrun⟩ := claimUser_eq_ok.mp h
    have hstart : ∀ k : Str × Str, k.1 = userId → claimView k m = claimView k m₂ := by
      rintro ⟨user, deviceId⟩ rfl
      exact congrFun hview deviceId
    obtain ⟨m₂', hrun₂, hview₂⟩ := @foldlM_congr _ _ _ _ _ _ _ _ (claimKey_concerns userId)
      (fun k => k.1 = userId) entries (fun _ _ => rfl) _ _ m₂ hstart hrun
    exact ⟨m₂', claimUser_eq_ok.mpr ⟨entries, rfl, hrun₂⟩,
      funext fun deviceId => hview₂ (userId, deviceId) rfl⟩

theorem handleKeyClaiming_isOk {m : KeyMachine S} {answer : KeysClaimAnswer}
    (hd : DistinctEntries answer.oneTimeKeys) :
    (∃ m', handleKeyClaiming clib m answer = .ok m') ↔ HarmlessClaim clib m answer := by
  have hinner : ∀ userId entries, (userId, .obj entries) ∈ answer.oneTimeKeys →
      ((∃ m', claimUser clib m (userId, .obj entries) = .ok m') ↔
        ∀ p ∈ entries, ∃ m', claimKey clib userId m p = .ok m') := by
    intro userId entries hmem
    have hkeys : (entries.map fun p : Str × Json => (userId, p.1)).Nodup := by
      have := (hd.deviceIds userId entries hmem).map (Prod.mk_right_injective userId)
      rwa [List.map_map] at this
    rw [← foldlM_isOk (claimKey_concerns userId) hkeys]
    refine exists_congr fun m' => ?_
    rw [claimUser_eq_ok]
    simp
  unfold handleKeyClaiming
  rw [foldlM_isOk claimUser_concerns hd.userIds]
  constructor
  · intro hall
    have hentries : ∀ k oneTimeKey, HasEntry answer.oneTimeKeys k oneTimeKey →
        ∃ m', claimKey clib k.1 m (k.2, oneTimeKey) = .ok m' := by
      rintro k oneTimeKey ⟨entries, hmem, hentry⟩
      exact (hinner k.1 entries hmem).mp (hall _ hmem) _ hentry
    refine ⟨fun p hp => ?_, fun k oneTimeKey d hentry hlookup => ?_,
      fun k oneTimeKey d hentry hlookup => ?_⟩
    · obtain ⟨m', hm'⟩ := hall p hp
      obtain ⟨entries, hobj, -⟩ := claimUser_eq_ok.mp hm'
      exact ⟨entries, hobj⟩
    · exact ((claimKey_isOk hlookup).mp (hentries k oneTimeKey hentry)).1
    · exact ((claimKey_isOk hlookup).mp (hentries k oneTimeKey hentry)).2
  · rintro h ⟨userId, devices⟩ hp
    obtain ⟨entries, rfl⟩ := h.objects _ hp
    refine (hinner userId entries hp).mpr fun p hmem => ?_
    have hentry : HasEntry answer.oneTimeKeys (userId, p.1) p.2 := ⟨entries, hp, hmem⟩
    cases hlookup : lookup OlmDevice.key (userId, p.1) m.keeper.deviceStore with
    | none => exact ⟨m, claimKey_unknown hlookup⟩
    | some d =>
      exact (claimKey_isOk hlookup).mpr ⟨h.readable _ _ d hentry hlookup,
        h.usable _ _ d hentry hlookup⟩

/-- A key that is signed is well formed when it can be used. -/
theorem wellFormed_of_signed {d : OlmDevice} {oneTimeKey : Json} {wedged : List (Str × Str)}
    (hsigned : SignedKey clib d oneTimeKey) (husable : UsableKey clib wedged d oneTimeKey) :
    WellFormedKey clib d oneTimeKey := by
  obtain ⟨id, kvs, rest, rfl, hsigned⟩ := hsigned
  obtain ⟨id', kvs', rest', key, session, hobj, hget, -, hkey, -, -⟩ := husable
  obtain ⟨⟨rfl, rfl⟩, rfl⟩ : (id = id' ∧ kvs = kvs') ∧ rest = rest' := by simpa using hobj
  exact ⟨id, kvs, rest, key, rfl, hsigned, hget, hkey.1, hkey.2⟩

theorem keeper_of_claimUser {m m' : KeyMachine S} {p : Str × Json}
    (h : claimUser clib m p = .ok m') : m'.keeper = m.keeper := by
  obtain ⟨userId, devices⟩ := p
  obtain ⟨entries, -, hrun⟩ := claimUser_eq_ok.mp h
  have hstep : ∀ p ∈ entries, ∀ m₁ m₂ : KeyMachine S, claimKey clib userId m₁ p = .ok m₂ →
      m₁.keeper = m.keeper → m₂.keeper = m.keeper :=
    fun _ _ _ _ hstep hkeep => (keeper_of_claimKey hstep).trans hkeep
  exact foldlM_invariant hstep hrun rfl

/-- Without an entry that is not signed, a key claim comes to the same. -/
theorem handleKeyClaiming_without {m m' : KeyMachine S} {answer : KeysClaimAnswer} {k : Str × Str}
    {oneTimeKey : Json} (hd : DistinctEntries answer.oneTimeKeys)
    (hentry : HasEntry answer.oneTimeKeys k oneTimeKey) (hnot : ¬ SignedEntry clib m k oneTimeKey)
    (h : handleKeyClaiming clib m answer = .ok m') :
    handleKeyClaiming clib m (answer.without k) = .ok m' := by
  obtain ⟨hobj, hread, husable⟩ := (handleKeyClaiming_isOk hd).mp ⟨m', h⟩
  -- The entry does nothing in any state with the same devices.
  have hidle : ∀ m₁ : KeyMachine S, m₁.keeper = m.keeper →
      claimKey clib k.1 m₁ (k.2, oneTimeKey) = .ok m₁ := by
    intro m₁ hkeeper
    have hnot₁ : ¬ SignedEntry clib m₁ k oneTimeKey := by
      unfold SignedEntry
      rw [hkeeper]
      exact hnot
    have hok : ∃ m₂, claimKey clib k.1 m₁ (k.2, oneTimeKey) = .ok m₂ := by
      cases hlookup : lookup OlmDevice.key k m₁.keeper.deviceStore with
      | none => exact ⟨m₁, claimKey_unknown hlookup⟩
      | some d =>
        refine (claimKey_isOk hlookup).mpr ⟨hread k oneTimeKey d hentry ?_, fun hs => ?_⟩
        · rw [← hkeeper]
          exact hlookup
        · exact absurd ⟨d, hlookup, hs⟩ hnot₁
    obtain ⟨m₂, hm₂⟩ := hok
    rw [hm₂, claimKey_unsigned hnot₁ hm₂]
  obtain ⟨entries, hmem, hentry⟩ := hentry
  have huser : ∀ m₁ : KeyMachine S, m₁.keeper = m.keeper →
      claimUser clib m₁ (k.1, .obj (dictErase entries k.2)) = claimUser clib m₁ (k.1, .obj entries) := by
    intro m₁ hkeeper
    have hsteps : ∀ (s : KeyMachine S) (p : Str × Json) (s' : KeyMachine S), p ∈ entries →
        s.keeper = m.keeper → claimKey clib k.1 s p = .ok s' → s'.keeper = m.keeper :=
      fun s p s' _ hs hstep => (keeper_of_claimKey hstep).trans hs
    have hidles : ∀ (s : KeyMachine S) (p : Str × Json), p ∈ entries → s.keeper = m.keeper →
        decide (p.1 ≠ k.2) = false → claimKey clib k.1 s p = .ok s := by
      intro s p hp hs hdrop
      have hid : p.1 = k.2 := by simpa using hdrop
      have hsame : p = (k.2, oneTimeKey) := by
        have hn := hd.deviceIds k.1 entries hmem
        exact List.inj_on_of_nodup_map hn hp hentry hid
      rw [hsame]
      exact hidle s hs
    exact foldlM_filter_idle hsteps hidles hkeeper
  have hfold : ∀ (users : List (Str × Json)) (m₁ : KeyMachine S),
      (∀ p ∈ users, p ∈ answer.oneTimeKeys) → m₁.keeper = m.keeper →
      (withoutEntry users k).foldlM (claimUser clib) m₁ = users.foldlM (claimUser clib) m₁ := by
    intro users
    induction users with
    | nil => exact fun _ _ _ => rfl
    | cons p users ih =>
      intro m₁ hsub hkeeper
      have hfirst : claimUser clib m₁ (p.1, if p.1 = k.1 then dropEntry k.2 p.2 else p.2) =
          claimUser clib m₁ p := by
        split
        · next hu =>
          have hp : p = (k.1, .obj entries) :=
            List.inj_on_of_nodup_map hd.userIds (hsub p List.mem_cons_self) hmem hu
          rw [hp]
          exact huser m₁ hkeeper
        · rfl
      unfold withoutEntry
      rw [List.map_cons, List.foldlM_cons, List.foldlM_cons, hfirst]
      cases hm₂ : claimUser clib m₁ p with
      | error e => rfl
      | ok m₂ =>
        exact ih m₂ (fun q hq => hsub q (List.mem_cons_of_mem _ hq))
          ((keeper_of_claimUser hm₂).trans hkeeper)
  exact (hfold answer.oneTimeKeys m (fun _ hp => hp) rfl).trans h

/-- A key claim is tolerated exactly when its answer does no harm. -/
theorem toleratesClaim_iff {m : KeyMachine S} {answer : KeysClaimAnswer}
    (hd : DistinctEntries answer.oneTimeKeys) :
    ToleratesClaim clib m answer ↔ HarmlessClaim clib m answer := by
  constructor
  · rintro ⟨m', h, -⟩
    exact (handleKeyClaiming_isOk hd).mp ⟨m', h⟩
  · intro h
    obtain ⟨m', hm'⟩ := (handleKeyClaiming_isOk hd).mpr h
    refine ⟨m', hm', fun k oneTimeKey hentry hbad => ?_⟩
    refine handleKeyClaiming_without hd hentry ?_ hm'
    rintro ⟨d, hlookup, hsigned⟩
    exact hbad ⟨d, hlookup, wellFormed_of_signed hsigned
      (h.usable k oneTimeKey d hentry hlookup hsigned)⟩

/-! ## Answers of either kind -/

/-- What `from_dict` makes of a body, for a query with the users that were asked for or without -/
inductive KeysAnswer.ReadFrom (body : Json) : KeysAnswer → Prop where
  | query (userSet : Option (List Str)) (answer : KeysQueryAnswer)
    (h : KeysQueryAnswer.fromDict userSet body = some answer) : ReadFrom body (.query answer)
  | claim (answer : KeysClaimAnswer) (h : KeysClaimAnswer.fromDict body = some answer) :
    ReadFrom body (.claim answer)

namespace KeyMachine

def Tolerates (env : KeyQueryEnv) (lib : ClaimLibrary S) (m : KeyMachine S) : KeysAnswer → Prop
  | .query answer => ToleratesQuery env lib.toSignatureLibrary m.keeper answer
  | .claim answer => ToleratesClaim lib m answer

def Harmless (env : KeyQueryEnv) (lib : ClaimLibrary S) (m : KeyMachine S) : KeysAnswer → Prop
  | .query answer => HarmlessQuery env lib.toSignatureLibrary m.keeper answer
  | .claim answer => HarmlessClaim lib m answer

theorem handleResponse_of_tolerates {env : KeyQueryEnv} {m : KeyMachine S} {answer : KeysAnswer}
    (h : m.Tolerates env clib answer) : ∃ m', m.handleResponse env clib answer = .ok m' := by
  cases answer with
  | query answer =>
    obtain ⟨keeper', changed, hrun, -⟩ := h
    exact ⟨_, bind_eq_ok.mpr ⟨_, hrun, rfl⟩⟩
  | claim answer =>
    obtain ⟨m', hrun, -⟩ := h
    exact ⟨m', hrun⟩

end KeyMachine

theorem distinctEntries_objectAt {kvs : List (Str × Json)} (h : (Json.obj kvs).Distinct)
    (name : String) : DistinctEntries (objectAt kvs name) := by
  have hall : ∀ q ∈ kvs, q.2.Distinct := by
    simp only [Json.Distinct, Json.all, Bool.and_eq_true] at h
    exact Json.allPairs_iff.mp h.2
  unfold objectAt
  split
  · next entries hget =>
    obtain ⟨q, hq, hkey⟩ := Option.map_eq_some_iff.mp hget
    have hd : (Json.obj entries).Distinct := hkey ▸ hall q (List.mem_of_find?_eq_some hq)
    simp only [Json.Distinct, Json.all, Json.nodeDistinct, Bool.and_eq_true,
      decide_eq_true_eq] at hd
    refine ⟨hd.1, fun user inner hmem => ?_⟩
    have hinner := Json.allPairs_iff.mp hd.2 _ hmem
    simp only [Json.all, Json.nodeDistinct, Bool.and_eq_true, decide_eq_true_eq] at hinner
    exact hinner.1
  · exact ⟨List.nodup_nil, fun user inner hmem => absurd hmem List.not_mem_nil⟩

theorem DistinctEntries.filter {users : List (Str × Json)} (h : DistinctEntries users)
    (p : Str × Json → Bool) : DistinctEntries (users.filter p) :=
  ⟨(List.filter_sublist.map _).nodup h.userIds,
    fun user entries hmem => h.deviceIds user entries (List.mem_filter.mp hmem).1⟩

theorem distinct_of_query {userSet : Option (List Str)} {body : Json} {answer : KeysQueryAnswer}
    (hbody : body.Distinct) (h : KeysQueryAnswer.fromDict userSet body = some answer) :
    DistinctEntries answer.deviceKeys := by
  cases body with
  | obj kvs =>
    unfold KeysQueryAnswer.fromDict at h
    dsimp only at h
    split at h
    · cases userSet with
      | none =>
        cases h
        exact distinctEntries_objectAt hbody _
      | some users =>
        cases h
        exact (distinctEntries_objectAt hbody _).filter _
    · cases h
  | null | bool _ | int _ | float _ | str _ | arr _ => cases h

theorem distinct_of_claim {body : Json} {answer : KeysClaimAnswer} (hbody : body.Distinct)
    (h : KeysClaimAnswer.fromDict body = some answer) : DistinctEntries answer.oneTimeKeys := by
  cases body with
  | obj kvs =>
    unfold KeysClaimAnswer.fromDict at h
    dsimp only at h
    split at h
    · cases h
      exact distinctEntries_objectAt hbody _
    · cases h
  | null | bool _ | int _ | float _ | str _ | arr _ => cases h

theorem tolerates_iff {env : KeyQueryEnv} {m : KeyMachine S} {body : Json} {answer : KeysAnswer}
    (hstore : (m.keeper.deviceStore.map OlmDevice.key).Nodup) (hbody : body.Distinct)
    (hread : answer.ReadFrom body) : m.Tolerates env clib answer ↔ m.Harmless env clib answer := by
  cases hread with
  | query userSet answer h => exact toleratesQuery_iff (distinct_of_query hbody h) hstore
  | claim answer h => exact toleratesClaim_iff (distinct_of_claim hbody h)

/-! ## The retained request -/

variable {env : KeyQueryEnv} {ids : CryptoLibrary} {request : CryptoRequest} {body : Json}
  {effect : OlmEffect} {owner : CryptoOwner} {m : KeyMachine S}

/-- A body that an answer is read from is a success response. -/
theorem decodeAnswer_of_answerOf {answer : KeysAnswer} {message : Option Nat}
    (hanswer : KeyMachine.answerOf request body = some answer)
    (herr : body.get? (py "errcode") = none) :
    decodeAnswer request message body = .claim ∨
      ∃ users, decodeAnswer request message body = .query users := by
  unfold KeyMachine.answerOf at hanswer
  cases body with
  | null | bool _ | int _ | float _ | str _ | arr _ =>
    cases hkind : request.kind <;> rw [hkind] at hanswer <;> cases hanswer
  | obj kvs =>
    have herr' : dictGet? kvs (py "errcode") = none := herr
    unfold decodeAnswer
    dsimp only
    rw [herr']
    cases hkind : request.kind with
    | upload => rw [hkind] at hanswer; cases hanswer
    | toDevice => rw [hkind] at hanswer; cases hanswer
    | query =>
      rw [hkind] at hanswer
      obtain ⟨a, ha, -⟩ := Option.map_eq_some_iff.mp hanswer
      unfold KeysQueryAnswer.fromDict at ha
      dsimp only at ha
      split at ha
      · next hvalid => exact Or.inr ⟨_, if_pos hvalid⟩
      · cases ha
    | claim =>
      rw [hkind] at hanswer
      obtain ⟨a, ha, -⟩ := Option.map_eq_some_iff.mp hanswer
      unfold KeysClaimAnswer.fromDict at ha
      dsimp only at ha
      split at ha
      · next hvalid => exact Or.inl (if_pos hvalid)
      · cases ha

/-- The answer to the pending request settles it when the machine handles it. -/
theorem apply_pending {answer : KeysAnswer} {messageId : Option Str}
    (hpending : owner.pending = .ok (some (request, messageId)))
    (hanswer : KeyMachine.answerOf request body = some answer)
    (herr : body.get? (py "errcode") = none) :
    ∃ response, KeyMachine.apply env clib ids request body effect (owner, m) =
      (fun m' => ((owner.settle ids request response effect, m'), response)) <$>
        m.handleResponse env clib answer := by
  have hkind : request.kind ≠ .toDevice := by
    rintro hkind
    unfold KeyMachine.answerOf at hanswer
    rw [hkind] at hanswer
    cases hanswer
  have howner : ∀ response, decodeAnswer request (owner.pendingMessage messageId) body = response →
      response ≠ .error → owner.apply ids request body effect =
        .ok (owner.settle ids request response effect, response) := by
    intro response hdecode hne
    unfold CryptoOwner.apply
    rw [hpending, ok_bind]
    dsimp only
    rw [if_neg fun h => h rfl, if_neg fun h => hkind h.1, hdecode]
    cases response with
    | error => exact absurd rfl hne
    | toDevice message | upload | query users | claim => rfl
  have hmap : ∀ response,
      (do return ((owner.settle ids request response effect, ← m.handleResponse env clib answer),
        response) : Except Events.PyError ((CryptoOwner × KeyMachine S) × CryptoResponse)) =
      (fun m' => ((owner.settle ids request response effect, m'), response)) <$>
        m.handleResponse env clib answer := by
    intro response
    cases m.handleResponse env clib answer <;> rfl
  unfold KeyMachine.apply
  rcases decodeAnswer_of_answerOf hanswer herr with hdecode | ⟨users, hdecode⟩
  · refine ⟨.claim, ?_⟩
    rw [howner _ hdecode (by simp), ok_bind, hanswer]
    exact hmap .claim
  · refine ⟨.query users, ?_⟩
    rw [howner _ hdecode (by simp), ok_bind, hanswer]
    exact hmap (.query users)

theorem request_of_settle (response : CryptoResponse) :
    (owner.settle ids request response effect).rows.request = none := by
  unfold CryptoOwner.settle CryptoOwner.record CryptoOwner.capture CryptoOwner.retainMessages
  rfl

/-- An answer is tolerated exactly when it does no harm, and the request that is retained for it is
completed exactly when it is handled. -/
theorem keysAnswers_tolerated_iff (env : KeyQueryEnv) (lib : ClaimLibrary S) (m : KeyMachine S)
    (body : Json) (hstore : (m.keeper.deviceStore.map OlmDevice.key).Nodup)
    (hbody : body.Distinct) :
    (∀ answer, KeysAnswer.ReadFrom body answer →
      (m.Tolerates env lib answer ↔ m.Harmless env lib answer)) ∧
    ∀ (ids : CryptoLibrary) request effect owner messageId answer,
      owner.pending = .ok (some (request, messageId)) →
      KeyMachine.answerOf request body = some answer → body.get? (py "errcode") = none →
      (m.Harmless env lib answer → ∃ s response,
        KeyMachine.apply env lib ids request body effect (owner, m) = .ok (s, response) ∧
        s.1.rows.request = none) ∧
      ∀ e, m.handleResponse env lib answer = .error e →
        KeyMachine.apply env lib ids request body effect (owner, m) = .error e := by
  refine ⟨fun answer hread => tolerates_iff hstore hbody hread,
    fun ids request effect owner messageId answer hpending hanswer herr => ?_⟩
  obtain ⟨response, happly⟩ := @apply_pending S lib env ids request body effect owner m answer
    messageId hpending hanswer herr
  have hread : KeysAnswer.ReadFrom body answer := by
    unfold KeyMachine.answerOf at hanswer
    split at hanswer
    · obtain ⟨a, ha, rfl⟩ := Option.map_eq_some_iff.mp hanswer
      exact .query _ a ha
    · obtain ⟨a, ha, rfl⟩ := Option.map_eq_some_iff.mp hanswer
      exact .claim a ha
    · cases hanswer
  refine ⟨fun hharmless => ?_, fun e he => ?_⟩
  · obtain ⟨m', hm'⟩ := KeyMachine.handleResponse_of_tolerates
      ((tolerates_iff hstore hbody hread).mpr hharmless)
    refine ⟨(owner.settle ids request response effect, m'), response, ?_, request_of_settle response⟩
    rw [happly, hm']
    rfl
  · rw [happly, he]
    rfl

/-! ### Answers at work -/

/-- A library that takes all signatures, and all curve keys but one -/
def lenientLibrary : ClaimLibrary Unit where
  publicKey _ := .ok ()
  signature _ := .ok ()
  verify _ _ _ := .ok ()
  curveKey key := if key = py "?" then .error .key else .ok ()
  outbound _ _ _ := .ok ()
  encrypt _ _ := .ok ((), .null)

def freshMachine : KeyMachine Unit := ⟨.fresh, [], .fresh, [], []⟩

/-- The machine of a user who knows a device of Bob -/
def machineOfAlice : KeyMachine Unit := { freshMachine with keeper := knowsBob }

/-- A device without a user id -/
def namelessDevice : Json :=
  .obj [(py "algorithms", .arr []), (py "device_id", .str (py "D")), (py "keys", .obj [])]

/-- A one-time key that is signed but cannot be decoded -/
def undecodableKey : Json :=
  .obj [(py "signed_curve25519:A", .obj [(py "key", .str (py "?")),
    (py "signatures", .obj [(py "@bob:x", .obj [(py "ed25519:D", .str (py "s"))])])])]

def answerFor (name : String) (entry : Json) : Json :=
  .obj [(py name, .obj [(py "@bob:x", .obj [(py "D", entry)])])]

/-- A second device of Bob is known as well. -/
def machineOfTwo : KeyMachine Unit :=
  { freshMachine with
    keeper := { knowsBob with
      deviceStore := knowsBob.deviceStore ++
        [⟨py "@bob:x", py "E", ⟨py "L", py "F"⟩, .str [], false, .unset⟩] } }

/-- A one-time key that is signed and can be decoded -/
def signedKey : Json :=
  .obj [(py "key", .str (py "k")),
    (py "signatures", .obj [(py "@bob:x", .obj [(py "ed25519:D", .str (py "s"))])])]

/-- A one-time key that nobody signed -/
def unsignedKey : Json := .obj [(py "key", .str (py "?"))]

def keyFor (key : Json) : Json := .obj [(py "signed_curve25519:A", key)]

def twoKeys : List (Str × Json) :=
  [(py "@bob:x", .obj [(py "D", keyFor signedKey), (py "E", keyFor unsignedKey)])]

def bodyOfTwo : Json := .obj [(py "one_time_keys", .obj twoKeys)]

/-- The owner retains the claim. -/
def claiming : CryptoOwner :=
  (CryptoOwner.enqueueClaim Durable.OutboundCrypto.countingLibrary [(py "@bob:x", [py "D", py "E"])]
    Durable.OutboundCrypto.fresh.owner).1

theorem harmlessClaim_twoKeys : HarmlessClaim lenientLibrary machineOfTwo ⟨twoKeys⟩ := by
  have hentries : ∀ k oneTimeKey, HasEntry twoKeys k oneTimeKey →
      (k = (py "@bob:x", py "D") ∧ oneTimeKey = keyFor signedKey) ∨
        (k = (py "@bob:x", py "E") ∧ oneTimeKey = keyFor unsignedKey) := by
    rintro ⟨userId, deviceId⟩ oneTimeKey ⟨entries, huser, hentry⟩
    obtain ⟨rfl, hobj⟩ := Prod.mk.inj (List.mem_singleton.mp huser)
    rw [Json.obj.inj hobj, List.mem_cons, List.mem_singleton] at hentry
    rcases hentry with h | h
    · obtain ⟨rfl, rfl⟩ := Prod.mk.inj h
      exact .inl ⟨rfl, rfl⟩
    · obtain ⟨rfl, rfl⟩ := Prod.mk.inj h
      exact .inr ⟨rfl, rfl⟩
  -- The signature of the first key is taken, the second key has none.
  have hsigned : verifyJsonObject lenientLibrary.toSignatureLibrary signedKey (.str (py "K"))
      (py "@bob:x") (py "D") = .ok true := rfl
  have hunsigned : verifyJsonObject lenientLibrary.toSignatureLibrary unsignedKey (.str (py "L"))
      (py "@bob:x") (py "E") = .ok false := rfl
  refine ⟨fun p hp => ?_, fun k oneTimeKey d hentry hd => ?_,
    fun k oneTimeKey d hentry hd hkey => ?_⟩
  · obtain rfl := List.mem_singleton.mp hp
    exact ⟨_, rfl⟩
  · rcases hentries k oneTimeKey hentry with ⟨rfl, rfl⟩ | ⟨rfl, rfl⟩
    · cases hd
      obtain ⟨kvs, heq, hverifiable⟩ := verifyJsonObject_isOk.mp ⟨true, hsigned⟩
      cases heq
      exact ⟨_, _, _, rfl, hverifiable⟩
    · cases hd
      obtain ⟨kvs, heq, hverifiable⟩ := verifyJsonObject_isOk.mp ⟨false, hunsigned⟩
      cases heq
      exact ⟨_, _, _, rfl, hverifiable⟩
  · rcases hentries k oneTimeKey hentry with ⟨rfl, rfl⟩ | ⟨rfl, rfl⟩
    · cases hd
      exact ⟨_, _, _, py "k", (), rfl, rfl, by decide, by decide, rfl, fun h => nomatch h⟩
    · cases hd
      obtain ⟨id, kvs, rest, heq, hkey⟩ := hkey
      cases heq
      cases hunsigned.symm.trans (verifyJsonObject_eq_true.mpr ⟨_, rfl, hkey⟩)

/-- The first key makes a session and the second is skipped, as if it were absent; the claim is
retained no longer. -/
theorem keysAnswers_tolerated_iff_twoKeys :
    KeysAnswer.ReadFrom bodyOfTwo (.claim ⟨twoKeys⟩) ∧
    machineOfTwo.Tolerates pinningEnv lenientLibrary (.claim ⟨twoKeys⟩) ∧
    (∃ m', machineOfTwo.handleResponse pinningEnv lenientLibrary (.claim ⟨twoKeys⟩) = .ok m' ∧
      m'.sessions = [(py "C", ())]) ∧
    ∃ request, claiming.pending = .ok (some (request, none)) ∧
      ∃ s response, KeyMachine.apply pinningEnv lenientLibrary
        Durable.OutboundCrypto.countingLibrary request bodyOfTwo ⟨[], []⟩ (claiming, machineOfTwo) =
          .ok (s, response) ∧ s.1.rows.request = none := by
  have hread : KeysAnswer.ReadFrom bodyOfTwo (.claim ⟨twoKeys⟩) := .claim _ rfl
  have hiff := keysAnswers_tolerated_iff pinningEnv lenientLibrary machineOfTwo bodyOfTwo
    (by decide) rfl
  exact ⟨hread, (hiff.1 _ hread).mpr harmlessClaim_twoKeys, ⟨_, rfl, rfl⟩, _, rfl,
    (hiff.2 _ _ ⟨[], []⟩ claiming none (.claim ⟨twoKeys⟩) rfl rfl rfl).1 harmlessClaim_twoKeys⟩

/-- A device without a user id, and a signed one-time key that cannot be decoded, abort. -/
theorem keysAnswers_abort :
    (KeysAnswer.ReadFrom (answerFor "device_keys" namelessDevice)
        (.query ⟨[(py "@bob:x", .obj [(py "D", namelessDevice)])], none⟩) ∧
      ¬ freshMachine.Tolerates pinningEnv lenientLibrary
        (.query ⟨[(py "@bob:x", .obj [(py "D", namelessDevice)])], none⟩)) ∧
    KeysAnswer.ReadFrom (answerFor "one_time_keys" undecodableKey)
        (.claim ⟨[(py "@bob:x", .obj [(py "D", undecodableKey)])]⟩) ∧
      ¬ machineOfAlice.Tolerates pinningEnv lenientLibrary
        (.claim ⟨[(py "@bob:x", .obj [(py "D", undecodableKey)])]⟩) := by
  refine ⟨⟨.query none _ rfl, fun h => ?_⟩, .claim _ rfl, fun h => ?_⟩
  · obtain ⟨m', hm'⟩ := KeyMachine.handleResponse_of_tolerates h
    cases hm'
  · obtain ⟨m', hm'⟩ := KeyMachine.handleResponse_of_tolerates h
    cases hm'

end Nio.Crypto
