import Nio.Crypto.KeyFile
import Nio.Crypto.GroupSessions
import Nio.Py.JsonAscii
import Nio.Py.SchemaFields

/-!
# Export and import of group sessions

`export_keys_static` writes the sessions of a store as a JSON list into a key file, and
`import_keys_static` reads one.

* `roundTrip_iff` — when an import gives back what was exported
* `only_importKeys` — when an import raises nothing but what it documents
-/

namespace Nio.Crypto

open Nio.Py
open Nio.Py.Schema (JsonType Plain Accepts accepts_of_eq accepts_object accepts_field)
open Nio.Lib

variable {ρ : Type}

/-! ## Export -/

/-- What `vodozemac` computes for the export of a session -/
structure GroupSessionExport (lib : Vodozemac ρ) where
  firstKnownIndex : ρ → Nat
  /-- `export_at`, in base64; `none` for an index before the first one that is known -/
  exportAt : ρ → Nat → Option Str
  /-- A session that is exported at its first index is imported with this index. -/
  import_exportAt : ∀ r, ∃ key r', exportAt r (firstKnownIndex r) = some key ∧ key.Encodable ∧
    lib.importSession key = some r' ∧ lib.sessionId r' = lib.sessionId r ∧
      firstKnownIndex r' = firstKnownIndex r

section Export

variable {lib : Vodozemac ρ} (export' : GroupSessionExport lib) (files : KeyFileLibrary)

/-- The entry of a session in the list -/
def exportEntry (lib : Vodozemac ρ) (s : InboundGroupSession ρ) (sessionKey : Str) : Json :=
  .obj [(py "algorithm", .str GroupSessions.megolmAlgorithm), (py "sender_key", .str s.senderKey),
    (py "sender_claimed_keys", .obj [(py "ed25519", .str s.ed25519)]),
    (py "forwarding_curve25519_key_chain", .arr (s.forwardingChain.map .str)),
    (py "room_id", .str s.roomId), (py "session_id", .str (s.id lib)),
    (py "session_key", .str sessionKey)]

/-- `session.export_session(session.first_known_index)` in its entry -/
def exportSession (s : InboundGroupSession ρ) : Except KeyFileError Json :=
  match export'.exportAt s.session (export'.firstKnownIndex s.session) with
  | none => .error .assertion
  | some sessionKey => .ok (exportEntry lib s sessionKey)

/-- `export_keys_static`: the content of the file -/
def exportKeysStatic (sessions : List (InboundGroupSession ρ)) (passphrase : Str) (drawn : Drawn) :
    Except KeyFileError Bytes := do
  let sessionList ← sessions.mapM (exportSession export')
  match dumps .default (.arr sessionList) with
  | .error _ => .error .value
  -- the default options write ASCII
  | .ok text => files.encryptAndSave (asciiBytes text) passphrase drawn

end Export

/-! ## Import -/

/-- `for x in value` -/
def members : Json → Option (List Json)
  | .arr xs => some xs
  | .obj kvs => some (kvs.map fun p => .str p.1)
  | .str s => some (s.map fun c => .str [c])
  | _ => none

/-- `key in value` -/
def contains (key : Str) : Json → Option Bool
  | .obj kvs => some (dictGet? kvs key).isSome
  | .arr xs => some (.str key ∈ xs)
  | .str s => some (key <:+: s)
  | _ => none

/-- The items of `Schemas.megolm_key_import` -/
def exportedSession : Schema :=
  .all [.type .object,
    .properties [Schema.prop "algorithm" (.type .string), Schema.prop "session_key" (.type .string),
      Schema.prop "sender_key" (.type .string), Schema.prop "room_id" (.type .string),
      Schema.prop "sender_claimed_keys" (.all [.type .object,
        .properties [Schema.prop "ed25519" (.type .string)], .required ["ed25519"]]),
      Schema.prop "forwarding_curve25519_key_chain"
        (.all [.type .array, .items (.type .string)])],
    .required ["algorithm", "session_key", "sender_key", "room_id", "sender_claimed_keys",
      "forwarding_curve25519_key_chain"]]

/-- `Schemas.megolm_key_import` -/
def megolmKeyImport : Schema := .all [.type .array, .items exportedSession]

/-- `session_dict[key]` of a string -/
def textItem (v : Json) (key : String) : Except KeyFileError Str :=
  match v.get? (py key) with
  | some (.str s) => .ok s
  | _ => .error .type

/-- The strings of `session_dict[key]` -/
def textItems (v : Json) (key : String) : Except KeyFileError (List Str) :=
  match v.get? (py key) with
  | some (.arr xs) => xs.mapM fun
    | .str s => .ok s
    | _ => .error .type
  | _ => .error .type

/-- What is read of an entry -/
def exportedKey (v : Json) : Except KeyFileError ExportedKey := do
  return {
    algorithm := ← textItem v "algorithm"
    sessionKey := ← textItem v "session_key"
    ed25519 := ← textItem ((v.get? (py "sender_claimed_keys")).getD .null) "ed25519"
    senderKey := ← textItem v "sender_key"
    roomId := ← textItem v "room_id"
    chain := ← textItems v "forwarding_curve25519_key_chain" }

/-- `except ValueError` around `decrypt_and_read` -/
def decryptedData (files : KeyFileLibrary) (infile : Option Bytes) (passphrase : Str) :
    Except KeyFileError Bytes :=
  match files.decryptAndRead infile passphrase with
  | .error .value => .error .encryption
  | r => r

/-- `except JSONDecodeError` around `json.loads` -/
def loadsData (data : Bytes) : Except KeyFileError Json :=
  match jsonText data with
  | none => .error .value
  | some text =>
    match loads text with
    | .ok v => .ok v
    | .error .jsonDecode => .error .encryption
    | .error _ => .error .value

/-- The sessions that claim a key -/
def claimingSessions : List Json → Except KeyFileError (List Json)
  | [] => .ok []
  | session :: rest =>
    match contains (py "sender_claimed_keys") session with
    | none => .error .type
    | some true => do return session :: (← claimingSessions rest)
    | some false => claimingSessions rest

def sessionList (v : Json) : Except KeyFileError (List Json) :=
  match members v with
  | none => .error .type
  | some sessions => claimingSessions sessions

/-- `session_list` of the data -/
def parsedSessions (data : Bytes) : Except KeyFileError (List Json) :=
  loadsData data >>= sessionList

def importKeysStatic (lib : Vodozemac ρ) (files : KeyFileLibrary) (infile : Option Bytes)
    (passphrase : Str) : Except KeyFileError (List (InboundGroupSession ρ)) := do
  let data ← decryptedData files infile passphrase
  let sessions ← parsedSessions data
  match megolmKeyImport (.arr sessions) with
  | none => .error .encryption
  -- the schema has no defaults
  | some _ => return GroupSessions.importKeysStatic lib (← sessions.mapM exportedKey)

/-- Every string of the session can be written to the database. -/
structure InboundGroupSession.Stored (lib : Vodozemac ρ) (s : InboundGroupSession ρ) : Prop where
  roomId : s.roomId.Encodable
  senderKey : s.senderKey.Encodable
  id : Str.Encodable (s.id lib)
  ed25519 : s.ed25519.Encodable
  forwardingChain : ∀ key ∈ s.forwardingChain, key.Encodable

instance (lib : Vodozemac ρ) (s : InboundGroupSession ρ) : Decidable (s.Stored lib) :=
  decidable_of_iff (s.roomId.Encodable ∧ s.senderKey.Encodable ∧ Str.Encodable (s.id lib) ∧
      s.ed25519.Encodable ∧ ∀ key ∈ s.forwardingChain, key.Encodable)
    ⟨fun ⟨hroom, hsender, hid, hed, hchain⟩ => ⟨hroom, hsender, hid, hed, hchain⟩,
      fun h => ⟨h.roomId, h.senderKey, h.id, h.ed25519, h.forwardingChain⟩⟩

/-- The sessions are added and saved one after the other. Saving one with an unpaired surrogate raises
`UnicodeEncodeError`, which rolls its statements back; the session is in memory then. -/
def addSessions (lib : Vodozemac ρ) :
    GroupSessions ρ → List (InboundGroupSession ρ) → GroupSessions ρ × Option KeyFileError
  | o, [] => (o, none)
  | o, s :: rest =>
    let (store, added) := o.inboundGroupStore.add lib ⟨o.objects, s⟩
    let o := { o with inboundGroupStore := store, objects := o.objects + 1 }
    if !added then addSessions lib o rest
    else if s.Stored lib then
      addSessions lib { o with store := o.store.saveInboundGroupSession lib s } rest
    else (o, some .value)

/-- `import_keys`: the machine after it, and what it raised -/
def importKeys (lib : Vodozemac ρ) (files : KeyFileLibrary) (o : GroupSessions ρ)
    (infile : Option Bytes) (passphrase : Str) : GroupSessions ρ × Option KeyFileError :=
  match importKeysStatic lib files infile passphrase with
  | .error e => (o, some e)
  | .ok sessions => addSessions lib o sessions

/-! ## When an import fails -/

/-- What `import_keys` is documented to raise -/
def KeyFileError.Documented (e : KeyFileError) : Prop := e = .encryption ∨ e = .file

instance (e : KeyFileError) : Decidable e.Documented := inferInstanceAs (Decidable (_ ∨ _))

/-- What is documented once `ValueError` is translated -/
def KeyFileError.Caught (e : KeyFileError) : Prop := e = .value ∨ e.Documented

instance (e : KeyFileError) : Decidable e.Caught := inferInstanceAs (Decidable (_ ∨ _))

/-- No other errors are raised. -/
def Only {α : Type} (allowed : KeyFileError → Prop) (r : Except KeyFileError α) : Prop :=
  ∀ e, r = .error e → allowed e

/-- The payload has a first byte, and deriving the key for its salt and rounds raises nothing but
`ValueError`. -/
def Opens (files : KeyFileLibrary) (passphrase : Str) (payload : Bytes) : Prop :=
  payload ≠ [] ∧ (payload.head? = some 1 → Only KeyFileError.Caught
    (files.pbkdf2 passphrase ((payload.take 17).drop 1) (fromBytes ((payload.take 37).drop 33))))

/-- The data is text that is not JSON, or a container whose members can be searched for a key. -/
def Readable (data : Bytes) : Prop :=
  ∃ text, jsonText data = some text ∧ (loads text = .error .jsonDecode ∨
    ∃ v entries, loads text = .ok v ∧ members v = some entries ∧
      ∀ entry ∈ entries, (contains (py "sender_claimed_keys") entry).isSome)

/-- The entry claims a key. -/
def Claims (entry : Json) : Prop := contains (py "sender_claimed_keys") entry = some true

instance (entry : Json) : Decidable (Claims entry) := inferInstanceAs (Decidable (_ = _))

/-- The session that an entry stands for -/
def ExportedKey.session (e : ExportedKey) (r : ρ) : InboundGroupSession ρ :=
  ⟨r, e.ed25519, e.senderKey, e.roomId, e.chain⟩

/-- What an entry brings can be written to the database. -/
def SavableEntry (lib : Vodozemac ρ) (entry : Json) : Prop :=
  ∀ key, exportedKey entry = .ok key → key.algorithm = GroupSessions.megolmAlgorithm →
    ∀ r ∈ lib.importSession key.sessionKey, (key.session r).Stored lib

/-- The entries of a list that the schema accepts can be written to the database. -/
def Savable (lib : Vodozemac ρ) (files : KeyFileLibrary) (infile : Option Bytes)
    (passphrase : Str) : Prop :=
  ∀ data text v entries, files.decryptAndRead infile passphrase = .ok data →
    jsonText data = some text → loads text = .ok v → members v = some entries →
    (∀ entry ∈ entries, (contains (py "sender_claimed_keys") entry).isSome) →
    (megolmKeyImport (.arr (entries.filter Claims))).isSome →
      ∀ entry ∈ entries, Claims entry → SavableEntry lib entry

section Errors

variable {α : Type} {allowed : KeyFileError → Prop}

theorem error_bind {β : Type} (e : KeyFileError) (f : α → Except KeyFileError β) :
    ((Except.error e : Except KeyFileError α) >>= f) = .error e := rfl

@[simp] theorem only_ok (a : α) : Only allowed (.ok a) ↔ True :=
  ⟨fun _ => trivial, fun _ _ h => nomatch h⟩

@[simp] theorem only_error (e : KeyFileError) : Only allowed (.error e : Except _ α) ↔ allowed e :=
  ⟨fun h => h e rfl, fun h _ he => Except.error.inj he ▸ h⟩

end Errors

theorem only_decryptPayload (files : KeyFileLibrary) (payload : Bytes) (passphrase : Str) :
    Only KeyFileError.Caught (files.decryptPayload payload passphrase) ↔
      Opens files passphrase payload := by
  unfold KeyFileLibrary.decryptPayload Opens
  cases payload with
  | nil => exact iff_of_false (by rw [List.head?_nil, only_error]; decide) fun h => h.1 rfl
  | cons version rest =>
    rw [List.head?_cons]
    dsimp only
    by_cases hversion : version = 1
    · rw [if_neg (by simpa using hversion), and_iff_right (by simp), hversion,
        forall_prop_of_true rfl]
      generalize files.pbkdf2 passphrase _ _ = derived
      cases derived with
      | error e => exact (only_error e).trans (only_error e).symm
      | ok derivedKey =>
        rw [ok_bind, only_ok, iff_true]
        split
        · exact (only_error _).mpr (Or.inl rfl)
        · exact (only_ok _).mpr trivial
    · rw [if_pos (by simpa using hversion), only_error]
      exact iff_of_true (Or.inl rfl)
        ⟨by simp, fun h => absurd (Option.some.inj h) hversion⟩

theorem only_decryptedData (files : KeyFileLibrary) (infile : Option Bytes) (passphrase : Str) :
    Only KeyFileError.Documented (decryptedData files infile passphrase) ↔
      ∀ content text payload, infile = some content → KeyFileLibrary.unframe content = some text →
        files.decodeBase64 text = some payload → Opens files passphrase payload := by
  have htranslate : Only KeyFileError.Documented (decryptedData files infile passphrase) ↔
      Only KeyFileError.Caught (files.decryptAndRead infile passphrase) := by
    unfold decryptedData
    cases files.decryptAndRead infile passphrase with
    | ok data => exact (only_ok data).trans (only_ok data).symm
    | error e => cases e <;> simp [KeyFileError.Caught, KeyFileError.Documented]
  rw [htranslate]
  unfold KeyFileLibrary.decryptAndRead
  cases infile with
  | none =>
    rw [only_error]
    exact iff_of_true (Or.inr (Or.inr rfl)) fun _ _ _ hcontent => nomatch hcontent
  | some content =>
    cases hframe : KeyFileLibrary.unframe content with
    | none =>
      simp only [hframe, only_error]
      refine iff_of_true (Or.inl rfl) fun c t p hc ht => ?_
      rw [← Option.some.inj hc, hframe] at ht
      cases ht
    | some text =>
      simp only [hframe]
      unfold KeyFileLibrary.decrypt
      cases hdecode : files.decodeBase64 text with
      | none =>
        simp only [only_error]
        refine iff_of_true (Or.inl rfl) fun c t p hc ht hp => ?_
        rw [← Option.some.inj hc, hframe] at ht
        rw [← Option.some.inj ht, hdecode] at hp
        cases hp
      | some payload =>
        dsimp only
        rw [only_decryptPayload]
        constructor
        · intro h c t p hc ht hp
          rw [← Option.some.inj hc, hframe] at ht
          rw [← Option.some.inj ht, hdecode] at hp
          rwa [← Option.some.inj hp]
        · intro h
          exact h content text payload rfl hframe hdecode

theorem claimingSessions_ok {sessions : List Json}
    (h : ∀ s ∈ sessions, (contains (py "sender_claimed_keys") s).isSome) :
    claimingSessions sessions =
      .ok (sessions.filter fun s => contains (py "sender_claimed_keys") s = some true) := by
  induction sessions with
  | nil => rfl
  | cons s rest ih =>
    obtain ⟨claims, hclaims⟩ := Option.isSome_iff_exists.mp (h s List.mem_cons_self)
    have hrest := ih fun x hx => h x (List.mem_cons_of_mem _ hx)
    rw [claimingSessions, hclaims, hrest]
    cases claims with
    | true => rw [List.filter_cons_of_pos (by simp [hclaims])]; rfl
    | false => rw [List.filter_cons_of_neg (by simp [hclaims])]

theorem claimingSessions_error {sessions : List Json}
    (h : ¬ ∀ s ∈ sessions, (contains (py "sender_claimed_keys") s).isSome) :
    claimingSessions sessions = .error .type := by
  induction sessions with
  | nil => exact absurd (List.forall_mem_nil _) h
  | cons s rest ih =>
    rw [claimingSessions]
    cases hclaims : contains (py "sender_claimed_keys") s with
    | none => rfl
    | some claims =>
      have hrest := ih fun hrest => h (List.forall_mem_cons.mpr ⟨by simp [hclaims], hrest⟩)
      cases claims with
      | true => simp only [hrest]; rfl
      | false => exact hrest

theorem only_parsedSessions (data : Bytes) :
    Only KeyFileError.Documented (parsedSessions data) ↔ Readable data := by
  unfold parsedSessions loadsData Readable
  cases htext : jsonText data with
  | none =>
    rw [error_bind, only_error]
    refine iff_of_false (by decide) ?_
    rintro ⟨text, ht, -⟩
    cases ht
  | some text =>
    simp only [Option.some.injEq, exists_eq_left']
    cases hloads : loads text with
    | error e =>
      cases e with
      | jsonDecode =>
        rw [error_bind, only_error]
        exact iff_of_true (Or.inl rfl) (Or.inl rfl)
      | _ =>
        rw [error_bind, only_error]
        refine iff_of_false (by decide) ?_
        rintro (h | ⟨v, entries, hv, -⟩)
        · cases h
        · cases hv
    | ok v =>
      simp only [ok_bind, sessionList, Except.ok.injEq, exists_and_left, exists_eq_left',
        reduceCtorEq, false_or]
      cases hmembers : members v with
      | none =>
        rw [only_error]
        refine iff_of_false (by decide) ?_
        rintro ⟨entries, hentries, -⟩
        cases hentries
      | some entries =>
        simp only [Option.some.injEq, exists_eq_left']
        by_cases hall : ∀ s ∈ entries, (contains (py "sender_claimed_keys") s).isSome
        · rw [claimingSessions_ok hall, only_ok]
          exact iff_of_true trivial hall
        · rw [claimingSessions_error hall, only_error]
          exact iff_of_false (by decide) hall

instance plain_exportedSession : Plain exportedSession := by
  unfold exportedSession
  infer_instance

theorem textItem_get {kvs : List (Str × Json)} {key : String} {s : Str}
    (h : dictGet? kvs (py key) = some (.str s)) : textItem (.obj kvs) key = .ok s := by
  unfold textItem Json.get?
  dsimp only
  rw [h]

theorem textItems_get {kvs : List (Str × Json)} {key : String} {xs : List Json}
    (h : dictGet? kvs (py key) = some (.arr xs)) (hxs : ∀ x ∈ xs, ∃ s, x = .str s) :
    ∃ chain : List Str, xs = chain.map .str ∧ textItems (.obj kvs) key = .ok chain := by
  unfold textItems Json.get?
  dsimp only
  rw [h]
  dsimp only
  clear h
  induction xs with
  | nil => exact ⟨[], rfl, rfl⟩
  | cons x xs ih =>
    obtain ⟨s, rfl⟩ := hxs x List.mem_cons_self
    obtain ⟨chain, rfl, hchain⟩ := ih fun y hy => hxs y (List.mem_cons_of_mem _ hy)
    refine ⟨s :: chain, rfl, ?_⟩
    rw [List.mapM_cons, ok_bind, hchain]
    rfl

/-- Every field of an accepted session can be read. -/
theorem exportedKey_isOk {v w : Json} (hv : v.Distinct) (h : exportedSession v = some w) :
    ∃ key, exportedKey v = .ok key := by
  obtain rfl := plain_exportedSession.eq hv h
  obtain ⟨kvs, rfl, hfield, -, hall⟩ := accepts_object (by simp) (by simp) (accepts_of_eq h)
  have hrequired := hall _ List.mem_cons_self
  obtain ⟨x, halgorithm⟩ := hrequired.required "algorithm" (by simp)
  obtain ⟨algorithm, rfl⟩ := (accepts_field hfield 0 rfl halgorithm).string
  obtain ⟨x, hsessionKey⟩ := hrequired.required "session_key" (by simp)
  obtain ⟨sessionKey, rfl⟩ := (accepts_field hfield 1 rfl hsessionKey).string
  obtain ⟨x, hsenderKey⟩ := hrequired.required "sender_key" (by simp)
  obtain ⟨senderKey, rfl⟩ := (accepts_field hfield 2 rfl hsenderKey).string
  obtain ⟨x, hroomId⟩ := hrequired.required "room_id" (by simp)
  obtain ⟨roomId, rfl⟩ := (accepts_field hfield 3 rfl hroomId).string
  obtain ⟨x, hclaimed⟩ := hrequired.required "sender_claimed_keys" (by simp)
  obtain ⟨ckvs, rfl, hcfield, -, hcall⟩ := accepts_object (by simp) (by simp)
    (accepts_field hfield 4 rfl hclaimed)
  obtain ⟨x, hed⟩ := (hcall _ List.mem_cons_self).required "ed25519" (by simp)
  obtain ⟨ed25519, rfl⟩ := (accepts_field hcfield 0 rfl hed).string
  obtain ⟨x, hchain⟩ := hrequired.required "forwarding_curve25519_key_chain" (by simp)
  obtain ⟨xs, rfl, hxs⟩ := (accepts_field hfield 5 rfl hchain).items
  obtain ⟨chain, -, hitems⟩ := textItems_get hchain fun x hx => (hxs x hx).string
  refine ⟨⟨algorithm, sessionKey, ed25519, senderKey, roomId, chain⟩, ?_⟩
  have hclaimedKeys : ((Json.obj kvs).get? (py "sender_claimed_keys")).getD .null = .obj ckvs := by
    exact congrArg (fun x => Option.getD x Json.null) hclaimed
  unfold exportedKey
  rw [textItem_get halgorithm, textItem_get hsessionKey, hclaimedKeys, textItem_get hed,
    textItem_get hsenderKey, textItem_get hroomId, hitems]
  rfl

theorem members_distinct {v : Json} (hv : v.Distinct) {entries : List Json}
    (h : members v = some entries) : ∀ x ∈ entries, x.Distinct := by
  intro x hx
  cases v with
  | arr xs =>
    obtain rfl := Option.some.inj h
    exact hv.item hx
  | obj kvs =>
    obtain rfl := Option.some.inj h
    obtain ⟨q, -, rfl⟩ := List.mem_map.mp hx
    rfl
  | str s =>
    obtain rfl := Option.some.inj h
    obtain ⟨c, -, rfl⟩ := List.mem_map.mp hx
    rfl
  | _ => cases h

theorem parsedSessions_distinct {data : Bytes} {sessions : List Json}
    (h : parsedSessions data = .ok sessions) : ∀ x ∈ sessions, x.Distinct := by
  obtain ⟨v, hv, hlist⟩ := bind_eq_ok.mp h
  have hdistinct : v.Distinct := by
    unfold loadsData at hv
    split at hv
    · cases hv
    · split at hv
      · next hloads =>
        cases hv
        exact (loads_wf hloads).distinct
      · cases hv
      · cases hv
  unfold sessionList at hlist
  split at hlist
  · cases hlist
  · next entries hmembers =>
    by_cases hall : ∀ s ∈ entries, (contains (py "sender_claimed_keys") s).isSome
    · rw [claimingSessions_ok hall] at hlist
      cases hlist
      exact fun x hx => members_distinct hdistinct hmembers x (List.mem_filter.mp hx).1
    · rw [claimingSessions_error hall] at hlist
      cases hlist

/-- Once the list is there, only the schema refuses. -/
theorem exportedKeys_isOk {sessions : List Json} (hdistinct : ∀ x ∈ sessions, x.Distinct)
    {w : Json} (h : megolmKeyImport (.arr sessions) = some w) :
    ∃ keys, sessions.mapM exportedKey = .ok keys := by
  have hitems : (exportedSession.items (.arr sessions)).bind (Schema.all []) = some w := h
  obtain ⟨v, hv, -⟩ := Option.bind_eq_some_iff.mp hitems
  obtain ⟨ws, hws, -⟩ := Option.map_eq_some_iff.mp hv
  refine mapM_isOk.mpr fun x hx => ?_
  obtain ⟨y, hy⟩ := Schema.mapItems_isSome hws x hx
  exact exportedKey_isOk (hdistinct x hx) hy

/-- The errors of an import -/
theorem only_importKeysStatic (lib : Vodozemac ρ) (files : KeyFileLibrary)
    (infile : Option Bytes) (passphrase : Str) :
    Only KeyFileError.Documented (importKeysStatic lib files infile passphrase) ↔
      Only KeyFileError.Documented (decryptedData files infile passphrase) ∧
        ∀ data, decryptedData files infile passphrase = .ok data → Readable data := by
  unfold importKeysStatic
  cases decryptedData files infile passphrase with
  | error e => simp only [error_bind, only_error, reduceCtorEq, false_implies, implies_true, and_true]
  | ok data =>
    simp only [ok_bind, only_ok, true_and, Except.ok.injEq, forall_eq', ← only_parsedSessions]
    cases hsessions : parsedSessions data with
    | error e => rw [error_bind, only_error, only_error]
    | ok sessions =>
      rw [ok_bind, only_ok, iff_true]
      split
      · exact (only_error _).mpr (Or.inl rfl)
      · next w hw =>
        obtain ⟨keys, hkeys⟩ := exportedKeys_isOk (parsedSessions_distinct hsessions) hw
        rw [hkeys]
        exact (only_ok _).mpr trivial

/-! ### Saving -/

/-- The next object is a new one. -/
def GroupSessions.Numbered (o : GroupSessions ρ) : Prop :=
  ∀ x ∈ o.inboundGroupStore, x.object < o.objects

section Saving

variable {lib : Vodozemac ρ} {files : KeyFileLibrary} {o : GroupSessions ρ}
  {sessions : List (InboundGroupSession ρ)} {infile : Option Bytes} {passphrase : Str}

/-- Sessions that can be written are added and saved. -/
theorem addSessions_stored (h : ∀ s ∈ sessions, s.Stored lib) :
    addSessions lib o sessions = (sessions.foldl (GroupSessions.keep lib false) o, none) := by
  induction sessions generalizing o with
  | nil => rfl
  | cons s rest ih =>
    obtain ⟨hs, hrest⟩ := List.forall_mem_cons.mp h
    have hkeep : addSessions lib o (s :: rest) = addSessions lib (o.keep lib false s) rest := by
      rw [addSessions]
      unfold GroupSessions.keep
      dsimp only
      rw [Bool.false_or]
      generalize o.inboundGroupStore.add lib ⟨o.objects, s⟩ = result
      obtain ⟨store, added⟩ := result
      cases added with
      | false => rfl
      | true => exact if_pos hs
    rw [hkeep, List.foldl_cons]
    exact ih hrest

/-- The first session that cannot be written raises, and it is in memory then. -/
theorem addSessions_unsavable (ho : o.Numbered) (h : ¬ ∀ s ∈ sessions, s.Stored lib) :
    (addSessions lib o sessions).2 = some .value ∧
      ∃ x ∈ (addSessions lib o sessions).1.inboundGroupStore, o.objects ≤ x.object := by
  induction sessions generalizing o with
  | nil => exact absurd (List.forall_mem_nil _) h
  | cons s rest ih =>
    have hnew := @GroupSessions.add_new _ lib o.inboundGroupStore ⟨o.objects, s⟩ ho
    rw [addSessions, hnew]
    dsimp only
    rw [if_neg (by decide)]
    by_cases hs : s.Stored lib
    · rw [if_pos hs]
      generalize hnext : GroupSessions.mk o.userId o.curve25519 o.ed25519 _ o.outgoingKeyRequests _
        (o.objects + 1) = next
      have hnumbered : next.Numbered := by
        subst hnext
        intro x hx
        rcases mem_upsert hx with rfl | hx
        · exact Nat.lt_succ_self _
        · exact Nat.lt_succ_of_lt (ho x hx)
      obtain ⟨hraised, x, hx, hle⟩ := ih hnumbered fun hrest =>
        h (List.forall_mem_cons.mpr ⟨hs, hrest⟩)
      subst hnext
      exact ⟨hraised, x, hx, Nat.le_of_succ_le hle⟩
    · rw [if_neg hs]
      have hself := (@lookup_upsert _ _ _ (Ref.key lib) (s.key lib) ⟨o.objects, s⟩
        o.inboundGroupStore).trans (if_pos rfl)
      exact ⟨rfl, _, mem_of_lookup hself, le_rfl⟩

theorem decryptedData_eq_ok {data : Bytes} :
    decryptedData files infile passphrase = .ok data ↔
      files.decryptAndRead infile passphrase = .ok data := by
  unfold decryptedData
  cases files.decryptAndRead infile passphrase with
  | ok d => exact Iff.rfl
  | error e => cases e <;> simp

/-- The sessions of a file whose list the schema accepts -/
theorem importKeysStatic_eq_ok :
    importKeysStatic lib files infile passphrase = .ok sessions ↔
      ∃ data entries keys, files.decryptAndRead infile passphrase = .ok data ∧
        parsedSessions data = .ok entries ∧ (megolmKeyImport (.arr entries)).isSome ∧
        entries.mapM exportedKey = .ok keys ∧
        sessions = GroupSessions.importKeysStatic lib keys := by
  unfold importKeysStatic
  simp only [← decryptedData_eq_ok]
  constructor
  · intro h
    obtain ⟨data, hdata, h⟩ := bind_eq_ok.mp h
    obtain ⟨entries, hentries, h⟩ := bind_eq_ok.mp h
    split at h
    · cases h
    · next w hw =>
      obtain ⟨keys, hkeys, h⟩ := bind_eq_ok.mp h
      cases h
      exact ⟨data, entries, keys, hdata, hentries, by rw [hw]; rfl, hkeys, rfl⟩
  · rintro ⟨data, entries, keys, hdata, hentries, hschema, hkeys, rfl⟩
    obtain ⟨w, hw⟩ := Option.isSome_iff_exists.mp hschema
    rw [hdata, ok_bind, hentries, ok_bind, hw, hkeys]
    rfl

/-- The list that is searched for a key is made of the members that claim one. -/
theorem parsedSessions_eq_ok {data : Bytes} {claiming : List Json} :
    parsedSessions data = .ok claiming ↔
      ∃ text v entries, jsonText data = some text ∧ loads text = .ok v ∧ members v = some entries ∧
        (∀ entry ∈ entries, (contains (py "sender_claimed_keys") entry).isSome) ∧
        claiming = entries.filter Claims := by
  unfold parsedSessions loadsData sessionList
  cases jsonText data with
  | none => simp [error_bind]
  | some text =>
    cases hloads : loads text with
    | error e => cases e <;> simp [error_bind, hloads]
    | ok v =>
      simp only [ok_bind, Option.some.injEq, exists_and_left, exists_eq_left', hloads, Except.ok.injEq]
      cases members v with
      | none => simp
      | some entries =>
        simp only [Option.some.injEq, exists_eq_left']
        by_cases hall : ∀ s ∈ entries, (contains (py "sender_claimed_keys") s).isSome
        · rw [claimingSessions_ok hall, Except.ok.injEq, and_iff_right hall, eq_comm]
          rfl
        · rw [claimingSessions_error hall]
          exact iff_of_false (fun h => nomatch h) fun h => hall h.1

/-- A file is savable when the sessions that it brings are. -/
theorem savable_iff :
    Savable lib files infile passphrase ↔
      ∀ sessions, importKeysStatic lib files infile passphrase = .ok sessions →
        ∀ s ∈ sessions, s.Stored lib := by
  constructor
  · intro h sessions hsessions s hs
    obtain ⟨data, claiming, keys, hdata, hparsed, hschema, hkeys, rfl⟩ :=
      importKeysStatic_eq_ok.mp hsessions
    obtain ⟨text, v, entries, htext, hloads, hmembers, hall, rfl⟩ := parsedSessions_eq_ok.mp hparsed
    obtain ⟨key, hkey, hs⟩ := List.mem_filterMap.mp hs
    obtain ⟨r, hr, rfl⟩ := Option.map_eq_some_iff.mp hs
    obtain ⟨hkey, halgorithm⟩ := List.mem_filter.mp hkey
    obtain ⟨entry, hentry, hread⟩ := mem_of_mapM hkeys hkey
    obtain ⟨hentry, hclaims⟩ := List.mem_filter.mp hentry
    exact h data text v entries hdata htext hloads hmembers hall hschema entry hentry
      (of_decide_eq_true hclaims) key hread (of_decide_eq_true halgorithm) r hr
  · intro h data text v entries hdata htext hloads hmembers hall hschema entry hentry hclaims key
      hread halgorithm r hr
    have hparsed : parsedSessions data = .ok (entries.filter Claims) :=
      parsedSessions_eq_ok.mpr ⟨text, v, entries, htext, hloads, hmembers, hall, rfl⟩
    obtain ⟨w, hw⟩ := Option.isSome_iff_exists.mp hschema
    obtain ⟨keys, hkeys⟩ := exportedKeys_isOk (parsedSessions_distinct hparsed) hw
    refine h _ (importKeysStatic_eq_ok.mpr ⟨data, _, keys, hdata, hparsed, hschema, hkeys, rfl⟩) _ ?_
    obtain ⟨key', hkey', hread'⟩ := exists_of_mapM hkeys
      (List.mem_filter.mpr ⟨hentry, decide_eq_true hclaims⟩)
    obtain rfl := Except.ok.inj (hread.symm.trans hread')
    exact List.mem_filterMap.mpr ⟨key, List.mem_filter.mpr ⟨hkey', decide_eq_true halgorithm⟩,
      Option.map_eq_some_iff.mpr ⟨r, hr, rfl⟩⟩

/-- An import raises what reading the file raises, or it cannot save a session. -/
theorem importKeys_cases (ho : o.Numbered) :
    (∃ e, importKeysStatic lib files infile passphrase = .error e ∧
      Savable lib files infile passphrase ∧ importKeys lib files o infile passphrase = (o, some e)) ∨
    ∃ sessions, importKeysStatic lib files infile passphrase = .ok sessions ∧
      ((Savable lib files infile passphrase ∧ importKeys lib files o infile passphrase =
          (sessions.foldl (GroupSessions.keep lib false) o, none)) ∨
        ¬ Savable lib files infile passphrase ∧
          (importKeys lib files o infile passphrase).2 = some .value ∧
          (importKeys lib files o infile passphrase).1.inboundGroupStore ≠ o.inboundGroupStore) := by
  unfold importKeys
  cases hread : importKeysStatic lib files infile passphrase with
  | error e =>
    refine Or.inl ⟨e, rfl, savable_iff.mpr fun sessions hsessions => ?_, rfl⟩
    cases hread.symm.trans hsessions
  | ok sessions =>
    refine Or.inr ⟨sessions, rfl, ?_⟩
    have hsavable : Savable lib files infile passphrase ↔ ∀ s ∈ sessions, s.Stored lib := by
      rw [savable_iff, hread]
      exact ⟨fun h => h sessions rfl, fun h _ heq => Except.ok.inj heq ▸ h⟩
    by_cases hall : ∀ s ∈ sessions, s.Stored lib
    · exact Or.inl ⟨hsavable.mpr hall, addSessions_stored hall⟩
    · obtain ⟨hraised, x, hx, hle⟩ := addSessions_unsavable ho hall
      refine Or.inr ⟨fun h => hall (hsavable.mp h), hraised, fun heq => ?_⟩
      have hlt := ho x (heq ▸ hx)
      omega

end Saving

/-! ## A store, exported and imported -/

/-- `load_inbound_group_sessions`: one session for each room, sender key and id -/
structure LoadedSessions (lib : Vodozemac ρ) where
  sessions : List (InboundGroupSession ρ)
  keys : (sessions.map (InboundGroupSession.key lib)).Nodup
  stored : ∀ s ∈ sessions, s.Stored lib

theorem nodup_add {lib : Vodozemac ρ} {store : GroupSessionStore ρ} (x : Ref ρ)
    (h : (store.map (Ref.key lib)).Nodup) : ((store.add lib x).1.map (Ref.key lib)).Nodup := by
  unfold GroupSessionStore.add
  split
  · exact h
  · exact nodup_upsert h

theorem nodup_loadInboundGroupSessions (lib : Vodozemac ρ) (m : MatrixStore) :
    ((m.loadInboundGroupSessions lib).map (Ref.key lib)).Nodup := by
  unfold MatrixStore.loadInboundGroupSessions
  have hall : ∀ (rows : List MegolmInboundSessions) (p : GroupSessionStore ρ × Nat),
      (p.1.map (Ref.key lib)).Nodup → ((rows.foldl (fun p row =>
        ((p.1.add lib ⟨p.2, m.fromRow lib row⟩).1, p.2 + 1)) p).1.map (Ref.key lib)).Nodup := by
    intro rows
    induction rows with
    | nil => exact fun _ h => h
    | cons row rows ih => exact fun p h => ih _ (nodup_add _ h)
  exact hall _ ([], 0) List.nodup_nil

/-- The sessions of a database, whose columns hold text that can be encoded -/
def LoadedSessions.load (lib : Vodozemac ρ) (m : MatrixStore)
    (h : ∀ x ∈ m.loadInboundGroupSessions lib, x.session.Stored lib) : LoadedSessions lib where
  sessions := (m.loadInboundGroupSessions lib).map Ref.session
  keys := by
    rw [List.map_map]
    exact nodup_loadInboundGroupSessions lib m
  stored := List.forall_mem_map.mpr h

section RoundTrip

variable {lib : Vodozemac ρ} {export' : GroupSessionExport lib} {files : KeyFileLibrary}

/-- What an export has to keep of a session -/
def GroupSessionExport.facts (export' : GroupSessionExport lib) (s : InboundGroupSession ρ) :
    Str × Str × Str × Str × List Str × Nat :=
  (s.roomId, s.senderKey, s.id lib, s.ed25519, s.forwardingChain,
    export'.firstKnownIndex s.session)

/-- What is kept of a session decides whether it can be written. -/
theorem stored_of_facts {s t : InboundGroupSession ρ} (h : export'.facts s = export'.facts t)
    (hs : s.Stored lib) : t.Stored lib := by
  simp only [GroupSessionExport.facts, Prod.mk.injEq] at h
  obtain ⟨hroom, hsender, hid, hed, hchain, -⟩ := h
  exact ⟨hroom ▸ hs.roomId, hsender ▸ hs.senderKey, hid ▸ hs.id, hed ▸ hs.ed25519,
    hchain ▸ hs.forwardingChain⟩

/-- The keys of an entry -/
def entryKeys : List Str :=
  [py "algorithm", py "sender_key", py "sender_claimed_keys", py "forwarding_curve25519_key_chain",
    py "room_id", py "session_id", py "session_key"]

theorem nodup_entryKeys : entryKeys.Nodup := by decide +kernel

theorem exportEntry_wf (s : InboundGroupSession ρ) (key : Str) : (exportEntry lib s key).WF := by
  have hchain : Json.allItems Json.nodeWF (s.forwardingChain.map .str) = true := by
    refine Json.allItems_iff.mpr fun x hx => ?_
    obtain ⟨c, -, rfl⟩ := List.mem_map.mp hx
    rfl
  have hkeys : Json.nodeWF (exportEntry lib s key) = true := decide_eq_true nodup_entryKeys
  unfold exportEntry at hkeys ⊢
  unfold Json.WF Json.all
  rw [hkeys]
  simp only [Json.all, Json.allPairs, hchain, Json.nodeWF, Bool.and_true, List.map_cons,
    List.map_nil, List.nodup_cons, List.not_mem_nil, not_false_eq_true, List.nodup_nil, and_self,
    decide_true]

theorem exportEntry_clean {s : InboundGroupSession ρ} (hs : s.Stored lib) {key : Str}
    (hkey : key.Encodable) : (exportEntry lib s key).Clean := by
  have hchain : Json.allItems Json.nodeClean (s.forwardingChain.map .str) = true := by
    refine Json.allItems_iff.mpr fun x hx => ?_
    obtain ⟨c, hc, rfl⟩ := List.mem_map.mp hx
    exact Json.clean_str.mpr (hs.forwardingChain c hc)
  have halgorithm : GroupSessions.megolmAlgorithm.Encodable := encodable_py _
  unfold exportEntry Json.Clean
  simp only [Json.all, Json.allPairs, hchain, Json.nodeClean, Bool.and_true, Bool.and_eq_true,
    decide_eq_true_eq, List.all_cons, List.all_nil, encodable_py, hs.roomId, hs.senderKey, hs.id,
    hs.ed25519, hkey, halgorithm, and_self]

/-- The value of a key in an entry -/
theorem dictGet?_exportEntry (s : InboundGroupSession ρ) (key : Str) :
    ∃ kvs, exportEntry lib s key = .obj kvs ∧ kvs.map (·.1) = entryKeys ∧
      dictGet? kvs (py "algorithm") = some (.str GroupSessions.megolmAlgorithm) ∧
      dictGet? kvs (py "session_key") = some (.str key) ∧
      dictGet? kvs (py "sender_key") = some (.str s.senderKey) ∧
      dictGet? kvs (py "room_id") = some (.str s.roomId) ∧
      dictGet? kvs (py "sender_claimed_keys") = some (.obj [(py "ed25519", .str s.ed25519)]) ∧
      dictGet? kvs (py "forwarding_curve25519_key_chain") =
        some (.arr (s.forwardingChain.map .str)) := by
  refine ⟨_, rfl, rfl, ?_, ?_, ?_, ?_, ?_, ?_⟩
  all_goals rfl

theorem exportEntry_accepted (s : InboundGroupSession ρ) (key : Str) :
    exportedSession (exportEntry lib s key) = some (exportEntry lib s key) := by
  obtain ⟨kvs, heq, hkeys, halgorithm, hsessionKey, hsenderKey, hroomId, hclaimed, hchain⟩ :=
    @dictGet?_exportEntry _ lib s key
  have hstrings : Schema.mapItems (.type .string) (s.forwardingChain.map .str) =
      some (s.forwardingChain.map .str) := by
    refine Schema.mapItems_self fun v hv => ?_
    obtain ⟨c, -, rfl⟩ := List.mem_map.mp hv
    rfl
  rw [heq]
  refine Schema.all_self (List.forall_mem_cons.mpr ⟨rfl, List.forall_mem_cons.mpr ⟨?_,
    List.forall_mem_singleton.mpr (Schema.required_self ?_)⟩⟩)
  · refine Schema.properties_self (by simp) (hkeys ▸ nodup_entryKeys) ?_
    simp only [List.forall_mem_cons, Schema.prop_name, Schema.prop_schema, halgorithm, hsessionKey,
      hsenderKey, hroomId, hclaimed, hchain, Option.some.injEq, forall_eq']
    refine ⟨rfl, rfl, rfl, rfl, rfl, ?_, List.forall_mem_nil _⟩
    refine Schema.all_self (List.forall_mem_cons.mpr ⟨rfl, List.forall_mem_singleton.mpr ?_⟩)
    rw [Schema.items, hstrings]
    rfl
  · simp only [List.forall_mem_cons, halgorithm, hsessionKey, hsenderKey, hroomId, hclaimed, hchain,
      Option.isSome_some, true_and]
    exact List.forall_mem_nil _

theorem exportedKey_exportEntry (s : InboundGroupSession ρ) (key : Str) :
    exportedKey (exportEntry lib s key) =
      .ok ⟨GroupSessions.megolmAlgorithm, key, s.ed25519, s.senderKey, s.roomId,
        s.forwardingChain⟩ := by
  obtain ⟨kvs, heq, -, halgorithm, hsessionKey, hsenderKey, hroomId, hclaimed, hchain⟩ :=
    @dictGet?_exportEntry _ lib s key
  have hed : dictGet? [(py "ed25519", Json.str s.ed25519)] (py "ed25519") =
      some (.str s.ed25519) := rfl
  have hclaimedKeys : ((Json.obj kvs).get? (py "sender_claimed_keys")).getD .null =
      .obj [(py "ed25519", .str s.ed25519)] := congrArg (fun x => Option.getD x Json.null) hclaimed
  obtain ⟨chain, hmap, hitems⟩ := textItems_get hchain fun x hx => by
    obtain ⟨c, -, rfl⟩ := List.mem_map.mp hx
    exact ⟨c, rfl⟩
  have hinj : Function.Injective Json.str := fun a b h => Json.str.inj h
  rw [heq, exportedKey, textItem_get halgorithm, textItem_get hsessionKey, hclaimedKeys,
    textItem_get hed, textItem_get hsenderKey, textItem_get hroomId, hitems,
    List.map_injective_iff.mpr hinj hmap]
  rfl

theorem contains_exportEntry (s : InboundGroupSession ρ) (key : Str) :
    contains (py "sender_claimed_keys") (exportEntry lib s key) = some true := by
  obtain ⟨kvs, heq, -, -, -, -, -, hclaimed, -⟩ := @dictGet?_exportEntry _ lib s key
  rw [heq, contains, hclaimed]
  rfl

/-- The entries of a list of sessions, and what an import reads of them -/
theorem exportSessions {sessions : List (InboundGroupSession ρ)}
    (h : ∀ s ∈ sessions, s.Stored lib) :
    ∃ entries keys, sessions.mapM (exportSession export') = .ok entries ∧
      (∀ e ∈ entries, e.WF ∧ e.Clean ∧ exportedSession e = some e ∧
        contains (py "sender_claimed_keys") e = some true) ∧
      entries.mapM exportedKey = .ok keys ∧
      (GroupSessions.importKeysStatic lib keys).map export'.facts =
        sessions.map export'.facts := by
  induction sessions with
  | nil => exact ⟨[], [], rfl, List.forall_mem_nil _, rfl, rfl⟩
  | cons s sessions ih =>
    obtain ⟨entries, keys, hentries, hgood, hkeys, hfacts⟩ :=
      ih fun x hx => h x (List.mem_cons_of_mem _ hx)
    obtain ⟨key, r, hexport, hkey, himport, hid, hindex⟩ := export'.import_exportAt s.session
    refine ⟨exportEntry lib s key :: entries,
      ⟨GroupSessions.megolmAlgorithm, key, s.ed25519, s.senderKey, s.roomId,
        s.forwardingChain⟩ :: keys, ?_, ?_, ?_, ?_⟩
    · rw [List.mapM_cons, exportSession, hexport]
      dsimp only
      rw [ok_bind, hentries]
      rfl
    · exact List.forall_mem_cons.mpr ⟨⟨exportEntry_wf s key,
        exportEntry_clean (h s List.mem_cons_self) hkey, exportEntry_accepted s key,
        contains_exportEntry s key⟩, hgood⟩
    · rw [List.mapM_cons, exportedKey_exportEntry, ok_bind, hkeys]
      rfl
    · unfold GroupSessions.importKeysStatic at hfacts ⊢
      rw [List.filter_cons_of_pos (by simp), List.filterMap_cons, himport]
      simp only [Option.map_some, List.map_cons, hfacts]
      refine congrArg₂ List.cons ?_ rfl
      unfold GroupSessionExport.facts InboundGroupSession.id
      dsimp only
      rw [hid, hindex]

/-- New sessions under new keys are appended. -/
theorem sessions_keep {o : GroupSessions ρ} (hobjects : ∀ x ∈ o.inboundGroupStore,
      x.object < o.objects) {xs : List (InboundGroupSession ρ)}
    (hkeys : (o.inboundGroupStore.map (Ref.key lib) ++
      xs.map (InboundGroupSession.key lib)).Nodup) :
    (xs.foldl (GroupSessions.keep lib false) o).inboundGroupStore.map Ref.session =
      o.inboundGroupStore.map Ref.session ++ xs := by
  induction xs generalizing o with
  | nil => rw [List.append_nil]; rfl
  | cons s xs ih =>
    have habsent : s.key lib ∉ o.inboundGroupStore.map (Ref.key lib) := fun hmem =>
      (List.nodup_append.mp hkeys).2.2 _ hmem _ List.mem_cons_self rfl
    have hupsert : upsert (Ref.key lib) ⟨o.objects, s⟩ o.inboundGroupStore =
        o.inboundGroupStore ++ [⟨o.objects, s⟩] := by
      have hnone : lookup (Ref.key lib) (Ref.key lib ⟨o.objects, s⟩) o.inboundGroupStore = none :=
        lookup_eq_none_of_notMem habsent
      unfold upsert
      rw [hnone]
      rfl
    have hstore : (o.keep lib false s).inboundGroupStore =
        o.inboundGroupStore ++ [⟨o.objects, s⟩] := by
      unfold GroupSessions.keep
      rw [GroupSessions.add_new o.inboundGroupStore hobjects, hupsert]
      rfl
    have hcount : (o.keep lib false s).objects = o.objects + 1 := by
      unfold GroupSessions.keep
      rw [GroupSessions.add_new o.inboundGroupStore hobjects]
      rfl
    rw [List.foldl_cons, ih, hstore, List.map_append, List.append_assoc]
    · rfl
    · intro x hx
      rw [hstore] at hx
      rw [hcount]
      rcases List.mem_append.mp hx with hx | hx
      · exact Nat.lt_succ_of_lt (hobjects x hx)
      · rw [List.mem_singleton.mp hx]
        exact Nat.lt_succ_self _
    · rw [hstore, List.map_append, List.append_assoc]
      exact hkeys

theorem encryptAndSave_isOk (data : Bytes) (passphrase : Str) (drawn : Drawn) :
    (∃ content, files.encryptAndSave data passphrase drawn = .ok content) ↔ Latin1 passphrase := by
  unfold KeyFileLibrary.encryptAndSave KeyFileLibrary.encrypt
  by_cases hlatin : Latin1 passphrase
  · obtain ⟨key, hkey⟩ := files.pbkdf2_latin1 passphrase drawn.salt drawn.count hlatin
      drawn.count_pos
    rw [hkey]
    exact iff_of_true ⟨_, rfl⟩ hlatin
  · rw [files.pbkdf2_other passphrase drawn.salt drawn.count hlatin]
    exact iff_of_false (fun h => nomatch h) hlatin

/-- The text of the entries is written and read back. -/
theorem exportKeysStatic_eq {sessions : List (InboundGroupSession ρ)}
    (h : ∀ s ∈ sessions, s.Stored lib) :
    ∃ data keys, (∀ passphrase drawn, exportKeysStatic export' files sessions passphrase drawn =
        files.encryptAndSave data passphrase drawn) ∧
      (∀ infile passphrase, files.decryptAndRead infile passphrase = .ok data →
        importKeysStatic lib files infile passphrase =
          .ok (GroupSessions.importKeysStatic lib keys)) ∧
      (GroupSessions.importKeysStatic lib keys).map export'.facts =
        sessions.map export'.facts := by
  obtain ⟨entries, keys, hentries, hgood, hkeys, hfacts⟩ :=
    @exportSessions ρ lib export' sessions h
  have hwf : (Json.arr entries).WF := by
    unfold Json.WF Json.all
    rw [Bool.and_eq_true, Json.allItems_iff]
    exact ⟨rfl, fun e he => (hgood e he).1⟩
  have hclean : (Json.arr entries).Clean := by
    unfold Json.Clean Json.all
    rw [Bool.and_eq_true, Json.allItems_iff]
    exact ⟨rfl, fun e he => (hgood e he).2.1⟩
  obtain ⟨text, htext⟩ := exists_dumps .default hwf hclean
  obtain ⟨hjson, hloads⟩ := loads_default hwf.distinct hclean htext
  have hclaims : ∀ e ∈ entries, contains (py "sender_claimed_keys") e = some true := fun e he =>
    (hgood e he).2.2.2
  have hparsed : parsedSessions (asciiBytes text) = .ok entries := by
    unfold parsedSessions loadsData
    rw [hjson]
    dsimp only
    rw [hloads, ok_bind]
    change claimingSessions entries = _
    rw [claimingSessions_ok fun e he => by rw [hclaims e he]; rfl,
      List.filter_eq_self.mpr fun e he => decide_eq_true (hclaims e he)]
  have hschema : megolmKeyImport (.arr entries) = some (.arr entries) := by
    refine Schema.all_self (List.forall_mem_cons.mpr ⟨rfl, List.forall_mem_singleton.mpr ?_⟩)
    rw [Schema.items, Schema.mapItems_self fun e he => (hgood e he).2.2.1]
    rfl
  refine ⟨asciiBytes text, keys, fun passphrase drawn => ?_, fun infile passphrase hread => ?_,
    hfacts⟩
  · unfold exportKeysStatic
    rw [hentries, ok_bind, htext]
  · unfold importKeysStatic decryptedData
    rw [hread, ok_bind, hparsed, ok_bind, hschema, hkeys]
    rfl

/-- A store that is exported and imported into an empty one comes back exactly when the passphrase
can be encoded as Latin-1. -/
theorem roundTrip_iff (store : LoadedSessions lib) (passphrase : Str) (drawn : Drawn)
    (userId curve25519 ed25519 : Str) (account : Nat) :
    (∃ content, exportKeysStatic export' files store.sessions passphrase drawn = .ok content ∧
      (importKeys lib files (.fresh userId curve25519 ed25519 account) (some content)
        passphrase).2 = none ∧
      (importKeys lib files (.fresh userId curve25519 ed25519 account) (some content)
        passphrase).1.inboundGroupStore.map (fun x => export'.facts x.session) =
          store.sessions.map export'.facts) ↔ Latin1 passphrase := by
  obtain ⟨data, keys, hexport, himport, hfacts⟩ :=
    @exportKeysStatic_eq ρ lib export' files store.sessions store.stored
  rw [← @encryptAndSave_isOk files data passphrase drawn, ← hexport]
  refine ⟨fun ⟨content, h, _⟩ => ⟨content, h⟩, fun ⟨content, h⟩ => ⟨content, h, ?_⟩⟩
  have hread := KeyFileLibrary.decryptAndRead_save ((hexport passphrase drawn).symm.trans h)
  have hsame : (GroupSessions.importKeysStatic lib keys).map (InboundGroupSession.key lib) =
      store.sessions.map (InboundGroupSession.key lib) := by
    have hkey : InboundGroupSession.key lib =
        (fun f : Str × Str × Str × Str × List Str × Nat => (f.1, f.2.1, f.2.2.1)) ∘
          export'.facts := rfl
    rw [hkey, ← List.map_map, hfacts, List.map_map]
  have hall : ∀ s ∈ GroupSessions.importKeysStatic lib keys, s.Stored lib := by
    intro s hs
    have hmem : export'.facts s ∈ store.sessions.map export'.facts := hfacts ▸ List.mem_map_of_mem hs
    obtain ⟨s', hs', heq⟩ := List.mem_map.mp hmem
    exact stored_of_facts heq (store.stored s' hs')
  unfold importKeys
  rw [himport (some content) passphrase hread]
  dsimp only
  rw [addSessions_stored hall]
  refine ⟨rfl, ?_⟩
  have hempty : (GroupSessions.fresh userId curve25519 ed25519 account :
      GroupSessions ρ).Numbered := by simp [GroupSessions.fresh, GroupSessions.Numbered]
  have hsessions := @sessions_keep ρ lib _ hempty (GroupSessions.importKeysStatic lib keys) (by
    rw [hsame]
    exact store.keys)
  have hmap := congrArg (List.map export'.facts) hsessions
  rw [List.map_map] at hmap
  exact hmap.trans hfacts

end RoundTrip

/-! ## Both directions -/

/-- What the file has to be like for an import to raise only what it documents -/
structure Importable (lib : Vodozemac ρ) (files : KeyFileLibrary) (infile : Option Bytes)
    (passphrase : Str) : Prop where
  opens : ∀ content text payload, infile = some content →
    KeyFileLibrary.unframe content = some text → files.decodeBase64 text = some payload →
      Opens files passphrase payload
  readable : ∀ data, files.decryptAndRead infile passphrase = .ok data → Readable data
  savable : Savable lib files infile passphrase

theorem only_importKeys (lib : Vodozemac ρ) (files : KeyFileLibrary) {o : GroupSessions ρ}
    (ho : o.Numbered) (infile : Option Bytes) (passphrase : Str) :
    (∀ e ∈ (importKeys lib files o infile passphrase).2, e.Documented) ↔
      Importable lib files infile passphrase := by
  have hstatic := only_importKeysStatic lib files infile passphrase
  rw [only_decryptedData] at hstatic
  simp only [decryptedData_eq_ok] at hstatic
  rcases @importKeys_cases _ lib files o infile passphrase ho with ⟨e, hread, hsavable, heq⟩ |
    ⟨sessions, hread, ⟨hsavable, heq⟩ | ⟨hsavable, hraised, -⟩⟩
  · rw [hread, only_error] at hstatic
    rw [heq]
    simp only [Option.mem_def, Option.some.injEq, forall_eq', hstatic]
    exact ⟨fun h => ⟨h.1, h.2, hsavable⟩, fun h => ⟨h.opens, h.readable⟩⟩
  · rw [hread, only_ok, true_iff] at hstatic
    rw [heq]
    exact iff_of_true (fun e he => nomatch he) ⟨hstatic.1, hstatic.2, hsavable⟩
  · rw [hraised]
    exact iff_of_false (by decide) fun h => hsavable h.savable

/-- What raised leaves everything as it was, unless a session could not be saved. -/
theorem unchanged_importKeys (lib : Vodozemac ρ) (files : KeyFileLibrary) {o : GroupSessions ρ}
    (ho : o.Numbered) (infile : Option Bytes) (passphrase : Str) :
    ((importKeys lib files o infile passphrase).2 ≠ none →
        (importKeys lib files o infile passphrase).1 = o) ↔
      Savable lib files infile passphrase := by
  rcases @importKeys_cases _ lib files o infile passphrase ho with ⟨e, hread, hsavable, heq⟩ |
    ⟨sessions, hread, ⟨hsavable, heq⟩ | ⟨hsavable, hraised, hchanged⟩⟩
  · rw [heq]
    exact iff_of_true (fun _ => rfl) hsavable
  · rw [heq]
    exact iff_of_true (fun h => absurd rfl h) hsavable
  · refine iff_of_false (fun h => hchanged ?_) hsavable
    rw [h (by rw [hraised]; exact Option.some_ne_none _)]

/-- A store survives export and import exactly when the passphrase is Latin-1. An import raises
only what it documents exactly when the file is importable, and what raised left everything as it
was exactly when the sessions of the file can be saved. -/
theorem exportImport_iff {lib : Vodozemac ρ} (export' : GroupSessionExport lib)
    (files : KeyFileLibrary) :
    (∀ (store : LoadedSessions lib) (passphrase : Str) (drawn : Drawn)
        (userId curve25519 ed25519 : Str) (account : Nat),
      let empty : GroupSessions ρ := .fresh userId curve25519 ed25519 account
      (∃ content, exportKeysStatic export' files store.sessions passphrase drawn = .ok content ∧
        (importKeys lib files empty (some content) passphrase).2 = none ∧
        (importKeys lib files empty (some content) passphrase).1.inboundGroupStore.map
          (fun x => export'.facts x.session) = store.sessions.map export'.facts) ↔
        Latin1 passphrase) ∧
    ∀ (o : GroupSessions ρ), o.Numbered → ∀ (infile : Option Bytes) (passphrase : Str),
      ((∀ e ∈ (importKeys lib files o infile passphrase).2, e.Documented) ↔
        Importable lib files infile passphrase) ∧
      (((importKeys lib files o infile passphrase).2 ≠ none →
        (importKeys lib files o infile passphrase).1 = o) ↔
        Savable lib files infile passphrase) :=
  ⟨fun store passphrase drawn userId curve25519 ed25519 account =>
      roundTrip_iff store passphrase drawn userId curve25519 ed25519 account,
    fun _ ho infile passphrase => ⟨only_importKeys lib files ho infile passphrase,
      unchanged_importKeys lib files ho infile passphrase⟩⟩

/-- A letter for half a byte -/
def nibbleLetter (n : Nat) : CodePoint := chr (Char.ofNat (97 + n % 16))

/-- Two letters for each byte -/
def letters (b : Bytes) : Str := b.flatMap fun x => [nibbleLetter (x.toNat / 16), nibbleLetter x.toNat]

def ofLetters : Str → Option Bytes
  | [] => some []
  | [_] => none
  | c :: d :: rest => do
    return UInt8.ofNat ((c.val - 97) * 16 + (d.val - 97)) :: (← ofLetters rest)

theorem nibbleLetter_val (n : Nat) : (nibbleLetter n).val = 97 + n % 16 := by
  have hall : ∀ k < 16, (chr (Char.ofNat (97 + k))).val = 97 + k := by decide +kernel
  exact hall (n % 16) (Nat.mod_lt n (by omega))

theorem ofLetters_letters (b : Bytes) : ofLetters (letters b) = some b := by
  induction b with
  | nil => rfl
  | cons x b ih =>
    have hx : UInt8.ofNat (((nibbleLetter (x.toNat / 16)).val - 97) * 16 +
        ((nibbleLetter x.toNat).val - 97)) = x := by
      refine UInt8.toNat_inj.mp ?_
      have hlt := x.toNat_lt
      rw [nibbleLetter_val, nibbleLetter_val, UInt8.toNat_ofNat']
      omega
    change (do return UInt8.ofNat _ :: (← ofLetters (letters b)) : Option Bytes) = _
    rw [ih, hx]
    rfl

/-- A library that hides nothing -/
def plainFiles : KeyFileLibrary where
  encodeBase64 := letters
  decodeBase64 := ofLetters
  decodeBase64_encode := ofLetters_letters
  encodeBase64_alphabet := by
    intro b c hc
    obtain ⟨x, -, hc⟩ := List.mem_flatMap.mp hc
    simp only [List.mem_cons, List.not_mem_nil, or_false] at hc
    rcases hc with rfl | rfl
    · rw [nibbleLetter_val]
      omega
    · rw [nibbleLetter_val]
      omega
  pbkdf2 := fun passphrase _ _ => if Latin1 passphrase then .ok [] else .error .value
  pbkdf2_latin1 := fun _ _ _ h _ => ⟨[], if_pos h⟩
  pbkdf2_other := fun _ _ _ h => if_neg h
  hmac := fun _ _ => List.replicate 32 0
  length_hmac := fun _ _ => List.length_replicate
  aesCtr := fun _ _ b => b
  aesCtr_aesCtr := fun _ _ _ => rfl

/-- The sessions of `unaryLibrary` have no index but the first. -/
def unaryExport : GroupSessionExport unaryLibrary where
  firstKnownIndex := fun _ => 0
  exportAt := fun n _ => some (List.replicate n (.ofChar 'x'))
  import_exportAt := by
    refine fun n => ⟨List.replicate n (.ofChar 'x'), n, rfl, fun c hc => ?_, ?_, rfl, rfl⟩
    · rw [List.eq_of_mem_replicate hc]
      decide
    · exact congrArg some List.length_replicate

/-- A machine that received a room key and one from a key file -/
def twoRoomKeys : GroupSessions Nat :=
  run (GroupSessions.step unaryLibrary) (.fresh (py "@me:x") (py "c") (py "e") 1)
    [.roomKey (py "curve") ⟨py "m.megolm.v1.aes-sha2", some (py "ed"), py "!a:x", py "Sxx", py "kk"⟩,
      .importKeys [⟨py "m.megolm.v1.aes-sha2", py "kkk", py "ed'", py "curve'", py "!b:x", [py "f"]⟩]]

theorem numbered_twoRoomKeys : twoRoomKeys.Numbered :=
  (GroupSessions.holds_run (GroupSessions.holds_fresh _ _ _ _) _).objects

/-- The sessions of its database -/
def twoRoomSessions : LoadedSessions unaryLibrary :=
  .load unaryLibrary twoRoomKeys.store (by decide +kernel)

def someDraws : Drawn where
  salt := List.replicate 16 7
  iv := 5
  count := 10000
  length_salt := List.length_replicate
  iv_lt := by decide
  count_pos := by decide
  count_lt := by decide

/-- Both sessions come back from a file, and a file that cannot be opened changes nothing. -/
theorem exportImport_iff_twoRooms :
    twoRoomSessions.sessions = [⟨2, py "ed", py "curve", py "!a:x", []⟩,
      ⟨3, py "ed'", py "curve'", py "!b:x", [py "f"]⟩] ∧
    (∃ content, exportKeysStatic unaryExport plainFiles twoRoomSessions.sessions (py "pass") someDraws =
        .ok content ∧
      (importKeys unaryLibrary plainFiles (.fresh (py "@me:x") (py "c") (py "e") 1) (some content)
        (py "pass")).2 = none ∧
      (importKeys unaryLibrary plainFiles (.fresh (py "@me:x") (py "c") (py "e") 1) (some content)
        (py "pass")).1.inboundGroupStore.map (fun x => unaryExport.facts x.session) =
          twoRoomSessions.sessions.map unaryExport.facts) ∧
    (importKeys unaryLibrary plainFiles twoRoomKeys none (py "pass")).2 = some .file ∧
    (importKeys unaryLibrary plainFiles twoRoomKeys none (py "pass")).1 = twoRoomKeys := by
  obtain ⟨hround, hfails⟩ := exportImport_iff unaryExport plainFiles
  have hsavable : Savable unaryLibrary plainFiles none (py "pass") :=
    fun _ _ _ _ hdata => nomatch hdata
  have hraised : (importKeys unaryLibrary plainFiles twoRoomKeys none (py "pass")).2 = some .file := rfl
  have hlatin : Latin1 (py "pass") := by decide +kernel
  refine ⟨by decide +kernel,
    (hround twoRoomSessions (py "pass") someDraws (py "@me:x") (py "c") (py "e") 1).mpr hlatin,
    hraised, ?_⟩
  exact (hfails twoRoomKeys numbered_twoRoomKeys none (py "pass")).2.mpr hsavable
    (by rw [hraised]; exact Option.some_ne_none _)

/-- Header and footer with nothing between them raise `IndexError`. -/
theorem empty_payload_escapes :
    (importKeys unaryLibrary plainFiles (.fresh (py "@me:x") (py "c") (py "e") 1)
      (some (asciiBytes (header ++ footer))) (py "passphrase")).2 = some .index ∧
      ¬ KeyFileError.Documented .index := by
  decide +kernel

end Nio.Crypto
