import Nio.Durable.Model
import Nio.Durable.Response

/-!
# Writing accepted input back

An accepted body is kept as bytes and interpreted later. Each of its events is then copied, encoded
in a batch, measured in UTF-8 and decoded again. The reader of the body takes more than the strict
writer of the batch.

* `writeBack_iff` — an event of an accepted body comes back exactly when it is clean
-/

namespace Nio.Durable

open Nio.Py
open Nio.Events

/-- `copy_json` -/
def copyJson (v : Json) : Except ValueError Json := do
  loads (← dumps .default v)

/-- The parsed source of an event is detached from the response. -/
def freezeSource (r : SyncRecord) : Except ValueError SyncRecord := do
  return { r with source := ← copyJson r.source }

/-- What becomes of a record on its way to the consumer: the records that it receives and the bytes
that they are counted with. -/
def writeBack (r : SyncRecord) : Except DecodeError (List SyncRecord × Nat) := do
  let record ← (freezeSource r).mapError .codec
  let text ← (encodeRecords [record]).mapError .codec
  let size ← text.encode.mapError .codec
  let records ← decodeRecords text
  return (records, size.length)

/-! ## Copies -/

/-- A clean value is its own copy. -/
theorem copyJson_clean {v : Json} (hwf : v.WF) (hc : v.Clean) : copyJson v = .ok v := by
  obtain ⟨t, ht⟩ := exists_dumps .default hwf hc
  rw [copyJson, ht, ok_bind, loads_dumps hwf.distinct hc ht]

/-- The record but for its event. -/
def SyncRecord.rest (r : SyncRecord) : SyncRecord := { r with source := .obj [] }

/-- A test that an empty object passes holds all over a record when it holds all over its event and
all over the rest. -/
theorem all_carrier {p : Json → Bool} (hp : p (.obj []) = true)
    (hkeys : ∀ kvs kvs' : List (Str × Json), kvs.map (·.1) = kvs'.map (·.1) →
      p (.obj kvs) = p (.obj kvs')) (r : SyncRecord) :
    r.carrier.all p = true ↔ r.source.all p = true ∧ r.rest.carrier.all p = true := by
  have hnode : p r.carrier = p r.rest.carrier := hkeys _ _ rfl
  simp only [SyncRecord.carrier, SyncRecord.rest] at hnode ⊢
  simp only [Json.all, Json.allPairs, Bool.and_eq_true, hnode, hp, true_and]
  tauto

theorem wf_carrier (r : SyncRecord) : r.carrier.WF ↔ r.source.WF ∧ r.rest.carrier.WF :=
  all_carrier rfl (fun kvs kvs' h => by simp only [Json.nodeWF, h]) r

theorem clean_carrier (r : SyncRecord) : r.carrier.Clean ↔ r.source.Clean ∧ r.rest.carrier.Clean := by
  refine all_carrier rfl (fun kvs kvs' h => ?_) r
  have hall : ∀ kvs : List (Str × Json), (kvs.all fun q => decide q.1.Encodable) =
      (kvs.map (·.1)).all fun k => decide k.Encodable := fun kvs => by
    rw [List.all_map]
    rfl
  simp only [Json.nodeClean, hall, h]

/-- The rest of a record is one that the session builds: its clear event is an object, and it can be
written. -/
structure SyncRecord.RestWritable (r : SyncRecord) : Prop where
  clear : ∀ e, r.clear = some e → e.isObj = true
  wf : r.rest.carrier.WF
  clean : r.rest.carrier.Clean

theorem all_arr_singleton {p : Json → Bool} {v : Json} (hp : p (.arr [v]) = true) :
    (Json.arr [v]).all p = v.all p := by
  simp only [Json.all, Json.allItems, hp, Bool.true_and, Bool.and_true]

theorem SyncRecord.RestWritable.wellTyped {r : SyncRecord} (h : r.RestWritable)
    (hobj : r.source.isObj = true) (hwf : r.source.WF) : r.WellTyped := by
  refine ⟨⟨hobj, hwf.distinct⟩, fun e he => ⟨h.clear e he, ?_⟩⟩
  have hrest := h.wf
  simp only [SyncRecord.carrier, SyncRecord.rest, Json.WF, Json.all, Json.allPairs, Bool.and_eq_true,
    he, optional, id] at hrest
  exact Json.WF.distinct hrest.2.2.2.2.1

/-! ## The exact condition -/

/-- A clean event passes every step and comes back. -/
theorem writeBack_clean {r : SyncRecord} (hobj : r.source.isObj = true) (hwf : r.source.WF)
    (hrest : r.RestWritable) (hc : r.source.Clean) : ∃ size, writeBack r = .ok ([r], size) := by
  have hcopy : freezeSource r = .ok r := by
    rw [freezeSource, copyJson_clean hwf hc, ok_bind]
    rfl
  have hclean : (Json.arr [r.carrier]).Clean := by
    rw [Json.Clean, all_arr_singleton rfl]
    exact (clean_carrier r).mpr ⟨hc, hrest.clean⟩
  have hwf' : (Json.arr [r.carrier]).WF := by
    rw [Json.WF, all_arr_singleton rfl]
    exact (wf_carrier r).mpr ⟨hwf, hrest.wf⟩
  obtain ⟨text, htext⟩ := exists_dumps strict hwf' hclean
  have henc := (encodable_iff_clean ⟨rfl, rfl⟩ htext).mpr hclean
  obtain ⟨bytes, hbytes⟩ := (Str.encode_isOk_iff text).mpr henc
  have hrecords : encodeRecords [r] = .ok text := htext
  have hdecode : decodeRecords text = .ok [r] := by
    refine decodeRecords_encodeRecords (fun r' hr' => ?_) hrecords henc
    rw [List.mem_singleton.mp hr']
    exact hrest.wellTyped hobj hwf
  refine ⟨bytes.length, ?_⟩
  simp only [writeBack, hcopy, hrecords, hbytes, hdecode, Except.mapError, ok_bind]
  rfl

theorem mapError_eq_ok {ε ε' α : Type} {f : ε → ε'} {x : Except ε α} {a : α}
    (h : x.mapError f = .ok a) : x = .ok a := by
  cases x with
  | error e => cases h
  | ok b => exact congrArg Except.ok (Except.ok.inj h)

/-- Only an object is read back as the event of a record. -/
theorem source_of_decodeRecord {r r' : SyncRecord} (h : decodeRecord r.carrier = .ok r') :
    r.source.isObj = true := by
  simp only [SyncRecord.carrier, decodeRecord] at h
  obtain ⟨source, hsource, -⟩ := bind_eq_ok.mp h
  have hget : ∀ rest, dictGet? ((py "kind", Json.str r.kind.value) ::
      (py "room_id", optional Json.str r.roomId) :: (py "source", r.source) :: rest)
      (py "source") = some r.source := fun rest => rfl
  simp only [required, hget, Option.getD_some] at hsource
  cases hs : r.source with
  | obj kvs => rfl
  | _ => rw [hs] at hsource; cases hsource

/-- What comes back unchanged is clean: the text of its copy could be encoded, and what is read from
that text is the copy. -/
theorem clean_of_writeBack {r : SyncRecord} {size : Nat} (hrest : r.RestWritable)
    (h : writeBack r = .ok ([r], size)) : r.source.Clean := by
  obtain ⟨record, hfreeze, h⟩ := bind_eq_ok.mp h
  obtain ⟨text, htext, h⟩ := bind_eq_ok.mp h
  obtain ⟨bytes, hbytes, h⟩ := bind_eq_ok.mp h
  obtain ⟨records, hdecode, h⟩ := bind_eq_ok.mp h
  obtain rfl : records = [r] := congrArg Prod.fst (Except.ok.inj h)
  obtain ⟨v, hcopy, hrecord⟩ := bind_eq_ok.mp (mapError_eq_ok hfreeze)
  obtain rfl : { r with source := v } = record := Except.ok.inj hrecord
  have hvwf : v.WF := by
    obtain ⟨t, -, hloads⟩ := bind_eq_ok.mp hcopy
    exact loads_wf hloads
  -- the copy differs from the event at most in its source
  have hvrest : SyncRecord.RestWritable { r with source := v } := ⟨hrest.clear, hrest.wf, hrest.clean⟩
  have htext := mapError_eq_ok htext
  have henc : text.Encodable := (Str.encode_isOk_iff text).mp ⟨bytes, mapError_eq_ok hbytes⟩
  have hclean := (encodable_iff_clean ⟨rfl, rfl⟩ htext).mp henc
  have hdistinct : (Json.arr [SyncRecord.carrier { r with source := v }]).Distinct := by
    rw [Json.Distinct, all_arr_singleton rfl]
    exact ((wf_carrier { r with source := v }).mpr ⟨hvwf, hrest.wf⟩).distinct
  simp only [decodeRecords, loads_dumps hdistinct hclean htext, decodeEach] at hdecode
  obtain ⟨r', hr', hdecode⟩ := bind_eq_ok.mp hdecode
  have hobj := source_of_decodeRecord hr'
  rw [decodeRecord_carrier (hvrest.wellTyped hobj hvwf)] at hr'
  obtain rfl := Except.ok.inj hr'
  have hsame : ({ r with source := v } : SyncRecord) = r := (List.cons.inj (Except.ok.inj hdecode)).1
  rw [List.map_cons, List.map_nil, Json.Clean, all_arr_singleton rfl] at hclean
  rw [← hsame]
  exact ((clean_carrier _).mp hclean).1

/-- An event of a body that the session accepts is written back, measured and read again without a
difference exactly when each of its numbers is finite and none of its strings and keys holds an
unpaired surrogate. -/
theorem writeBack_iff {E : EventTypes} {S : Type} {config : DurableSyncConfig}
    {parsers : ResponseParsers E S} {body : List Nat} {accepted : Response E S × TransientSections}
    (hdecode : decodeResponse config parsers body = .ok accepted) {r : SyncRecord}
    (hin : ∀ root, loadsBody parsers body = .ok root → Inside r.source root)
    (hobj : r.source.isObj = true) (hrest : r.RestWritable) :
    (∃ size, writeBack r = .ok ([r], size)) ↔ r.source.Clean := by
  obtain ⟨kvs, hroot⟩ := decodeResponse_root hdecode
  have hwf := (hin _ hroot).wf hroot
  exact ⟨fun ⟨_, h⟩ => clean_of_writeBack hrest h, writeBack_clean hobj hwf hrest⟩

/-- Parsers for bodies without room events whose bytes are ASCII. -/
def asciiParsers : ResponseParsers ⟨Unit, Unit, Unit, Unit, Unit⟩ Unit where
  room _ := .ok none
  invite _ := .ok none
  ephemeral _ := .ok none
  accountData _ := .ok ()
  presence _ := .ok ()
  text body := body.mapM fun b =>
    if b < 128 then .ok (Fin.ofNat 0x110000 b) else .error .unicodeEncode
  sliding _ := .ok none
  pos _ := .null

/-- A response with one to-device event whose content holds the number. -/
def numberBody (number : String) : List Nat :=
  (py ("\x7b\"next_batch\":\"s1\",\"to_device\":\x7b\"events\":[\x7b\"type\":\"x.y\"," ++
    "\"sender\":\"@a:b\",\"content\":\x7b\"n\":" ++ number ++ "\x7d\x7d]\x7d\x7d")).map (·.val)

def numberEvent (n : Json) : Json :=
  .obj [(py "type", .str (py "x.y")), (py "sender", .str (py "@a:b")),
    (py "content", .obj [(py "n", n)])]

def numberRoot (n : Json) : Json :=
  .obj [(py "next_batch", .str (py "s1")),
    (py "to_device", .obj [(py "events", .arr [numberEvent n])])]

theorem inside_numberRoot (n : Json) : Inside (numberEvent n) (numberRoot n) :=
  .pair (List.mem_cons_of_mem _ List.mem_cons_self)
    (.pair List.mem_cons_self (.item List.mem_cons_self .root))

theorem restWritable_of (kind : RecordKind) (event : Json) :
    (SyncRecord.of kind none event).RestWritable where
  clear _ h := nomatch h
  wf := by
    show (SyncRecord.of kind none (.obj [])).carrier.WF
    cases kind <;> decide
  clean := by
    show (SyncRecord.of kind none (.obj [])).carrier.Clean
    cases kind <;> decide

theorem exists_ok_of_toBool {ε α : Type} {x : Except ε α} (h : x.toBool = true) :
    ∃ a, x = .ok a := by
  cases x with
  | error e => cases h
  | ok a => exact ⟨a, rfl⟩

/-- The number `1e999` overflows to infinity. The body that holds it is accepted, and the event
cannot be encoded. -/
theorem overflow_not_written_back :
    (∃ accepted, decodeResponse (.default .toDevice) asciiParsers (numberBody "1e999") = .ok accepted) ∧
    loadsBody asciiParsers (numberBody "1e999") = .ok (numberRoot (.float (.inf .positive))) ∧
    Inside (numberEvent (.float (.inf .positive))) (numberRoot (.float (.inf .positive))) ∧
    writeBack (.of .toDevice none (numberEvent (.float (.inf .positive)))) =
      .error (.codec .outOfRange) :=
  ⟨exists_ok_of_toBool (by decide +kernel), by decide +kernel, inside_numberRoot _, by decide +kernel⟩

theorem writeBack_iff_one : (∃ size, writeBack (.of .toDevice none (numberEvent (.int 1))) =
      .ok ([.of .toDevice none (numberEvent (.int 1))], size)) ↔ (numberEvent (.int 1)).Clean := by
  obtain ⟨accepted, haccepted⟩ : ∃ accepted, decodeResponse (.default .toDevice) asciiParsers
      (numberBody "1") = .ok accepted := exists_ok_of_toBool (by decide +kernel)
  have hroot : loadsBody asciiParsers (numberBody "1") = .ok (numberRoot (.int 1)) := by
    decide +kernel
  refine writeBack_iff haccepted (fun root h => ?_) rfl (restWritable_of _ _)
  obtain rfl := Except.ok.inj (hroot.symm.trans h)
  exact inside_numberRoot _

/-! ## The sibling path

`_parse_decrypted_json` is the reader of decrypted payloads. It dumps what it has parsed with the
options of a batch, so that nothing goes on that could not be stored.
-/

mutual

/-- `_nesting_exceeds` -/
def nestingExceeds : Json → Nat → Bool
  | .arr _, 0 | .obj _, 0 => true
  | .arr xs, limit + 1 => itemsExceed xs limit
  | .obj kvs, limit + 1 => pairsExceed kvs limit
  | _, _ => false

def itemsExceed : List Json → Nat → Bool
  | [], _ => false
  | x :: xs, limit => nestingExceeds x limit || itemsExceed xs limit

def pairsExceed : List (Str × Json) → Nat → Bool
  | [], _ => false
  | (_, x) :: kvs, limit => nestingExceeds x limit || pairsExceed kvs limit

end

/-- `_MAX_DECRYPTED_NESTING` -/
def maxDecryptedNesting : Nat := 128

/-- `_parse_decrypted_json`; `none` stands for the nesting error. -/
def parseDecryptedJson (plaintext : Str) : Except ValueError (Option Json) := do
  let parsed ← loads plaintext
  if nestingExceeds parsed maxDecryptedNesting then return none
  else
    let _ ← (← dumps ⟨false, false, false⟩ parsed).encode
    return some parsed

end Nio.Durable
