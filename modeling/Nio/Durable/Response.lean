import Nio.Py.JsonRoundtrip
import Nio.Responses

/-!
# The response that a durable session accepts

`_decode_response` parses the body of a poll before the body is captured. What it cannot parse is
refused and leaves no trace; transient observations are set aside for a best-effort delivery.

* `Inside` — the values in the tree of a body
* `decodeResponse_root` — an accepted body is the text of an object
-/

namespace Nio.Durable

open Nio.Py
open Nio.Events

/-- The way in which a session polls. -/
inductive Transport where
  | classic
  | toDevice
  | sliding
  deriving DecidableEq, Repr

structure DurableSyncConfig where
  maxResponseBytes : Nat
  maxBatchRecords : Nat
  maxBatchBytes : Nat
  maxPendingBytes : Nat
  recoveryPageSize : Nat
  maxRecoveryPages : Nat
  transport : Transport
  positive : 0 < maxResponseBytes ∧ 0 < maxBatchRecords ∧ 0 < maxBatchBytes ∧ 0 < maxPendingBytes ∧
    0 < recoveryPageSize ∧ 0 < maxRecoveryPages

namespace DurableSyncConfig

/-- The values that the class gives its fields. -/
def default (transport : Transport) : DurableSyncConfig :=
  ⟨16 * 1024 * 1024, 256, 2 * 1024 * 1024, 64 * 1024 * 1024, 100, 1000, transport, by decide⟩

end DurableSyncConfig

/-- The parsers that the session calls; a Sliding response is only known by its position. -/
structure ResponseParsers (E : EventTypes) (S : Type) extends EventParsers E where
  /-- `body.decode(detect_encoding(body), "surrogatepass")` -/
  text : List Nat → Except ValueError Str
  /-- `SlidingSyncResponse.from_dict`; `none` is its error response. -/
  sliding : Json → Except PyError (Option S)
  pos : S → Json

inductive Response (E : EventTypes) (S : Type) where
  | classic (response : SyncResponse E)
  | sliding (response : S)

inductive ResponseError where
  | localProtocol (message : String)
  /-- An exception that the session does not turn into its own. -/
  | uncaught (e : PyError)
  deriving DecidableEq, Repr

/-- Sections that are delivered without being stored, with the room that they belong to. -/
abbrev TransientSections := List (Option Str × Json)

variable {E : EventTypes} {S : Type}

/-- `root.pop(section, None)` for each section -/
def popSections (root : List (Str × Json)) (sections : List String) : List (Str × Json) :=
  sections.foldl (fun root k => dictErase root (py k)) root

/-- `info.pop("ephemeral", {})` for the rooms of one section -/
def popEphemeral : List (Str × Json) → List (Str × Json) × TransientSections
  | [] => ([], [])
  | (roomId, info) :: rest =>
    let (rest, transients) := popEphemeral rest
    match info with
    | .obj kvs => ((roomId, .obj (dictErase kvs (py "ephemeral"))) :: rest,
        (some roomId, (dictGet? kvs (py "ephemeral")).getD (.obj [])) :: transients)
    | _ => ((roomId, info) :: rest, transients)

/-- The ephemeral sections of the rooms that are joined or left. -/
def popRooms (rooms : List (Str × Json)) : List (Str × Json) × TransientSections :=
  ["join", "leave"].foldl (fun (rooms, transients) name =>
    match dictGet? rooms (py name) with
    | some (.obj infos) =>
      let (infos, more) := popEphemeral infos
      (dictSet rooms (py name) (.obj infos), transients ++ more)
    | _ => (rooms, transients)) (rooms, [])

/-- What a Classic response leaves to the transient observations. -/
def popTransients (root : List (Str × Json)) : List (Str × Json) × TransientSections :=
  let presence := (dictGet? root (py "presence")).getD (.obj [])
  let root := dictErase root (py "presence")
  match dictGet? root (py "rooms") with
  | some (.obj rooms) =>
    let (rooms, transients) := popRooms rooms
    (dictSet root (py "rooms") (.obj rooms), (none, presence) :: transients)
  | _ => (root, [(none, presence)])

/-- The rooms of one transient extension. -/
def extensionRooms : Json → TransientSections
  | .obj kvs =>
    match (dictGet? kvs (py "rooms")).getD (.obj []) with
    | .obj rooms => rooms.map fun p => (some p.1, .obj [(py "events", .arr [p.2])])
    | _ => [(none, .arr [])]
  | _ => [(none, .arr [])]

/-- What a Sliding response leaves to the transient observations. -/
def popExtensions (root : List (Str × Json)) : List (Str × Json) × TransientSections :=
  match dictGet? root (py "extensions") with
  | some (.obj extensions) =>
    (dictSet root (py "extensions") (.obj (popSections extensions ["typing", "receipts"])),
      ["typing", "receipts"].flatMap fun k =>
        extensionRooms ((dictGet? extensions (py k)).getD (.obj [])))
  | some _ => (root, [])
  -- the default of the missing key is an object without either extension
  | none => (root, [])

def decodeSliding (parsers : ResponseParsers E S) (root : List (Str × Json)) :
    Except PyError (Response E S × TransientSections) := do
  let (root, transients) := popExtensions root
  match ← parsers.sliding (.obj root) with
  | none => .error .value
  | some response =>
    if truthy (parsers.pos response) then return (.sliding response, transients) else .error .value

def decodeClassic (parsers : ResponseParsers E S) (root : List (Str × Json)) :
    Except PyError (Response E S × TransientSections) := do
  let (root, transients) := popTransients root
  match ← SyncResponse.fromDict parsers.toEventParsers (.obj root) with
  | none => .error .value
  | some response =>
    if truthy response.nextBatch then return (.classic response, transients) else .error .value

def decodeObject (transport : Transport) (parsers : ResponseParsers E S) :
    Json → Except PyError (Response E S × TransientSections)
  | .obj root =>
    match transport with
    | .classic => decodeClassic parsers root
    | .toDevice => decodeClassic parsers (popSections root ["rooms", "presence", "account_data"])
    | .sliding => decodeSliding parsers root
  | _ => .error .value

/-- `json.loads(body)` -/
def loadsBody (parsers : ResponseParsers E S) (body : List Nat) : Except ValueError Json := do
  loads (← parsers.text body)

/-- `except (ValueError, TypeError, KeyError)` -/
def malformed : PyError → ResponseError
  | .value | .type | .key => .localProtocol "malformed durable sync response"
  | e => .uncaught e

/-- `_decode_response` -/
def decodeResponse (config : DurableSyncConfig) (parsers : ResponseParsers E S) (body : List Nat) :
    Except ResponseError (Response E S × TransientSections) :=
  if config.maxResponseBytes < body.length then
    .error (.localProtocol "sync response exceeds the durable input bound")
  else
    match loadsBody parsers body with
    | .error _ => .error (malformed .value)
    | .ok root => (decodeObject config.transport parsers root).mapError malformed

/-- An accepted body is the text of an object. -/
theorem decodeResponse_root {config : DurableSyncConfig} {parsers : ResponseParsers E S}
    {body : List Nat} {r : Response E S × TransientSections}
    (h : decodeResponse config parsers body = .ok r) :
    ∃ kvs, loadsBody parsers body = .ok (.obj kvs) := by
  unfold decodeResponse at h
  split at h
  · cases h
  · split at h
    · cases h
    · next root hroot =>
      cases root with
      | obj kvs => exact ⟨kvs, hroot⟩
      | _ => cases h

/-! ## The values of a body -/

/-- A value in the tree of another, the root included. -/
inductive Inside (v : Json) : Json → Prop where
  | root : Inside v v
  | item {xs : List Json} {x : Json} : x ∈ xs → Inside v x → Inside v (.arr xs)
  | pair {kvs : List (Str × Json)} {q : Str × Json} : q ∈ kvs → Inside v q.2 → Inside v (.obj kvs)

theorem Inside.all {p : Json → Bool} {v w : Json} (h : Inside v w) (hw : w.all p = true) :
    v.all p = true := by
  induction h with
  | root => exact hw
  | item hx _ ih =>
    simp only [Json.all, Bool.and_eq_true] at hw
    exact ih (Json.allItems_iff.mp hw.2 _ hx)
  | pair hq _ ih =>
    simp only [Json.all, Bool.and_eq_true] at hw
    exact ih (Json.allPairs_iff.mp hw.2 _ hq)

/-- Every value of an accepted body is one that `loads` returns. -/
theorem Inside.wf {parsers : ResponseParsers E S} {body : List Nat} {root v : Json}
    (hroot : loadsBody parsers body = .ok root) (h : Inside v root) : v.WF := by
  obtain ⟨text, -, hloads⟩ := bind_eq_ok.mp hroot
  exact h.all (loads_wf hloads)

end Nio.Durable
