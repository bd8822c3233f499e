import Nio.Py.JsonSchema

/-!
# Events that fail their schema

`verify` checks an event against a schema before its parser runs. An event that fails becomes a
`BadEvent`, or an `UnknownBadEvent` when it misses a field that every event has.
-/

namespace Nio.Events

open Nio.Py

/-- The exceptions that reach a caller of the event parsers and of the Olm machine. -/
inductive PyError where
  | value
  | type
  | key
  | attribute
  | assertion
  /-- `LocalProtocolError` and the other exceptions of this package -/
  | protocol
  /-- `ValidationError` of the schema library -/
  | validation
  /-- An exception of the cryptographic library -/
  | library
  | stopIteration
  deriving DecidableEq, Repr

/-- `parsed_dict[key]` -/
def getItem (v : Json) (key : String) : Except PyError Json :=
  match v with
  | .obj kvs =>
    match dictGet? kvs (py key) with
    | some w => .ok w
    | none => .error .key
  | _ => .error .type

/-- `parsed_dict.get(key, default)` -/
def getDefault (v : Json) (key : String) (default : Json) : Except PyError Json :=
  match v with
  | .obj kvs => .ok ((dictGet? kvs (py key)).getD default)
  | _ => .error .attribute

/-- `parsed_dict.get(key)` -/
def getOptional (v : Json) (key : String) : Except PyError (Option Json) :=
  match v with
  | .obj kvs => .ok (dictGet? kvs (py key))
  | _ => .error .attribute

/-- `parsed_dict.items()` -/
def getItems : Json → Except PyError (List (Str × Json))
  | .obj kvs => .ok kvs
  | _ => .error .attribute

/-- `bool(value)` -/
def truthy : Json → Bool
  | .null => false
  | .bool b => b
  | .int i => i ≠ 0
  | .float x =>
    match x.unpack with
    | .zero _ => false
    | _ => true
  | .str s => s ≠ []
  | .arr vs => !vs.isEmpty
  | .obj kvs => !kvs.isEmpty

/-- `key in value` -/
def contains (v : Json) (key : String) : Except PyError Bool :=
  match v with
  | .obj kvs => .ok (dictGet? kvs (py key)).isSome
  | .arr vs => .ok (decide (Json.str (py key) ∈ vs))
  -- a string contains its parts
  | .str s => .ok (decide (py key <:+: s))
  | _ => .error .type

/-- What `for element in value` goes through. -/
def iterate : Json → Except PyError (List Json)
  | .arr vs => .ok vs
  | .obj kvs => .ok (kvs.map fun p => .str p.1)
  | .str s => .ok (s.map fun c => .str [c])
  | _ => .error .type

/-- `max(0, value)` is defined. -/
def comparesWithZero : Json → Bool
  | .int _ | .float _ | .bool _ => true
  | _ => false

/-- What `verify` returns instead of a parsed event. -/
inductive BadEventType where
  | badEvent (source : Json)
  | unknownBadEvent (source : Json)
  deriving DecidableEq

/-- `BadEvent.from_dict` -/
def badEventFromDict (parsed : Json) : Except PyError BadEventType := do
  let timestamp ← getItem parsed "origin_server_ts"
  if ¬ comparesWithZero timestamp then .error .type
  else do
    let _ ← getItem parsed "event_id"
    let _ ← getItem parsed "sender"
    let _ ← getItem parsed "type"
    return .badEvent parsed

/-- `BadEvent.from_dict(event)`, or an `UnknownBadEvent` after a `KeyError` -/
def badOrUnknown (parsed : Json) : Except PyError BadEventType :=
  match badEventFromDict parsed with
  | .error .key => .ok (.unknownBadEvent parsed)
  | r => r

/-- `verify(schema)`: the parser runs on the instance with its defaults. -/
def verify {α : Type} (schema : Schema) (bad : BadEventType → α) (parse : Json → Except PyError α)
    (event : Json) : Except PyError α :=
  match schema event with
  | some event => parse event
  | none => (badOrUnknown event).map bad

end Nio.Events
