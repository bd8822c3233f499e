import Nio.Py.Json

/-!
# JSON schemas

The keywords of JSON schema draft 4 that the schemas of this development use. A schema maps an
instance to the instance with its defaults filled in, or to nothing when it is invalid. Keywords
are tried in the order in which they are written. They stand for the `Draft4Validator` of the
`jsonschema` package and mean what draft 4 says; the extension that fills in the defaults is the
source's own.

* `Schema.all`, `Schema.properties`, `Schema.required` — how schemas are put together
-/

namespace Nio.Py

abbrev Schema := Json → Option Json

namespace Schema

inductive JsonType where
  | object
  | array
  | string
  | integer
  | boolean
  | null
  deriving DecidableEq, Repr

def JsonType.holds : JsonType → Json → Bool
  | .object, .obj _ => true
  | .array, .arr _ => true
  | .string, .str _ => true
  -- draft 4 has no integral floats, and a Python bool is not taken for an integer
  | .integer, .int _ => true
  | .boolean, .bool _ => true
  | .null, .null => true
  | _, _ => false

/-- A keyword that only checks. -/
def check (p : Json → Bool) : Schema := fun v => if p v then some v else none

/-- The keywords of one schema, in order. -/
def all : List Schema → Schema
  | [], v => some v
  | s :: rest, v => (s v).bind (all rest)

def type (t : JsonType) : Schema := check t.holds

/-- A type or `null`. -/
def nullable (t : JsonType) : Schema := check fun v => t.holds v || JsonType.null.holds v

/-- `"type"` with a list -/
def types (ts : List JsonType) : Schema := check fun v => ts.any (·.holds v)

/-- `"not"` -/
def negate (s : Schema) : Schema := check fun v => (s v).isNone

/-- `"anyOf"` of schemas without defaults -/
def anyOf (ss : List Schema) : Schema := check fun v => ss.any fun s => (s v).isSome

structure Property where
  name : String
  default : Option Json
  schema : Schema

/-- A property without a default. -/
def prop (name : String) (schema : Schema) : Property := ⟨name, none, schema⟩

/-- `instance.setdefault` for each property that has a default -/
def setDefaults (ps : List Property) (kvs : List (Str × Json)) : List (Str × Json) :=
  ps.foldl (fun kvs p =>
    match p.default with
    | none => kvs
    | some d => if (dictGet? kvs (py p.name)).isSome then kvs else dictSet kvs (py p.name) d) kvs

def checkProperties : List Property → List (Str × Json) → Option (List (Str × Json))
  | [], kvs => some kvs
  | p :: ps, kvs =>
    match dictGet? kvs (py p.name) with
    | none => checkProperties ps kvs
    | some v => (p.schema v).bind fun v' => checkProperties ps (dictSet kvs (py p.name) v')

def properties (ps : List Property) : Schema
  | .obj kvs => (checkProperties ps (setDefaults ps kvs)).map .obj
  | v => some v

def required (names : List String) : Schema := check fun v =>
  match v with
  | .obj kvs => names.all fun k => (dictGet? kvs (py k)).isSome
  | _ => true

/-- `"additionalProperties": False` beside properties of the given names -/
def noAdditional (names : List String) : Schema := check fun v =>
  match v with
  | .obj kvs => kvs.all fun kv => names.any fun k => py k = kv.1
  | _ => true

def mapValues (s : Schema) (p : Str → Bool) : List (Str × Json) → Option (List (Str × Json))
  | [] => some []
  | (k, v) :: rest =>
    if p k then (s v).bind fun v' => (mapValues s p rest).map ((k, v') :: ·)
    else (mapValues s p rest).map ((k, v) :: ·)

/-- `p` says which keys the pattern is found in. -/
def patternProperties (p : Str → Bool) (s : Schema) : Schema
  | .obj kvs => (mapValues s p kvs).map .obj
  | v => some v

def mapItems (s : Schema) : List Json → Option (List Json)
  | [] => some []
  | v :: rest => (s v).bind fun v' => (mapItems s rest).map (v' :: ·)

def items (s : Schema) : Schema
  | .arr vs => (mapItems s vs).map .arr
  | v => some v

def enum (values : List String) : Schema := check fun v => v ∈ values.map fun s => .str (py s)

/-- A format is only checked on strings. -/
def format (p : Str → Bool) : Schema := check fun v =>
  match v with
  | .str s => p s
  | _ => true

def minimum (n : Int) : Schema := check fun v =>
  match v with
  | .int i => n ≤ i
  | _ => true

end Schema

end Nio.Py
