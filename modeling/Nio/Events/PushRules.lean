import Nio.Events.RoomParsing
import Nio.Py.IntText
import Nio.Py.SchemaDefaults
import Nio.Rooms.MatrixRoom

/-!
# Push rules

A push rule has conditions that are checked against an event and actions for the events that it
matches. Rules come in the account data of a user, and go back to the server one by one.

* `PushRule.fromDict` — how a rule is read
* `PushRule.matches` — whether an event meets a rule
* `setPushruleContent` — what is sent of a rule
* `resent_rule_is_read` — a rule that is read and sent back comes to the same
-/

namespace Nio.Schemas

open Nio.Py
open Nio.Py.Schema

/-- A character of `[0-9.-]` -/
def isNumeral (c : CodePoint) : Bool :=
  (chr '0' ≤ c && c ≤ chr '9') || c = chr '.' || c = chr '-'

def pushCondition : Schema := all [type .object,
  properties [
    prop "kind" (type .string),
    prop "key" (type .string),
    prop "pattern" (type .string),
    -- the operator is optional and the pattern may be found anywhere
    prop "is" (all [type .string, format fun s => s.any isNumeral])],
  required ["kind"]]

def pushRule : Schema := all [type .object,
  properties [
    prop "rule_id" (type .string),
    ⟨"default", some (.bool false), type .boolean⟩,
    prop "enabled" (type .boolean),
    prop "pattern" (type .string),
    prop "conditions" (all [type .array, items pushCondition]),
    prop "actions" (all [type .array, items (types [.string, .object])])],
  required ["rule_id", "default", "enabled", "actions"]]

end Nio.Schemas

namespace Nio.Events

open Nio.Py

inductive PushRuleKind where
  | override
  | content
  | room
  | sender
  | underride
  deriving DecidableEq, Repr

inductive PushCondition where
  | eventMatch (key pattern : Str)
  | containsDisplayName
  | roomMemberCount (count : Int) (operator : Str)
  | senderNotificationPermission (key : Str)
  | unknown (condition : Json)

inductive PushAction where
  | notify
  | dontNotify
  | coalesce
  | setTweak (tweak value : Json)
  | unknown (action : Json)

structure PushRule where
  kind : PushRuleKind
  id : Str
  default : Bool
  enabled : Bool
  pattern : Str
  conditions : List PushCondition
  actions : List PushAction

/-! ## Reading -/

/-- The operators in the order in which the regular expression tries them; it may leave the group
out. -/
def countOperators : List Str := [py "==", py "<", py ">", py "<=", py ">=", py ""]

/-- `(==|<|>|<=|>=)?([0-9.-]+)` at the beginning of a text -/
def matchCount (s : Str) : Option (Str × Str) :=
  countOperators.findSome? fun op =>
    let num := (s.drop op.length).takeWhile Schemas.isNumeral
    if op.isPrefixOf s ∧ num ≠ [] then some (op, num) else none

/-- `re.findall(...)[0]` -/
def findCount : Str → Option (Str × Str)
  | [] => none
  | c :: rest => (matchCount (c :: rest)).or (findCount rest)

namespace PushCondition

/-- `PushRoomMemberCount.from_dict` -/
def roomMemberCountFromDict (cnd : Json) : Except PyError PushCondition := do
  let text ← getStr cnd "is"
  match findCount text with
  -- an `IndexError`; the schema lets no such text through
  | none => .error .key
  | some (op, num) =>
    match num.toInt? with
    | none => .error .value
    | some count => return .roomMemberCount count (if op = [] then py "==" else op)

def fromDict (cnd : Json) : Except PyError PushCondition := do
  let kind ← getStr cnd "kind"
  let hasKey ← contains cnd "key"
  let hasPattern ← contains cnd "pattern"
  if kind = py "event_match" ∧ hasKey ∧ hasPattern then
    return .eventMatch (← getStr cnd "key") (← getStr cnd "pattern")
  else if kind = py "contains_display_name" then return .containsDisplayName
  else if kind = py "room_member_count" then roomMemberCountFromDict cnd
  else if kind = py "sender_notification_permission" ∧ hasKey then
    return .senderNotificationPermission (← getStr cnd "key")
  else return .unknown cnd

def asValue : PushCondition → Except ValueError Json
  | .eventMatch key pattern =>
    .ok (.obj [(py "kind", .str (py "event_match")), (py "key", .str key),
      (py "pattern", .str pattern)])
  | .containsDisplayName => .ok (.obj [(py "kind", .str (py "contains_display_name"))])
  | .roomMemberCount count operator => do
    let operator := if operator = py "==" then py "" else operator
    return .obj [(py "kind", .str (py "room_member_count")),
      (py "is", .str (operator ++ (← dumpsInt count)))]
  | .senderNotificationPermission key =>
    .ok (.obj [(py "kind", .str (py "sender_notification_permission")), (py "key", .str key)])
  | .unknown condition => .ok condition

end PushCondition

namespace PushAction

/-- `action.get("value")` with the defaults of sounds and highlights -/
def tweakValue (tweak : Json) (value : Json) : Json :=
  if value = .null then
    if tweak = .str (py "sound") then .str (py "default")
    else if tweak = .str (py "highlight") then .bool true
    else .null
  else value

def fromDict : Json → PushAction
  | .str s =>
    if s = py "notify" then .notify
    else if s = py "dont_notify" then .dontNotify
    else if s = py "coalesce" then .coalesce
    else .unknown (.str s)
  | .obj kvs =>
    match dictGet? kvs (py "set_tweak") with
    | some tweak => .setTweak tweak (tweakValue tweak ((dictGet? kvs (py "value")).getD .null))
    | none => .unknown (.obj kvs)
  | action => .unknown action

def asValue : PushAction → Json
  | .notify => .str (py "notify")
  | .dontNotify => .str (py "dont_notify")
  | .coalesce => .str (py "coalesce")
  | .setTweak tweak value => .obj [(py "set_tweak", tweak), (py "value", value)]
  | .unknown action => action

end PushAction

/-- A list that the schema has found there, or an empty one -/
def getListDefault (v : Json) (key : String) : Except PyError (List Json) := do
  match ← getDefault v key (.arr []) with
  | .arr vs => .ok vs
  | _ => .error .type

/-- A boolean that the schema has found there -/
def getBool (v : Json) (key : String) : Except PyError Bool := do
  match ← getItem v key with
  | .bool b => .ok b
  | _ => .error .type

/-- `rule.get("pattern", "")` -/
def getPattern (v : Json) : Except PyError Str := do
  match ← getDefault v "pattern" (.str []) with
  | .str s => .ok s
  | _ => .error .type

/-- `verify_or_none` -/
def verifyOrNone {α : Type} (schema : Schema) (parse : Json → Except PyError α) (v : Json) :
    Except PyError (Option α) :=
  match schema v with
  | some v => (parse v).map some
  | none => .ok none

def PushRule.fromDict (kind : PushRuleKind) : Json → Except PyError (Option PushRule) :=
  verifyOrNone Schemas.pushRule fun rule => do
    let id ← getStr rule "rule_id"
    let default ← getBool rule "default"
    let enabled ← getBool rule "enabled"
    let pattern ← getPattern rule
    let conditions ← (← getListDefault rule "conditions").mapM PushCondition.fromDict
    let actions := (← getListDefault rule "actions").map PushAction.fromDict
    return ⟨kind, id, default, enabled, pattern, conditions, actions⟩

/-! ## Matching -/

/-- The matchers of the standard library -/
structure PushLibrary where
  fnmatchcase : Str → Str → Bool
  lower : Str → Str
  /-- `re.match(rf"(^|\W){re.escape(display_name)}(\W|$)", body, re.IGNORECASE)` -/
  containsName : Str → Str → Bool

/-- What the conditions read of an event, of its room and of the own user -/
structure PushContext where
  /-- `event.flattened()` -/
  flattened : List (Str × Json)
  source : Json
  sender : Str
  roomId : Str
  joinedCount : Int
  powerLevels : Rooms.PowerLevels
  displayName : Str

variable (lib : PushLibrary)

def PushCondition.matches (ctx : PushContext) : PushCondition → Except PyError Bool
  | .eventMatch key pattern =>
    if key = py "room_id" then .ok (lib.fnmatchcase ctx.roomId pattern)
    else
      match dictGet? ctx.flattened key with
      | some (.str value) =>
        if key = py "content.body" then
          .ok (lib.fnmatchcase (py " " ++ lib.lower value ++ py " ")
            (py "*[!a-z0-9]" ++ lib.lower pattern ++ py "[!a-z0-9]*"))
        else .ok (lib.fnmatchcase (lib.lower value) (lib.lower pattern))
      | _ => .ok false
  | .containsDisplayName => do
    let content ← getDefault ctx.source "content" (.obj [])
    match ← getOptional content "body" with
    | some (.str body) => .ok (lib.containsName ctx.displayName body)
    | _ => .ok false
  | .roomMemberCount count operator =>
    .ok (if operator = py "==" then ctx.joinedCount = count
      else if operator = py "<" then ctx.joinedCount < count
      else if operator = py ">" then ctx.joinedCount > count
      else if operator = py "<=" then ctx.joinedCount ≤ count
      else ctx.joinedCount ≥ count)
  | .senderNotificationPermission key => .ok (ctx.powerLevels.canUserNotify ctx.sender key)
  | .unknown _ => .ok false

/-- `all(c.matches(...) for c in conditions)` -/
def allMatch (ctx : PushContext) : List PushCondition → Except PyError Bool
  | [] => .ok true
  | c :: rest => do
    if ← c.matches lib ctx then allMatch ctx rest else return false

/-- The conditions of a rule: for three kinds they do not come from the rule's own list. -/
def PushRule.effective (rule : PushRule) : List PushCondition :=
  match rule.kind with
  | .content => [.eventMatch (py "content.body") rule.pattern]
  | .room => [.eventMatch (py "room_id") rule.id]
  | .sender => [.eventMatch (py "sender") rule.id]
  | .override | .underride => rule.conditions

def PushRule.matches (rule : PushRule) (ctx : PushContext) : Except PyError Bool :=
  if rule.enabled then allMatch lib ctx rule.effective else .ok false

/-! ## Sending -/

/-- The body of `set_pushrule` -/
def setPushruleContent (kind : PushRuleKind) (actions : List PushAction)
    (conditions : Option (List PushCondition)) (pattern : Option Str) : Except PyError Json := do
  let content := [(py "actions", Json.arr (actions.map PushAction.asValue))]
  let content ← match pattern with
    | none => Except.ok content
    | some pattern =>
      if kind ≠ .content then .error .type else .ok (content ++ [(py "pattern", .str pattern)])
  match conditions with
  | none => return .obj content
  | some conditions =>
    if kind ≠ .override ∧ kind ≠ .underride then .error .type
    else
      match conditions.mapM PushCondition.asValue with
      | .error _ => .error .value
      | .ok values => return .obj (content ++ [(py "conditions", .arr values)])

/-! ## Actions that are sent back -/

namespace PushAction

theorem tweakValue_idem (tweak value : Json) :
    tweakValue tweak (tweakValue tweak value) = tweakValue tweak value := by
  unfold tweakValue
  by_cases hv : value = .null
  · rw [if_pos hv]
    by_cases hs : tweak = .str (py "sound")
    · rw [if_pos hs, if_neg (by simp)]
    · rw [if_neg hs]
      by_cases hh : tweak = .str (py "highlight")
      · rw [if_pos hh, if_neg (by simp)]
      · rw [if_neg hh, if_pos rfl]
  · rw [if_neg hv, if_neg hv]

theorem fromDict_str (s : Str) :
    asValue (fromDict (.str s)) = .str s ∨ fromDict (.str s) = .unknown (.str s) := by
  unfold fromDict
  dsimp only
  split
  · next h => exact Or.inl (congrArg Json.str h.symm)
  · split
    · next h => exact Or.inl (congrArg Json.str h.symm)
    · split
      · next h => exact Or.inl (congrArg Json.str h.symm)
      · exact Or.inr rfl

/-- Actions mean the same when they come back. -/
theorem fromDict_asValue (a : Json) : fromDict (asValue (fromDict a)) = fromDict a := by
  cases a with
  | str s =>
    rcases fromDict_str s with h | h
    · rw [h]
    · rw [h]
      exact h
  | obj kvs =>
    cases htweak : dictGet? kvs (py "set_tweak") with
    | none => simp only [fromDict, htweak, asValue]
    | some tweak =>
      have hfirst : dictGet? [(py "set_tweak", tweak), (py "value", tweakValue tweak
          ((dictGet? kvs (py "value")).getD .null))] (py "set_tweak") = some tweak := rfl
      have hsecond : dictGet? [(py "set_tweak", tweak), (py "value", tweakValue tweak
          ((dictGet? kvs (py "value")).getD .null))] (py "value") =
            some (tweakValue tweak ((dictGet? kvs (py "value")).getD .null)) := rfl
      simp only [fromDict, htweak, asValue, hfirst, hsecond, Option.getD_some, tweakValue_idem]
  | _ => rfl

/-- What is sent of an action is a string or an object. -/
theorem asValue_types {a : Json} (h : Schema.types [.string, .object] a = some a) :
    Schema.types [.string, .object] (asValue (fromDict a)) =
      some (asValue (fromDict a)) := by
  cases a with
  | str s =>
    rcases fromDict_str s with hs | hs
    · rw [hs]
      rfl
    · rw [hs]
      rfl
  | obj kvs =>
    unfold fromDict
    dsimp only
    split
    · rfl
    · rfl
  | _ => cases h

end PushAction

/-! ## Conditions that are sent back -/

/-- The operators of conditions, and how they stand in a text -/
def operatorText (operator : Str) : Str := if operator = py "==" then [] else operator

theorem matchCount_text {operator num : Str}
    (hop : operator ∈ [py "==", py "<", py ">", py "<=", py ">="]) (hne : num ≠ [])
    (hnum : ∀ c ∈ num, Schemas.isNumeral c = true) :
    matchCount (operatorText operator ++ num) = some (operatorText operator, num) := by
  have htake : num.takeWhile Schemas.isNumeral = num := List.takeWhile_eq_self_iff.mpr hnum
  obtain ⟨c, rest, rfl⟩ := List.exists_cons_of_ne_nil hne
  have hc := hnum c List.mem_cons_self
  -- a numeral is none of the operators' characters
  have heq : (chr '=' == c) = false := beq_false_of_ne fun h => absurd (h ▸ hc) (by decide)
  have hlt : (chr '<' == c) = false := beq_false_of_ne fun h => absurd (h ▸ hc) (by decide)
  have hgt : (chr '>' == c) = false := beq_false_of_ne fun h => absurd (h ▸ hc) (by decide)
  have hdist : (chr '=' == chr '<') = false ∧ (chr '=' == chr '>') = false ∧
      (chr '<' == chr '>') = false ∧ (chr '>' == chr '<') = false := by decide
  have hstop : Schemas.isNumeral (chr '=') = false := by decide
  have hlit : py "==" = [chr '=', chr '='] ∧ py "<" = [chr '<'] ∧ py ">" = [chr '>'] ∧
      py "<=" = [chr '<', chr '='] ∧ py ">=" = [chr '>', chr '='] ∧ py "" = [] := by
    decide
  have htext : operatorText operator ∈ [[], py "<", py ">", py "<=", py ">="] := by
    simp only [List.mem_cons, List.not_mem_nil, or_false] at hop
    rcases hop with rfl | rfl | rfl | rfl | rfl <;> decide
  generalize operatorText operator = text at htext
  unfold matchCount countOperators
  simp only [hlit, List.mem_cons, List.not_mem_nil, or_false] at htext ⊢
  rcases htext with rfl | rfl | rfl | rfl | rfl
  all_goals
    simp only [List.findSome?_cons, List.isPrefixOf_cons_cons, List.isPrefixOf_nil_left,
      List.length_cons, List.length_nil, List.drop_succ_cons, List.drop_zero, List.cons_append,
      List.nil_append, heq, hlt, hgt, hdist, BEq.rfl, Bool.false_and, Bool.true_and,
      Bool.false_eq_true, false_and, if_false, true_and, htake, ne_eq, hne, not_false_eq_true,
      if_true, List.takeWhile_cons, hstop, not_true_eq_false]

theorem findCount_text {operator num : Str}
    (hop : operator ∈ [py "==", py "<", py ">", py "<=", py ">="]) (hne : num ≠ [])
    (hnum : ∀ c ∈ num, Schemas.isNumeral c = true) :
    findCount (operatorText operator ++ num) = some (operatorText operator, num) := by
  have hmatch := matchCount_text hop hne hnum
  obtain ⟨c, rest, htext⟩ := List.exists_cons_of_ne_nil (List.append_ne_nil_of_right_ne_nil
    (operatorText operator) hne)
  rw [htext] at hmatch ⊢
  rw [findCount, hmatch]
  rfl

theorem findCount_mem {s op num : Str} (h : findCount s = some (op, num)) :
    op ∈ countOperators := by
  induction s with
  | nil => cases h
  | cons c s ih =>
    rw [findCount, Option.or_eq_some_iff] at h
    rcases h with h | ⟨-, h⟩
    · obtain ⟨op', hop, h⟩ := List.exists_of_findSome?_eq_some h
      dsimp only at h
      split at h
      · cases h
        exact hop
      · cases h
    · exact ih h

/-- The digits of an integer in a text, with its sign -/
theorem dumpsInt_numeral {i : Int} {t : Str} (h : dumpsInt i = .ok t) :
    t ≠ [] ∧ ∀ c ∈ t, Schemas.isNumeral c = true := by
  have hdigits := Decimal.digits_toDigits i.natAbs
  unfold dumpsInt at h
  dsimp only at h
  split at h
  · cases h
  · cases h
    refine ⟨fun hnil => ?_, fun c hc => ?_⟩
    · have happend := List.map_eq_nil_iff.mp hnil
      exact hdigits.1 (List.append_eq_nil_iff.mp happend).2
    · obtain ⟨d, hd, rfl⟩ := List.mem_map.mp hc
      rcases List.mem_append.mp hd with hd | hd
      · split at hd
        · rw [List.mem_singleton.mp hd]
          decide
        · cases hd
      · obtain ⟨h1, h2⟩ := val_of_isDigit (hdigits.2 d hd)
        unfold Schemas.isNumeral
        simp only [Bool.or_eq_true, Bool.and_eq_true, decide_eq_true_eq]
        exact Or.inl (Or.inl ⟨h1, h2⟩)

namespace PushCondition

theorem pushCondition_obj {kvs : List (Str × Json)} (hkeys : (kvs.map (·.1)).Nodup)
    (hkind : ∃ s, dictGet? kvs (py "kind") = some (.str s))
    (hkey : ∀ v, dictGet? kvs (py "key") = some v → ∃ s, v = .str s)
    (hpattern : ∀ v, dictGet? kvs (py "pattern") = some v → ∃ s, v = .str s)
    (his : ∀ v, dictGet? kvs (py "is") = some v → ∃ s, v = .str s ∧ s.any Schemas.isNumeral) :
    Schemas.pushCondition (.obj kvs) = some (.obj kvs) := by
  obtain ⟨kind, hkind⟩ := hkind
  refine Schema.all_self fun s hs => ?_
  simp only [List.mem_cons, List.not_mem_nil, or_false] at hs
  rcases hs with rfl | rfl | rfl
  · rfl
  · refine Schema.properties_self (by simp) hkeys fun p hp v hv => ?_
    simp only [List.mem_cons, List.not_mem_nil, or_false] at hp
    rcases hp with rfl | rfl | rfl | rfl
    · obtain rfl := Option.some.inj (hkind.symm.trans hv)
      rfl
    · obtain ⟨s, rfl⟩ := hkey v hv
      rfl
    · obtain ⟨s, rfl⟩ := hpattern v hv
      rfl
    · obtain ⟨s, rfl, hany⟩ := his v hv
      simp [Schema.prop, Schema.all, Schema.type, Schema.check, Schema.JsonType.holds,
        Schema.format, hany]
  · refine Schema.required_self fun k hk => ?_
    rw [List.mem_singleton.mp hk, hkind]
    rfl

theorem fromDict_eventMatch (key pattern : Str) :
    fromDict (.obj [(py "kind", .str (py "event_match")), (py "key", .str key),
      (py "pattern", .str pattern)]) = .ok (.eventMatch key pattern) := rfl

theorem fromDict_containsDisplayName :
    fromDict (.obj [(py "kind", .str (py "contains_display_name"))]) = .ok .containsDisplayName :=
  rfl

theorem fromDict_senderNotificationPermission (key : Str) :
    fromDict (.obj [(py "kind", .str (py "sender_notification_permission")),
      (py "key", .str key)]) = .ok (.senderNotificationPermission key) := rfl

theorem fromDict_roomMemberCount (text : Str) :
    fromDict (.obj [(py "kind", .str (py "room_member_count")), (py "is", .str text)]) =
      roomMemberCountFromDict (.obj [(py "kind", .str (py "room_member_count")),
        (py "is", .str text)]) := rfl

/-- A number of members is written as it was read. -/
theorem roomMemberCount_asValue {cnd : Json} {c : PushCondition}
    (h : roomMemberCountFromDict cnd = .ok c) :
    ∃ text, text.any Schemas.isNumeral ∧
      asValue c = .ok (.obj [(py "kind", .str (py "room_member_count")), (py "is", .str text)]) ∧
      roomMemberCountFromDict (.obj [(py "kind", .str (py "room_member_count")),
        (py "is", .str text)]) = .ok c := by
  unfold roomMemberCountFromDict at h
  obtain ⟨source, -, h⟩ := bind_eq_ok.mp h
  split at h
  · cases h
  · next op num hfind =>
    split at h
    · cases h
    · next count hcount =>
      cases h
      obtain ⟨digits, hdigits⟩ := dumpsInt_of_toInt? hcount
      obtain ⟨hne, hnumeral⟩ := dumpsInt_numeral hdigits
      have hread := toInt?_dumpsInt hdigits
      have hop : (if op = [] then py "==" else op) ∈
          [py "==", py "<", py ">", py "<=", py ">="] := by
        have hmem := findCount_mem hfind
        revert hmem
        unfold countOperators
        simp only [List.mem_cons, List.not_mem_nil, or_false]
        rintro (rfl | rfl | rfl | rfl | rfl | rfl) <;> decide
      generalize (if op = [] then py "==" else op) = operator at hop ⊢
      have hsame : (if operatorText operator = [] then py "==" else operatorText operator) =
          operator := by
        simp only [List.mem_cons, List.not_mem_nil, or_false] at hop
        rcases hop with rfl | rfl | rfl | rfl | rfl <;> decide
      refine ⟨operatorText operator ++ digits, ?_, ?_, ?_⟩
      · obtain ⟨c, rest, rfl⟩ := List.exists_cons_of_ne_nil hne
        rw [List.any_append, Bool.or_eq_true]
        exact Or.inr (List.any_eq_true.mpr ⟨c, List.mem_cons_self,
          hnumeral c List.mem_cons_self⟩)
      · unfold asValue
        dsimp only
        rw [hdigits]
        rfl
      · unfold roomMemberCountFromDict
        have htext : getStr (.obj [(py "kind", .str (py "room_member_count")),
            (py "is", .str (operatorText operator ++ digits))]) "is" =
              .ok (operatorText operator ++ digits) := rfl
        rw [htext, ok_bind, findCount_text hop hne hnumeral]
        dsimp only
        rw [hread]
        dsimp only
        rw [hsame]
        rfl

/-- Conditions mean the same when they come back. -/
theorem fromDict_asValue {cnd : Json} {c : PushCondition}
    (hcnd : Schemas.pushCondition cnd = some cnd) (h : fromDict cnd = .ok c) :
    ∃ v, asValue c = .ok v ∧ fromDict v = .ok c ∧ Schemas.pushCondition v = some v := by
  have hsource := h
  unfold fromDict at h
  obtain ⟨kind, -, h⟩ := bind_eq_ok.mp h
  obtain ⟨hasKey, -, h⟩ := bind_eq_ok.mp h
  obtain ⟨hasPattern, -, h⟩ := bind_eq_ok.mp h
  split at h
  · obtain ⟨key, -, h⟩ := bind_eq_ok.mp h
    obtain ⟨pattern, -, h⟩ := bind_eq_ok.mp h
    cases h
    refine ⟨_, rfl, fromDict_eventMatch key pattern, ?_⟩
    exact pushCondition_obj (show [py "kind", py "key", py "pattern"].Nodup by decide) ⟨_, rfl⟩
      (fun v hv => ⟨key, (Option.some.inj hv).symm⟩)
      (fun v hv => ⟨pattern, (Option.some.inj hv).symm⟩) fun v hv => by cases hv
  · split at h
    · cases h
      refine ⟨_, rfl, fromDict_containsDisplayName, ?_⟩
      exact pushCondition_obj (by decide) ⟨_, rfl⟩ (fun v hv => by cases hv)
        (fun v hv => by cases hv) fun v hv => by cases hv
    · split at h
      · obtain ⟨text, hany, hvalue, hread⟩ := roomMemberCount_asValue h
        refine ⟨_, hvalue, (fromDict_roomMemberCount text).trans hread, ?_⟩
        exact pushCondition_obj (show [py "kind", py "is"].Nodup by decide) ⟨_, rfl⟩
          (fun v hv => by cases hv) (fun v hv => by cases hv) fun v hv =>
            ⟨text, (Option.some.inj hv).symm, hany⟩
      · split at h
        · obtain ⟨key, -, h⟩ := bind_eq_ok.mp h
          cases h
          refine ⟨_, rfl, fromDict_senderNotificationPermission key, ?_⟩
          exact pushCondition_obj (show [py "kind", py "key"].Nodup by decide) ⟨_, rfl⟩
            (fun v hv => ⟨key, (Option.some.inj hv).symm⟩) (fun v hv => by cases hv)
            fun v hv => by cases hv
        · cases h
          exact ⟨cnd, rfl, hsource, hcnd⟩

/-- The conditions of a rule mean the same when they come back. -/
theorem mapM_fromDict_asValue {cnds : List Json} {cs : List PushCondition}
    (hcnds : ∀ cnd ∈ cnds, Schemas.pushCondition cnd = some cnd)
    (h : cnds.mapM fromDict = .ok cs) :
    ∃ vs, cs.mapM asValue = .ok vs ∧ vs.mapM fromDict = .ok cs ∧
      ∀ v ∈ vs, Schemas.pushCondition v = some v := by
  induction cnds generalizing cs with
  | nil =>
    cases h
    exact ⟨[], rfl, rfl, List.forall_mem_nil _⟩
  | cons cnd cnds ih =>
    rw [List.forall_mem_cons] at hcnds
    rw [List.mapM_cons] at h
    obtain ⟨c, hc, h⟩ := bind_eq_ok.mp h
    obtain ⟨rest, hrest, h⟩ := bind_eq_ok.mp h
    cases h
    obtain ⟨v, hvalue, hread, hv⟩ := fromDict_asValue hcnds.1 hc
    obtain ⟨vs, hvalues, hreads, hvs⟩ := ih hcnds.2 hrest
    refine ⟨v :: vs, ?_, ?_, List.forall_mem_cons.mpr ⟨hv, hvs⟩⟩
    · rw [List.mapM_cons, hvalue, hvalues]
      rfl
    · rw [List.mapM_cons, hread, hreads]
      rfl

end PushCondition

/-! ## Rules that are sent back -/

/-- What the server has of a rule that was sent -/
def resent (rule : PushRule) (content : List (Str × Json)) : Json :=
  .obj ([(py "rule_id", .str rule.id), (py "default", .bool false),
    (py "enabled", .bool rule.enabled)] ++ content)

/-- The parts of a rule that its kind lets be sent -/
def sentContent (rule : PushRule) : Except PyError Json :=
  setPushruleContent rule.kind rule.actions
    (if rule.kind = .override ∨ rule.kind = .underride then some rule.conditions else none)
    (if rule.kind = .content then some rule.pattern else none)


instance plain_pushCondition : Schema.Plain Schemas.pushCondition := by
  unfold Schemas.pushCondition
  infer_instance

/-- A rule that was read has fields that its schema accepts as they are. -/
theorem pushRule_fields {v w : Json} (hv : v.Distinct) (h : Schemas.pushRule v = some w) :
    ∃ kvs, w = .obj kvs ∧
      (∀ x, dictGet? kvs (py "conditions") = some x →
        ∃ cnds, x = .arr cnds ∧ ∀ cnd ∈ cnds, Schemas.pushCondition cnd = some cnd) ∧
      ∀ x, dictGet? kvs (py "actions") = some x →
        ∃ actions, x = .arr actions ∧
          ∀ a ∈ actions, Schema.types [.string, .object] a = some a := by
  unfold Schemas.pushRule at h
  obtain ⟨v₁, hv₁, hprops⟩ := Option.bind_eq_some_iff.mp h
  obtain ⟨v₂, hv₂, hrequired⟩ := Option.bind_eq_some_iff.mp hprops
  obtain rfl := (Schema.plain_type .object).eq hv hv₁
  have hsame : w = v₂ := (Schema.all_checks (by simp) hrequired).1
  have hnone : ∀ name schema d, (Schema.prop name schema).default = some d → d.Distinct := by
    intro name schema d hd
    cases hd
  have hfalse : ∀ d : Json, some (Json.bool false) = some d → d.Distinct := by
    intro d hd
    cases hd
    decide
  obtain ⟨kvs, rfl, -, hfields⟩ := Schema.properties_field
    (by
      simp only [List.forall_mem_cons, Schema.prop_schema]
      exact ⟨inferInstance, inferInstance, inferInstance, inferInstance, inferInstance,
        inferInstance, List.forall_mem_nil _⟩)
    (by
      simp only [List.forall_mem_cons]
      exact ⟨hnone _ _, hfalse, hnone _ _, hnone _ _, hnone _ _, hnone _ _,
        List.forall_mem_nil _⟩) hv hv₁ hv₂
  refine ⟨kvs, hsame, fun x hx => ?_, fun x hx => ?_⟩
  · exact Schema.array_items_self
      (hfields (Schema.prop "conditions" (Schema.all [Schema.type .array,
        Schema.items Schemas.pushCondition])) (by simp) x hx)
  · exact Schema.array_items_self
      (hfields (Schema.prop "actions" (Schema.all [Schema.type .array,
        Schema.items (Schema.types [.string, .object])])) (by simp) x hx)

/-- The keys of a rule that was sent -/
theorem dictGet?_resent {rule : PushRule} {acts : List Json} {extra : List (Str × Json)} :
    let kvs := [(py "rule_id", .str rule.id), (py "default", .bool false),
      (py "enabled", .bool rule.enabled), (py "actions", Json.arr acts)] ++ extra
    dictGet? kvs (py "rule_id") = some (.str rule.id) ∧
      dictGet? kvs (py "default") = some (.bool false) ∧
      dictGet? kvs (py "enabled") = some (.bool rule.enabled) ∧
      dictGet? kvs (py "actions") = some (.arr acts) ∧
      dictGet? kvs (py "conditions") = dictGet? extra (py "conditions") ∧
      dictGet? kvs (py "pattern") = dictGet? extra (py "pattern") :=
  ⟨rfl, rfl, rfl, rfl, rfl, rfl⟩

theorem pushRule_resent {rule : PushRule} {acts : List Json} {extra : List (Str × Json)}
    (hacts : ∀ a ∈ acts, Schema.types [.string, .object] a = some a)
    (hkeys : ([py "rule_id", py "default", py "enabled", py "actions"] ++
      extra.map (·.1)).Nodup)
    (hconds : ∀ x, dictGet? extra (py "conditions") = some x →
      ∃ cnds, x = .arr cnds ∧ ∀ cnd ∈ cnds, Schemas.pushCondition cnd = some cnd)
    (hpattern : ∀ x, dictGet? extra (py "pattern") = some x → ∃ s, x = .str s) :
    Schemas.pushRule (resent rule ((py "actions", .arr acts) :: extra)) =
      some (resent rule ((py "actions", .arr acts) :: extra)) := by
  obtain ⟨hid, hdefault, henabled, hactions, hc, hp⟩ := @dictGet?_resent rule acts extra
  unfold resent
  refine Schema.all_self fun s hs => ?_
  simp only [List.mem_cons, List.not_mem_nil, or_false] at hs
  rcases hs with rfl | rfl | rfl
  · rfl
  · refine Schema.properties_present (fun p hmem hd => ?_) hkeys fun p hmem x hx => ?_
    · simp only [List.mem_cons, List.not_mem_nil, or_false] at hmem
      rcases hmem with rfl | rfl | rfl | rfl | rfl | rfl
      · cases hd
      · exact Option.isSome_iff_exists.mpr ⟨_, hdefault⟩
      · cases hd
      · cases hd
      · cases hd
      · cases hd
    · simp only [List.mem_cons, List.not_mem_nil, or_false] at hmem
      rcases hmem with rfl | rfl | rfl | rfl | rfl | rfl
      · obtain rfl := Option.some.inj (hid.symm.trans hx)
        rfl
      · obtain rfl := Option.some.inj (hdefault.symm.trans hx)
        rfl
      · obtain rfl := Option.some.inj (henabled.symm.trans hx)
        rfl
      · obtain ⟨s, rfl⟩ := hpattern x (hp.symm.trans hx)
        rfl
      · obtain ⟨cnds, rfl, hcnds⟩ := hconds x (hc.symm.trans hx)
        simp [Schema.prop, Schema.all, Schema.items, Schema.mapItems_self hcnds]
      · obtain rfl := Option.some.inj (hactions.symm.trans hx)
        simp [Schema.prop, Schema.all, Schema.items, Schema.mapItems_self hacts]
  · refine Schema.required_self fun k hk => ?_
    simp only [List.mem_cons, List.not_mem_nil, or_false] at hk
    rcases hk with rfl | rfl | rfl | rfl
    · exact Option.isSome_iff_exists.mpr ⟨_, hid⟩
    · exact Option.isSome_iff_exists.mpr ⟨_, hdefault⟩
    · exact Option.isSome_iff_exists.mpr ⟨_, henabled⟩
    · exact Option.isSome_iff_exists.mpr ⟨_, hactions⟩

/-- What is read of a rule that was sent -/
theorem fromDict_resent {kind : PushRuleKind} {rule : PushRule} {acts : List Json}
    {extra : List (Str × Json)} {cnds : List Json} {cs : List PushCondition} {pattern : Str}
    (hschema : Schemas.pushRule (resent rule ((py "actions", .arr acts) :: extra)) =
      some (resent rule ((py "actions", .arr acts) :: extra)))
    (hconds : (dictGet? extra (py "conditions")).getD (.arr []) = .arr cnds)
    (hcnds : cnds.mapM PushCondition.fromDict = .ok cs)
    (hpattern : (dictGet? extra (py "pattern")).getD (.str []) = .str pattern) :
    PushRule.fromDict kind (resent rule ((py "actions", .arr acts) :: extra)) =
      .ok (some ⟨kind, rule.id, false, rule.enabled, pattern, cs,
        acts.map PushAction.fromDict⟩) := by
  obtain ⟨-, -, -, -, hc, hp⟩ := @dictGet?_resent rule acts extra
  have hlist : getListDefault (resent rule ((py "actions", .arr acts) :: extra)) "conditions" =
      .ok cnds := by
    have hget : getDefault (resent rule ((py "actions", .arr acts) :: extra)) "conditions"
        (.arr []) = .ok (.arr cnds) := congrArg Except.ok ((congrArg (·.getD (.arr [])) hc).trans
          hconds)
    unfold getListDefault
    rw [hget]
    rfl
  have htext : getPattern (resent rule ((py "actions", .arr acts) :: extra)) = .ok pattern := by
    have hget : getDefault (resent rule ((py "actions", .arr acts) :: extra)) "pattern"
        (.str []) = .ok (.str pattern) := congrArg Except.ok ((congrArg (·.getD (.str [])) hp).trans
          hpattern)
    unfold getPattern
    rw [hget]
    rfl
  have hid : getStr (resent rule ((py "actions", .arr acts) :: extra)) "rule_id" = .ok rule.id :=
    rfl
  have hdefault : getBool (resent rule ((py "actions", .arr acts) :: extra)) "default" =
      .ok false := rfl
  have henabled : getBool (resent rule ((py "actions", .arr acts) :: extra)) "enabled" =
      .ok rule.enabled := rfl
  have hactions : getListDefault (resent rule ((py "actions", .arr acts) :: extra)) "actions" =
      .ok acts := rfl
  unfold PushRule.fromDict verifyOrNone
  rw [hschema]
  dsimp only
  rw [hid, ok_bind, hdefault, ok_bind, henabled, ok_bind, htext, ok_bind, hlist, ok_bind, hcnds,
    ok_bind, hactions]
  rfl

theorem map_some_eq_ok {α : Type} {x : Except PyError α} {a : α}
    (h : x.map some = .ok (some a)) : x = .ok a := by
  cases x with
  | error e => cases h
  | ok b =>
    cases h
    rfl

/-- The list of a field that the schema accepts -/
theorem getListDefault_items {kvs : List (Str × Json)} {key : String} {s : Schema}
    {vs : List Json}
    (h : ∀ x, dictGet? kvs (py key) = some x → ∃ xs, x = .arr xs ∧ ∀ v ∈ xs, s v = some v)
    (hget : getListDefault (.obj kvs) key = .ok vs) : ∀ v ∈ vs, s v = some v := by
  unfold getListDefault getDefault at hget
  dsimp only at hget
  rw [ok_bind] at hget
  cases hkey : dictGet? kvs (py key) with
  | none =>
    rw [hkey] at hget
    cases hget
    exact List.forall_mem_nil _
  | some x =>
    obtain ⟨xs, rfl, hxs⟩ := h x hkey
    rw [hkey] at hget
    cases hget
    exact hxs

/-- A rule that is read and sent comes to the same when the server hands it out again: the parts
that its kind does not send are parts that it does not use. -/
theorem resent_rule_is_read {kind : PushRuleKind} {v : Json} (hv : v.Distinct) {rule : PushRule}
    (h : PushRule.fromDict kind v = .ok (some rule)) :
    ∃ content rule', sentContent rule = .ok (.obj content) ∧
      PushRule.fromDict kind (resent rule content) = .ok (some rule') ∧
      rule'.id = rule.id ∧ rule'.enabled = rule.enabled ∧ rule'.actions = rule.actions ∧
      ∀ lib ctx, rule'.matches lib ctx = rule.matches lib ctx := by
  unfold PushRule.fromDict verifyOrNone at h
  split at h
  · next w hw =>
    obtain ⟨kvs, rfl, hconds, hacts⟩ := pushRule_fields hv hw
    have hparse := map_some_eq_ok h
    obtain ⟨id, -, hparse⟩ := bind_eq_ok.mp hparse
    obtain ⟨default, -, hparse⟩ := bind_eq_ok.mp hparse
    obtain ⟨enabled, -, hparse⟩ := bind_eq_ok.mp hparse
    obtain ⟨pattern, -, hparse⟩ := bind_eq_ok.mp hparse
    obtain ⟨cnds, hcnds, hparse⟩ := bind_eq_ok.mp hparse
    obtain ⟨cs, hcs, hparse⟩ := bind_eq_ok.mp hparse
    obtain ⟨acts, hactions, hparse⟩ := bind_eq_ok.mp hparse
    cases hparse
    obtain ⟨vs, hvalues, hread, hvs⟩ :=
      PushCondition.mapM_fromDict_asValue (getListDefault_items hconds hcnds) hcs
    have hback : ((acts.map PushAction.fromDict).map PushAction.asValue).map PushAction.fromDict =
        acts.map PushAction.fromDict := by
      rw [List.map_map, List.map_map]
      exact List.map_congr_left fun a _ => PushAction.fromDict_asValue a
    have htypes : ∀ a ∈ (acts.map PushAction.fromDict).map PushAction.asValue,
        Schema.types [.string, .object] a = some a := by
      intro a ha
      obtain ⟨b, hb, rfl⟩ := List.mem_map.mp ha
      obtain ⟨c, hc, rfl⟩ := List.mem_map.mp hb
      exact PushAction.asValue_types (getListDefault_items hacts hactions c hc)
    -- what is read of the rule with the other fields that were sent
    have hresent : ∀ (extra : List (Str × Json)) (cnds' : List Json) cs' pattern',
        ([py "rule_id", py "default", py "enabled", py "actions"] ++ extra.map (·.1)).Nodup →
        (dictGet? extra (py "conditions")).getD (.arr []) = .arr cnds' →
        (∀ cnd ∈ cnds', Schemas.pushCondition cnd = some cnd) →
        cnds'.mapM PushCondition.fromDict = .ok cs' →
        (dictGet? extra (py "pattern")).getD (.str []) = .str pattern' →
        PushRule.fromDict kind (resent ⟨kind, id, default, enabled, pattern, cs,
            acts.map PushAction.fromDict⟩ ((py "actions",
              .arr ((acts.map PushAction.fromDict).map PushAction.asValue)) :: extra)) =
          .ok (some ⟨kind, id, false, enabled, pattern', cs', acts.map PushAction.fromDict⟩) := by
      intro extra cnds' cs' pattern' hkeys hc hall hcs' hp
      have hschema := @pushRule_resent ⟨kind, id, default, enabled, pattern, cs,
        acts.map PushAction.fromDict⟩ _ extra htypes hkeys
        (fun x hx => ⟨cnds', by rw [hx] at hc; exact hc, hall⟩)
        fun x hx => ⟨pattern', by rw [hx] at hp; exact hp⟩
      rw [fromDict_resent hschema hc hcs' hp, hback]
    have hkeysConds : ([py "rule_id", py "default", py "enabled", py "actions"] ++
        [(py "conditions", Json.arr vs)].map (·.1)).Nodup :=
      show [py "rule_id", py "default", py "enabled", py "actions", py "conditions"].Nodup by decide
    have hconditions := hresent [(py "conditions", .arr vs)] vs cs [] hkeysConds rfl hvs hread rfl
    cases kind with
    | override =>
      refine ⟨_, _, ?_, hconditions, rfl, rfl, rfl, fun lib ctx => rfl⟩
      simp [sentContent, setPushruleContent, hvalues]
    | underride =>
      refine ⟨_, _, ?_, hconditions, rfl, rfl, rfl, fun lib ctx => rfl⟩
      simp [sentContent, setPushruleContent, hvalues]
    | content =>
      refine ⟨_, _, ?_, hresent [(py "pattern", .str pattern)] [] [] pattern ?_ rfl
        (List.forall_mem_nil _) rfl rfl, rfl, rfl, rfl, fun lib ctx => rfl⟩
      · rfl
      · exact (by decide :
          [py "rule_id", py "default", py "enabled", py "actions", py "pattern"].Nodup)
    | room =>
      refine ⟨_, _, ?_, hresent [] [] [] [] ?_ rfl (List.forall_mem_nil _) rfl rfl, rfl, rfl, rfl,
        fun lib ctx => rfl⟩
      · rfl
      · decide
    | sender =>
      refine ⟨_, _, ?_, hresent [] [] [] [] ?_ rfl (List.forall_mem_nil _) rfl rfl, rfl, rfl, rfl,
        fun lib ctx => rfl⟩
      · rfl
      · decide
  · cases h

/-- A rule for a small room with a sound: its member count comes back as it was. -/
theorem resent_rule_is_read_two :
    ∃ content rule', sentContent ⟨.override, py "x", false, true, [],
        [.roomMemberCount 2 (py "==")], [.setTweak (.str (py "sound")) (.str (py "default"))]⟩ =
          .ok (.obj content) ∧
      PushRule.fromDict .override (resent ⟨.override, py "x", false, true, [],
        [.roomMemberCount 2 (py "==")], [.setTweak (.str (py "sound")) (.str (py "default"))]⟩
          content) = .ok (some rule') ∧
      rule'.id = py "x" ∧ rule'.enabled = true ∧
      rule'.actions = [.setTweak (.str (py "sound")) (.str (py "default"))] ∧
      ∀ lib ctx, rule'.matches lib ctx = PushRule.matches lib ⟨.override, py "x", false, true, [],
        [.roomMemberCount 2 (py "==")], [.setTweak (.str (py "sound")) (.str (py "default"))]⟩ ctx :=
  @resent_rule_is_read .override
    (.obj [(py "rule_id", .str (py "x")), (py "enabled", .bool true),
      (py "conditions", .arr [.obj [(py "kind", .str (py "room_member_count")),
        (py "is", .str (py "2"))]]),
      (py "actions", .arr [.obj [(py "set_tweak", .str (py "sound"))]])])
    (by decide +kernel) _ rfl

end Nio.Events
