import Nio.Py.Validation

/-!
# What a schema says of the instance that it accepts

An accepted instance has the fields that the schema requires, and each field that the schema
describes is accepted in its turn. A schema without defaults returns the instance as it was.

* `Schema.Plain` — the schemas without defaults
* `Schema.Accepts`, `Schema.accepts_object` — the fields of an accepted object
-/

namespace Nio.Py

namespace Json

/-- An object of distinct keys has distinct keys at its top, -/
theorem Distinct.keys {kvs : List (Str × Json)} (h : (Json.obj kvs).Distinct) :
    (kvs.map (·.1)).Nodup := by
  unfold Distinct all at h
  rw [Bool.and_eq_true] at h
  simpa only [nodeDistinct, decide_eq_true_eq] using h.1

/-- in its values -/
theorem Distinct.value {kvs : List (Str × Json)} (h : (Json.obj kvs).Distinct) {q : Str × Json}
    (hq : q ∈ kvs) : q.2.Distinct := by
  unfold Distinct all at h
  rw [Bool.and_eq_true] at h
  exact allPairs_iff.mp h.2 q hq

/-- and in the items of arrays. -/
theorem Distinct.item {vs : List Json} (h : (Json.arr vs).Distinct) {v : Json} (hv : v ∈ vs) :
    v.Distinct := by
  unfold Distinct all at h
  rw [Bool.and_eq_true] at h
  exact allItems_iff.mp h.2 v hv

instance (v : Json) : Decidable v.Distinct := inferInstanceAs (Decidable (_ = true))

end Json

namespace Schema

/-! ## Keywords that only check -/

def Checking (s : Schema) : Prop := ∃ p, s = check p

@[simp] theorem checking_type (t : JsonType) : Checking (type t) := ⟨_, rfl⟩

@[simp] theorem checking_required (names : List String) : Checking (required names) := ⟨_, rfl⟩

@[simp] theorem checking_negate (s : Schema) : Checking (negate s) := ⟨_, rfl⟩

@[simp] theorem checking_anyOf (ss : List Schema) : Checking (anyOf ss) := ⟨_, rfl⟩

@[simp] theorem checking_enum (values : List String) : Checking (enum values) := ⟨_, rfl⟩

@[simp] theorem checking_format (p : Str → Bool) : Checking (format p) := ⟨_, rfl⟩

@[simp] theorem checking_minimum (n : Int) : Checking (minimum n) := ⟨_, rfl⟩

@[simp] theorem prop_name (name : String) (s : Schema) : (prop name s).name = name := rfl

@[simp] theorem prop_default (name : String) (s : Schema) : (prop name s).default = none := rfl

@[simp] theorem prop_schema (name : String) (s : Schema) : (prop name s).schema = s := rfl

/-! ## Schemas without defaults -/

/-- A schema that returns what it accepts, provided that dictionaries have distinct keys. -/
class Plain (s : Schema) : Prop where
  eq : ∀ ⦃v w : Json⦄, v.Distinct → s v = some w → w = v

instance plain_check (p : Json → Bool) : Plain (check p) where
  eq v w _ h := by
    unfold check at h
    split at h
    · exact (Option.some.inj h).symm
    · cases h

instance plain_type (t : JsonType) : Plain (type t) := plain_check _

instance plain_nullable (t : JsonType) : Plain (nullable t) := plain_check _

instance plain_types (ts : List JsonType) : Plain (types ts) := plain_check _

instance plain_negate (s : Schema) : Plain (negate s) := plain_check _

instance plain_required (names : List String) : Plain (required names) := plain_check _

instance plain_enum (values : List String) : Plain (enum values) := plain_check _

instance plain_format (p : Str → Bool) : Plain (format p) := plain_check _

instance plain_minimum (n : Int) : Plain (minimum n) := plain_check _

instance plain_all_nil : Plain (all []) := ⟨fun _ _ _ h => (Option.some.inj h).symm⟩

instance plain_all_cons {s : Schema} {ss : List Schema} [hs : Plain s] [hss : Plain (all ss)] :
    Plain (all (s :: ss)) where
  eq v w hv h := by
    obtain ⟨u, hu, hrest⟩ := Option.bind_eq_some_iff.mp h
    obtain rfl := hs.eq hv hu
    exact hss.eq hv hrest

/-- Properties without defaults, whose schemas are plain. -/
class PlainProperties (ps : List Property) : Prop where
  all : ∀ p ∈ ps, p.default = none ∧ Plain p.schema

instance plainProperties_nil : PlainProperties [] := ⟨by simp⟩

instance plainProperties_cons {name : String} {s : Schema} {ps : List Property} [hs : Plain s]
    [hps : PlainProperties ps] : PlainProperties (prop name s :: ps) :=
  ⟨List.forall_mem_cons.mpr ⟨⟨rfl, hs⟩, hps.all⟩⟩

/-- Properties without defaults leave the object as it is. -/
theorem checkProperties_plain {ps : List Property} (h : ∀ p ∈ ps, Plain p.schema)
    {kvs kvs' : List (Str × Json)} (hkvs : (Json.obj kvs).Distinct)
    (hc : checkProperties ps kvs = some kvs') : kvs' = kvs := by
  induction ps with
  | nil => exact (Option.some.inj hc).symm
  | cons p ps ih =>
    have hps : ∀ q ∈ ps, Plain q.schema := fun q hq => h q (List.mem_cons_of_mem _ hq)
    unfold checkProperties at hc
    cases hv : dictGet? kvs (py p.name) with
    | none =>
      rw [hv] at hc
      exact ih hps hc
    | some v =>
      simp only [hv] at hc
      obtain ⟨v', hv', hrest⟩ := Option.bind_eq_some_iff.mp hc
      -- the value is set to itself
      obtain rfl := (h p List.mem_cons_self).eq (hkvs.value (mem_of_dictGet? hv)) hv'
      rw [dictSet_self hkvs.keys hv] at hrest
      exact ih hps hrest

instance plain_properties {ps : List Property} [hps : PlainProperties ps] :
    Plain (properties ps) where
  eq v w hv hw := by
    cases v with
    | obj kvs =>
      simp only [properties, setDefaults_self fun p hp => (hps.all p hp).1,
        Option.map_eq_some_iff] at hw
      obtain ⟨kvs', hkvs', rfl⟩ := hw
      rw [checkProperties_plain (fun p hp => (hps.all p hp).2) hv hkvs']
    | _ => exact (Option.some.inj hw).symm

/-- So do items -/
theorem mapItems_plain {s : Schema} (hs : Plain s) {vs ws : List Json}
    (hvs : ∀ v ∈ vs, v.Distinct) (hm : mapItems s vs = some ws) : ws = vs := by
  induction vs generalizing ws with
  | nil => exact (Option.some.inj hm).symm
  | cons v vs ih =>
    unfold mapItems at hm
    obtain ⟨v', hv', hrest⟩ := Option.bind_eq_some_iff.mp hm
    obtain ⟨ws', hws', rfl⟩ := Option.map_eq_some_iff.mp hrest
    rw [hs.eq (hvs v List.mem_cons_self) hv',
      ih (fun w hw => hvs w (List.mem_cons_of_mem _ hw)) hws']

instance plain_items {s : Schema} [hs : Plain s] : Plain (items s) where
  eq v w hv hw := by
    cases v with
    | arr vs =>
      obtain ⟨ws, hws, rfl⟩ := Option.map_eq_some_iff.mp hw
      rw [mapItems_plain hs (fun v hv' => hv.item hv') hws]
    | _ => exact (Option.some.inj hw).symm

/-- and values. -/
theorem mapValues_plain {s : Schema} (hs : Plain s) {p : Str → Bool} {kvs kvs' : List (Str × Json)}
    (hkvs : ∀ q ∈ kvs, q.2.Distinct) (hm : mapValues s p kvs = some kvs') : kvs' = kvs := by
  induction kvs generalizing kvs' with
  | nil => exact (Option.some.inj hm).symm
  | cons q kvs ih =>
    obtain ⟨k, v⟩ := q
    have hrest : ∀ r, mapValues s p kvs = some r → r = kvs :=
      fun r => ih fun q hq => hkvs q (List.mem_cons_of_mem _ hq)
    unfold mapValues at hm
    split at hm
    · obtain ⟨v', hv', hmap⟩ := Option.bind_eq_some_iff.mp hm
      obtain ⟨r, hr, rfl⟩ := Option.map_eq_some_iff.mp hmap
      obtain rfl := hs.eq (hkvs (k, v) List.mem_cons_self) hv'
      rw [hrest r hr]
    · obtain ⟨r, hr, rfl⟩ := Option.map_eq_some_iff.mp hm
      rw [hrest r hr]

instance plain_patternProperties {p : Str → Bool} {s : Schema} [hs : Plain s] :
    Plain (patternProperties p s) where
  eq v w hv hw := by
    cases v with
    | obj kvs =>
      obtain ⟨kvs', hkvs', rfl⟩ := Option.map_eq_some_iff.mp hw
      rw [mapValues_plain hs (fun q hq => hv.value hq) hkvs']
    | _ => exact (Option.some.inj hw).symm

/-! ## The fields of an accepted object -/

/-- What a schema returns for some instance. -/
def Accepts (s : Schema) (w : Json) : Prop := ∃ v, s v = some w

theorem accepts_of_eq {s : Schema} {v w : Json} (h : s v = some w) : Accepts s w := ⟨v, h⟩

/-- A keyword that only checks holds of what it returns. -/
theorem Accepts.check {p : Json → Bool} {w : Json} (h : Accepts (check p) w) : p w = true := by
  obtain ⟨v, hv⟩ := h
  unfold Schema.check at hv
  split at hv
  next hp => rwa [← Option.some.inj hv]
  next => cases hv

theorem Accepts.type {t : JsonType} {w : Json} (h : Accepts (type t) w) : t.holds w = true :=
  h.check

/-- What is accepted as text is a text, -/
theorem Accepts.string {w : Json} (h : Accepts (Schema.type .string) w) : ∃ s, w = .str s := by
  cases w with
  | str s => exact ⟨s, rfl⟩
  | _ => cases h.type

/-- as an object an object -/
theorem Accepts.object {w : Json} (h : Accepts (Schema.type .object) w) :
    ∃ kvs, w = .obj kvs := by
  cases w with
  | obj kvs => exact ⟨kvs, rfl⟩
  | _ => cases h.type

/-- and as an array an array. -/
theorem Accepts.array {w : Json} (h : Accepts (Schema.type .array) w) : ∃ vs, w = .arr vs := by
  cases w with
  | arr vs => exact ⟨vs, rfl⟩
  | _ => cases h.type

/-- Every item of an accepted array is accepted. -/
theorem mapItems_accepts {s : Schema} {vs ws : List Json} (h : mapItems s vs = some ws) :
    ∀ w ∈ ws, Accepts s w := by
  induction vs generalizing ws with
  | nil =>
    obtain rfl := Option.some.inj h
    exact List.forall_mem_nil _
  | cons v vs ih =>
    obtain ⟨v', hv', hrest⟩ := Option.bind_eq_some_iff.mp h
    obtain ⟨ws', hws', rfl⟩ := Option.map_eq_some_iff.mp hrest
    exact List.forall_mem_cons.mpr ⟨accepts_of_eq hv', ih hws'⟩

theorem mapItems_isSome {s : Schema} {vs ws : List Json} (h : mapItems s vs = some ws) :
    ∀ v ∈ vs, ∃ w, s v = some w := by
  induction vs generalizing ws with
  | nil => exact List.forall_mem_nil _
  | cons v vs ih =>
    obtain ⟨v', hv', hrest⟩ := Option.bind_eq_some_iff.mp h
    obtain ⟨ws', hws', rfl⟩ := Option.map_eq_some_iff.mp hrest
    exact List.forall_mem_cons.mpr ⟨⟨v', hv'⟩, ih hws'⟩

/-- The items of an accepted list are what the schema of its items returns. -/
theorem Accepts.items {s : Schema} {w : Json}
    (h : Accepts (Schema.all [.type .array, .items s]) w) :
    ∃ ws, w = .arr ws ∧ ∀ x ∈ ws, Accepts s x := by
  obtain ⟨v, h⟩ := h
  obtain ⟨v₁, hv₁, h⟩ := Option.bind_eq_some_iff.mp h
  obtain ⟨v₂, hv₂, h⟩ := Option.bind_eq_some_iff.mp h
  obtain rfl := Option.some.inj h
  obtain ⟨vs, rfl⟩ := (accepts_of_eq hv₁).array
  obtain ⟨ws, hws, rfl⟩ := Option.map_eq_some_iff.mp hv₂
  exact ⟨ws, rfl, mapItems_accepts hws⟩

/-- Keywords that only check are met by what they let through. -/
theorem all_checks {ss : List Schema} (hss : ∀ s ∈ ss, Checking s) {v w : Json}
    (h : all ss v = some w) : w = v ∧ ∀ s ∈ ss, Accepts s w := by
  induction ss with
  | nil => exact ⟨(Option.some.inj h).symm, by simp⟩
  | cons s ss ih =>
    obtain ⟨p, rfl⟩ := hss s List.mem_cons_self
    obtain ⟨u, hu, hrest⟩ := Option.bind_eq_some_iff.mp h
    have huv : u = v := by
      unfold Schema.check at hu
      split at hu
      · exact (Option.some.inj hu).symm
      · cases hu
    subst huv
    obtain ⟨rfl, hall⟩ := ih (fun t ht => hss t (List.mem_cons_of_mem _ ht)) hrest
    exact ⟨rfl, List.forall_mem_cons.mpr ⟨⟨_, hu⟩, hall⟩⟩

/-- A string with further keywords that check it. -/
theorem Accepts.stringAnd {ss : List Schema} (hss : ∀ s ∈ ss, Checking s) {w : Json}
    (h : Accepts (all (Schema.type .string :: ss)) w) : ∃ s, w = .str s := by
  obtain ⟨v, hv⟩ := h
  have hall := (all_checks (List.forall_mem_cons.mpr ⟨checking_type _, hss⟩) hv).2
  exact (hall _ List.mem_cons_self).string

theorem dictGet?_setDefaults {ps : List Property} {kvs : List (Str × Json)} {k : Str}
    (h : (dictGet? kvs k).isSome) : (dictGet? (setDefaults ps kvs) k).isSome := by
  unfold setDefaults
  induction ps generalizing kvs with
  | nil => exact h
  | cons p ps ih =>
    rw [List.foldl_cons]
    refine ih ?_
    split
    · exact h
    · split
      · exact h
      · rw [dictGet?_dictSet]
        split
        · rfl
        · exact h

/-- A property with a default is there afterwards. -/
theorem setDefaults_default {ps : List Property} {kvs : List (Str × Json)} {p : Property}
    (hp : p ∈ ps) (hd : p.default.isSome) :
    (dictGet? (setDefaults ps kvs) (py p.name)).isSome := by
  induction ps generalizing kvs with
  | nil => cases hp
  | cons q ps ih =>
    rcases List.mem_cons.mp hp with rfl | hp
    · obtain ⟨d, hd⟩ := Option.isSome_iff_exists.mp hd
      unfold setDefaults
      rw [List.foldl_cons]
      refine dictGet?_setDefaults ?_
      simp only [hd]
      split
      next h => exact h
      next => simp [dictGet?_dictSet]
    · exact ih hp

/-- A key is there before the check exactly if it is there afterwards. -/
theorem isSome_checkProperties {ps : List Property} {kvs kvs' : List (Str × Json)}
    (h : checkProperties ps kvs = some kvs') (k : Str) :
    (dictGet? kvs' k).isSome = (dictGet? kvs k).isSome := by
  induction ps generalizing kvs with
  | nil => rw [Option.some.inj h]
  | cons p ps ih =>
    unfold checkProperties at h
    cases hv : dictGet? kvs (py p.name) with
    | none =>
      rw [hv] at h
      exact ih h
    | some v =>
      simp only [hv] at h
      obtain ⟨v', -, hrest⟩ := Option.bind_eq_some_iff.mp h
      rw [ih hrest, dictGet?_dictSet]
      split
      next hk => rw [hk, hv]; rfl
      next => rfl

/-- A key that the properties do not name keeps its value. -/
theorem checkProperties_other {ps : List Property} {kvs kvs' : List (Str × Json)}
    (h : checkProperties ps kvs = some kvs') {name : String} (hk : name ∉ ps.map (·.name)) :
    dictGet? kvs' (py name) = dictGet? kvs (py name) := by
  induction ps generalizing kvs with
  | nil => rw [Option.some.inj h]
  | cons p ps ih =>
    rw [List.map_cons, List.mem_cons, not_or] at hk
    unfold checkProperties at h
    cases hv : dictGet? kvs (py p.name) with
    | none =>
      rw [hv] at h
      exact ih h hk.2
    | some v =>
      simp only [hv] at h
      obtain ⟨v', -, hrest⟩ := Option.bind_eq_some_iff.mp h
      rw [ih hrest hk.2, dictGet?_dictSet, if_neg fun he => hk.1 (py_inj.mp he)]

/-- A property of the checked object is accepted by its schema. -/
theorem checkProperties_accepts {ps : List Property} (hps : (ps.map (·.name)).Nodup)
    {kvs kvs' : List (Str × Json)} (h : checkProperties ps kvs = some kvs') {p : Property}
    (hp : p ∈ ps) {w : Json} (hw : dictGet? kvs' (py p.name) = some w) : Accepts p.schema w := by
  induction ps generalizing kvs with
  | nil => cases hp
  | cons q ps ih =>
    rw [List.map_cons, List.nodup_cons] at hps
    have hfirst := h
    unfold checkProperties at h
    cases hv : dictGet? kvs (py q.name) with
    | none =>
      rw [hv] at h
      rcases List.mem_cons.mp hp with rfl | hp
      · have hsome := isSome_checkProperties hfirst (py p.name)
        simp [hw, hv] at hsome
      · exact ih hps.2 h hp
    | some v =>
      simp only [hv] at h
      obtain ⟨v', hv', hrest⟩ := Option.bind_eq_some_iff.mp h
      rcases List.mem_cons.mp hp with rfl | hp
      · rw [checkProperties_other hrest hps.1, dictGet?_dictSet, if_pos rfl] at hw
        obtain rfl := Option.some.inj hw
        exact ⟨v, hv'⟩
      · exact ih hps.2 hrest hp

/-- The keys of an object that a schema accepts. -/
theorem keeps_object {ps : List Property} {ss : List Schema}
    (hss : ∀ s ∈ ss, Checking s) {v w : Json}
    (h : all (Schema.type .object :: properties ps :: ss) v = some w) {k : Str}
    (hk : (v.get? k).isSome) : (w.get? k).isSome := by
  obtain ⟨v₁, hv₁, h⟩ := Option.bind_eq_some_iff.mp h
  obtain ⟨v₂, hv₂, h⟩ := Option.bind_eq_some_iff.mp h
  obtain ⟨rfl, -⟩ := all_checks hss h
  cases v with
  | obj kvs =>
    obtain rfl := (Option.some.inj hv₁).symm
    obtain ⟨kvs', hkvs', rfl⟩ := Option.map_eq_some_iff.mp hv₂
    exact (isSome_checkProperties hkvs' k).trans (dictGet?_setDefaults hk)
  | _ => cases hk

/-- An accepted object: its described fields, its defaults, and the keywords that follow. -/
theorem accepts_object {ps : List Property} {ss : List Schema} (hps : (ps.map (·.name)).Nodup)
    (hss : ∀ s ∈ ss, Checking s) {w : Json}
    (h : Accepts (all (Schema.type .object :: properties ps :: ss)) w) :
    ∃ kvs, w = .obj kvs ∧
      (∀ p ∈ ps, ∀ x, dictGet? kvs (py p.name) = some x → Accepts p.schema x) ∧
      (∀ p ∈ ps, p.default.isSome → (dictGet? kvs (py p.name)).isSome) ∧
      ∀ s ∈ ss, Accepts s (.obj kvs) := by
  obtain ⟨v, h⟩ := h
  obtain ⟨v₁, hv₁, h⟩ := Option.bind_eq_some_iff.mp h
  obtain ⟨v₂, hv₂, h⟩ := Option.bind_eq_some_iff.mp h
  obtain ⟨rfl, hall⟩ := all_checks hss h
  obtain ⟨kvs, rfl⟩ := (accepts_of_eq hv₁).object
  obtain ⟨kvs', hkvs', rfl⟩ := Option.map_eq_some_iff.mp hv₂
  refine ⟨kvs', rfl, fun p hp x hx => checkProperties_accepts hps hkvs' hp hx,
    fun p hp hd => ?_, hall⟩
  rw [isSome_checkProperties hkvs']
  exact setDefaults_default hp hd

/-- The same for one property, given by its place. -/
theorem accepts_field {ps : List Property} {kvs : List (Str × Json)}
    (h : ∀ p ∈ ps, ∀ x, dictGet? kvs (py p.name) = some x → Accepts p.schema x) (i : Nat)
    {p : Property} (hp : ps[i]? = some p) {x : Json} (hx : dictGet? kvs (py p.name) = some x) :
    Accepts p.schema x :=
  h p (List.mem_of_getElem? hp) x hx

/-- A required key is there. -/
theorem Accepts.required {names : List String} {kvs : List (Str × Json)}
    (h : Accepts (required names) (.obj kvs)) (name : String) (hn : name ∈ names) :
    ∃ x, dictGet? kvs (py name) = some x :=
  Option.isSome_iff_exists.mp (List.all_eq_true.mp h.check name hn)

end Schema

end Nio.Py
