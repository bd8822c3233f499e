import Nio.Py.SchemaFields

/-!
# What a schema returns

A schema fills in defaults. What it returns is accepted as it is.

* `Schema.properties_field` — the fields of an accepted object
* `Schema.properties_present` — an object that lacks no default
-/

namespace Nio.Py

theorem Json.Distinct.obj {kvs : List (Str × Json)} (hkeys : (kvs.map (·.1)).Nodup)
    (hvalues : ∀ q ∈ kvs, q.2.Distinct) : (Json.obj kvs).Distinct := by
  unfold Json.Distinct Json.all
  rw [Bool.and_eq_true]
  exact ⟨by simpa only [Json.nodeDistinct, decide_eq_true_eq] using hkeys,
    Json.allPairs_iff.mpr hvalues⟩

namespace Schema

/-- Defaults that are distinct keep an object's keys distinct. -/
theorem distinct_setDefaults {ps : List Property}
    (hps : ∀ p ∈ ps, ∀ d, p.default = some d → d.Distinct) {kvs : List (Str × Json)}
    (hkvs : (Json.obj kvs).Distinct) : (Json.obj (setDefaults ps kvs)).Distinct := by
  unfold setDefaults
  induction ps generalizing kvs with
  | nil => exact hkvs
  | cons p ps ih =>
    rw [List.forall_mem_cons] at hps
    rw [List.foldl_cons]
    refine ih hps.2 ?_
    split
    · exact hkvs
    · next d hd =>
      split
      · exact hkvs
      · refine Json.Distinct.obj (nodup_dictSet hkvs.keys _ _) fun q hq => ?_
        rcases mem_dictSet hq with hq | rfl
        · exact hkvs.value hq
        · exact hps.1 d hd

/-- The properties of an object that plain schemas accept are accepted as they are. -/
theorem checkProperties_field {ps : List Property} (hps : ∀ p ∈ ps, Plain p.schema)
    {kvs kvs' : List (Str × Json)} (hkvs : (Json.obj kvs).Distinct)
    (h : checkProperties ps kvs = some kvs') :
    ∀ p ∈ ps, ∀ x, dictGet? kvs (py p.name) = some x → p.schema x = some x := by
  induction ps with
  | nil => exact List.forall_mem_nil _
  | cons p ps ih =>
    rw [List.forall_mem_cons] at hps
    unfold checkProperties at h
    cases hv : dictGet? kvs (py p.name) with
    | none =>
      rw [hv] at h
      refine List.forall_mem_cons.mpr ⟨fun x hx => ?_, ih hps.2 h⟩
      rw [hv] at hx
      cases hx
    | some v =>
      simp only [hv] at h
      obtain ⟨v', hv', hrest⟩ := Option.bind_eq_some_iff.mp h
      obtain rfl := hps.1.eq (hkvs.value (mem_of_dictGet? hv)) hv'
      rw [dictSet_self hkvs.keys hv] at hrest
      refine List.forall_mem_cons.mpr ⟨fun x hx => ?_, ih hps.2 hrest⟩
      obtain rfl := Option.some.inj (hv.symm.trans hx)
      exact hv'

/-- An accepted object with its defaults -/
theorem properties_field {ps : List Property} (hps : ∀ p ∈ ps, Plain p.schema)
    (hdefaults : ∀ p ∈ ps, ∀ d, p.default = some d → d.Distinct) {v w : Json}
    (hv : v.Distinct) (hobj : type .object v = some v) (h : properties ps v = some w) :
    ∃ kvs, w = .obj kvs ∧ (Json.obj kvs).Distinct ∧
      ∀ p ∈ ps, ∀ x, dictGet? kvs (py p.name) = some x → p.schema x = some x := by
  obtain ⟨kvs, rfl⟩ := (accepts_of_eq hobj).object
  obtain ⟨kvs', hkvs', rfl⟩ := Option.map_eq_some_iff.mp h
  have hdistinct := distinct_setDefaults hdefaults hv
  obtain rfl := checkProperties_plain hps hdistinct hkvs'
  exact ⟨_, rfl, hdistinct, checkProperties_field hps hdistinct hkvs'⟩

theorem setDefaults_present {ps : List Property} {kvs : List (Str × Json)}
    (h : ∀ p ∈ ps, p.default.isSome → (dictGet? kvs (py p.name)).isSome) :
    setDefaults ps kvs = kvs := by
  unfold setDefaults
  induction ps with
  | nil => rfl
  | cons p ps ih =>
    rw [List.forall_mem_cons] at h
    rw [List.foldl_cons]
    cases hd : p.default with
    | none => exact ih h.2
    | some d =>
      dsimp only
      rw [if_pos (h.1 (by rw [hd]; rfl))]
      exact ih h.2

/-- An object that has what the schema would set and whose properties pass comes back as it was. -/
theorem properties_present {ps : List Property} {kvs : List (Str × Json)}
    (hdefaults : ∀ p ∈ ps, p.default.isSome → (dictGet? kvs (py p.name)).isSome)
    (hkvs : (kvs.map (·.1)).Nodup)
    (h : ∀ p ∈ ps, ∀ v, dictGet? kvs (py p.name) = some v → p.schema v = some v) :
    properties ps (.obj kvs) = some (.obj kvs) := by
  simp only [properties, setDefaults_present hdefaults, checkProperties_self hkvs h,
    Option.map_some]

theorem of_mapItems_self {s : Schema} {vs : List Json} (h : mapItems s vs = some vs) :
    ∀ v ∈ vs, s v = some v := by
  induction vs with
  | nil => exact List.forall_mem_nil _
  | cons v vs ih =>
    obtain ⟨v', hv', hrest⟩ := Option.bind_eq_some_iff.mp h
    obtain ⟨vs', hvs', heq⟩ := Option.map_eq_some_iff.mp hrest
    obtain ⟨rfl, rfl⟩ := List.cons.inj heq
    exact List.forall_mem_cons.mpr ⟨hv', ih hvs'⟩

/-- A list whose items are accepted as they are -/
theorem array_items_self {s : Schema} {v : Json}
    (h : Schema.all [.type .array, .items s] v = some v) :
    ∃ vs, v = .arr vs ∧ ∀ x ∈ vs, s x = some x := by
  cases v with
  | arr vs =>
    refine ⟨vs, rfl, of_mapItems_self ?_⟩
    simpa [Schema.all, Schema.items] using h
  | _ => cases h

end Schema

end Nio.Py
