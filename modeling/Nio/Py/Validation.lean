import Nio.Py.JsonSchema
import Nio.Py.Dict

/-!
# Instances that a schema leaves alone

A schema answers with the instance and its defaults. An instance whose properties all pass and
that lacks no default comes back as it was.

* `Schema.properties_self`, `Schema.required_self` — the keywords that look at an object's keys
-/

namespace Nio.Py

/-- Storing what a key already holds changes nothing. -/
theorem dictSet_self {kvs : List (Str × Json)} (hkvs : (kvs.map (·.1)).Nodup) {k : Str} {v : Json}
    (h : dictGet? kvs k = some v) : dictSet kvs k v = kvs := by
  have hany : (kvs.any fun p => p.1 = k) = true := by
    refine List.any_eq_true.mpr ⟨(k, v), mem_of_dictGet? h, ?_⟩
    simp
  unfold dictSet
  rw [if_pos hany]
  refine (List.map_congr_left fun p hp => ?_).trans (List.map_id kvs)
  split
  next hk =>
    have hv := dictGet?_of_mem hkvs hp
    rw [hk, h] at hv
    rw [← hk]
    exact Prod.ext rfl (Option.some.inj hv)
  next => rfl

namespace Schema

/-- A value that every schema returns as it is passes them all as it is. -/
theorem all_self {ss : List Schema} {v : Json} (h : ∀ s ∈ ss, s v = some v) :
    all ss v = some v := by
  induction ss with
  | nil => rfl
  | cons s ss ih =>
    unfold all
    rw [h s List.mem_cons_self]
    exact ih fun t ht => h t (List.mem_cons_of_mem _ ht)

@[simp] theorem type_object (kvs : List (Str × Json)) : type .object (.obj kvs) = some (.obj kvs) :=
  rfl

@[simp] theorem type_array (vs : List Json) : type .array (.arr vs) = some (.arr vs) := rfl

/-- Without defaults nothing is added. -/
theorem setDefaults_self {ps : List Property} (hps : ∀ p ∈ ps, p.default = none)
    (kvs : List (Str × Json)) : setDefaults ps kvs = kvs := by
  unfold setDefaults
  induction ps with
  | nil => rfl
  | cons p ps ih =>
    rw [List.foldl_cons, hps p List.mem_cons_self]
    exact ih fun q hq => hps q (List.mem_cons_of_mem _ hq)

/-- Properties whose schemas return their values as they are leave the object as it is. -/
theorem checkProperties_self {ps : List Property} {kvs : List (Str × Json)}
    (hkvs : (kvs.map (·.1)).Nodup)
    (h : ∀ p ∈ ps, ∀ v, dictGet? kvs (py p.name) = some v → p.schema v = some v) :
    checkProperties ps kvs = some kvs := by
  induction ps with
  | nil => rfl
  | cons p ps ih =>
    have hrest := ih fun q hq => h q (List.mem_cons_of_mem _ hq)
    unfold checkProperties
    cases hv : dictGet? kvs (py p.name) with
    | none => exact hrest
    | some v =>
      simp only [h p List.mem_cons_self v hv, Option.bind_some, dictSet_self hkvs hv]
      exact hrest

/-- So does `properties` when no property has a default. -/
theorem properties_self {ps : List Property} (hps : ∀ p ∈ ps, p.default = none)
    {kvs : List (Str × Json)} (hkvs : (kvs.map (·.1)).Nodup)
    (h : ∀ p ∈ ps, ∀ v, dictGet? kvs (py p.name) = some v → p.schema v = some v) :
    properties ps (.obj kvs) = some (.obj kvs) := by
  simp only [properties, setDefaults_self hps, checkProperties_self hkvs h, Option.map_some]

/-- An object with the required keys passes as it is. -/
theorem required_self {names : List String} {kvs : List (Str × Json)}
    (h : ∀ k ∈ names, (dictGet? kvs (py k)).isSome) :
    required names (.obj kvs) = some (.obj kvs) := by
  unfold required check
  rw [if_pos (List.all_eq_true.mpr h)]

/-- An array whose items pass as they are passes as it is. -/
theorem mapItems_self {s : Schema} {vs : List Json} (h : ∀ v ∈ vs, s v = some v) :
    mapItems s vs = some vs := by
  induction vs with
  | nil => rfl
  | cons v vs ih =>
    unfold mapItems
    rw [h v List.mem_cons_self, ih fun w hw => h w (List.mem_cons_of_mem _ hw)]
    rfl

end Schema

end Nio.Py
