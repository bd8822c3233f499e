import Nio.Py.JsonRoundtrip

/-!
# Looking up what was set

* `py_inj` — keys that are literals are compared as literals
* `dictGet?_dictSet`, `dictGet?_dictErase` — lookups after a key was set or removed
-/

namespace Nio.Py

variable {α : Type}

/-- Two literals are one string only if they are the same literal. -/
theorem py_inj {s t : String} : py s = py t ↔ s = t := by
  constructor
  · intro h
    have hchars : s.toList = t.toList := by
      refine List.map_injective_iff.mpr ?_ h
      intro c d hc
      exact CodePoint.ofChar_inj.mp hc
    exact String.toList_inj.mp hchars
  · rintro rfl
    rfl

theorem dictGet?_cons (p : Str × α) (d : List (Str × α)) (k : Str) :
    dictGet? (p :: d) k = if p.1 = k then some p.2 else dictGet? d k := by
  unfold dictGet?
  rw [List.find?_cons]
  by_cases h : p.1 = k
  · simp [h]
  · simp [h]

/-- A lookup misses exactly the keys that the dictionary does not have. -/
theorem dictGet?_eq_none_iff {d : List (Str × α)} {k : Str} :
    dictGet? d k = none ↔ k ∉ d.map (·.1) := by
  induction d with
  | nil => simp [dictGet?]
  | cons p d ih =>
    rw [dictGet?_cons, List.map_cons, List.mem_cons, not_or, ← ih]
    by_cases h : p.1 = k
    · simp [h]
    · rw [if_neg h]
      exact ⟨fun hd => ⟨fun he => h he.symm, hd⟩, fun hd => hd.2⟩

/-- A value that is found stands in the dictionary with its key. -/
theorem mem_of_dictGet? {d : List (Str × α)} {k : Str} {v : α} (h : dictGet? d k = some v) :
    (k, v) ∈ d := by
  unfold dictGet? at h
  obtain ⟨q, hq, rfl⟩ := Option.map_eq_some_iff.mp h
  have hk : q.1 = k := by simpa using List.find?_some hq
  rw [← hk]
  exact List.mem_of_find?_eq_some hq

/-- With distinct keys a pair of the dictionary is found under its key. -/
theorem dictGet?_of_mem {d : List (Str × α)} (hd : (d.map (·.1)).Nodup) {p : Str × α}
    (hp : p ∈ d) : dictGet? d p.1 = some p.2 := by
  induction d with
  | nil => cases hp
  | cons q d ih =>
    rw [List.map_cons, List.nodup_cons] at hd
    rw [dictGet?_cons]
    rcases List.mem_cons.mp hp with rfl | hp
    · rw [if_pos rfl]
    · have hne : q.1 ≠ p.1 := fun h => hd.1 (h ▸ List.mem_map_of_mem hp)
      rw [if_neg hne, ih hd.2 hp]

theorem dictGet?_append_singleton (d : List (Str × α)) (k k' : Str) (v : α)
    (h : k ∉ d.map (·.1)) :
    dictGet? (d ++ [(k, v)]) k' = if k' = k then some v else dictGet? d k' := by
  induction d with
  | nil =>
    rw [List.nil_append, dictGet?_cons]
    simp only [eq_comm]
  | cons p d ih =>
    rw [List.map_cons, List.mem_cons, not_or] at h
    rw [List.cons_append, dictGet?_cons, dictGet?_cons, ih h.2]
    by_cases hp : p.1 = k'
    · rw [if_pos hp, if_pos hp, if_neg fun hk => h.1 (hk.symm.trans hp.symm)]
    · rw [if_neg hp, if_neg hp]

/-- The value under one key is replaced where it stands. -/
theorem dictGet?_map_replace (d : List (Str × α)) (k k' : Str) (v : α) :
    dictGet? (d.map fun p => if p.1 = k then (k, v) else p) k' =
      if k' = k ∧ k ∈ d.map (·.1) then some v else dictGet? d k' := by
  induction d with
  | nil => simp
  | cons p d ih =>
    rw [List.map_cons, dictGet?_cons, dictGet?_cons, ih]
    simp only [List.map_cons, List.mem_cons]
    by_cases hp : p.1 = k
    · subst hp
      by_cases hk : k' = p.1
      · subst hk; simp
      · simp [hk, Ne.symm hk]
    · by_cases hk : k' = k
      · have hne : ¬ k = p.1 := fun h => hp h.symm
        by_cases hm : k ∈ d.map (·.1)
        · simp [hk, hp, hm]
        · simp only [hk, hp, hm, hne, or_self, and_false, if_false]
      · simp [hp, hk]

/-- `d[k] = v` is seen under `k` and nowhere else. -/
theorem dictGet?_dictSet (d : List (Str × α)) (k k' : Str) (v : α) :
    dictGet? (dictSet d k v) k' = if k' = k then some v else dictGet? d k' := by
  have hany : (d.any fun p => p.1 = k) = true ↔ k ∈ d.map (·.1) := by
    simp [List.any_eq_true, List.mem_map]
  unfold dictSet
  by_cases hk : k ∈ d.map (·.1)
  · rw [if_pos (hany.mpr hk), dictGet?_map_replace]
    simp only [hk, and_true]
  · rw [if_neg fun h => hk (hany.mp h), dictGet?_append_singleton d k k' v hk]

/-- `del d[k]` is seen under `k` and nowhere else. -/
theorem dictGet?_dictErase (d : List (Str × α)) (k k' : Str) :
    dictGet? (dictErase d k) k' = if k' = k then none else dictGet? d k' := by
  unfold dictErase
  induction d with
  | nil => simp [dictGet?]
  | cons p d ih =>
    rw [List.filter_cons, dictGet?_cons]
    by_cases hp : p.1 = k
    · subst hp
      by_cases hk : k' = p.1
      · simp_all
      · simp_all [Ne.symm hk]
    · by_cases hk : k' = k
      · subst hk; simp_all [dictGet?_cons]
      · simp_all [dictGet?_cons]

theorem nodup_dictErase {d : List (Str × α)} (hd : (d.map (·.1)).Nodup) (k : Str) :
    ((dictErase d k).map (·.1)).Nodup :=
  hd.sublist (List.filter_sublist.map _)

/-- A change of the value under one key. -/
theorem dictGet?_map_modify (d : List (Str × α)) (k k' : Str) (f : α → α) :
    dictGet? (d.map fun p => if p.1 = k then (p.1, f p.2) else p) k' =
      if k' = k then (dictGet? d k').map f else dictGet? d k' := by
  induction d with
  | nil => simp [dictGet?]
  | cons p d ih =>
    rw [List.map_cons, dictGet?_cons, dictGet?_cons, ih]
    by_cases hp : p.1 = k
    · rw [if_pos hp]
      by_cases hk : k' = k
      · simp [hk, hp]
      · simp [hk, show ¬ p.1 = k' from fun h => hk (h.symm.trans hp)]
    · rw [if_neg hp]
      by_cases hk : k' = k
      · simp [hk, hp]
      · simp [hk]

/-- Changing a value keeps the keys and their order. -/
theorem keys_map_modify (d : List (Str × α)) (k : Str) (f : α → α) :
    (d.map fun p => if p.1 = k then (p.1, f p.2) else p).map (·.1) = d.map (·.1) := by
  rw [List.map_map]
  refine List.map_congr_left fun p _ => ?_
  by_cases hp : p.1 = k
  · simp [hp]
  · simp [hp]

end Nio.Py
