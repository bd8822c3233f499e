import Mathlib.Data.List.Dedup
import Mathlib.Data.List.Induction

/-!
# Keyed tables

A table is a list of rows, oldest first, with a key function. The writes are those of an SQL table
with a unique key and of a dictionary of objects that carry their own key.

* `lookup_insertIgnore`, `lookup_updateWhere`, `lookup_upsert` — what is read back after a write
* `foldl_replace` — a sequence of `INSERT OR REPLACE` keeps the last occurrence of each row
* `dedup_append_eq_right` — when removing the earlier occurrences leaves the second list
-/

namespace Nio.Lib

variable {α κ : Type} [DecidableEq κ] {key : α → κ}

/-- The row with a key -/
def lookup (key : α → κ) (k : κ) (rows : List α) : Option α := rows.find? fun r => key r = k

/-- `INSERT ... ON CONFLICT DO NOTHING` -/
def insertIgnore (key : α → κ) (r : α) (rows : List α) : List α :=
  if (lookup key (key r) rows).isSome then rows else rows ++ [r]

/-- `UPDATE ... SET ... WHERE key = k` -/
def updateWhere (key : α → κ) (k : κ) (f : α → α) (rows : List α) : List α :=
  rows.map fun r => if key r = k then f r else r

/-- `INSERT OR REPLACE`: the new row gets a row id of its own, after all others. -/
def replace (key : α → κ) (r : α) (rows : List α) : List α :=
  rows.filter (fun r' => key r' ≠ key r) ++ [r]

/-- `d.pop(key, None)` -/
def remove (key : α → κ) (k : κ) (rows : List α) : List α := rows.filter fun r => key r ≠ k

/-- `d[key] = value`: a key that is present keeps its place. -/
def upsert (key : α → κ) (r : α) (rows : List α) : List α :=
  if (lookup key (key r) rows).isSome then updateWhere key (key r) (fun _ => r) rows
  else rows ++ [r]

@[simp] theorem lookup_nil (k : κ) : lookup key k [] = none := rfl

theorem lookup_cons (k : κ) (r : α) (rows : List α) :
    lookup key k (r :: rows) = if key r = k then some r else lookup key k rows := by
  unfold lookup
  rw [List.find?_cons]
  by_cases h : key r = k
  · simp [h]
  · simp [h]

/-- A lookup asks the front rows first. -/
theorem lookup_append (k : κ) (rows rows' : List α) :
    lookup key k (rows ++ rows') = (lookup key k rows).or (lookup key k rows') :=
  List.find?_append

/-- A row that is found has the key that was asked for, -/
theorem key_of_lookup {k : κ} {rows : List α} {r : α} (h : lookup key k rows = some r) :
    key r = k := by
  simpa using List.find?_some h

/-- and stands in the table. -/
theorem mem_of_lookup {k : κ} {rows : List α} {r : α} (h : lookup key k rows = some r) :
    r ∈ rows :=
  List.mem_of_find?_eq_some h

/-- A lookup finds a row exactly when one has the key. -/
theorem lookup_isSome {k : κ} {rows : List α} :
    (lookup key k rows).isSome ↔ ∃ r ∈ rows, key r = k := by
  simp [lookup, List.find?_isSome]

/-- `INSERT OR IGNORE` is seen only where the key was free. -/
theorem lookup_insertIgnore (k : κ) (r : α) (rows : List α) :
    lookup key k (insertIgnore key r rows) =
      (lookup key k rows).or (if key r = k then some r else none) := by
  unfold insertIgnore
  by_cases h : (lookup key (key r) rows).isSome
  · rw [if_pos h]
    by_cases hk : key r = k
    · subst hk
      obtain ⟨x, hx⟩ := Option.isSome_iff_exists.mp h
      rw [hx, Option.some_or]
    · rw [if_neg hk, Option.or_none]
  · rw [if_neg h, lookup_append, lookup_cons, lookup_nil]

/-- An update is seen under its key only. -/
theorem lookup_updateWhere (k k' : κ) {f : α → α} (hf : ∀ r, key (f r) = key r) (rows : List α) :
    lookup key k (updateWhere key k' f rows) =
      if k = k' then (lookup key k rows).map f else lookup key k rows := by
  unfold updateWhere
  induction rows with
  | nil => simp
  | cons r rows ih =>
    rw [List.map_cons, lookup_cons, lookup_cons, ih]
    by_cases hr : key r = k'
    · rw [if_pos hr, hf]
      by_cases hk : key r = k
      · rw [if_pos hk, if_pos hk, if_pos (hk.symm.trans hr), Option.map_some]
      · rw [if_neg hk, if_neg hk]
    · rw [if_neg hr]
      by_cases hk : key r = k
      · rw [if_pos hk, if_pos hk, if_neg fun h => hr (hk.trans h)]
      · rw [if_neg hk, if_neg hk]

/-- A new row of the same key takes the place of the old one. -/
theorem lookup_updateWhere_const (k : κ) (r : α) (rows : List α) :
    lookup key k (updateWhere key (key r) (fun _ => r) rows) =
      if k = key r then (lookup key k rows).map fun _ => r else lookup key k rows := by
  unfold updateWhere
  induction rows with
  | nil => simp
  | cons r' rows ih =>
    rw [List.map_cons, lookup_cons, lookup_cons, ih]
    by_cases hr : key r' = key r
    · rw [if_pos hr, hr]
      by_cases hk : key r = k
      · rw [if_pos hk, if_pos hk, if_pos hk.symm, Option.map_some]
      · rw [if_neg hk, if_neg hk]
    · rw [if_neg hr]
      by_cases hk : key r' = k
      · rw [if_pos hk, if_pos hk, if_neg fun h => hr (hk.trans h)]
      · rw [if_neg hk, if_neg hk]

/-- So is an upsert, -/
theorem lookup_upsert (k : κ) (r : α) (rows : List α) :
    lookup key k (upsert key r rows) = if k = key r then some r else lookup key k rows := by
  unfold upsert
  by_cases h : (lookup key (key r) rows).isSome
  · rw [if_pos h, lookup_updateWhere_const]
    by_cases hk : k = key r
    · subst hk
      obtain ⟨x, hx⟩ := Option.isSome_iff_exists.mp h
      rw [if_pos rfl, if_pos rfl, hx, Option.map_some]
    · rw [if_neg hk, if_neg hk]
  · rw [if_neg h, lookup_append, lookup_cons, lookup_nil]
    by_cases hk : k = key r
    · subst hk
      rw [Option.not_isSome_iff_eq_none.mp h, Option.none_or, if_pos rfl]
    · rw [if_neg hk, if_neg (Ne.symm hk), Option.or_none]

theorem lookup_eq_head? (k : κ) (rows : List α) :
    lookup key k rows = (rows.filter fun r => key r = k).head? :=
  (List.head?_filter ..).symm

theorem filter_updateWhere_const (k : κ) (r : α) (rows : List α) :
    (updateWhere key (key r) (fun _ => r) rows).filter (fun x => key x = k) =
      if k = key r then updateWhere key (key r) (fun _ => r) (rows.filter fun x => key x = k)
      else rows.filter fun x => key x = k := by
  unfold updateWhere
  induction rows with
  | nil => simp
  | cons x rows ih =>
    by_cases hk : k = key r
    · subst hk
      rw [if_pos rfl] at ih ⊢
      by_cases hx : key x = key r
      · simpa [hx] using ih
      · simpa [hx] using ih
    · rw [if_neg hk] at ih ⊢
      by_cases hxk : key x = k
      · subst hxk
        simpa [hk] using ih
      · by_cases hx : key x = key r
        · simpa [hx, Ne.symm hk] using ih
        · simpa [hx, hxk] using ih

/-- The rows of a key after one was set -/
theorem filter_upsert (k : κ) (r : α) (rows : List α) :
    (upsert key r rows).filter (fun x => key x = k) =
      if k = key r then upsert key r (rows.filter fun x => key x = k)
      else rows.filter fun x => key x = k := by
  unfold upsert
  by_cases hk : k = key r
  · subst hk
    have hsome : (lookup key (key r) (rows.filter fun x => key x = key r)).isSome =
        (lookup key (key r) rows).isSome := by
      rw [lookup_eq_head?, lookup_eq_head?, List.filter_filter]
      simp
    rw [if_pos rfl, hsome]
    split
    · rw [filter_updateWhere_const, if_pos rfl]
    · rw [List.filter_append]
      simp
  · rw [if_neg hk]
    split
    · rw [filter_updateWhere_const, if_neg hk]
    · rw [List.filter_append]
      simp [Ne.symm hk]

/-- The rows whose key has a property -/
theorem lookup_filter (p : κ → Prop) [DecidablePred p] (k : κ) (rows : List α) :
    lookup key k (rows.filter fun r => p (key r)) = if p k then lookup key k rows else none := by
  induction rows with
  | nil => simp
  | cons r rows ih =>
    rw [List.filter_cons, lookup_cons]
    by_cases hr : p (key r)
    · rw [if_pos (decide_eq_true hr), lookup_cons, ih]
      by_cases hk : key r = k
      · rw [if_pos hk, if_pos hk, if_pos (hk ▸ hr)]
      · rw [if_neg hk, if_neg hk]
    · rw [if_neg (by simpa using hr), ih]
      by_cases hk : key r = k
      · rw [if_neg (hk ▸ hr), if_neg (hk ▸ hr)]
      · rw [if_neg hk]

/-- Two keys that agree on a question find the same row. -/
theorem lookup_congr {κ' : Type} [DecidableEq κ'] {key' : α → κ'} {k : κ} {k' : κ'} {rows : List α}
    (h : ∀ r ∈ rows, key r = k ↔ key' r = k') : lookup key k rows = lookup key' k' rows := by
  induction rows with
  | nil => rfl
  | cons r rows ih =>
    rw [lookup_cons, lookup_cons, ih fun x hx => h x (List.mem_cons_of_mem _ hx)]
    by_cases hk : key r = k
    · rw [if_pos hk, if_pos ((h r List.mem_cons_self).mp hk)]
    · rw [if_neg hk, if_neg fun hk' => hk ((h r List.mem_cons_self).mpr hk')]

/-- and so is a removal. -/
theorem lookup_remove (k k' : κ) (rows : List α) :
    lookup key k (remove key k' rows) = if k = k' then none else lookup key k rows := by
  unfold remove
  rw [lookup_filter (fun k => k ≠ k')]
  by_cases hk : k = k'
  · rw [if_neg (not_not.mpr hk), if_pos hk]
  · rw [if_pos hk, if_neg hk]

theorem mem_upsert {x r : α} {rows : List α} (h : x ∈ upsert key r rows) : x = r ∨ x ∈ rows := by
  unfold upsert updateWhere at h
  by_cases hs : (lookup key (key r) rows).isSome
  · rw [if_pos hs, List.mem_map] at h
    obtain ⟨y, hy, rfl⟩ := h
    by_cases hk : key y = key r
    · rw [if_pos hk]
      exact Or.inl rfl
    · rw [if_neg hk]
      exact Or.inr hy
  · rw [if_neg hs, List.mem_append, List.mem_singleton] at h
    exact h.symm

/-- A change of the rows that keeps their keys -/
theorem lookup_map {β : Type} {key' : β → κ} {f : α → β} (hf : ∀ r, key' (f r) = key r) (k : κ)
    (rows : List α) : lookup key' k (rows.map f) = (lookup key k rows).map f := by
  induction rows with
  | nil => rfl
  | cons r rows ih =>
    rw [List.map_cons, lookup_cons, lookup_cons, ih, hf]
    by_cases hk : key r = k
    · rw [if_pos hk, if_pos hk, Option.map_some]
    · rw [if_neg hk, if_neg hk]

/-! ## Unique keys -/

/-- The keys stay distinct under inserts, -/
theorem nodup_insertIgnore {r : α} {rows : List α} (h : (rows.map key).Nodup) :
    ((insertIgnore key r rows).map key).Nodup := by
  unfold insertIgnore
  by_cases hs : (lookup key (key r) rows).isSome
  · rw [if_pos hs]
    exact h
  · rw [if_neg hs, List.map_append, List.map_singleton, List.nodup_append]
    refine ⟨h, List.nodup_singleton _, ?_⟩
    rintro _ hk _ hr rfl
    obtain ⟨x, hx, hkx⟩ := List.mem_map.mp hk
    exact hs (lookup_isSome.mpr ⟨x, hx, hkx.trans (List.mem_singleton.mp hr)⟩)

theorem map_key_updateWhere {k : κ} {f : α → α} (hf : ∀ r, key (f r) = key r) (rows : List α) :
    (updateWhere key k f rows).map key = rows.map key := by
  unfold updateWhere
  rw [List.map_map]
  refine List.map_congr_left fun r _ => ?_
  by_cases h : key r = k
  · simp [h, hf]
  · simp [h]

theorem map_key_updateWhere_const (r : α) (rows : List α) :
    (updateWhere key (key r) (fun _ => r) rows).map key = rows.map key := by
  unfold updateWhere
  rw [List.map_map]
  refine List.map_congr_left fun x _ => ?_
  by_cases hx : key x = key r
  · simp [hx]
  · simp [hx]

/-- upserts -/
theorem nodup_upsert {r : α} {rows : List α} (h : (rows.map key).Nodup) :
    ((upsert key r rows).map key).Nodup := by
  unfold upsert
  by_cases hs : (lookup key (key r) rows).isSome
  · rwa [if_pos hs, map_key_updateWhere_const]
  · have hinsert := @nodup_insertIgnore _ _ _ key r rows h
    unfold insertIgnore at hinsert
    rw [if_neg hs] at hinsert ⊢
    exact hinsert

theorem nodup_foldl_upsert (rows store : List α) (h : (store.map key).Nodup) :
    ((rows.foldl (fun store r => upsert key r store) store).map key).Nodup := by
  induction rows generalizing store with
  | nil => exact h
  | cons r rows ih => exact ih _ (nodup_upsert h)

/-- and removals. -/
theorem nodup_remove {k : κ} {rows : List α} (h : (rows.map key).Nodup) :
    ((remove key k rows).map key).Nodup :=
  (List.Sublist.map key List.filter_sublist).nodup h

/-- With distinct keys every row is found under its own. -/
theorem lookup_of_mem {rows : List α} (h : (rows.map key).Nodup) {r : α} (hr : r ∈ rows) :
    lookup key (key r) rows = some r := by
  induction rows with
  | nil => cases hr
  | cons r' rows ih =>
    rw [List.map_cons, List.nodup_cons] at h
    rw [lookup_cons]
    rcases List.mem_cons.mp hr with rfl | hr
    · rw [if_pos rfl]
    · have hne : key r' ≠ key r := fun he => h.1 (he ▸ List.mem_map_of_mem hr)
      rw [if_neg hne, ih h.2 hr]

theorem lookup_eq_none_of_notMem {k : κ} {rows : List α} (h : k ∉ rows.map key) :
    lookup key k rows = none := by
  unfold lookup
  refine List.find?_eq_none.mpr fun r hr he => h ?_
  exact List.mem_map.mpr ⟨r, hr, of_decide_eq_true he⟩

/-- At most one row has the key. -/
theorem getLast?_filter_of_nodup {rows : List α} (h : (rows.map key).Nodup) (k : κ)
    (p : α → Bool) :
    (rows.filter fun r => decide (key r = k) && p r).getLast? = (lookup key k rows).filter p := by
  induction rows with
  | nil => rfl
  | cons r rows ih =>
    rw [List.map_cons, List.nodup_cons] at h
    rw [lookup_cons]
    by_cases hk : key r = k
    · have hrest : (rows.filter fun r => decide (key r = k) && p r) = [] := by
        refine List.filter_eq_nil_iff.mpr fun x hx hx' => h.1 ?_
        have hkx : key x = k := of_decide_eq_true (Bool.and_eq_true_iff.mp hx').1
        exact hk.trans hkx.symm ▸ List.mem_map_of_mem hx
      rw [if_pos hk, List.filter_cons, hrest, decide_eq_true hk, Bool.true_and]
      by_cases hp : p r
      · rw [if_pos hp, Option.filter_some, if_pos hp]
        rfl
      · rw [if_neg hp, Option.filter_some, if_neg hp]
        rfl
    · rw [if_neg hk, List.filter_cons, decide_eq_false hk, Bool.false_and, if_neg Bool.false_ne_true,
        ih h.2]

/-- Many upserts are seen as the rows that they wrote. -/
theorem lookup_foldl_upsert (rows store : List α) (h : (rows.map key).Nodup) (k : κ) :
    lookup key k (rows.foldl (fun store r => upsert key r store) store) =
      (lookup key k rows).or (lookup key k store) := by
  induction rows generalizing store with
  | nil => rw [List.foldl_nil, lookup_nil, Option.none_or]
  | cons r rows ih =>
    rw [List.map_cons, List.nodup_cons] at h
    rw [List.foldl_cons, ih _ h.2, lookup_upsert, lookup_cons]
    by_cases hk : key r = k
    · rw [if_pos hk, if_pos hk.symm, lookup_eq_none_of_notMem (hk ▸ h.1), Option.none_or,
        Option.some_or]
    · rw [if_neg hk, if_neg (Ne.symm hk)]

/-! ## Removing earlier occurrences -/

variable {β : Type} [DecidableEq β]

/-- A value at the end drops its earlier places. -/
theorem dedup_concat (xs : List β) (x : β) :
    (xs ++ [x]).dedup = xs.dedup.filter (· ≠ x) ++ [x] := by
  induction xs with
  | nil => simp
  | cons y ys ih =>
    rw [List.cons_append]
    by_cases hy : y ∈ ys
    · rw [List.dedup_cons_of_mem (List.mem_append_left _ hy), List.dedup_cons_of_mem hy, ih]
    · by_cases hxy : y = x
      · subst hxy
        rw [List.dedup_cons_of_mem (by simp), List.dedup_cons_of_notMem hy, ih]
        simp
      · rw [List.dedup_cons_of_notMem (by simp [hy, hxy]), List.dedup_cons_of_notMem hy, ih]
        simp [hxy]

/-- Replaced one after the other, rows stand in the order of their last occurrence. -/
theorem foldl_replace (rows xs : List β) (h : rows.Nodup) :
    xs.foldl (fun rows x => replace id x rows) rows = (rows ++ xs).dedup := by
  induction xs using List.reverseRecOn with
  | nil => rw [List.foldl_nil, List.append_nil, List.Nodup.dedup h]
  | append_singleton xs x ih =>
    rw [List.foldl_concat, ih, ← List.append_assoc, dedup_concat]
    rfl

theorem dedup_dedup_append (xs ys : List β) : (xs.dedup ++ ys).dedup = (xs ++ ys).dedup := by
  induction ys using List.reverseRecOn with
  | nil => rw [List.append_nil, List.append_nil, List.dedup_idem]
  | append_singleton ys y ih =>
    rw [← List.append_assoc, ← List.append_assoc, dedup_concat, dedup_concat, ih]

/-- Filtering commutes with dropping repetitions. -/
theorem filter_dedup (p : β → Bool) (xs : List β) : xs.dedup.filter p = (xs.filter p).dedup := by
  induction xs using List.reverseRecOn with
  | nil => rfl
  | append_singleton xs x ih =>
    rw [dedup_concat, List.filter_append, List.filter_append, List.filter_filter]
    by_cases hx : p x
    · rw [List.filter_cons_of_pos hx, List.filter_nil, dedup_concat, ← ih, List.filter_filter]
      simp only [Bool.and_comm]
    · rw [List.filter_cons_of_neg hx, List.filter_nil, List.append_nil, List.append_nil, ← ih]
      refine List.filter_congr fun y _ => ?_
      by_cases hy : y = x
      · simp [hy, hx]
      · simp [hy]

/-- Only a list without repetitions that covers the front is left alone. -/
theorem dedup_append_eq_right {xs ys : List β} :
    (xs ++ ys).dedup = ys ↔ ys.Nodup ∧ xs ⊆ ys := by
  constructor
  · intro h
    refine ⟨h ▸ List.nodup_dedup _, fun x hx => ?_⟩
    rw [← h]
    exact List.mem_dedup.mpr (List.mem_append_left _ hx)
  · rintro ⟨hn, hs⟩
    rw [List.dedup_append, List.Nodup.dedup hn]
    exact List.Subset.union_eq_right hs

end Nio.Lib
