import Nio.Lib.Table

/-!
# Parts of a table

A reader of a table sees the rows with some property, and a value for each. A write to the table is
a write to what the reader sees, or does not show there at all.

* `filter_replace_others`, `filter_insertIgnore_others` — writes of rows outside the part
* `view_replace`, `view_insertIgnore`, `view_updateWhere` — writes of rows in the part
* `foldl_replace_keys` — a sequence of `INSERT OR REPLACE` with different keys
-/

namespace Nio.Lib

variable {α β κ μ : Type} [DecidableEq κ] [DecidableEq μ] {key : α → κ} {key' : β → μ}
  {p : α → Bool} {f : α → β} {r : α} {rows : List α}

/-! ## Rows outside the part -/

section Others

variable {ν : Type} [DecidableEq ν] (column : α → ν) (v : ν)

/-- Rows with another value in the column are not seen to be replaced, -/
theorem filter_replace_others (hr : column r ≠ v) (h : ∀ x ∈ rows, key x = key r → column x ≠ v) :
    (replace key r rows).filter (fun x => column x = v) = rows.filter fun x => column x = v := by
  unfold replace
  rw [List.filter_append, List.filter_cons_of_neg (by simp [hr]), List.filter_nil, List.append_nil,
    List.filter_filter]
  refine List.filter_congr fun x hx => ?_
  by_cases hk : key x = key r
  · simp [h x hx hk]
  · simp [hk]

/-- inserted, -/
theorem filter_insertIgnore_others (hr : column r ≠ v) :
    (insertIgnore key r rows).filter (fun x => column x = v) =
      rows.filter fun x => column x = v := by
  unfold insertIgnore
  split
  · rfl
  · rw [List.filter_append, List.filter_cons_of_neg (by simp [hr]), List.filter_nil,
      List.append_nil]

/-- updated -/
theorem filter_updateWhere_others {k : κ} {g : α → α} (hg : ∀ x, column (g x) = column x)
    (h : ∀ x ∈ rows, key x = k → column x ≠ v) :
    (updateWhere key k g rows).filter (fun x => column x = v) =
      rows.filter fun x => column x = v := by
  unfold updateWhere
  induction rows with
  | nil => rfl
  | cons x rows ih =>
    have hrest := ih fun y hy => h y (List.mem_cons_of_mem _ hy)
    rw [List.map_cons]
    by_cases hk : key x = k
    · have hx := h x List.mem_cons_self hk
      rw [if_pos hk, List.filter_cons_of_neg (by simp [hg, hx]),
        List.filter_cons_of_neg (by simp [hx]), hrest]
    · rw [if_neg hk, List.filter_cons, List.filter_cons, hrest]

/-- or removed. -/
theorem filter_remove_others {k : κ} (h : ∀ x ∈ rows, key x = k → column x ≠ v) :
    (remove key k rows).filter (fun x => column x = v) = rows.filter fun x => column x = v := by
  unfold remove
  rw [List.filter_filter]
  refine List.filter_congr fun x hx => ?_
  by_cases hk : key x = k
  · simp [h x hx hk]
  · simp [hk]

end Others

/-! ## Rows in the part -/

/-- A replacement is a replacement in the view, -/
theorem view_replace (hr : p r = true)
    (hkey : ∀ x ∈ rows, p x = true → (key x = key r ↔ key' (f x) = key' (f r))) :
    ((replace key r rows).filter p).map f = replace key' (f r) ((rows.filter p).map f) := by
  unfold replace
  rw [List.filter_append, List.filter_cons_of_pos hr, List.filter_nil, List.map_append,
    List.map_singleton, List.filter_map, List.filter_filter, List.filter_filter]
  congr 2
  refine List.filter_congr fun x hx => ?_
  cases hp : p x with
  | false => simp
  | true => simp [hkey x hx hp]

/-- an insert is one -/
theorem view_insertIgnore (hr : p r = true) (hpart : ∀ x ∈ rows, key x = key r → p x = true)
    (hkey : ∀ x ∈ rows, p x = true → (key x = key r ↔ key' (f x) = key' (f r))) :
    ((insertIgnore key r rows).filter p).map f =
      insertIgnore key' (f r) ((rows.filter p).map f) := by
  have hsome : (lookup key' (key' (f r)) ((rows.filter p).map f)).isSome ↔
      (lookup key (key r) rows).isSome := by
    rw [lookup_isSome, lookup_isSome]
    constructor
    · rintro ⟨y, hy, hk⟩
      obtain ⟨x, hx, rfl⟩ := List.mem_map.mp hy
      obtain ⟨hx, hp⟩ := List.mem_filter.mp hx
      exact ⟨x, hx, (hkey x hx hp).mpr hk⟩
    · rintro ⟨x, hx, hk⟩
      have hp := hpart x hx hk
      exact ⟨f x, List.mem_map_of_mem (List.mem_filter.mpr ⟨hx, hp⟩), (hkey x hx hp).mp hk⟩
  unfold insertIgnore
  by_cases h : (lookup key (key r) rows).isSome
  · rw [if_pos h, if_pos (hsome.mpr h)]
  · rw [if_neg h, if_neg fun h' => h (hsome.mp h'), List.filter_append,
      List.filter_cons_of_pos hr, List.filter_nil, List.map_append, List.map_singleton]

/-- An update that changes the values of the part: those of the key by `h`, the others not. -/
theorem view_updateWhere {k : κ} {k' : μ} {g : α → α} {f' : α → β} {h : β → β}
    (hp : ∀ x, p (g x) = p x)
    (hkey : ∀ x ∈ rows, p x = true → (key x = k ↔ key' (f x) = k'))
    (hset : ∀ x ∈ rows, p x = true → key x = k → f' (g x) = h (f x))
    (hother : ∀ x ∈ rows, p x = true → key x ≠ k → f' x = f x) :
    ((updateWhere key k g rows).filter p).map f' =
      updateWhere key' k' h ((rows.filter p).map f) := by
  unfold updateWhere
  induction rows with
  | nil => rfl
  | cons x rows ih =>
    have hrest := ih (fun y hy => hkey y (List.mem_cons_of_mem _ hy))
      (fun y hy => hset y (List.mem_cons_of_mem _ hy))
      (fun y hy => hother y (List.mem_cons_of_mem _ hy))
    have hpx : p (if key x = k then g x else x) = p x := by
      split
      · exact hp x
      · rfl
    rw [List.map_cons, List.filter_cons, List.filter_cons, hpx]
    cases hx : p x with
    | false => simpa using hrest
    | true =>
      rw [if_pos rfl, if_pos rfl, List.map_cons, List.map_cons, List.map_cons, hrest]
      by_cases hk : key x = k
      · rw [if_pos hk, if_pos ((hkey x List.mem_cons_self hx).mp hk),
          hset x List.mem_cons_self hx hk]
      · rw [if_neg hk, if_neg fun h' => hk ((hkey x List.mem_cons_self hx).mpr h'),
          hother x List.mem_cons_self hx hk]

/-- and so is a removal. -/
theorem view_remove {k : κ} {k' : μ}
    (hkey : ∀ x ∈ rows, p x = true → (key x = k ↔ key' (f x) = k')) :
    ((remove key k rows).filter p).map f = remove key' k' ((rows.filter p).map f) := by
  unfold remove
  rw [List.filter_map, List.filter_filter, List.filter_filter]
  congr 1
  refine List.filter_congr fun x hx => ?_
  cases hp : p x with
  | false => simp
  | true => simp [hkey x hx hp]

/-- When nothing else is there under the key, the two writes are one. -/
theorem insertIgnore_eq_upsert (h : ∀ x ∈ rows, key x = key r → x = r) :
    insertIgnore key r rows = upsert key r rows := by
  unfold insertIgnore upsert updateWhere
  split
  · refine (List.map_id rows).symm.trans (List.map_congr_left fun x hx => ?_)
    split
    next hk => exact h x hx hk
    · rfl
  · rfl

/-- An update after an insert that may have been ignored -/
theorem updateWhere_insertIgnore {r' : α} (h : key r' = key r) :
    updateWhere key (key r) (fun _ => r) (insertIgnore key r' rows) = upsert key r rows := by
  unfold insertIgnore upsert
  rw [h]
  split
  · rfl
  next hnone =>
    have hrows : updateWhere key (key r) (fun _ => r) rows = rows := by
      unfold updateWhere
      refine (List.map_congr_left fun x hx => ?_).trans (List.map_id rows)
      rw [if_neg fun hk => hnone (lookup_isSome.mpr ⟨x, hx, hk⟩)]
      rfl
    unfold updateWhere at hrows ⊢
    rw [List.map_append, hrows, List.map_singleton, if_pos h]

theorem mem_insertIgnore {x : α} (h : x ∈ insertIgnore key r rows) : x ∈ rows ∨ x = r := by
  unfold insertIgnore at h
  split at h
  · exact Or.inl h
  · exact (List.mem_append.mp h).imp_right List.mem_singleton.mp

/-! ## Sequences of writes -/

/-- Replacing rows with distinct keys puts them behind those that stay. -/
theorem foldl_replace_keys {xs : List α} (h : (xs.map key).Nodup) :
    xs.foldl (fun rows x => replace key x rows) rows =
      rows.filter (fun x => key x ∉ xs.map key) ++ xs := by
  induction xs generalizing rows with
  | nil => simp
  | cons x xs ih =>
    obtain ⟨hx, hxs⟩ := List.nodup_cons.mp h
    rw [List.foldl_cons, ih hxs]
    unfold replace
    rw [List.filter_append, List.filter_filter, List.filter_cons_of_pos (by simpa using hx),
      List.filter_nil, List.append_assoc, List.singleton_append]
    congr 1
    refine List.filter_congr fun y _ => ?_
    rw [List.map_cons, ← Bool.decide_and]
    refine decide_eq_decide.mpr ?_
    rw [List.mem_cons, not_or, and_comm]

end Nio.Lib
