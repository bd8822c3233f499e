import Mathlib.Data.List.Perm.Subperm
import Nio.Lib.Table

/-!
# Caches

A cache with room for a number of entries, in the order of their last use: a new entry takes the
place of the one that was not used for the longest time. This is what the documentation of
`cachetools` says of its `LRUCache`, where each entry counts as one.

* `LruCache.Keeps` — what a cache that has room for all keys keeps
* `lookup_record` — the first value of a key stays
-/

namespace Nio.Lib

variable {κ ν : Type} [DecidableEq κ]

/-- The entries, the last one used at the end -/
abbrev LruCache (κ ν : Type) := List (κ × ν)

namespace LruCache

/-- `cache[key]`, which is a use -/
def get (c : LruCache κ ν) (k : κ) : Option (ν × LruCache κ ν) :=
  (lookup Prod.fst k c).map fun p => (p.2, remove Prod.fst k c ++ [p])

/-- `cache[key] = value` of a key that is not there -/
def insert (size : Nat) (c : LruCache κ ν) (k : κ) (v : ν) : LruCache κ ν :=
  c.drop (c.length + 1 - size) ++ [(k, v)]

/-- The value of a key is recorded at its first use and returned from then on. -/
def record (size : Nat) (c : LruCache κ ν) (k : κ) (v : ν) : ν × LruCache κ ν :=
  match c.get k with
  | some found => found
  | none => (v, c.insert size k v)

theorem lookup_get {c c' : LruCache κ ν} {k : κ} {v : ν} (h : c.get k = some (v, c')) (k' : κ) :
    lookup Prod.fst k' c' = lookup Prod.fst k' c := by
  obtain ⟨p, hp, heq⟩ := Option.map_eq_some_iff.mp h
  obtain ⟨rfl, rfl⟩ := Prod.mk.inj heq
  have hkey := key_of_lookup hp
  rw [lookup_append, lookup_remove, lookup_cons, lookup_nil, hkey]
  by_cases hk : k = k'
  · subst hk
    rw [if_pos rfl, if_pos rfl, Option.none_or, hp]
  · rw [if_neg hk, if_neg (Ne.symm hk), Option.or_none]

/-- The keys of a cache are distinct, and there is room for all keys of a list. -/
structure Keeps (size : Nat) (keys : List κ) (c : LruCache κ ν) : Prop where
  nodup : (c.map Prod.fst).Nodup
  subset : c.map Prod.fst ⊆ keys
  room : keys.dedup.length ≤ size

variable {size : Nat} {keys : List κ} {c : LruCache κ ν}

/-- A key that is not there yet is one more. -/
theorem Keeps.length_lt (h : Keeps size keys c) {k : κ} (hk : k ∈ keys)
    (hnew : lookup Prod.fst k c = none) : c.length + 1 ≤ size := by
  have hnot : k ∉ c.map Prod.fst := by
    intro hin
    obtain ⟨p, hp, rfl⟩ := List.mem_map.mp hin
    rw [lookup_of_mem h.nodup hp] at hnew
    cases hnew
  have hsub : k :: c.map Prod.fst ⊆ keys.dedup := by
    intro x hx
    rcases List.mem_cons.mp hx with rfl | hx
    · exact List.mem_dedup.mpr hk
    · exact List.mem_dedup.mpr (h.subset hx)
  have hnodup : (k :: c.map Prod.fst).Nodup := List.nodup_cons.mpr ⟨hnot, h.nodup⟩
  have hlen := (hnodup.subperm hsub).length_le
  rw [List.length_cons, List.length_map] at hlen
  exact Nat.le_trans hlen h.room

theorem Keeps.insert_eq (h : Keeps size keys c) {k : κ} (hk : k ∈ keys)
    (hnew : lookup Prod.fst k c = none) (v : ν) : c.insert size k v = c ++ [(k, v)] := by
  have hlen := h.length_lt hk hnew
  unfold insert
  rw [Nat.sub_eq_zero_of_le hlen, List.drop_zero]

theorem keeps_record (h : Keeps size keys c) {k : κ} (hk : k ∈ keys) (v : ν) :
    Keeps size keys (c.record size k v).2 := by
  unfold record
  cases hget : c.get k with
  | some found =>
    obtain ⟨p, hp, rfl⟩ := Option.map_eq_some_iff.mp hget
    have hpk := key_of_lookup hp
    dsimp only
    refine ⟨?_, ?_, h.room⟩
    · rw [List.map_append, List.map_singleton, List.nodup_append]
      refine ⟨nodup_remove h.nodup, List.nodup_singleton _, ?_⟩
      rintro a ha b hb rfl
      obtain ⟨q, hq, rfl⟩ := List.mem_map.mp ha
      have hne : q.1 ≠ k := by simpa using (List.mem_filter.mp hq).2
      exact hne ((List.mem_singleton.mp hb).trans hpk)
    · intro x hx
      rw [List.map_append, List.mem_append, List.map_singleton, List.mem_singleton] at hx
      rcases hx with hx | rfl
      · obtain ⟨q, hq, rfl⟩ := List.mem_map.mp hx
        exact h.subset (List.mem_map_of_mem (List.mem_of_mem_filter hq))
      · exact h.subset (List.mem_map_of_mem (mem_of_lookup hp))
  | none =>
    have hnew : lookup Prod.fst k c = none := Option.map_eq_none_iff.mp hget
    dsimp only
    rw [h.insert_eq hk hnew]
    refine ⟨?_, ?_, h.room⟩
    · rw [List.map_append, List.map_singleton, List.nodup_append]
      refine ⟨h.nodup, List.nodup_singleton _, ?_⟩
      rintro a ha b hb rfl
      obtain ⟨p, hp, rfl⟩ := List.mem_map.mp ha
      have hpk : p.1 = k := List.mem_singleton.mp hb
      rw [← hpk, lookup_of_mem h.nodup hp] at hnew
      cases hnew
    · intro x hx
      rw [List.map_append, List.mem_append, List.map_singleton, List.mem_singleton] at hx
      rcases hx with hx | rfl
      · exact h.subset hx
      · exact hk

/-- The value that is returned is found from then on, and no other value is lost. -/
theorem lookup_record (h : Keeps size keys c) {k : κ} (hk : k ∈ keys) (v : ν) (k' : κ) :
    lookup Prod.fst k' (c.record size k v).2 =
      if k' = k then some (k, (c.record size k v).1) else lookup Prod.fst k' c := by
  unfold record
  cases hget : c.get k with
  | some found =>
    obtain ⟨v', c'⟩ := found
    dsimp only
    rw [lookup_get hget]
    split
    · next heq =>
      subst heq
      obtain ⟨p, hp, hpair⟩ := Option.map_eq_some_iff.mp hget
      obtain ⟨rfl, -⟩ := Prod.mk.inj hpair
      have hkey := key_of_lookup hp
      rw [hp, ← hkey]
    · rfl
  | none =>
    have hnew : lookup Prod.fst k c = none := Option.map_eq_none_iff.mp hget
    dsimp only
    rw [h.insert_eq hk hnew, lookup_append, lookup_cons, lookup_nil]
    by_cases heq : k' = k
    · subst heq
      rw [if_pos rfl, if_pos rfl, hnew, Option.none_or]
    · rw [if_neg heq, if_neg (Ne.symm heq), Option.or_none]

/-- What is found stays. -/
theorem lookup_record_of_some (h : Keeps size keys c) {k : κ} (hk : k ∈ keys) (v : ν) {k' : κ}
    {p : κ × ν} (hp : lookup Prod.fst k' c = some p) :
    lookup Prod.fst k' (c.record size k v).2 = some p := by
  rw [lookup_record h hk]
  split
  · next heq =>
    subst heq
    have hkey := key_of_lookup hp
    unfold record get
    rw [hp, ← hkey]
    rfl
  · exact hp

end LruCache

end Nio.Lib
