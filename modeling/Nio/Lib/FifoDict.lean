import Mathlib.Data.List.Perm.Subperm
import Nio.Lib.Table

/-!
# Dictionaries that forget their oldest keys

A dictionary in insertion order. A key that is set again keeps its place, and the oldest keys go
when there are too many.

* `FifoDict.After` — an entry, and what may stand after it
* `after_set_other` — an entry stays while fewer keys than there is room for came after it
-/

namespace Nio.Lib

variable {κ ν : Type} [DecidableEq κ]

/-- The entries, the oldest one first -/
abbrev FifoDict (κ ν : Type) := List (κ × ν)

namespace FifoDict

/-- `d[key] = value`, and then `del d[next(iter(d))]` while there are more than `size` entries -/
def set (size : Nat) (d : FifoDict κ ν) (k : κ) (v : ν) : FifoDict κ ν :=
  let d := upsert Prod.fst (k, v) d
  d.drop (d.length - size)

/-- The keys are distinct, and there are not too many. -/
structure Bounded (size : Nat) (d : FifoDict κ ν) : Prop where
  nodup : (d.map Prod.fst).Nodup
  length_le : d.length ≤ size

/-- The entry is there, and every key after it is one of the list. -/
def After (d : FifoDict κ ν) (k : κ) (v : ν) (others : List κ) : Prop :=
  ∃ older newer, d = older ++ (k, v) :: newer ∧ newer.map Prod.fst ⊆ others

variable {size : Nat} {d : FifoDict κ ν} {k k' : κ} {v v' : ν} {others others' : List κ}

theorem set_of_mem (hb : Bounded size d) (hk : k ∈ d.map Prod.fst) :
    set size d k v = updateWhere Prod.fst k (fun _ => (k, v)) d := by
  have hsome : (lookup Prod.fst k d).isSome := by
    obtain ⟨p, hp, rfl⟩ := List.mem_map.mp hk
    exact lookup_isSome.mpr ⟨p, hp, rfl⟩
  have hupsert : upsert Prod.fst (k, v) d = updateWhere Prod.fst k (fun _ => (k, v)) d := if_pos hsome
  have hlength : (updateWhere Prod.fst k (fun _ => (k, v)) d).length = d.length := List.length_map _
  unfold set
  dsimp only
  rw [hupsert, hlength, Nat.sub_eq_zero_of_le hb.length_le, List.drop_zero]

theorem set_of_notMem (hk : k ∉ d.map Prod.fst) :
    set size d k v = (d ++ [(k, v)]).drop (d.length + 1 - size) := by
  have hnone : lookup Prod.fst k d = none := lookup_eq_none_of_notMem hk
  have hupsert : upsert Prod.fst (k, v) d = d ++ [(k, v)] := by
    unfold upsert
    rw [hnone]
    rfl
  unfold set
  dsimp only
  rw [hupsert, List.length_append, List.length_singleton]

theorem bounded_set (hb : Bounded size d) : Bounded size (set size d k v) := by
  refine ⟨?_, ?_⟩
  · have hkeys := @nodup_upsert _ _ _ Prod.fst (k, v) d hb.nodup
    unfold set
    dsimp only
    rw [List.map_drop]
    exact (List.drop_sublist _ _).nodup hkeys
  · unfold set
    rw [List.length_drop]
    omega

/-- An entry after a write is the new one or an old one. -/
theorem mem_set {p : κ × ν} (hp : p ∈ set size d k v) : p = (k, v) ∨ p ∈ d :=
  mem_upsert (List.mem_of_mem_drop hp)

omit [DecidableEq κ] in
theorem mem_of_after (h : After d k v others) : (k, v) ∈ d := by
  obtain ⟨older, newer, rfl, -⟩ := h
  simp

omit [DecidableEq κ] in
theorem After.mono (h : After d k v others) (hsub : others ⊆ others') : After d k v others' := by
  obtain ⟨older, newer, heq, hnewer⟩ := h
  exact ⟨older, newer, heq, fun _ ho => hsub (hnewer ho)⟩

/-- A key that is set again keeps its place. -/
theorem after_set_self (hb : Bounded size d) (h : After d k v others) :
    After (set size d k v') k v' others := by
  have hmem : k ∈ d.map Prod.fst := List.mem_map.mpr ⟨(k, v), mem_of_after h, rfl⟩
  obtain ⟨older, newer, rfl, hnewer⟩ := h
  have hkeys := @map_key_updateWhere_const _ _ _ Prod.fst (k, v') newer
  rw [set_of_mem hb hmem]
  unfold updateWhere at hkeys ⊢
  rw [List.map_append, List.map_cons, if_pos rfl]
  exact ⟨_, _, rfl, by rwa [hkeys]⟩

/-- A new key comes last. -/
theorem after_set_new (hsize : 0 < size) (hb : Bounded size d) (hk : k ∉ d.map Prod.fst) :
    After (set size d k v) k v [] := by
  have hlength := hb.length_le
  rw [set_of_notMem hk, List.drop_append_of_le_length (by omega)]
  exact ⟨_, [], rfl, List.Subset.refl _⟩

/-- An entry stays as long as there is room for it beside all keys that came after it. -/
theorem after_set_other (hb : Bounded size d) (h : After d k v others) (hk : k' ≠ k)
    (hmem : k' ∈ others) (hroom : others.dedup.length < size) :
    After (set size d k' v') k v others := by
  obtain ⟨older, newer, rfl, hnewer⟩ := h
  by_cases hin : k' ∈ (older ++ (k, v) :: newer).map Prod.fst
  · have hkeys := @map_key_updateWhere_const _ _ _ Prod.fst (k', v') newer
    rw [set_of_mem hb hin]
    unfold updateWhere at hkeys ⊢
    rw [List.map_append, List.map_cons, if_neg (Ne.symm hk)]
    exact ⟨_, _, rfl, by rwa [hkeys]⟩
  · -- the keys after the entry are distinct keys of the list, and the new one is another
    have hnodup : (newer.map Prod.fst ++ [k']).Nodup := by
      have hall := hb.nodup
      rw [List.map_append, List.map_cons, List.nodup_append] at hall
      refine List.nodup_append.mpr ⟨(List.nodup_cons.mp hall.2.1).2, List.nodup_singleton _, ?_⟩
      rintro x hx y hy rfl
      rw [List.mem_singleton.mp hy] at hx
      exact hin (by rw [List.map_append, List.map_cons]; simp [hx])
    have hsub : newer.map Prod.fst ++ [k'] ⊆ others.dedup := by
      intro x hx
      rcases List.mem_append.mp hx with hx | hx
      · exact List.mem_dedup.mpr (hnewer hx)
      · exact List.mem_dedup.mpr (List.mem_singleton.mp hx ▸ hmem)
    have hcount := (hnodup.subperm hsub).length_le
    rw [List.length_append, List.length_map, List.length_singleton] at hcount
    have hlength := hb.length_le
    rw [List.length_append, List.length_cons] at hlength
    rw [set_of_notMem hin, List.append_assoc, List.length_append, List.length_cons,
      List.drop_append_of_le_length (by omega)]
    refine ⟨_, newer ++ [(k', v')], rfl, ?_⟩
    rw [List.map_append]
    intro x hx
    exact List.mem_dedup.mp (hsub hx)

end FifoDict

end Nio.Lib
