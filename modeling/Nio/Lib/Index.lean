import Mathlib.Data.List.Nodup
import Mathlib.Logic.Function.Basic

/-!
# An index of a table

A table gives each key at most one name. Its index lists the keys of each name.

* `Indexes.insert`, `Indexes.erase` — how the index follows the table
-/

namespace Nio.Lib

variable {κ ν : Type} [DecidableEq κ] [DecidableEq ν]

/-- Each name lists exactly the keys that bear it, each once. -/
def Indexes (index : ν → List κ) (bears : κ → Option ν) : Prop :=
  ∀ n, (index n).Nodup ∧ ∀ k, k ∈ index n ↔ bears k = some n

variable {index : ν → List κ} {bears : κ → Option ν}

/-- A key gets a name. -/
theorem Indexes.insert (h : Indexes index bears) {k : κ} (hk : bears k = none) (n : ν) :
    Indexes (Function.update index n (index n ++ [k])) (Function.update bears k (some n)) := by
  intro m
  have hout (m : ν) : k ∉ index m := by
    intro hm
    have hb := ((h m).2 k).mp hm
    rw [hk] at hb
    cases hb
  by_cases hm : m = n
  · subst hm
    rw [Function.update_self]
    refine ⟨List.nodup_append.mpr ⟨(h m).1, List.nodup_singleton k, ?_⟩, fun k' => ?_⟩
    · intro a ha b hb hab
      exact hout m (List.mem_singleton.mp hb ▸ hab ▸ ha)
    · by_cases hk' : k' = k
      · subst hk'
        simp
      · simp [hk', (h m).2 k']
  · rw [Function.update_of_ne hm]
    refine ⟨(h m).1, fun k' => ?_⟩
    by_cases hk' : k' = k
    · subst hk'
      rw [Function.update_self]
      exact ⟨fun hin => absurd hin (hout m), fun he => absurd (Option.some.inj he).symm hm⟩
    · rw [Function.update_of_ne hk']
      exact (h m).2 k'

variable [BEq κ] [LawfulBEq κ]

/-- A key loses its name. -/
theorem Indexes.erase (h : Indexes index bears) {k : κ} {n : ν} (hk : bears k = some n) :
    Indexes (Function.update index n ((index n).erase k)) (Function.update bears k none) := by
  intro m
  by_cases hm : m = n
  · subst hm
    rw [Function.update_self]
    refine ⟨(h m).1.erase k, fun k' => ?_⟩
    rw [(h m).1.mem_erase_iff]
    by_cases hk' : k' = k
    · subst hk'
      simp
    · rw [Function.update_of_ne hk', (h m).2 k']
      exact ⟨fun h => h.2, fun h => ⟨hk', h⟩⟩
  · rw [Function.update_of_ne hm]
    refine ⟨(h m).1, fun k' => ?_⟩
    by_cases hk' : k' = k
    · subst hk'
      rw [Function.update_self, (h m).2 k', hk]
      exact ⟨fun he => absurd (Option.some.inj he).symm hm, fun he => (nomatch he)⟩
    · rw [Function.update_of_ne hk']
      exact (h m).2 k'

/-- A key takes another name. -/
theorem Indexes.rename (h : Indexes index bears) {k : κ} {n : ν} (hk : bears k = some n) (n' : ν) :
    Indexes
      (Function.update (Function.update index n ((index n).erase k)) n'
        (Function.update index n ((index n).erase k) n' ++ [k]))
      (Function.update bears k (some n')) := by
  have hinsert := (h.erase hk).insert (Function.update_self k none bears) n'
  rwa [Function.update_idem] at hinsert

end Nio.Lib
