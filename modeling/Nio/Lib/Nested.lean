import Mathlib.Data.List.Basic

/-!
# Nested transactions and mirrored values

A database inside nested transactions is the current version of its tables together with one saved
version for each open transaction. A mirrored value is a copy of a part of the tables that is kept
beside them so that reading it costs no query.

* `Nested` — the versions, with `enter`, `release` and `rollback`
* `Nested.Rel` — a relation between two databases that are nested alike
* `Nested.Ascending` — versions that only grow, so that what is committed only grows
* `Mirrors` — a copy that is absent or equal to its view of the tables
-/

namespace Nio.Lib

variable {T U V : Type}

/-- The tables and, innermost first, what they were when each open transaction began. -/
structure Nested (T : Type) where
  current : T
  saved : List T
  deriving DecidableEq, Repr

namespace Nested

/-- A database without an open transaction. -/
def idle (t : T) : Nested T := ⟨t, []⟩

def depth (n : Nested T) : Nat := n.saved.length

def enter (n : Nested T) : Nested T := ⟨n.current, n.current :: n.saved⟩

/-- A transaction that ends and keeps its changes: a commit when it is the outermost. -/
def release (n : Nested T) : Nested T := ⟨n.current, n.saved.tail⟩

/-- A transaction that ends and loses its changes. -/
def rollback (n : Nested T) : Nested T := ⟨n.saved.headD n.current, n.saved.tail⟩

def update (n : Nested T) (f : T → T) : Nested T := { n with current := f n.current }

/-- The tables that survive when the process stops now. -/
def committed (n : Nested T) : T := n.saved.getLastD n.current

/-- Outside of blocks the value is committed. -/
theorem committed_of_depth {n : Nested T} (h : n.depth = 0) : n.committed = n.current := by
  rw [committed, List.length_eq_zero_iff.mp h]
  rfl

/-- Entering a block commits nothing. -/
theorem committed_enter (n : Nested T) : n.enter.committed = n.committed := by
  unfold committed enter
  cases n.saved with
  | nil => rfl
  | cons t ts => simp

/-- Two databases that are nested alike and related version by version. -/
structure Rel (R : T → U → Prop) (n : Nested T) (m : Nested U) : Prop where
  current : R n.current m.current
  saved : List.Forall₂ R n.saved m.saved

variable {R : T → U → Prop} {n : Nested T} {m : Nested U}

/-- Related values are related outside of blocks, -/
theorem Rel.idle {t : T} {u : U} (h : R t u) : Rel R (Nested.idle t) (Nested.idle u) :=
  ⟨h, List.Forall₂.nil⟩

/-- stay so when both enter a block, -/
theorem Rel.enter (h : Rel R n m) : Rel R n.enter m.enter :=
  ⟨h.current, List.Forall₂.cons h.current h.saved⟩

/-- leave it -/
theorem Rel.release (h : Rel R n m) : Rel R n.release m.release := by
  refine ⟨h.current, ?_⟩
  obtain ⟨t, ts⟩ := n
  obtain ⟨u, us⟩ := m
  cases h.saved with
  | nil => exact List.Forall₂.nil
  | cons _ hs => exact hs

/-- or roll it back, -/
theorem Rel.rollback (h : Rel R n m) : Rel R n.rollback m.rollback := by
  obtain ⟨t, ts⟩ := n
  obtain ⟨u, us⟩ := m
  obtain ⟨hc, hs⟩ := h
  cases hs with
  | nil => exact ⟨hc, List.Forall₂.nil⟩
  | cons h hs => exact ⟨h, hs⟩

/-- and when both are written alike. -/
theorem Rel.update {f : T → T} {g : U → U} (h : Rel R n m)
    (hf : R n.current m.current → R (f n.current) (g m.current)) :
    Rel R (n.update f) (m.update g) :=
  ⟨hf h.current, h.saved⟩

/-- What is committed is related too. -/
theorem Rel.committed (h : Rel R n m) : R n.committed m.committed := by
  obtain ⟨t, ts⟩ := n
  obtain ⟨u, us⟩ := m
  obtain ⟨hc, hs⟩ := h
  unfold Nested.committed
  simp only at hc hs ⊢
  induction hs generalizing t u with
  | nil => exact hc
  | cons h _ ih =>
    simp only [List.getLastD_cons]
    exact ih _ _ h

/-! ### Versions that only grow -/

variable {le : T → T → Prop}

/-- Each version is above the ones that were saved before it. -/
def Ascending (le : T → T → Prop) (n : Nested T) : Prop :=
  (n.current :: n.saved).Pairwise fun a b => le b a

theorem Ascending.idle (t : T) : Ascending le (Nested.idle t) := List.pairwise_singleton _ _

theorem Ascending.enter (hrefl : ∀ t, le t t) (h : Ascending le n) : Ascending le n.enter := by
  refine List.pairwise_cons.mpr ⟨fun t ht => ?_, h⟩
  rcases List.mem_cons.mp ht with rfl | ht
  · exact hrefl _
  · exact (List.pairwise_cons.mp h).1 t ht

theorem Ascending.release (h : Ascending le n) : Ascending le n.release := by
  obtain ⟨hc, hs⟩ := List.pairwise_cons.mp h
  exact List.pairwise_cons.mpr
    ⟨fun t ht => hc t (List.mem_of_mem_tail ht), hs.sublist (List.tail_sublist _)⟩

theorem Ascending.rollback (h : Ascending le n) : Ascending le n.rollback := by
  obtain ⟨t, ts⟩ := n
  cases ts with
  | nil => exact h
  | cons u us => exact (List.pairwise_cons.mp h).2

/-- A write upwards keeps the blocks ascending. -/
theorem Ascending.update {f : T → T} (htrans : ∀ a b c, le a b → le b c → le a c)
    (h : Ascending le n) (hf : le n.current (f n.current)) : Ascending le (n.update f) := by
  obtain ⟨hc, hs⟩ := List.pairwise_cons.mp h
  exact List.pairwise_cons.mpr ⟨fun t ht => htrans _ _ _ (hc t ht) hf, hs⟩

/-- The committed value is the current one or one of the saved. -/
theorem committed_mem (n : Nested T) : n.committed = n.current ∨ n.committed ∈ n.saved := by
  obtain ⟨t, ts⟩ := n
  unfold committed
  rcases List.eq_nil_or_concat ts with rfl | ⟨init, last, rfl⟩
  · exact Or.inl rfl
  · right
    simp only [List.concat_eq_append, List.getLastD_concat]
    simp

/-- What is committed lies below the current value. -/
theorem Ascending.committed_le (hrefl : ∀ t, le t t) (h : Ascending le n) :
    le n.committed n.current := by
  rcases n.committed_mem with hc | hc
  · rw [hc]
    exact hrefl _
  · exact (List.pairwise_cons.mp h).1 _ hc

/-- Only the outermost `release` moves the committed version, and it moves it up. -/
theorem Ascending.committed_release (hrefl : ∀ t, le t t) (h : Ascending le n) :
    le n.committed n.release.committed := by
  obtain ⟨t, ts⟩ := n
  cases ts with
  | nil => exact hrefl _
  | cons u us =>
    cases us with
    | nil => exact h.committed_le hrefl
    | cons v vs => exact hrefl _

/-- Rolling a block back commits nothing. -/
theorem committed_rollback (h : n.depth ≠ 0) : n.rollback.committed = n.committed := by
  obtain ⟨t, ts⟩ := n
  cases ts with
  | nil => exact absurd rfl h
  | cons u us => exact List.getLastD_cons.symm

/-- A write commits at most itself. -/
theorem committed_update_le {f : T → T} (hrefl : ∀ t, le t t)
    (hf : le n.current (f n.current)) : le n.committed (n.update f).committed := by
  obtain ⟨t, ts⟩ := n
  cases ts with
  | nil => exact hf
  | cons u us => exact hrefl _

end Nested

/-! ## Mirrored values -/

/-- The copy is absent, or it is what the tables hold. -/
def Mirrors (view : T → V) (copy : Option V) (t : T) : Prop := ∀ v, copy = some v → v = view t

namespace Mirrors

variable {view : T → V} {copy : Option V} {t t' : T}

/-- A dropped copy mirrors any tables: what a failed transaction leaves behind. -/
theorem none : Mirrors view none t := fun _ h => nomatch h

/-- A copy that is read from the tables. -/
theorem load : Mirrors view (some (view t)) t := fun _ h => (Option.some.inj h).symm

/-- A write to another part of the tables. -/
theorem frame (h : Mirrors view copy t) (hv : view t' = view t) : Mirrors view copy t' := by
  intro v hc
  rw [h v hc, hv]

end Mirrors

end Nio.Lib
