import Mathlib.Data.List.Basic

/-!
# Advisory locks

The holders of a lock that is either shared or exclusive.

* `Alone.acquire`, `Alone.unlock` — an exclusive holder has the lock for itself
-/

namespace Nio.Lib

inductive LockMode where
  | shared
  | exclusive
  deriving DecidableEq, Repr

variable {κ : Type}

/-- Whether the lock is granted beside those that are held -/
def LockMode.granted (held : List (κ × LockMode)) : LockMode → Bool
  | .shared => held.all fun x => x.2 = .shared
  | .exclusive => held.isEmpty

/-- An exclusive holder has the lock for itself. -/
def Alone (held : List (κ × LockMode)) : Prop :=
  ∀ k x, (k, LockMode.exclusive) ∈ held → x ∈ held → x = (k, LockMode.exclusive)

theorem Alone.nil : Alone ([] : List (κ × LockMode)) := fun _ _ h => nomatch h

/-- A lock that is granted keeps exclusive locks alone. -/
theorem Alone.acquire {held : List (κ × LockMode)} {k : κ} {mode : LockMode} (h : Alone held)
    (hgranted : mode.granted held = true) : Alone ((k, mode) :: held) := by
  intro k' x hk' hx
  cases mode with
  | exclusive =>
    have hnil : held = [] := List.isEmpty_iff.mp hgranted
    subst hnil
    rw [List.mem_singleton] at hk' hx
    rw [hx, hk']
  | shared =>
    have hshared : ∀ y ∈ held, y.2 = .shared := by
      intro y hy
      exact of_decide_eq_true (List.all_eq_true.mp hgranted y hy)
    rcases List.mem_cons.mp hk' with heq | hk'
    · cases congrArg Prod.snd heq
    · cases hshared _ hk'

/-- The lock without one holder -/
def unlock [DecidableEq κ] (k : κ) (held : List (κ × LockMode)) : List (κ × LockMode) :=
  held.filter fun x => x.1 ≠ k

variable [DecidableEq κ]

/-- Unlocking releases the locks of one file. -/
theorem mem_unlock {k : κ} {held : List (κ × LockMode)} {x : κ × LockMode} :
    x ∈ unlock k held ↔ x ∈ held ∧ x.1 ≠ k := by
  unfold unlock
  rw [List.mem_filter, decide_eq_true_eq]

/-- It keeps exclusive locks alone. -/
theorem Alone.unlock {held : List (κ × LockMode)} (h : Alone held) (k : κ) :
    Alone (Nio.Lib.unlock k held) := by
  intro k' x hk' hx
  exact h k' x (mem_unlock.mp hk').1 (mem_unlock.mp hx).1

end Nio.Lib
