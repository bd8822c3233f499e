import Nio.Lib.Run
import Nio.Store.KeyFile

/-!
# Atomic writes

Calls of `atomic_write` on one path, in any number of threads and processes, between any two of
their system calls; processes are killed and the power fails at any time.

* `whole_files` — whoever opens the path, and whenever, reads a file that was written to its end
* `created_once` — of the calls that do not overwrite, at most one succeeds
* `trust_file_survives` — a trust file that is opened after that gives the keys of one `_save`, or
  those from before
-/

namespace Nio

open Nio.Lib

/-- A file that the path has referred to -/
inductive Inode where
  /-- the file from before the first call -/
  | initial
  /-- the temporary file of a call -/
  | temporary (h : Nat)
  deriving DecidableEq, Repr

/-- How far a call of `atomic_write` has come -/
inductive WritePhase where
  | idle
  /-- inside the `with` block -/
  | writing
  /-- after `os.fsync` and the end of `os.fdopen` -/
  | synced
  /-- `_create_at` after an `OSError` of `os.link` -/
  | unlinkable
  /-- `_create_at` after `os.path.exists` was false -/
  | absent
  /-- `_create_at` after `os.link` -/
  | linked
  /-- the `except` branch -/
  | failed
  | returned
  | raised
  /-- the process is no more -/
  | killed
  deriving DecidableEq, Repr

structure Writer (α : Type) where
  phase : WritePhase
  overwrite : Bool
  /-- what the body of the `with` block writes -/
  text : List α
  /-- the body comes to its end -/
  ends : Bool
  /-- what has reached the temporary file -/
  data : List α

structure Directory (α : Type) where
  /-- what the path has referred to, the present first -/
  entries : List (Option Inode)
  original : List α
  writers : Nat → Writer α
  /-- the temporary names that exist -/
  temporaries : List Nat
  /-- the file system supports hard links -/
  hardLinks : Bool

inductive WriteAction (α : Type) where
  /-- `tempfile.mkstemp` -/
  | start (h : Nat) (overwrite : Bool) (text : List α) (ends : Bool)
  /-- a part of the text leaves the buffers -/
  | spill (h n : Nat)
  /-- `file.flush`, `os.fsync` and the end of `os.fdopen` -/
  | sync (h : Nat)
  /-- `os.replace` -/
  | replace (h : Nat)
  /-- `os.link` -/
  | link (h : Nat)
  /-- `os.path.exists` -/
  | exists (h : Nat)
  /-- `os.unlink` of the temporary name -/
  | unlink (h : Nat)
  /-- an exception -/
  | raise (h : Nat)
  | kill (h : Nat)
  /-- The last `lost` changes of the directory had not reached the disk. -/
  | powerLoss (lost : Nat)

namespace Directory

variable {α : Type}

def entry (s : Directory α) : Option Inode := s.entries.head?.join

def content (s : Directory α) : Inode → List α
  | .initial => s.original
  | .temporary h => (s.writers h).data

def set (s : Directory α) (h : Nat) (writer : Writer α) : Directory α :=
  { s with writers := fun k => if k = h then writer else s.writers k }

def setPhase (s : Directory α) (h : Nat) (phase : WritePhase) : Directory α :=
  s.set h { s.writers h with phase }

/-- `os.replace` or `os.link` of the temporary file -/
def move (s : Directory α) (h : Nat) (phase : WritePhase) : Directory α :=
  { s with entries := some (.temporary h) :: s.entries }.setPhase h phase

def dropTemporary (s : Directory α) (h : Nat) : Directory α :=
  { s with temporaries := s.temporaries.filter (· ≠ h) }

/-- `os.link`, which raises `FileExistsError` where the path exists and another `OSError` where the
file system has no hard links -/
def link (s : Directory α) (h : Nat) : Directory α :=
  if s.hardLinks then
    if s.entry.isSome then s.setPhase h .failed else s.move h .linked
  else s.setPhase h .unlinkable

def step (s : Directory α) : WriteAction α → Directory α
  | .start h overwrite text ends =>
    if (s.writers h).phase = .idle then
      { s with temporaries := h :: s.temporaries }.set h ⟨.writing, overwrite, text, ends, []⟩
    else s
  | .spill h n =>
    let writer := s.writers h
    if writer.phase = .writing ∧ writer.data.length ≤ n then
      s.set h { writer with data := writer.text.take n }
    else s
  | .sync h =>
    let writer := s.writers h
    if writer.phase = .writing ∧ writer.ends then
      s.set h { writer with phase := .synced, data := writer.text }
    else s
  | .replace h =>
    let writer := s.writers h
    if writer.phase = .synced ∧ writer.overwrite ∨ writer.phase = .absent then
      (s.move h .returned).dropTemporary h
    else s
  | .link h =>
    let writer := s.writers h
    if writer.phase = .synced ∧ writer.overwrite = false then s.link h else s
  | .exists h =>
    if (s.writers h).phase = .unlinkable then
      s.setPhase h (if s.entry.isSome then .failed else .absent)
    else s
  | .unlink h =>
    match (s.writers h).phase with
    | .linked => (s.setPhase h .returned).dropTemporary h
    | .failed => (s.setPhase h .raised).dropTemporary h
    | _ => s
  | .raise h =>
    match (s.writers h).phase with
    | .writing | .synced | .unlinkable | .absent | .linked => s.setPhase h .failed
    | .failed => s.setPhase h .raised
    | _ => s
  | .kill h => if (s.writers h).phase = .idle then s else s.setPhase h .killed
  | .powerLoss lost =>
    { s with
      entries := if lost < s.entries.length then s.entries.drop lost else s.entries
      writers := fun h =>
        if (s.writers h).phase = .idle then s.writers h
        else { s.writers h with phase := .killed } }

/-- A directory in which no call has begun -/
def start (original : Option (List α)) (hardLinks : Bool) : Directory α where
  entries := [original.map fun _ => .initial]
  original := original.getD []
  writers := fun _ => ⟨.idle, false, [], false, []⟩
  temporaries := []
  hardLinks

@[simp] theorem set_writers_self (s : Directory α) (h : Nat) (writer : Writer α) :
    (s.set h writer).writers h = writer := if_pos rfl

theorem set_writers_other {s : Directory α} {h k : Nat} {writer : Writer α} (hk : k ≠ h) :
    (s.set h writer).writers k = s.writers k := if_neg hk

/-! ## Whole files -/

end Directory

/-- The temporary file was written to its end, and is not written any more. -/
structure Writer.Whole {α : Type} (writer : Writer α) : Prop where
  data : writer.data = writer.text
  ends : writer.ends = true
  phase : writer.phase ≠ .idle ∧ writer.phase ≠ .writing

/-- What a step may do to a call: a file that was written to its end stays as it is. -/
def Writer.Keeps {α : Type} (writer writer' : Writer α) : Prop :=
  writer.Whole → writer'.Whole ∧ writer'.data = writer.data

namespace Directory

variable {α : Type} {s : Directory α}

theorem keeps_refl (writer : Writer α) : writer.Keeps writer := fun h => ⟨h, rfl⟩

/-- A call goes on to a later phase. -/
theorem keeps_phase {writer : Writer α} {phase : WritePhase}
    (h : phase ≠ .idle ∧ phase ≠ .writing) : writer.Keeps { writer with phase } :=
  fun hwhole => ⟨⟨hwhole.data, hwhole.ends, h⟩, rfl⟩

/-- A call that still writes has no whole file yet. -/
theorem keeps_of_writing {writer writer' : Writer α}
    (h : writer.phase = .idle ∨ writer.phase = .writing) : writer.Keeps writer' := by
  intro hwhole
  rcases h with h | h
  · exact absurd h hwhole.phase.1
  · exact absurd h hwhole.phase.2

/-- A writer keeps its text when another moves. -/
theorem keeps_set {h : Nat} {writer : Writer α} (hkeeps : (s.writers h).Keeps writer) (k : Nat) :
    (s.writers k).Keeps ((s.set h writer).writers k) := by
  by_cases hk : k = h
  · subst hk
    rw [set_writers_self]
    exact hkeeps
  · rw [set_writers_other hk]
    exact keeps_refl _

theorem keeps_setPhase {h : Nat} {phase : WritePhase} (hphase : phase ≠ .idle ∧ phase ≠ .writing)
    (k : Nat) : (s.writers k).Keeps ((s.setPhase h phase).writers k) :=
  keeps_set (keeps_phase hphase) k

theorem keeps_move {h : Nat} {phase : WritePhase} (hphase : phase ≠ .idle ∧ phase ≠ .writing)
    (k : Nat) : (s.writers k).Keeps ((s.move h phase).writers k) :=
  keeps_set (keeps_phase hphase) k

/-- No step changes the text of a writer that is under way. -/
theorem keeps_step (a : WriteAction α) (k : Nat) : (s.writers k).Keeps ((s.step a).writers k) := by
  cases a with
  | start h overwrite text ends =>
    dsimp only [step]
    split
    · next hidle => exact keeps_set (keeps_of_writing (Or.inl hidle)) k
    · exact keeps_refl _
  | spill h n =>
    dsimp only [step]
    split
    · next hwriting => exact keeps_set (keeps_of_writing (Or.inr hwriting.1)) k
    · exact keeps_refl _
  | sync h =>
    dsimp only [step]
    split
    · next hwriting => exact keeps_set (keeps_of_writing (Or.inr hwriting.1)) k
    · exact keeps_refl _
  | replace h =>
    dsimp only [step]
    split
    · exact keeps_move (by decide) k
    · exact keeps_refl _
  | link h =>
    dsimp only [step]
    split
    · unfold link
      split
      · split
        · exact keeps_setPhase (by decide) k
        · exact keeps_move (by decide) k
      · exact keeps_setPhase (by decide) k
    · exact keeps_refl _
  | «exists» h =>
    dsimp only [step]
    split
    · refine keeps_setPhase ?_ k
      split <;> decide
    · exact keeps_refl _
  | unlink h =>
    dsimp only [step]
    split
    · exact keeps_setPhase (by decide) k
    · exact keeps_setPhase (by decide) k
    · exact keeps_refl _
  | raise h =>
    dsimp only [step]
    split
    case h_7 => exact keeps_refl _
    all_goals exact keeps_setPhase (by decide) k
  | kill h =>
    dsimp only [step]
    split
    · exact keeps_refl _
    · exact keeps_setPhase (by decide) k
  | powerLoss lost =>
    dsimp only [step]
    split
    · exact keeps_refl _
    · exact keeps_phase (by decide)

end Directory

/-- The phases of a call whose file is in place -/
def WritePhase.placed : WritePhase → Bool
  | .linked | .returned => true
  | _ => false

/-- The phases of a call whose file is whole -/
def WritePhase.whole : WritePhase → Bool
  | .synced | .unlinkable | .absent | .linked | .returned => true
  | _ => false

namespace Directory

variable {α : Type} {s : Directory α}

/-- The invariant of every interleaving; `first` is what the path referred to at the beginning. -/
structure Inv (first : Option Inode) (s : Directory α) : Prop where
  entries : ∀ e ∈ s.entries, e = first ∨ ∃ h, e = some (.temporary h) ∧ (s.writers h).Whole
  whole : ∀ h, (s.writers h).phase.whole → (s.writers h).Whole
  placed : ∀ h, (s.writers h).phase.placed → some (.temporary h) ∈ s.entries
  returned : ∀ h, (s.writers h).phase = .returned → h ∉ s.temporaries

variable {first : Option Inode}

/-- One call goes on; its file is whole and in place where its phase says so. -/
theorem Inv.set (inv : s.Inv first) {h : Nat} {writer : Writer α}
    (hkeeps : (s.writers h).Keeps writer) (hwhole : writer.phase.whole → writer.Whole)
    (hplaced : writer.phase.placed → some (.temporary h) ∈ s.entries)
    (hreturned : writer.phase = .returned → h ∉ s.temporaries) : (s.set h writer).Inv first where
  entries e he := by
    rcases inv.entries e he with hfirst | ⟨k, hk, hkwhole⟩
    · exact Or.inl hfirst
    · exact Or.inr ⟨k, hk, (keeps_set hkeeps k hkwhole).1⟩
  whole k := by
    by_cases hk : k = h
    · subst hk
      rw [set_writers_self]
      exact hwhole
    · rw [set_writers_other hk]
      exact inv.whole k
  placed k := by
    by_cases hk : k = h
    · subst hk
      rw [set_writers_self]
      exact hplaced
    · rw [set_writers_other hk]
      exact inv.placed k
  returned k := by
    by_cases hk : k = h
    · subst hk
      rw [set_writers_self]
      exact hreturned
    · rw [set_writers_other hk]
      exact inv.returned k

/-- A call comes to a phase whose file is not in place. -/
theorem Inv.setPhase (inv : s.Inv first) {h : Nat} {phase : WritePhase}
    (hphase : phase ≠ .idle ∧ phase ≠ .writing) (hplaced : phase.placed = false)
    (hwhole : phase.whole → (s.writers h).phase.whole) : (s.setPhase h phase).Inv first := by
  refine inv.set (keeps_phase hphase) (fun hw => ?_) (fun hp => ?_) (fun hr => ?_)
  · exact (keeps_phase hphase (inv.whole h (hwhole hw))).1
  · rw [hplaced] at hp
    cases hp
  · change phase = .returned at hr
    rw [hr] at hplaced
    cases hplaced

/-- The path gets the file of a call that has written it to its end. -/
theorem Inv.move (inv : s.Inv first) {h : Nat} (hwhole : (s.writers h).phase.whole) :
    (s.move h .linked).Inv first := by
  have hinv : Inv first { s with entries := some (.temporary h) :: s.entries } := by
    refine ⟨fun e he => ?_, inv.whole, fun k hk => List.mem_cons_of_mem _ (inv.placed k hk),
      inv.returned⟩
    rcases List.mem_cons.mp he with rfl | he
    · exact Or.inr ⟨h, rfl, inv.whole h hwhole⟩
    · exact inv.entries e he
  refine hinv.set (keeps_phase (by decide)) (fun _ => ?_) (fun _ => List.mem_cons_self)
    (fun hr => nomatch hr)
  exact (@keeps_phase _ (s.writers h) .linked (by decide) (inv.whole h hwhole)).1

/-- Dropping a temporary file keeps the invariant. -/
theorem Inv.dropTemporary (inv : s.Inv first) (h : Nat) : (s.dropTemporary h).Inv first where
  entries := inv.entries
  whole := inv.whole
  placed := inv.placed
  returned k hk hmem := inv.returned k hk (List.mem_filter.mp hmem).1

/-- A call returns once its file is in place. -/
theorem Inv.return (inv : s.Inv first) {h : Nat} (hlinked : (s.writers h).phase = .linked) :
    ((s.setPhase h .returned).dropTemporary h).Inv first := by
  have hwhole : (s.writers h).Whole := inv.whole h (by rw [hlinked]; rfl)
  have hplaced : some (.temporary h) ∈ s.entries := inv.placed h (by rw [hlinked]; rfl)
  have hdrop := inv.dropTemporary h
  refine hdrop.set (keeps_phase (by decide)) (fun _ => ?_) (fun _ => hplaced) (fun _ hmem => ?_)
  · exact (keeps_phase (by decide) hwhole).1
  · exact of_decide_eq_true (List.mem_filter.mp hmem).2 rfl

/-- `os.replace` puts the file in place and takes the temporary name away. -/
theorem move_returned (s : Directory α) (h : Nat) :
    (s.move h .returned).dropTemporary h =
      ((s.move h .linked).setPhase h .returned).dropTemporary h := by
  have hwriters : ((s.move h .linked).setPhase h .returned).writers =
      (s.move h .returned).writers := by
    funext k
    by_cases hk : k = h
    · subst hk
      simp [Directory.move, Directory.setPhase]
    · simp only [Directory.move, Directory.setPhase, set_writers_other hk]
  unfold Directory.dropTemporary
  rw [hwriters]
  rfl

theorem inv_raise (inv : s.Inv first) (h : Nat) : (s.step (.raise h)).Inv first := by
  dsimp only [step]
  split
  case h_7 => exact inv
  all_goals
    refine inv.setPhase (by decide) rfl ?_
    intro hw
    cases hw

theorem inv_unlink (inv : s.Inv first) (h : Nat) : (s.step (.unlink h)).Inv first := by
  dsimp only [step]
  split
  · next hlinked => exact inv.return hlinked
  · have hraised : (s.setPhase h .raised).Inv first :=
      inv.setPhase (by decide) rfl (fun hw => nomatch hw)
    exact hraised.dropTemporary h
  · exact inv

theorem inv_powerLoss (inv : s.Inv first) (lost : Nat) : (s.step (.powerLoss lost)).Inv first := by
  have hphase : ∀ h, ((s.step (.powerLoss lost)).writers h).phase = .idle ∨
      ((s.step (.powerLoss lost)).writers h).phase = .killed := by
    intro h
    dsimp only [step]
    split
    · next hidle => exact Or.inl hidle
    · exact Or.inr rfl
  refine ⟨fun e he => ?_, fun h hw => ?_, fun h hp => ?_, fun h hr => ?_⟩
  · have hmem : e ∈ s.entries := by
      dsimp only [step] at he
      split at he
      · exact List.mem_of_mem_drop he
      · exact he
    rcases inv.entries e hmem with hfirst | ⟨k, hk, hwhole⟩
    · exact Or.inl hfirst
    · exact Or.inr ⟨k, hk, (keeps_step (.powerLoss lost) k hwhole).1⟩
  · rcases hphase h with heq | heq <;> rw [heq] at hw <;> cases hw
  · rcases hphase h with heq | heq <;> rw [heq] at hp <;> cases hp
  · rcases hphase h with heq | heq <;> rw [heq] at hr <;> cases hr

/-- Every step keeps the invariant, -/
theorem inv_step (inv : s.Inv first) (a : WriteAction α) : (s.step a).Inv first := by
  cases a with
  | start h overwrite text ends =>
    dsimp only [step]
    split
    · next hidle =>
      -- a temporary file that was just made is the result of no call
      have hinv : Inv first { s with temporaries := h :: s.temporaries } := by
        refine ⟨inv.entries, inv.whole, inv.placed, fun k hk hmem => ?_⟩
        rcases List.mem_cons.mp hmem with rfl | hmem
        · rw [hidle] at hk
          cases hk
        · exact inv.returned k hk hmem
      exact hinv.set (keeps_of_writing (Or.inl hidle)) (fun hw => nomatch hw)
        (fun hp => nomatch hp) (fun hr => nomatch hr)
    · exact inv
  | spill h n =>
    dsimp only [step]
    split
    · next hwriting =>
      -- a writer that is writing has neither a whole text nor a name
      refine inv.set (keeps_of_writing (Or.inr hwriting.1)) ?_ ?_ ?_
      · intro hw
        rw [hwriting.1] at hw
        cases hw
      · intro hp
        rw [hwriting.1] at hp
        cases hp
      · intro hr
        rw [hwriting.1] at hr
        cases hr
    · exact inv
  | sync h =>
    dsimp only [step]
    split
    · next hwriting =>
      exact inv.set (keeps_of_writing (Or.inr hwriting.1)) (fun _ => ⟨rfl, hwriting.2, nofun, nofun⟩)
        (fun hp => nomatch hp) (fun hr => nomatch hr)
    · exact inv
  | replace h =>
    dsimp only [step]
    split
    · next hready =>
      have hwhole : (s.writers h).phase.whole := by
        rcases hready with hsynced | habsent
        · rw [hsynced.1]
          rfl
        · rw [habsent]
          rfl
      rw [move_returned]
      exact (inv.move hwhole).return (by unfold Directory.move Directory.setPhase; simp)
    · exact inv
  | link h =>
    dsimp only [step]
    split
    · next hsynced =>
      have hwhole : (s.writers h).phase.whole := by
        rw [hsynced.1]
        rfl
      -- a link fails on a file that is there, or where there are no hard links
      unfold link
      split
      · split
        · exact inv.setPhase (by decide) rfl (fun hw => nomatch hw)
        · exact inv.move hwhole
      · exact inv.setPhase (by decide) rfl (fun _ => hwhole)
    · exact inv
  | «exists» h =>
    dsimp only [step]
    split
    · next hunlinkable =>
      split
      · exact inv.setPhase (by decide) rfl (fun hw => nomatch hw)
      · exact inv.setPhase (by decide) rfl (fun _ => by rw [hunlinkable]; rfl)
    · exact inv
  | unlink h => exact inv_unlink inv h
  | raise h => exact inv_raise inv h
  | kill h =>
    dsimp only [step]
    split
    · exact inv
    · exact inv.setPhase (by decide) rfl (fun hw => nomatch hw)
  | powerLoss lost => exact inv_powerLoss inv lost

theorem inv_start (original : Option (List α)) (hardLinks : Bool) :
    (start original hardLinks).Inv (original.map fun _ => .initial) where
  entries _ he := Or.inl (List.mem_singleton.mp he)
  whole _ hw := nomatch hw
  placed _ hp := nomatch hp
  returned _ hr := nomatch hr

/-- and so does every run. -/
theorem inv_run (original : Option (List α)) (hardLinks : Bool) (actions : List (WriteAction α)) :
    (run step (start original hardLinks) actions).Inv (original.map fun _ => .initial) :=
  @run_invariant _ _ step (Inv _) (fun _ a inv => inv_step inv a) _ actions
    (inv_start original hardLinks)

/-- The text of the start is remembered. -/
theorem original_step (s : Directory α) (a : WriteAction α) : (s.step a).original = s.original := by
  cases a <;> dsimp only [step] <;> (try unfold link) <;> (repeat' split) <;> rfl

theorem original_run (s : Directory α) (actions : List (WriteAction α)) :
    (run step s actions).original = s.original :=
  @run_invariant _ _ step (fun t => t.original = s.original)
    (fun t a ht => (original_step t a).trans ht) s actions rfl

theorem keeps_run (s : Directory α) (actions : List (WriteAction α)) (h : Nat) :
    (s.writers h).Keeps ((run step s actions).writers h) := by
  refine @run_invariant _ _ step (fun t => (s.writers h).Keeps (t.writers h)) (fun t a ht hwhole => ?_)
    s actions (keeps_refl _)
  have ⟨hwhole', hdata⟩ := ht hwhole
  have ⟨hstep, hdata'⟩ := keeps_step a h hwhole'
  exact ⟨hstep, hdata'.trans hdata⟩

theorem mem_entries_of_entry {inode : Inode} (h : s.entry = some inode) :
    some inode ∈ s.entries := by
  unfold entry at h
  cases hentries : s.entries with
  | nil => rw [hentries] at h; cases h
  | cons e rest =>
    rw [hentries] at h
    change e = some inode at h
    rw [h]
    exact List.mem_cons_self

/-- Whoever opens the path at any time, and reads it at any later time, reads the original file or
all that the body of some call wrote; a call that has returned has its file in place, and its
temporary name is gone. -/
theorem whole_files (original : Option (List α)) (hardLinks : Bool)
    (before after : List (WriteAction α)) :
    let s := run step (start original hardLinks) before
    (∀ inode, s.entry = some inode →
      (run step s after).content inode = s.content inode ∧
        (original = some (s.content inode) ∨
          ∃ h, (s.writers h).ends ∧ s.content inode = (s.writers h).text)) ∧
      ∀ h, (s.writers h).phase = .returned →
        some (.temporary h) ∈ s.entries ∧ h ∉ s.temporaries := by
  intro s
  have inv : s.Inv _ := inv_run original hardLinks before
  have horiginal : s.original = original.getD [] := original_run (start original hardLinks) before
  refine ⟨fun inode hentry => ?_, fun h hreturned => ?_⟩
  · rcases inv.entries _ (mem_entries_of_entry hentry) with hfirst | ⟨h, heq, hwhole⟩
    · cases original with
      | none => cases hfirst
      | some text =>
        cases Option.some.inj hfirst
        refine ⟨original_run s after, Or.inl ?_⟩
        change some text = some s.original
        rw [horiginal]
        rfl
    · cases Option.some.inj heq
      exact ⟨(keeps_run s after h hwhole).2, Or.inr ⟨h, hwhole.ends, hwhole.data⟩⟩
  · exact ⟨inv.placed h (by rw [hreturned]; rfl), inv.returned h hreturned⟩

/-! ## Creating a file -/

end Directory

/-- Calls that do not overwrite, while the power stays on -/
def WriteAction.Creates {α : Type} : WriteAction α → Prop
  | .start _ overwrite _ _ => overwrite = false
  | .powerLoss _ => False
  | _ => True

namespace Directory

variable {α : Type} {s : Directory α} {first : Option Inode}

/-- The invariant of calls that do not overwrite -/
structure Creating (first : Option Inode) (s : Directory α) : Prop where
  hardLinks : s.hardLinks = true
  overwrite : ∀ h, (s.writers h).overwrite = false
  linking : ∀ h, (s.writers h).phase ≠ .unlinkable ∧ (s.writers h).phase ≠ .absent
  placed : ∀ h, (s.writers h).phase.placed → s.entry = some (.temporary h)
  first : ∀ inode, first = some inode → s.entry = some inode

/-- A call goes on, and the path stays as it is. -/
theorem Creating.set (inv : s.Creating first) {h : Nat} {writer : Writer α}
    (hoverwrite : writer.overwrite = false)
    (hlinking : writer.phase ≠ .unlinkable ∧ writer.phase ≠ .absent)
    (hplaced : writer.phase.placed → s.entry = some (.temporary h)) :
    (s.set h writer).Creating first where
  hardLinks := inv.hardLinks
  overwrite k := by
    by_cases hk : k = h
    · subst hk
      rw [set_writers_self]
      exact hoverwrite
    · rw [set_writers_other hk]
      exact inv.overwrite k
  linking k := by
    by_cases hk : k = h
    · subst hk
      rw [set_writers_self]
      exact hlinking
    · rw [set_writers_other hk]
      exact inv.linking k
  placed k := by
    by_cases hk : k = h
    · subst hk
      rw [set_writers_self]
      exact hplaced
    · rw [set_writers_other hk]
      exact inv.placed k
  first := inv.first

theorem Creating.setPhase (inv : s.Creating first) {h : Nat} {phase : WritePhase}
    (hlinking : phase ≠ .unlinkable ∧ phase ≠ .absent)
    (hplaced : phase.placed → s.entry = some (.temporary h)) :
    (s.setPhase h phase).Creating first :=
  inv.set (inv.overwrite h) hlinking hplaced

theorem Creating.dropTemporary (inv : s.Creating first) (h : Nat) :
    (s.dropTemporary h).Creating first :=
  ⟨inv.hardLinks, inv.overwrite, inv.linking, inv.placed, inv.first⟩

/-- A link creates the file if there is none. -/
theorem creating_link (inv : s.Creating first) (h : Nat) : (s.link h).Creating first := by
  unfold link
  rw [if_pos inv.hardLinks]
  split
  · exact inv.setPhase (by decide) (fun hp => nomatch hp)
  · next hnone =>
    have hnone : s.entry = none := Option.not_isSome_iff_eq_none.mp hnone
    -- nothing is in place yet, neither a first file nor that of another call
    have hmoved : Creating first { s with entries := some (.temporary h) :: s.entries } := by
      refine ⟨inv.hardLinks, inv.overwrite, inv.linking, fun k hk => ?_, fun inode hfirst => ?_⟩
      · have := inv.placed k hk
        rw [hnone] at this
        cases this
      · have := inv.first inode hfirst
        rw [hnone] at this
        cases this
    exact hmoved.setPhase (by decide) (fun _ => rfl)

/-- Creating calls keep the name once it is there. -/
theorem creating_step (inv : s.Creating first) {a : WriteAction α} (ha : a.Creates) :
    (s.step a).Creating first := by
  cases a with
  | start h overwrite text ends =>
    dsimp only [step]
    split
    · have hinv : Creating first { s with temporaries := h :: s.temporaries } :=
        ⟨inv.hardLinks, inv.overwrite, inv.linking, inv.placed, inv.first⟩
      exact hinv.set ha ⟨nofun, nofun⟩ (fun hp => nomatch hp)
    · exact inv
  | spill h n =>
    dsimp only [step]
    split
    · exact inv.set (inv.overwrite h) (inv.linking h) (inv.placed h)
    · exact inv
  | sync h =>
    dsimp only [step]
    split
    · exact inv.set (inv.overwrite h) ⟨nofun, nofun⟩ (fun hp => nomatch hp)
    · exact inv
  | replace h =>
    dsimp only [step]
    split
    · next hready =>
      -- to replace, a call needs `overwrite` or a file system without hard links
      rcases hready with hsynced | habsent
      · rw [inv.overwrite h] at hsynced
        cases hsynced.2
      · exact absurd habsent (inv.linking h).2
    · exact inv
  | link h =>
    dsimp only [step]
    split
    · exact creating_link inv h
    · exact inv
  | «exists» h =>
    dsimp only [step]
    split
    · next hunlinkable => exact absurd hunlinkable (inv.linking h).1
    · exact inv
  | unlink h =>
    dsimp only [step]
    split
    · next hlinked =>
      -- the name is already the one of the temporary file that is unlinked
      have hplaced : s.entry = some (.temporary h) := inv.placed h (by rw [hlinked]; rfl)
      have hreturned : (s.setPhase h .returned).Creating first :=
        inv.setPhase (by decide) (fun _ => hplaced)
      exact hreturned.dropTemporary h
    · have hraised : (s.setPhase h .raised).Creating first :=
        inv.setPhase (by decide) (fun hp => nomatch hp)
      exact hraised.dropTemporary h
    · exact inv
  | raise h =>
    dsimp only [step]
    split
    case h_7 => exact inv
    all_goals
      refine inv.setPhase (by decide) ?_
      intro hp
      cases hp
  | kill h =>
    dsimp only [step]
    split
    · exact inv
    · exact inv.setPhase (by decide) (fun hp => nomatch hp)
  | powerLoss lost => exact ha.elim

theorem creating_start (original : Option (List α)) :
    (start original true).Creating (original.map fun _ => .initial) where
  hardLinks := rfl
  overwrite _ := rfl
  linking _ := ⟨nofun, nofun⟩
  placed _ hp := nomatch hp
  first _ hfirst := hfirst

/-- With hard links, calls that do not overwrite leave a file that exists as it is and all raise;
where there is none, at most one of them returns, and the path has what it wrote. -/
theorem created_once (original : Option (List α)) (actions : List (WriteAction α))
    (hactions : ∀ a ∈ actions, a.Creates) :
    let s := run step (start original true) actions
    (original.isSome → s.entry = some .initial ∧ ∀ h, (s.writers h).phase ≠ .returned) ∧
      (∀ h, (s.writers h).phase = .returned →
        s.entry = some (.temporary h) ∧ s.content (.temporary h) = (s.writers h).text) ∧
      ∀ h k, (s.writers h).phase = .returned → (s.writers k).phase = .returned → h = k := by
  intro s
  have hcreating : s.Creating (original.map fun _ => .initial) :=
    List.foldlRecOn actions step (creating_start original)
      fun t ht a ha => creating_step ht (hactions a ha)
  have inv : s.Inv _ := inv_run original true actions
  have hentry : ∀ h, (s.writers h).phase = .returned → s.entry = some (.temporary h) := by
    intro h hreturned
    exact hcreating.placed h (by rw [hreturned]; rfl)
  refine ⟨fun hsome => ?_, fun h hreturned => ⟨hentry h hreturned, ?_⟩, fun h k hh hk => ?_⟩
  · obtain ⟨text, rfl⟩ := Option.isSome_iff_exists.mp hsome
    have hinitial := hcreating.first .initial rfl
    refine ⟨hinitial, fun h hreturned => ?_⟩
    rw [hentry h hreturned] at hinitial
    cases hinitial
  · exact (inv.whole h (by rw [hreturned]; rfl)).data
  · have heq := (hentry h hh).symm.trans (hentry k hk)
    cases heq
    rfl

theorem created_once_two :
    let s := run step (start none true) [.start 0 false [1, 2] true, .start 1 false [3] true,
      .sync 0, .sync 1, .link 1, .link 0, .unlink 1, .unlink 0]
    s.entry = some (.temporary 1) ∧ s.content (.temporary 1) = [3] ∧
      (s.writers 0).phase = .raised := by
  have h := (created_once none ([.start 0 false [1, 2] true, .start 1 false [3] true,
    .sync 0, .sync 1, .link 1, .link 0, .unlink 1, .unlink 0] : List (WriteAction Nat))
    (by simp [WriteAction.Creates])).2.1 1 (by decide)
  exact ⟨h.1, h.2, by decide⟩

/-! ## Trust files -/

/-- The call was begun with what it writes. -/
def Started (actions : List (WriteAction α)) (h : Nat) (writer : Writer α) : Prop :=
  writer.phase = .idle ∨ .start h writer.overwrite writer.text writer.ends ∈ actions

theorem started_set {actions : List (WriteAction α)} (hs : ∀ k, Started actions k (s.writers k))
    {h : Nat} {writer : Writer α} (hwriter : Started actions h writer) (k : Nat) :
    Started actions k ((s.set h writer).writers k) := by
  by_cases hk : k = h
  · subst hk
    rw [set_writers_self]
    exact hwriter
  · rw [set_writers_other hk]
    exact hs k

/-- A call goes on with what it was begun with. -/
theorem started_next {actions : List (WriteAction α)} (hs : ∀ k, Started actions k (s.writers k))
    {h : Nat} (hbusy : (s.writers h).phase ≠ .idle) (phase : WritePhase) (data : List α) (k : Nat) :
    Started actions k ((s.set h { s.writers h with phase, data }).writers k) := by
  refine started_set hs (Or.inr ?_) k
  exact (hs h).resolve_left hbusy

theorem started_setPhase {actions : List (WriteAction α)}
    (hs : ∀ k, Started actions k (s.writers k)) {h : Nat} {phase : WritePhase}
    (hbusy : (s.writers h).phase ≠ .idle) (k : Nat) :
    Started actions k ((s.setPhase h phase).writers k) :=
  started_next hs hbusy phase (s.writers h).data k

/-- A writer writes only a text that it was started with, -/
theorem started_step {actions : List (WriteAction α)} (hs : ∀ k, Started actions k (s.writers k))
    {a : WriteAction α} (ha : a ∈ actions) (k : Nat) :
    Started actions k ((s.step a).writers k) := by
  cases a with
  | start h overwrite text ends =>
    dsimp only [step]
    split
    · exact started_set hs (Or.inr ha) k
    · exact hs k
  | spill h n =>
    dsimp only [step]
    split
    · next hwriting => exact started_next hs (by simp [hwriting.1]) _ _ k
    · exact hs k
  | sync h =>
    dsimp only [step]
    split
    · next hwriting => exact started_next hs (by simp [hwriting.1]) _ _ k
    · exact hs k
  | replace h =>
    dsimp only [step]
    split
    · next hready =>
      refine started_setPhase hs ?_ k
      rcases hready with hsynced | habsent
      · simp [hsynced.1]
      · simp [habsent]
    · exact hs k
  | link h =>
    dsimp only [step]
    split
    · next hsynced =>
      have hbusy : (s.writers h).phase ≠ .idle := by simp [hsynced.1]
      unfold link
      split
      · split
        · exact started_setPhase hs hbusy k
        · exact started_setPhase hs hbusy k
      · exact started_setPhase hs hbusy k
    · exact hs k
  | «exists» h =>
    dsimp only [step]
    split
    · next hunlinkable => exact started_setPhase hs (by simp [hunlinkable]) k
    · exact hs k
  | unlink h =>
    dsimp only [step]
    split
    · next hlinked => exact started_setPhase hs (by simp [hlinked]) k
    · next hfailed => exact started_setPhase hs (by simp [hfailed]) k
    · exact hs k
  | raise h =>
    dsimp only [step]
    split
    case h_7 => exact hs k
    all_goals
      next hphase => exact started_setPhase hs (by simp [hphase]) k
  | kill h =>
    dsimp only [step]
    split
    · exact hs k
    · next hbusy => exact started_setPhase hs hbusy k
  | powerLoss lost =>
    dsimp only [step]
    split
    · exact hs k
    · next hbusy => exact Or.inr ((hs k).resolve_left hbusy)

/-- in every run. -/
theorem started_run (original : Option (List α)) (hardLinks : Bool)
    (actions : List (WriteAction α)) (h : Nat) :
    Started actions h ((run step (start original hardLinks) actions).writers h) := by
  have hall : ∀ k, Started actions k ((run step (start original hardLinks) actions).writers k) :=
    List.foldlRecOn (motive := fun t => ∀ k, Started actions k (t.writers k)) actions step
      (fun _ => Or.inl rfl) fun _ ht _ ha => started_step ht ha
  exact hall h

/-- What a power loss may leave is never nothing. -/
theorem entries_step (hs : s.entries ≠ []) (a : WriteAction α) : (s.step a).entries ≠ [] := by
  cases a with
  | replace h =>
    dsimp only [step]
    split
    · exact List.cons_ne_nil _ _
    · exact hs
  | link h =>
    dsimp only [step]
    split
    · unfold link
      split
      · split
        · exact hs
        · exact List.cons_ne_nil _ _
      · exact hs
    · exact hs
  | powerLoss lost =>
    dsimp only [step]
    split
    · next hlost =>
      intro hnil
      have := List.drop_eq_nil_iff.mp hnil
      omega
    · exact hs
  | unlink h | raise h =>
    dsimp only [step]
    split <;> exact hs
  | start h overwrite text ends => dsimp only [step]; split <;> exact hs
  | spill h n | sync h | «exists» h | kill h =>
    dsimp only [step]
    split <;> exact hs

open Nio.Store

/-- `KeyStore._load` of the path; a file that is not there gives no keys. -/
def loadKeys (s : Directory Nat) : Option KeyStore :=
  match s.entry with
  | none => some KeyStore.empty
  | some inode => KeyStore.load (s.content inode)

/-- Every call that comes to its end is one of `KeyStore._save`, of keys that their lines give
back. -/
def Saves (actions : List (WriteAction Nat)) : Prop :=
  ∀ h overwrite text, .start h overwrite text true ∈ actions →
    ∃ store : KeyStore, (∀ k ∈ store.entries, k.Plain) ∧ store.save = .ok text

theorem loadKeys_of_entry {s : Directory Nat} {inode : Inode} (h : s.entry = some inode) :
    s.loadKeys = KeyStore.load (s.content inode) := by
  unfold loadKeys
  rw [h]

/-- Where the path refers to what it referred to at the beginning, the keys are those from before. -/
theorem loadKeys_of_first {s : Directory Nat} {original : Option (List Nat)} {hardLinks : Bool}
    (hentry : s.entry = original.map fun _ => .initial) (horiginal : s.original = original.getD []) :
    s.loadKeys = (start original hardLinks).loadKeys := by
  cases original with
  | none =>
    unfold loadKeys
    rw [hentry]
    rfl
  | some file =>
    rw [loadKeys_of_entry hentry, content, horiginal]
    rfl

/-- Whatever `_save`s of a trust file were under way, a store that opens the file reads what one
read before, or the keys that one of them saved. -/
theorem trust_file_survives (original : Option (List Nat)) (hardLinks : Bool)
    (actions : List (WriteAction Nat)) (hactions : Saves actions) :
    let s := run step (start original hardLinks) actions
    s.loadKeys = (start original hardLinks).loadKeys ∨
      ∃ h overwrite text store, .start h overwrite text true ∈ actions ∧
        store.save = .ok text ∧ s.loadKeys = some store := by
  intro s
  have inv : s.Inv (original.map fun _ => .initial) := inv_run original hardLinks actions
  have hnonempty : s.entries ≠ [] :=
    @run_invariant _ _ step (fun t => t.entries ≠ []) (fun t a ht => entries_step ht a) _ actions
      (List.cons_ne_nil _ _)
  obtain ⟨e, rest, hentries⟩ := List.exists_cons_of_ne_nil hnonempty
  have hentry : s.entry = e := by
    unfold entry
    rw [hentries]
    rfl
  rcases inv.entries e (by rw [hentries]; exact List.mem_cons_self) with hfirst | ⟨h, rfl, hwhole⟩
  · exact Or.inl (loadKeys_of_first (hentry.trans hfirst)
      (original_run (start original hardLinks) actions))
  · have hstarted := (started_run original hardLinks actions h).resolve_left hwhole.phase.1
    change .start h (s.writers h).overwrite (s.writers h).text (s.writers h).ends ∈ actions
      at hstarted
    rw [hwhole.ends] at hstarted
    obtain ⟨store, hplain, hsave⟩ := hactions _ _ _ hstarted
    refine Or.inr ⟨h, _, _, store, hstarted, hsave, ?_⟩
    rw [loadKeys_of_entry hentry]
    change KeyStore.load (s.writers h).data = some store
    have hreopen := (KeyStore.reopen_eq_iff store).mpr hplain
    unfold KeyStore.reopen at hreopen
    rw [hsave] at hreopen
    rw [hwhole.data]
    exact hreopen

/-- A file that did not exist, a save that is written to its end, and a power failure: the keys are
none, or those of the save. -/
theorem trust_file_survives_carol :
    ∃ text, KeyStore.save ⟨[Key.fromOlmdevice DefaultStore.carol]⟩ = .ok text ∧
      let actions := [.start 0 true text true, .spill 0 3, .sync 0, .replace 0, .powerLoss 1]
      let s := run step (start none true) actions
      s.loadKeys = some KeyStore.empty ∨
        ∃ h overwrite text' store, WriteAction.start h overwrite text' true ∈ actions ∧
          store.save = .ok text' ∧ s.loadKeys = some store := by
  have hplain : ∀ k ∈ [Key.fromOlmdevice DefaultStore.carol], k.Plain := by decide +kernel
  obtain ⟨text, hsave⟩ : ∃ text, KeyStore.save ⟨[Key.fromOlmdevice DefaultStore.carol]⟩ =
      .ok text := by
    have hreopen := (KeyStore.reopen_eq_iff ⟨[Key.fromOlmdevice DefaultStore.carol]⟩).mpr hplain
    unfold KeyStore.reopen at hreopen
    split at hreopen
    · next file hfile => exact ⟨file, hfile⟩
    · cases hreopen
  refine ⟨text, hsave, trust_file_survives none true _ ?_⟩
  intro h overwrite text' hmem
  have heq : text' = text := by simpa using (by simpa using hmem : _ ∧ _ ∧ _).2.2
  exact ⟨_, hplain, heq ▸ hsave⟩

end Directory

end Nio
