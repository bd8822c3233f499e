import Nio.Lib.FileLock
import Nio.Lib.Run

/-!
# Leases on a store's database

Ordinary connections, trust sidecar operations and durable sessions of one database file, in any
number of threads and processes, each of them between any two of its steps.

* `leases_exclude` — an open durable session is alone with the database, an adopted database is
  never touched by an ordinary store again, and no lease outlives its holder
-/

namespace Nio.Store

open Nio.Lib

/-- Which of the marker tables the database holds -/
inductive Marker where
  | ordinary
  /-- `NioIngestMeta` -/
  | ingest
  /-- `NioDurableMeta` -/
  | durable
  deriving DecidableEq, Repr

/-- How far the holder of a lease has come -/
inductive Handle where
  | closed
  /-- `LeasedSqliteDatabase._connect` before `sqlite3.connect` -/
  | connecting
  /-- a connection before `check_ordinary_database` -/
  | unchecked
  /-- a connection before `_add_conn_hooks` -/
  | checked
  /-- a connection that an exception is about to close -/
  | refused
  /-- the connection of an ordinary store -/
  | connection
  /-- a lease in `_DEFERRED_LEASES`, or one that a failed close never gave back -/
  | retained (mode : LockMode)
  /-- `_trust_sidecar_guard` before the probe; `conn` is the connection of the store -/
  | guarding (conn : Nat)
  /-- inside the guard -/
  | sidecar (depth : Nat)
  /-- `DurableStore.__init__` before it reads the tables -/
  | opening
  /-- `DurableStore.__init__` after it has read the tables -/
  | reading (tables : Marker)
  /-- `DurableStore.__init__` on its way out of an exception -/
  | failing
  /-- an open durable store -/
  | session
  deriving DecidableEq, Repr

/-- The lease that comes with a handle -/
def Handle.lease : Handle → Option LockMode
  | .closed => none
  | .connecting | .unchecked | .checked | .refused | .connection => some .shared
  | .retained mode => some mode
  | .guarding _ | .sidecar _ => some .shared
  | .opening | .reading _ | .failing | .session => some .exclusive

/-- What is done to the database and to the trust files -/
inductive Effect where
  /-- a read or a write over an ordinary connection, its hooks included -/
  | ordinary (h : Nat)
  /-- a read or a write of a trust file -/
  | sidecar (h : Nat)
  /-- the transaction that makes the marker -/
  | adopt (h : Nat)
  /-- a read or a write of a durable store -/
  | durable (h : Nat)
  deriving DecidableEq, Repr

def Effect.isDurable : Effect → Bool
  | .ordinary _ | .sidecar _ => false
  | .adopt _ | .durable _ => true

structure Leases where
  marker : Marker
  /-- `flock` on the file beside the database -/
  locks : List (Nat × LockMode)
  handles : Nat → Handle
  effects : List Effect

inductive LeaseAction where
  | connect (h : Nat)
  | connected (h : Nat)
  | check (h : Nat)
  | hooks (h : Nat)
  | access (h : Nat)
  | close (h : Nat)
  /-- a final close that fails -/
  | abandon (h : Nat)
  | guard (h conn : Nat)
  | probe (h : Nat)
  | enter (h : Nat)
  | leave (h : Nat)
  | open (h : Nat)
  | readTables (h : Nat)
  /-- the transaction of `DurableStore.__init__`; `accepted` is that nothing in it raises. -/
  | adopt (h : Nat) (accepted : Bool)
  /-- an exception of another kind -/
  | raise (h : Nat)
  /-- the end of the process -/
  | exit (h : Nat)
  deriving DecidableEq, Repr

namespace Leases

def set (s : Leases) (h : Nat) (handle : Handle) : Leases :=
  { s with handles := fun k => if k = h then handle else s.handles k }

def log (s : Leases) (effect : Effect) : Leases := { s with effects := s.effects ++ [effect] }

/-- `FileLease.__init__`; where the lock is held in a way that excludes it, it raises. -/
def lease (s : Leases) (h : Nat) (mode : LockMode) (handle : Handle) : Leases :=
  if mode.granted s.locks then { s with locks := (h, mode) :: s.locks }.set h handle else s

/-- `FileLease.close` -/
def release (s : Leases) (h : Nat) : Leases :=
  { s with locks := unlock h s.locks }.set h .closed

/-- `check_ordinary_database` -/
def checkOrdinaryDatabase (s : Leases) : Bool := s.marker = .ordinary

/-- An exception: what has a lease but no connection gives it back, a connection is closed next. -/
def raise (s : Leases) (h : Nat) : Leases :=
  match s.handles h with
  | .connecting | .guarding _ | .sidecar _ => s.release h
  | .unchecked | .checked => s.set h .refused
  | .opening | .reading _ => s.set h .failing
  | _ => s

/-- `_trust_sidecar_guard` after its lease: a store whose connection is closed looks for the
marker. -/
def probe (s : Leases) (h conn : Nat) : Leases :=
  if s.handles conn = .connection ∨ s.checkOrdinaryDatabase then s.set h (.sidecar 1)
  else s.release h

/-- The transaction of `DurableStore.__init__` -/
def adopt (s : Leases) (h : Nat) (tables : Marker) (accepted : Bool) : Leases :=
  if accepted && tables ≠ .ingest then
    if tables = .durable then (s.set h .session).log (.durable h)
    else ({ s with marker := .durable }.set h .session).log (.adopt h)
  else s.set h .failing

def step (s : Leases) : LeaseAction → Leases
  | .connect h => if s.handles h = .closed then s.lease h .shared .connecting else s
  | .connected h => if s.handles h = .connecting then s.set h .unchecked else s
  | .check h =>
    if s.handles h = .unchecked then
      s.set h (if s.checkOrdinaryDatabase then .checked else .refused)
    else s
  | .hooks h => if s.handles h = .checked then (s.set h .connection).log (.ordinary h) else s
  | .access h =>
    match s.handles h with
    | .connection => s.log (.ordinary h)
    | .sidecar _ => s.log (.sidecar h)
    | .session => s.log (.durable h)
    | _ => s
  | .close h =>
    match s.handles h with
    | .connection | .refused | .failing | .session => s.release h
    | _ => s
  | .abandon h =>
    match s.handles h with
    | .connection | .refused => s.set h (.retained .shared)
    | .failing => s.set h (.retained .exclusive)
    | _ => s
  | .guard h conn => if s.handles h = .closed then s.lease h .shared (.guarding conn) else s
  | .probe h =>
    match s.handles h with
    | .guarding conn => s.probe h conn
    | _ => s
  | .enter h =>
    match s.handles h with
    | .sidecar depth => s.set h (.sidecar (depth + 1))
    | _ => s
  | .leave h =>
    match s.handles h with
    | .sidecar depth => if depth ≤ 1 then s.release h else s.set h (.sidecar (depth - 1))
    | _ => s
  | .open h => if s.handles h = .closed then s.lease h .exclusive .opening else s
  | .readTables h => if s.handles h = .opening then s.set h (.reading s.marker) else s
  | .adopt h accepted =>
    match s.handles h with
    | .reading tables => s.adopt h tables accepted
    | _ => s
  | .raise h => s.raise h
  | .exit h => s.release h

/-- A database that nothing has open -/
def start (marker : Marker) : Leases := ⟨marker, [], fun _ => .closed, []⟩

@[simp] theorem set_marker (s : Leases) (h : Nat) (handle : Handle) :
    (s.set h handle).marker = s.marker := rfl

@[simp] theorem set_locks (s : Leases) (h : Nat) (handle : Handle) :
    (s.set h handle).locks = s.locks := rfl

@[simp] theorem log_marker (s : Leases) (effect : Effect) : (s.log effect).marker = s.marker := rfl

@[simp] theorem log_effects (s : Leases) (effect : Effect) :
    (s.log effect).effects = s.effects ++ [effect] := rfl

end Leases

/-! ## The invariant -/

/-- What is known of the database while a handle has come so far -/
def Handle.Knows (marker : Marker) : Handle → Prop
  | .checked | .connection | .sidecar _ => marker = .ordinary
  | .reading tables => marker = tables
  | .session => marker = .durable
  | _ => True

/-- No ordinary effect comes after a durable one. -/
def Ordered (effects : List Effect) : Prop :=
  effects.Pairwise fun before after => before.isDurable → after.isDurable

/-- The invariant of every interleaving -/
structure Leases.Inv (s : Leases) : Prop where
  locks : ∀ h mode, (h, mode) ∈ s.locks ↔ (s.handles h).lease = some mode
  alone : Alone s.locks
  knows : ∀ h, (s.handles h).Knows s.marker
  adopted : ∀ e ∈ s.effects, e.isDurable → s.marker = .durable
  ordered : Ordered s.effects

namespace Leases

variable {s : Leases}

/-- A handle goes on with the lease that it has. -/
theorem Inv.set (inv : s.Inv) {h : Nat} {handle : Handle} (hlease : handle.lease = (s.handles h).lease)
    (hknows : handle.Knows s.marker) : (s.set h handle).Inv where
  locks k mode := by
    rw [set_locks, inv.locks k mode]
    unfold Leases.set
    dsimp only
    split
    · next hk => rw [hk, hlease]
    · rfl
  alone := inv.alone
  knows k := by
    unfold Leases.set
    dsimp only
    split
    · exact hknows
    · exact inv.knows k
  adopted := inv.adopted
  ordered := inv.ordered

/-- Taking a lease keeps the locks exclusive, -/
theorem Inv.lease (inv : s.Inv) {h : Nat} {mode : LockMode} {handle : Handle}
    (hclosed : s.handles h = .closed) (hlease : handle.lease = some mode)
    (hknows : handle.Knows s.marker) : (s.lease h mode handle).Inv := by
  unfold Leases.lease
  split
  · next hgranted =>
    refine ⟨fun k mode' => ?_, inv.alone.acquire hgranted, fun k => ?_, inv.adopted, inv.ordered⟩
    · have hk := inv.locks k mode'
      rw [set_locks]
      unfold Leases.set
      dsimp only
      rw [List.mem_cons, Prod.mk.injEq]
      split
      · next heq =>
        rw [heq, hclosed] at hk
        rw [heq, hk, hlease]
        simp [Handle.lease, eq_comm]
      · next hne => simp [hne, hk]
    · unfold Leases.set
      dsimp only
      split
      · exact hknows
      · exact inv.knows k
  · exact inv

/-- and so does giving it up. -/
theorem Inv.release (inv : s.Inv) (h : Nat) : (s.release h).Inv := by
  unfold Leases.release
  refine ⟨fun k mode => ?_, inv.alone.unlock h, fun k => ?_, inv.adopted, inv.ordered⟩
  · rw [set_locks, mem_unlock, inv.locks k mode]
    unfold Leases.set
    dsimp only
    split
    · next hk => simp [hk, Handle.lease]
    · next hk => simp [hk]
  · unfold Leases.set
    dsimp only
    split
    · trivial
    · exact inv.knows k

/-- An effect joins the log when no durable effect comes before it, or when it is one itself. -/
theorem Inv.log (inv : s.Inv) {e : Effect}
    (h : s.marker = if e.isDurable then .durable else .ordinary) : (s.log e).Inv where
  locks := inv.locks
  alone := inv.alone
  knows := inv.knows
  adopted e' he' hdurable := by
    rcases List.mem_append.mp he' with he' | he'
    · exact inv.adopted e' he' hdurable
    · obtain rfl := List.mem_singleton.mp he'
      rw [log_marker, h, if_pos hdurable]
  ordered := by
    unfold Ordered
    rw [log_effects, List.pairwise_append]
    refine ⟨inv.ordered, List.pairwise_singleton _ _, fun e' he' e'' he'' hdurable => ?_⟩
    obtain rfl := List.mem_singleton.mp he''
    by_contra hno
    have hmarker := inv.adopted e' he' hdurable
    rw [h, if_neg hno] at hmarker
    cases hmarker

/-- Who else holds a lease beside an exclusive one -/
theorem Inv.closed_of_exclusive (inv : s.Inv) {h k : Nat}
    (hlease : (s.handles h).lease = some .exclusive) (hk : k ≠ h) : s.handles k = .closed := by
  have hnone : (s.handles k).lease = none := by
    cases hmode : (s.handles k).lease with
    | none => rfl
    | some mode =>
      have hsame := inv.alone h (k, mode) ((inv.locks h _).mpr hlease) ((inv.locks k mode).mpr hmode)
      exact absurd (congrArg Prod.fst hsame) hk
  revert hnone
  cases s.handles k <;> simp [Handle.lease]

/-- The marker changes while nothing else has the database open. -/
theorem Inv.mark (inv : s.Inv) {h : Nat} (hlease : (s.handles h).lease = some .exclusive) :
    ({ s with marker := .durable }.set h .session).Inv := by
  refine ⟨fun k mode => ?_, inv.alone, fun k => ?_, fun _ _ _ => rfl, inv.ordered⟩
  · rw [set_locks, inv.locks k mode]
    unfold Leases.set
    dsimp only
    split
    · next hk => rw [hk, hlease]; rfl
    · rfl
  · unfold Leases.set
    dsimp only
    split
    · rfl
    · next hk =>
      rw [inv.closed_of_exclusive hlease hk]
      trivial

/-! ## The steps -/

theorem inv_raise (inv : s.Inv) (h : Nat) : (s.raise h).Inv := by
  unfold raise
  split
  case h_1 | h_2 | h_3 => exact inv.release h
  case h_4 hh | h_5 hh | h_6 hh | h_7 hh =>
    refine inv.set ?_ trivial
    rw [hh]
    rfl
  case h_8 => exact inv

theorem inv_probe (inv : s.Inv) {h conn : Nat} (hh : s.handles h = .guarding conn) :
    (s.probe h conn).Inv := by
  unfold probe
  split
  · next hallowed =>
    refine inv.set (by rw [hh]; rfl) ?_
    rcases hallowed with hopen | hcheck
    · -- the open connection has found no marker, and holds a lease since
      have := inv.knows conn
      rwa [hopen] at this
    · change s.marker = .ordinary
      simpa [checkOrdinaryDatabase] using hcheck
  · exact inv.release h

theorem inv_adopt (inv : s.Inv) {h : Nat} {tables : Marker} (hh : s.handles h = .reading tables)
    (accepted : Bool) : (s.adopt h tables accepted).Inv := by
  have hmarker : s.marker = tables := by
    have := inv.knows h
    rwa [hh] at this
  have hlease : (s.handles h).lease = some .exclusive := by
    rw [hh]
    rfl
  unfold adopt
  split
  · split
    · next hdurable =>
      have hset : (s.set h .session).Inv := inv.set (by rw [hlease]; rfl) (hmarker.trans hdurable)
      exact hset.log (by rw [set_marker, hmarker, hdurable]; rfl)
    · exact (inv.mark hlease).log rfl
  · exact inv.set (by rw [hlease]; rfl) trivial

/-- Every step of every handle keeps the invariant. -/
theorem inv_step (inv : s.Inv) (a : LeaseAction) : (s.step a).Inv := by
  cases a with
  | connect h =>
    dsimp only [step]
    split
    · next hclosed => exact inv.lease hclosed rfl trivial
    · exact inv
  | guard h conn =>
    dsimp only [step]
    split
    · next hclosed => exact inv.lease hclosed rfl trivial
    · exact inv
  | «open» h =>
    dsimp only [step]
    split
    · next hclosed => exact inv.lease hclosed rfl trivial
    · exact inv
  | connected h =>
    dsimp only [step]
    split
    · next hh => exact inv.set (by rw [hh]; rfl) trivial
    · exact inv
  | check h =>
    dsimp only [step]
    split
    · next hh =>
      split
      · next hcheck =>
        have hmarker : s.marker = .ordinary := by simpa [checkOrdinaryDatabase] using hcheck
        exact inv.set (by rw [hh]; rfl) hmarker
      · exact inv.set (by rw [hh]; rfl) trivial
    · exact inv
  | hooks h =>
    dsimp only [step]
    split
    · next hh =>
      have hmarker : s.marker = .ordinary := by
        have := inv.knows h
        rwa [hh] at this
      have hset : (s.set h .connection).Inv := inv.set (by rw [hh]; rfl) hmarker
      exact hset.log hmarker
    · exact inv
  | access h =>
    have hknows := inv.knows h
    dsimp only [step]
    split
    · next hh => exact inv.log (by rw [hh] at hknows; exact hknows)
    · next hh => exact inv.log (by rw [hh] at hknows; exact hknows)
    · next hh => exact inv.log (by rw [hh] at hknows; exact hknows)
    · exact inv
  | close h =>
    dsimp only [step]
    split
    case h_5 => exact inv
    all_goals exact inv.release h
  | abandon h =>
    dsimp only [step]
    split
    case h_4 => exact inv
    all_goals
      next hh =>
      refine inv.set ?_ trivial
      rw [hh]
      rfl
  | probe h =>
    dsimp only [step]
    split
    · next hh => exact inv_probe inv hh
    · exact inv
  | enter h =>
    dsimp only [step]
    split
    · next hh =>
      have hknows := inv.knows h
      rw [hh] at hknows
      exact inv.set (by rw [hh]; rfl) hknows
    · exact inv
  | leave h =>
    dsimp only [step]
    split
    · next hh =>
      have hknows := inv.knows h
      rw [hh] at hknows
      split
      · exact inv.release h
      · exact inv.set (by rw [hh]; rfl) hknows
    · exact inv
  | readTables h =>
    dsimp only [step]
    split
    · next hh => exact inv.set (by rw [hh]; rfl) rfl
    · exact inv
  | adopt h accepted =>
    dsimp only [step]
    split
    · next hh => exact inv_adopt inv hh accepted
    · exact inv
  | raise h => exact inv_raise inv h
  | exit h => exact inv.release h

theorem inv_start (marker : Marker) : (start marker).Inv where
  locks _ _ := by simp [start, Handle.lease]
  alone := Alone.nil
  knows _ := trivial
  adopted _ he := nomatch he
  ordered := List.Pairwise.nil

/-- Whatever the order of their steps: beside a durable session, or one that opens, nothing has a
lease; an ordinary connection past its check and a sidecar operation past its probe have an
ordinary database; once a durable store has used the database, only durable stores do; and the
leases are those of the handles. -/
theorem leases_exclude (marker : Marker) (actions : List LeaseAction) :
    let s := run step (start marker) actions
    (∀ h k, (s.handles h).lease = some .exclusive → k ≠ h → s.handles k = .closed) ∧
      (∀ h, (s.handles h = .connection ∨ ∃ depth, s.handles h = .sidecar depth) →
        s.marker = .ordinary) ∧
      (∀ before e after, s.effects = before ++ e :: after → e.isDurable →
        s.marker = .durable ∧ ∀ e' ∈ after, e'.isDurable) ∧
      ∀ h mode, (h, mode) ∈ s.locks ↔ (s.handles h).lease = some mode := by
  intro s
  have inv : s.Inv :=
    @run_invariant _ _ step Inv (fun _ a inv => inv_step inv a) _ actions (inv_start marker)
  refine ⟨fun h k hlease hk => inv.closed_of_exclusive hlease hk, fun h hh => ?_, ?_, inv.locks⟩
  · have hknows := inv.knows h
    rcases hh with hh | ⟨depth, hh⟩
    · rwa [hh] at hknows
    · rwa [hh] at hknows
  · intro before e after heffects hdurable
    refine ⟨inv.adopted e (by rw [heffects]; simp) hdurable, fun e' he' => ?_⟩
    have hordered := inv.ordered
    unfold Ordered at hordered
    rw [heffects, List.pairwise_append] at hordered
    exact (List.pairwise_cons.mp hordered.2.1).1 e' he' hdurable

end Leases

end Nio.Store
