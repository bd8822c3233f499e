import Nio.Crypto.Decryption
import Mathlib.Data.List.Sort

/-!
# Olm sessions

`SessionStore` keeps the Olm sessions with each sender key, and `Olm` encrypts with the first of
them. The list is sorted by the use times when a session is added; a message is tried with the
sessions in the order of the list, and a session that is tried was used. The database is loaded
with the creation times.

* `SessionMachine.step` — creations, decryptions, encryptions and reloads
* `selects_iff` — when the first session is the last one used, also after a reload
-/

namespace Nio.Crypto

open Nio.Py
open Nio.Lib

/-! ## The sessions -/

/-- A session; the number identifies the object. -/
structure Session where
  object : Nat
  id : Str
  creationTime : Nat
  useTime : Nat
  deriving DecidableEq, Repr

/-- `use_time = datetime.now()` of `decrypt` and `encrypt` -/
def Session.use (t : Nat) (s : Session) : Session := { s with useTime := t }

/-- The order of `sort(key=lambda x: x.use_time, reverse=True)` -/
def UsedAfter (s t : Session) : Prop := t.useTime ≤ s.useTime

instance : DecidableRel UsedAfter := fun s t => inferInstanceAs (Decidable (t.useTime ≤ s.useTime))

instance : Std.Total UsedAfter := ⟨fun s t => Nat.le_total t.useTime s.useTime⟩

instance : IsTrans Session UsedAfter := ⟨fun _ _ _ h h' => Nat.le_trans h' h⟩

/-- `defaultdict(list)`, by sender key -/
abbrev SessionStore := Str → List Session

namespace SessionStore

def add (store : SessionStore) (senderKey : Str) (s : Session) : SessionStore × Bool :=
  if s.object ∈ (store senderKey).map Session.object then (store, false)
  else (Function.update store senderKey ((store senderKey ++ [s]).insertionSort UsedAfter), true)

def get (store : SessionStore) (senderKey : Str) : Option Session := (store senderKey).head?

end SessionStore

/-! ## The database -/

/-- A row of `OlmSessions`, whose pickle stands for its session id -/
structure OlmSessionRow where
  senderKey : Str
  /-- The primary key -/
  sessionId : Str
  creationTime : Nat
  lastUsageDate : Nat
  deriving DecidableEq, Repr

/-- `Session.from_pickle(s.session, s.creation_time, self.pickle_key)`, without a use time -/
def OlmSessionRow.load (object : Nat) (row : OlmSessionRow) : Session :=
  ⟨object, row.sessionId, row.creationTime, row.creationTime⟩

def rowOfSession (senderKey : Str) (s : Session) : OlmSessionRow :=
  ⟨senderKey, s.id, s.creationTime, s.useTime⟩

/-- `_load_persisted_sessions`, with the number of the next object -/
def loadSessions (object : Nat) (rows : List OlmSessionRow) : SessionStore × Nat :=
  rows.foldl (fun p row => ((p.1.add row.senderKey (row.load p.2)).1, p.2 + 1))
    (fun _ => [], object)

/-! ## The machine -/

/-- Strictly increasing readings of the clock, and the ids that the library gives to its sessions -/
structure SessionWorld where
  clock : Nat → Nat
  clock_strictMono : StrictMono clock
  sessionId : Nat → Str
  sessionId_injective : Function.Injective sessionId

structure SessionMachine where
  sessionStore : SessionStore
  rows : List OlmSessionRow
  /-- The readings taken so far -/
  readings : Nat
  /-- The sessions that the library has made -/
  created : Nat
  objects : Nat

/-- What `_try_decrypt` comes to, with the session that was saved -/
inductive Trial where
  | decrypted (s : Session)
  | failed
  | unmatched
  /-- An exception that the loop does not catch -/
  | raised

/-- The loop of `_try_decrypt`, from the reading `n`: the sessions after it and the next reading -/
def tryDecryptFrom (clock : Nat → Nat) (preKey : Bool) (answer : Str → SessionAnswer) (n : Nat) :
    List Session → List Session × Nat × Trial
  | [] => ([], n, .unmatched)
  | s :: rest =>
    match if preKey then (answer s.id).sessionMatches else .ok false with
    | .error .decode | .error .olmDecryption =>
      let r := tryDecryptFrom clock preKey answer n rest
      (s :: r.1, r.2)
    | .error _ => (s :: rest, n, .raised)
    | .ok sessionMatches =>
      if preKey ∧ !sessionMatches then
        let r := tryDecryptFrom clock preKey answer n rest
        (s :: r.1, r.2)
      else
        -- the use time changes before the library decrypts, and is only saved when it does
        let used := s.use (clock n)
        match (answer s.id).plaintext with
        | .ok _ => (used :: rest, n + 1, .decrypted used)
        | .error .decode | .error .olmDecryption =>
          if sessionMatches then (used :: rest, n + 1, .failed)
          else
            let r := tryDecryptFrom clock preKey answer (n + 1) rest
            (used :: r.1, r.2)
        | .error _ => (used :: rest, n + 1, .raised)

inductive SessionEvent where
  /-- `create_session` with a claimed one-time key -/
  | createSession (senderKey : Str)
  /-- `decrypt`, with what the library answers for each session, and whether it can make a new one -/
  | decrypt (senderKey : Str) (preKey : Bool) (answer : Str → SessionAnswer) (inbound : Bool)
  /-- `_olm_encrypt` with a session that the caller got before -/
  | encrypt (senderKey : Str) (object : Nat)
  | loadSessions

namespace SessionMachine

variable (w : SessionWorld)

def new : SessionMachine := ⟨fun _ => [], [], 0, 0, 0⟩

def saveSession (m : SessionMachine) (senderKey : Str) (s : Session) : SessionMachine :=
  { m with rows := replace OlmSessionRow.sessionId (rowOfSession senderKey s) m.rows }

/-- A session that is made at two readings, added and saved -/
def keepNew (m : SessionMachine) (senderKey : Str) : SessionMachine :=
  let s : Session :=
    ⟨m.objects, w.sessionId m.created, w.clock m.readings, w.clock (m.readings + 1)⟩
  saveSession
    { m with
      sessionStore := (m.sessionStore.add senderKey s).1
      readings := m.readings + 2
      created := m.created + 1
      objects := m.objects + 1 } senderKey s

/-- `Olm.decrypt` up to the plaintext -/
def decrypt (m : SessionMachine) (senderKey : Str) (preKey : Bool) (answer : Str → SessionAnswer)
    (inbound : Bool) : SessionMachine :=
  let (sessions, readings, trial) :=
    tryDecryptFrom w.clock preKey answer m.readings (m.sessionStore senderKey)
  let tried : SessionMachine :=
    { m with sessionStore := Function.update m.sessionStore senderKey sessions, readings }
  match trial with
  | .decrypted s => tried.saveSession senderKey s
  | .failed | .raised => tried
  | .unmatched => if preKey ∧ inbound then tried.keepNew w senderKey else tried

def encrypt (m : SessionMachine) (senderKey : Str) (object : Nat) : SessionMachine :=
  match (m.sessionStore senderKey).find? fun s => s.object = object with
  | none => m
  | some s =>
    saveSession
      { m with
        sessionStore := Function.update m.sessionStore senderKey
          ((m.sessionStore senderKey).map fun t =>
            if t.object = object then t.use (w.clock m.readings) else t)
        readings := m.readings + 1 } senderKey (s.use (w.clock m.readings))

def reload (m : SessionMachine) : SessionMachine :=
  { m with
    sessionStore := (Crypto.loadSessions m.objects m.rows).1
    objects := (Crypto.loadSessions m.objects m.rows).2 }

def step (m : SessionMachine) : SessionEvent → SessionMachine
  | .createSession senderKey => m.keepNew w senderKey
  | .decrypt senderKey preKey answer inbound => m.decrypt w senderKey preKey answer inbound
  | .encrypt senderKey object => m.encrypt w senderKey object
  | .loadSessions => m.reload

/-! ## What selection is to do -/

/-- `get` returns the session with the greatest use time. -/
def Freshest (m : SessionMachine) (senderKey : Str) : Prop :=
  ∀ s ∈ m.sessionStore.get senderKey, ∀ t ∈ m.sessionStore senderKey,
    t.object ≠ s.object → t.useTime < s.useTime

/-- `get` returns the same session before and after `load_sessions`. -/
def Survives (m : SessionMachine) (senderKey : Str) : Prop :=
  (m.reload.sessionStore.get senderKey).map Session.id =
    (m.sessionStore.get senderKey).map Session.id

def Selects (m : SessionMachine) : Prop :=
  ∀ senderKey, m.Freshest senderKey ∧ m.Survives senderKey

end SessionMachine

/-- The message is not passed by because of a session that does not match. -/
def Tries (preKey : Bool) (a : SessionAnswer) : Prop := preKey → a.sessionMatches = .ok true

/-- The loop goes on to the next session. -/
def GoesOn (preKey : Bool) (a : SessionAnswer) : Prop :=
  match preKey with
  | true => a.sessionMatches ∈
    [.ok false, .error LibraryException.decode, .error .olmDecryption]
  | false => a.plaintext ∈ [.error LibraryException.decode, .error .olmDecryption]

/-- No session of the list is tried when the loop comes to it. -/
def Untried (preKey : Bool) (answer : Str → SessionAnswer) : List Session → Prop
  | [] => True
  | s :: rest => ¬Tries preKey (answer s.id) ∧
    (GoesOn preKey (answer s.id) → Untried preKey answer rest)

/-- No session but the first one is tried. -/
def FirstOnly (preKey : Bool) (answer : Str → SessionAnswer) : List Session → Prop
  | [] => True
  | s :: rest => GoesOn preKey (answer s.id) → Untried preKey answer rest

/-- A message is only tried with the session that `get` returns, and only this one encrypts. -/
def SessionMachine.UsesFirst (m : SessionMachine) : SessionEvent → Prop
  | .decrypt senderKey preKey answer _ => FirstOnly preKey answer (m.sessionStore senderKey)
  | .encrypt senderKey object => ∀ s ∈ m.sessionStore senderKey, s.object = object →
    m.sessionStore.get senderKey = some s
  | .createSession _ | .loadSessions => True

/-! ## Adding and loading -/

theorem add_new_session {store : SessionStore} {k : Str} {s : Session}
    (h : ∀ t ∈ store k, t.object < s.object) (k' : Str) :
    (store.add k s).1 k' =
      if k' = k then (store k ++ [s]).insertionSort UsedAfter else store k' := by
  unfold SessionStore.add
  rw [if_neg]
  · dsimp only
    by_cases hk : k' = k
    · subst hk
      rw [if_pos rfl, Function.update_self]
    · rw [if_neg hk, Function.update_of_ne hk]
  · intro hs
    obtain ⟨t, ht, hts⟩ := List.mem_map.mp hs
    have hlt := h t ht
    omega

/-- The objects of the sessions are distinct and made before the number. -/
structure Numbered (store : SessionStore) (objects : Nat) : Prop where
  lt : ∀ k, ∀ s ∈ store k, s.object < objects
  nodup : ∀ k, ((store k).map Session.object).Nodup

theorem Numbered.add {store : SessionStore} {n : Nat} (h : Numbered store n) {k : Str} {s : Session}
    (hs : s.object = n) : Numbered (store.add k s).1 (n + 1) := by
  have hadd : ∀ k', (store.add k s).1 k' =
      if k' = k then (store k ++ [s]).insertionSort UsedAfter else store k' :=
    add_new_session fun t ht => hs ▸ h.lt k t ht
  constructor
  · intro k' t ht
    rw [hadd] at ht
    split at ht
    · rw [List.mem_insertionSort, List.mem_append, List.mem_singleton] at ht
      rcases ht with ht | rfl
      · have hlt := h.lt k t ht
        omega
      · omega
    · have hlt := h.lt k' t ht
      omega
  · intro k'
    rw [hadd]
    split
    · refine (((List.perm_insertionSort UsedAfter _).map Session.object).nodup_iff).mpr ?_
      rw [List.map_append, List.map_singleton, List.nodup_append]
      refine ⟨h.nodup k, List.nodup_singleton _, ?_⟩
      rintro o ho o' ho' rfl
      obtain ⟨t, ht, rfl⟩ := List.mem_map.mp ho
      have hlt := h.lt k t ht
      have heq := List.mem_singleton.mp ho'
      omega
    · exact h.nodup k'

/-- What the loaded sessions are made of -/
def Session.facts (s : Session) : Str × Nat × Nat := (s.id, s.creationTime, s.useTime)

def OlmSessionRow.facts (row : OlmSessionRow) : Str × Nat × Nat :=
  (row.sessionId, row.creationTime, row.creationTime)

theorem loadSessions_spec (rows : List OlmSessionRow) (object : Nat) :
    Numbered (loadSessions object rows).1 (loadSessions object rows).2 ∧
    ∀ k, ((loadSessions object rows).1 k).Pairwise UsedAfter ∧
      (((loadSessions object rows).1 k).map Session.facts).Perm
        ((rows.filter fun row => row.senderKey = k).map OlmSessionRow.facts) := by
  -- by induction on the rows that were read last
  induction rows using List.reverseRecOn with
  | nil => exact ⟨⟨by simp [loadSessions], by simp [loadSessions]⟩, by simp [loadSessions]⟩
  | append_singleton rows row ih =>
    obtain ⟨hnum, hrows⟩ := ih
    have hload : loadSessions object (rows ++ [row]) =
        (((loadSessions object rows).1.add row.senderKey
          (row.load (loadSessions object rows).2)).1, (loadSessions object rows).2 + 1) := by
      unfold loadSessions
      rw [List.foldl_concat]
    rw [hload]
    refine ⟨hnum.add rfl, fun k => ?_⟩
    obtain ⟨hsorted, hperm⟩ := hrows k
    dsimp only
    rw [add_new_session fun t ht => hnum.lt _ t ht]
    rw [List.filter_append]
    split
    · next h =>
      subst h
      refine ⟨List.pairwise_insertionSort _ _, ?_⟩
      have hrow : [row].filter (fun r => r.senderKey = row.senderKey) = [row] := by simp
      rw [hrow, List.map_append]
      refine ((List.perm_insertionSort UsedAfter _).map Session.facts).trans ?_
      rw [List.map_append]
      exact hperm.append_right _
    · next h =>
      rw [List.filter_cons_of_neg (by simpa using Ne.symm h), List.filter_nil, List.append_nil]
      exact ⟨hsorted, hperm⟩

/-- A list that is sorted by distinct use times has no other session as new as an earlier one. -/
theorem pairwise_lt_of_usedAfter {l : List Session} (h : l.Pairwise UsedAfter)
    (hnodup : (l.map Session.useTime).Nodup) : l.Pairwise fun s t => t.useTime < s.useTime := by
  rw [List.Nodup, List.pairwise_map] at hnodup
  refine (h.and hnodup).imp ?_
  rintro s t ⟨hle, hne⟩
  exact Nat.lt_of_le_of_ne hle (Ne.symm hne)

/-! ## The order of the sessions -/

section Ordered

variable {w : SessionWorld} {m : SessionMachine} {k : Str}

/-- The sessions with each key are in the order of their use, the first of them is the last one
made, and the rows are those of the sessions. -/
structure Ordered (w : SessionWorld) (m : SessionMachine) : Prop where
  sorted : ∀ k, (m.sessionStore k).Pairwise fun s t => t.useTime < s.useTime
  newest : ∀ k, ∀ s ∈ m.sessionStore.get k, ∀ t ∈ m.sessionStore k,
    t.creationTime ≤ s.creationTime
  numbered : Numbered m.sessionStore m.objects
  used : ∀ k, ∀ s ∈ m.sessionStore k, s.useTime < w.clock m.readings
  stored : ∀ k id time,
    (∃ row ∈ m.rows, row.senderKey = k ∧ row.sessionId = id ∧ row.creationTime = time) ↔
      ∃ s ∈ m.sessionStore k, s.id = id ∧ s.creationTime = time
  ids : (m.rows.map OlmSessionRow.sessionId).Nodup
  times : (m.rows.map OlmSessionRow.creationTime).Nodup
  made : ∀ row ∈ m.rows, (∃ i < m.created, row.sessionId = w.sessionId i) ∧
    row.creationTime < w.clock m.readings

theorem ordered_new (w : SessionWorld) : Ordered w .new := by
  refine ⟨?_, ?_, ⟨?_, ?_⟩, ?_, ?_, ?_, ?_, ?_⟩ <;>
    simp [SessionMachine.new, SessionStore.get]

theorem Ordered.row (h : Ordered w m) {s : Session} (hs : s ∈ m.sessionStore k) :
    ∃ row ∈ m.rows, row.senderKey = k ∧ row.sessionId = s.id ∧
      row.creationTime = s.creationTime :=
  (h.stored k s.id s.creationTime).mpr ⟨s, hs, rfl, rfl⟩

theorem Ordered.created (h : Ordered w m) {s : Session} (hs : s ∈ m.sessionStore k) :
    s.creationTime < w.clock m.readings := by
  obtain ⟨row, hrow, -, -, htime⟩ := h.row hs
  rw [← htime]
  exact (h.made row hrow).2

/-- The first of the sorted sessions was used last. -/
theorem Ordered.freshest (h : Ordered w m) (k : Str) : m.Freshest k := by
  intro s hs t ht hne
  obtain ⟨rest, hrest⟩ := List.head?_eq_some_iff.mp hs
  have hsorted := h.sorted k
  rw [hrest] at hsorted ht
  rcases List.mem_cons.mp ht with rfl | ht
  · exact absurd rfl hne
  · exact (List.pairwise_cons.mp hsorted).1 t ht

/-- The loaded sessions are in the order in which they were made. -/
theorem Ordered.reload (h : Ordered w m) : Ordered w m.reload := by
  obtain ⟨hnum, hrows⟩ := loadSessions_spec m.rows m.objects
  -- a loaded session is one of the rows, used when it was made
  have hmem : ∀ k s, s ∈ m.reload.sessionStore k → ∃ row ∈ m.rows, row.senderKey = k ∧
      s.facts = row.facts := by
    intro k s hs
    obtain ⟨row, hrow, hfacts⟩ := List.mem_map.mp
      (((hrows k).2.mem_iff).mp (List.mem_map_of_mem hs))
    exact ⟨row, List.mem_of_mem_filter hrow, by simpa using (List.mem_filter.mp hrow).2,
      hfacts.symm⟩
  have htimes : ∀ k, ((m.reload.sessionStore k).map Session.useTime).Nodup := by
    intro k
    have hperm := (hrows k).2.map fun f => f.2.2
    simp only [List.map_map] at hperm
    refine (List.Perm.nodup_iff hperm).mpr ?_
    exact h.times.sublist (List.filter_sublist.map OlmSessionRow.creationTime)
  have hsorted : ∀ k, (m.reload.sessionStore k).Pairwise fun s t => t.useTime < s.useTime :=
    fun k => pairwise_lt_of_usedAfter (hrows k).1 (htimes k)
  refine ⟨hsorted, ?_, hnum, ?_, ?_, h.ids, h.times, h.made⟩
  · intro k s hs t ht
    obtain ⟨row, -, -, hs'⟩ := hmem k s (List.mem_of_mem_head? hs)
    obtain ⟨row', -, -, ht'⟩ := hmem k t ht
    simp only [Session.facts, OlmSessionRow.facts, Prod.mk.injEq] at hs' ht'
    obtain ⟨rest, hrest⟩ := List.head?_eq_some_iff.mp hs
    have hpair := hsorted k
    rw [hrest] at hpair ht
    rcases List.mem_cons.mp ht with rfl | ht
    · exact Nat.le_refl _
    · have hlt := (List.pairwise_cons.mp hpair).1 t ht
      omega
  · intro k s hs
    obtain ⟨row, hrow, -, hfacts⟩ := hmem k s hs
    simp only [Session.facts, OlmSessionRow.facts, Prod.mk.injEq] at hfacts
    rw [hfacts.2.2]
    exact (h.made row hrow).2
  · intro k id time
    constructor
    · rintro ⟨row, hrow, rfl, rfl, rfl⟩
      have hin : row.facts ∈ (m.reload.sessionStore row.senderKey).map Session.facts :=
        ((hrows row.senderKey).2.mem_iff).mpr
          (List.mem_map_of_mem (List.mem_filter.mpr ⟨hrow, decide_eq_true rfl⟩))
      obtain ⟨s, hs, hfacts⟩ := List.mem_map.mp hin
      simp only [Session.facts, OlmSessionRow.facts, Prod.mk.injEq] at hfacts
      exact ⟨s, hs, hfacts.1, hfacts.2.1⟩
    · rintro ⟨s, hs, rfl, rfl⟩
      obtain ⟨row, hrow, hkey, hfacts⟩ := hmem k s hs
      simp only [Session.facts, OlmSessionRow.facts, Prod.mk.injEq] at hfacts
      exact ⟨row, hrow, hkey, hfacts.1.symm, hfacts.2.1.symm⟩

/-- Of two states with the same rows, the first sessions with a key have the same id. -/
theorem Ordered.get_id {m' : SessionMachine} (h : Ordered w m) (h' : Ordered w m')
    (hrows : m'.rows = m.rows) (k : Str) :
    (m'.sessionStore.get k).map Session.id = (m.sessionStore.get k).map Session.id := by
  have hmem : ∀ id time, (∃ s ∈ m'.sessionStore k, s.id = id ∧ s.creationTime = time) ↔
      ∃ s ∈ m.sessionStore k, s.id = id ∧ s.creationTime = time := by
    intro id time
    rw [← h.stored, ← h'.stored, hrows]
  cases hs : m.sessionStore.get k with
  | none =>
    have hnil : m.sessionStore k = [] := List.head?_eq_none_iff.mp hs
    cases hs' : m'.sessionStore.get k with
    | none => rfl
    | some s' =>
      obtain ⟨s, hs, -⟩ := (hmem _ _).mp ⟨s', List.mem_of_mem_head? hs', rfl, rfl⟩
      rw [hnil] at hs
      cases hs
  | some s =>
    obtain ⟨t', ht', hid, htime⟩ := (hmem _ _).mpr ⟨s, List.mem_of_mem_head? hs, rfl, rfl⟩
    cases hs' : m'.sessionStore.get k with
    | none =>
      rw [List.head?_eq_none_iff.mp hs'] at ht'
      cases ht'
    | some s' =>
      obtain ⟨t, ht, hid', htime'⟩ := (hmem _ _).mp ⟨s', List.mem_of_mem_head? hs', rfl, rfl⟩
      have hle := h.newest k s hs t ht
      have hle' := h'.newest k s' hs' t' ht'
      -- both were made at one time, and the rows have distinct times
      obtain ⟨row, hrow, -, hrid, hrtime⟩ := h.row (List.mem_of_mem_head? hs)
      obtain ⟨row', hrow', -, hrid', hrtime'⟩ := h'.row (List.mem_of_mem_head? hs')
      rw [hrows] at hrow'
      have heq : row' = row := List.inj_on_of_nodup_map h.times hrow' hrow (by omega)
      rw [Option.map_some, Option.map_some, ← hrid, ← hrid', heq]

theorem Ordered.selects (h : Ordered w m) : m.Selects :=
  fun k => ⟨h.freshest k, h.get_id h.reload rfl k⟩

/-! ## Steps -/

/-- The first session is used at the next reading. -/
def SessionMachine.useFirst (w : SessionWorld) (m : SessionMachine) (k : Str) : SessionMachine :=
  { m with
    sessionStore := Function.update m.sessionStore k
      (match m.sessionStore k with
      | [] => []
      | s :: rest => s.use (w.clock m.readings) :: rest)
    readings := m.readings + 1 }

theorem useFirst_eq {s : Session} {rest : List Session} (hl : m.sessionStore k = s :: rest) :
    m.useFirst w k = { m with
      sessionStore := Function.update m.sessionStore k (s.use (w.clock m.readings) :: rest)
      readings := m.readings + 1 } := by
  rw [SessionMachine.useFirst, hl]

theorem mem_useFirst {s : Session} {rest : List Session} (hl : m.sessionStore k = s :: rest) :
    s.use (w.clock m.readings) ∈ (m.useFirst w k).sessionStore k := by
  rw [useFirst_eq hl]
  dsimp only
  rw [Function.update_self]
  exact List.mem_cons_self

theorem Ordered.useFirst (h : Ordered w m) (k : Str) : Ordered w (m.useFirst w k) := by
  have hclock := w.clock_strictMono (Nat.lt_succ_self m.readings)
  -- the sessions with another key, and all facts but the use time of the first, are as they were
  have hother : ∀ k', k' ≠ k → (m.useFirst w k).sessionStore k' = m.sessionStore k' :=
    fun k' hk => Function.update_of_ne hk _ _
  have hself : (m.useFirst w k).sessionStore k = match m.sessionStore k with
      | [] => []
      | s :: rest => s.use (w.clock m.readings) :: rest := Function.update_self _ _ _
  have hused : ∀ k', ∀ s ∈ m.sessionStore k', s.useTime < w.clock (m.readings + 1) :=
    fun k' s hs => (h.used k' s hs).trans hclock
  have hmade : ∀ row ∈ m.rows, (∃ i < m.created, row.sessionId = w.sessionId i) ∧
      row.creationTime < w.clock (m.readings + 1) :=
    fun row hrow => ⟨(h.made row hrow).1, (h.made row hrow).2.trans hclock⟩
  cases hk : m.sessionStore k with
  | nil =>
    have heq : ∀ k', (m.useFirst w k).sessionStore k' = m.sessionStore k' := by
      intro k'
      by_cases hkk : k' = k
      · subst hkk
        rw [hself, hk]
      · exact hother k' hkk
    have hstore : (m.useFirst w k).sessionStore = m.sessionStore := funext heq
    have hm : m.useFirst w k = { m with readings := m.readings + 1 } := by
      rw [← hstore]
      rfl
    rw [hm]
    exact ⟨h.sorted, h.newest, h.numbered, hused, h.stored, h.ids, h.times, hmade⟩
  | cons s rest =>
    rw [hk] at hself
    have hpair := h.sorted k
    have hnew := h.newest k s (by rw [SessionStore.get, hk]; rfl)
    have hfirst := h.used k s (by rw [hk]; exact List.mem_cons_self)
    rw [hk] at hpair hnew
    refine ⟨fun k' => ?_, fun k' => ?_, ⟨fun k' => ?_, fun k' => ?_⟩, fun k' => ?_, fun k' => ?_,
      h.ids, h.times, hmade⟩ <;> by_cases hkk : k' = k
    · subst hkk
      rw [hself]
      rw [List.pairwise_cons] at hpair ⊢
      exact ⟨fun t ht => (hpair.1 t ht).trans hfirst, hpair.2⟩
    · rw [hother k' hkk]
      exact h.sorted k'
    · subst hkk
      rw [SessionStore.get, hself]
      rintro _ ⟨⟩ t ht
      rcases List.mem_cons.mp ht with rfl | ht
      · exact Nat.le_refl _
      · exact hnew t (List.mem_cons_of_mem _ ht)
    · rw [SessionStore.get, hother k' hkk]
      exact h.newest k'
    · subst hkk
      have hlt := h.numbered.lt k'
      rw [hk] at hlt
      rw [hself]
      intro t ht
      rcases List.mem_cons.mp ht with rfl | ht
      · exact hlt s List.mem_cons_self
      · exact hlt t (List.mem_cons_of_mem _ ht)
    · rw [hother k' hkk]
      exact h.numbered.lt k'
    · subst hkk
      have hnodup := h.numbered.nodup k'
      rw [hk] at hnodup
      rw [hself]
      exact hnodup
    · rw [hother k' hkk]
      exact h.numbered.nodup k'
    · subst hkk
      rw [hself]
      intro t ht
      rcases List.mem_cons.mp ht with rfl | ht
      · exact hclock
      · exact hused k' t (by rw [hk]; exact List.mem_cons_of_mem _ ht)
    · rw [hother k' hkk]
      exact hused k'
    · subst hkk
      intro id time
      rw [hself]
      refine (h.stored k' id time).trans ?_
      rw [hk]
      simp only [List.mem_cons, exists_eq_or_imp, Session.use]
    · rw [hother k' hkk]
      exact h.stored k'

/-- A session that the database has is saved again. -/
theorem Ordered.save (h : Ordered w m) {s : Session} (hs : s ∈ m.sessionStore k) :
    Ordered w (m.saveSession k s) := by
  obtain ⟨row, hrow, hkey, hid, htime⟩ := h.row hs
  -- the row is the only one with the session id
  have honly : ∀ r ∈ m.rows, r.sessionId = s.id → r = row := fun r hr hrid =>
    List.inj_on_of_nodup_map h.ids hr hrow (hrid.trans hid.symm)
  have hmem : ∀ r, r ∈ (m.saveSession k s).rows ↔
      r ∈ m.rows ∧ r.sessionId ≠ s.id ∨ r = rowOfSession k s := by
    intro r
    unfold SessionMachine.saveSession replace
    rw [List.mem_append, List.mem_filter, List.mem_singleton, decide_eq_true_iff]
    rfl
  refine ⟨h.sorted, h.newest, h.numbered, h.used, fun k' id time => ?_, ?_, ?_, ?_⟩
  · rw [show (m.saveSession k s).sessionStore = m.sessionStore from rfl, ← h.stored]
    constructor
    · rintro ⟨r, hr, rfl, rfl, rfl⟩
      rcases (hmem r).mp hr with ⟨hr, -⟩ | rfl
      · exact ⟨r, hr, rfl, rfl, rfl⟩
      · exact ⟨row, hrow, hkey, hid, htime⟩
    · rintro ⟨r, hr, rfl, rfl, rfl⟩
      by_cases hrs : r.sessionId = s.id
      · obtain rfl := honly r hr hrs
        exact ⟨rowOfSession k s, (hmem _).mpr (Or.inr rfl), hkey.symm, hid.symm, htime.symm⟩
      · exact ⟨r, (hmem r).mpr (Or.inl ⟨hr, hrs⟩), rfl, rfl, rfl⟩
  · simp only [SessionMachine.saveSession, replace, List.map_append, List.map_singleton]
    rw [List.nodup_append]
    refine ⟨h.ids.sublist (List.filter_sublist.map _), List.nodup_singleton _, ?_⟩
    rintro a ha b hb rfl
    obtain ⟨r, hr, rfl⟩ := List.mem_map.mp ha
    have hne := (List.mem_filter.mp hr).2
    simp only [decide_eq_true_eq] at hne
    exact hne (List.mem_singleton.mp hb)
  · simp only [SessionMachine.saveSession, replace, List.map_append, List.map_singleton]
    rw [List.nodup_append]
    refine ⟨h.times.sublist (List.filter_sublist.map _), List.nodup_singleton _, ?_⟩
    rintro a ha b hb rfl
    obtain ⟨r, hr, hrt⟩ := List.mem_map.mp ha
    obtain ⟨hr, hne⟩ := List.mem_filter.mp hr
    simp only [decide_eq_true_eq] at hne
    have heq : r = row := List.inj_on_of_nodup_map h.times hr hrow
      (hrt.trans ((List.mem_singleton.mp hb).trans htime.symm))
    exact hne (heq ▸ hid)
  · intro r hr
    rcases (hmem r).mp hr with ⟨hr, -⟩ | rfl
    · exact h.made r hr
    · obtain ⟨⟨i, hi, hri⟩, hlt⟩ := h.made row hrow
      exact ⟨⟨i, hi, hid.symm.trans hri⟩, lt_of_eq_of_lt htime.symm hlt⟩

/-- A session that the library makes now comes first. -/
theorem Ordered.keepNew (h : Ordered w m) (k : Str) : Ordered w (m.keepNew w k) := by
  have hclock := w.clock_strictMono (Nat.lt_succ_self m.readings)
  have hclock' := w.clock_strictMono (Nat.lt_succ_self (m.readings + 1))
  generalize hs : (⟨m.objects, w.sessionId m.created, w.clock m.readings,
    w.clock (m.readings + 1)⟩ : Session) = s
  have hlist : ∀ k', (m.keepNew w k).sessionStore k' =
      if k' = k then (m.sessionStore k ++ [s]).insertionSort UsedAfter else m.sessionStore k' := by
    intro k'
    rw [← hs]
    exact add_new_session (fun t ht => h.numbered.lt k t ht) k'
  have hmem : ∀ k' t, t ∈ (m.keepNew w k).sessionStore k' ↔
      t ∈ m.sessionStore k' ∨ k' = k ∧ t = s := by
    intro k' t
    rw [hlist]
    by_cases hk : k' = k
    · subst hk
      simp
    · simp [hk]
  -- the session id is new, so the row is added to the others
  have hfresh : ∀ row ∈ m.rows, row.sessionId ≠ s.id := by
    intro row hrow heq
    obtain ⟨⟨i, hi, hri⟩, -⟩ := h.made row hrow
    rw [heq, ← hs] at hri
    have hlt := w.sessionId_injective hri
    omega
  have hrows : (m.keepNew w k).rows = m.rows ++ [rowOfSession k s] := by
    have hfilter : m.rows.filter (fun row => row.sessionId ≠ s.id) = m.rows :=
      List.filter_eq_self.mpr fun row hrow => decide_eq_true (hfresh row hrow)
    rw [← hfilter, ← hs]
    rfl
  have hlt : ∀ t ∈ m.sessionStore k, t.useTime < s.useTime := by
    intro t ht
    rw [← hs]
    exact (h.used k t ht).trans hclock
  have hsorted : ∀ k', ((m.keepNew w k).sessionStore k').Pairwise
      fun s t => t.useTime < s.useTime := by
    intro k'
    rw [hlist]
    split
    · refine pairwise_lt_of_usedAfter (List.pairwise_insertionSort _ _) ?_
      refine ((List.perm_insertionSort UsedAfter _).map Session.useTime).nodup_iff.mpr ?_
      rw [List.map_append, List.map_singleton, List.nodup_append]
      refine ⟨?_, List.nodup_singleton _, ?_⟩
      · rw [List.Nodup, List.pairwise_map]
        exact (h.sorted k).imp fun hlt => (Nat.ne_of_lt hlt).symm
      · rintro a ha b hb rfl
        obtain ⟨t, ht, rfl⟩ := List.mem_map.mp ha
        exact (hlt t ht).ne (List.mem_singleton.mp hb)
    · exact h.sorted k'
  refine ⟨hsorted, ?_, ?_, ?_, ?_, ?_, ?_, ?_⟩
  · intro k' t ht t' ht'
    by_cases hk : k' = k
    · subst hk
      -- the first session is the new one, as it was used last
      obtain ⟨rest, hrest⟩ := List.head?_eq_some_iff.mp ht
      have hpair := hsorted k'
      have hin : s ∈ (m.keepNew w k').sessionStore k' := (hmem k' s).mpr (Or.inr ⟨rfl, rfl⟩)
      rw [hrest] at hpair hin
      have hts : t = s := by
        rcases List.mem_cons.mp hin with heq | hin
        · exact heq.symm
        · have hgt := (List.pairwise_cons.mp hpair).1 s hin
          rcases (hmem k' t).mp (List.mem_of_mem_head? ht) with hold | ⟨-, heq⟩
          · have hlt := hlt t hold
            omega
          · exact heq
      rw [hts]
      rcases (hmem k' t').mp ht' with hold | ⟨-, rfl⟩
      · rw [← hs]
        exact (h.created hold).le
      · exact Nat.le_refl _
    · refine h.newest k' t ?_ t' ?_
      · rw [SessionStore.get, hlist, if_neg hk] at ht
        exact ht
      · rwa [hlist, if_neg hk] at ht'
  · exact h.numbered.add rfl
  · intro k' t ht
    have hlt' : w.clock (m.readings + 1) < w.clock (m.readings + 2) := hclock'
    rcases (hmem k' t).mp ht with hold | ⟨-, rfl⟩
    · exact ((h.used k' t hold).trans hclock).trans hlt'
    · rw [← hs]
      exact hlt'
  · intro k' id time
    rw [hrows]
    constructor
    · rintro ⟨row, hrow, rfl, rfl, rfl⟩
      rw [List.mem_append, List.mem_singleton] at hrow
      rcases hrow with hrow | rfl
      · obtain ⟨t, ht, hfacts⟩ := (h.stored _ _ _).mp ⟨row, hrow, rfl, rfl, rfl⟩
        exact ⟨t, (hmem _ t).mpr (Or.inl ht), hfacts⟩
      · exact ⟨s, (hmem _ s).mpr (Or.inr ⟨rfl, rfl⟩), rfl, rfl⟩
    · rintro ⟨t, ht, rfl, rfl⟩
      rcases (hmem k' t).mp ht with hold | ⟨rfl, rfl⟩
      · obtain ⟨row, hrow, hfacts⟩ := h.row hold
        exact ⟨row, List.mem_append_left _ hrow, hfacts⟩
      · exact ⟨rowOfSession k' t, List.mem_append_right _ (List.mem_singleton_self _), rfl, rfl, rfl⟩
  · rw [hrows, List.map_append, List.map_singleton, List.nodup_append]
    refine ⟨h.ids, List.nodup_singleton _, ?_⟩
    rintro a ha b hb rfl
    obtain ⟨row, hrow, rfl⟩ := List.mem_map.mp ha
    exact hfresh row hrow (List.mem_singleton.mp hb)
  · rw [hrows, List.map_append, List.map_singleton, List.nodup_append]
    refine ⟨h.times, List.nodup_singleton _, ?_⟩
    rintro a ha b hb rfl
    obtain ⟨row, hrow, hrt⟩ := List.mem_map.mp ha
    have hlt := (h.made row hrow).2
    have heq : row.creationTime = w.clock m.readings := by
      rw [hrt, List.mem_singleton.mp hb, ← hs]
      rfl
    omega
  · intro row hrow
    rw [hrows, List.mem_append, List.mem_singleton] at hrow
    have hle : w.clock m.readings < w.clock (m.readings + 2) := hclock.trans hclock'
    rcases hrow with hrow | rfl
    · obtain ⟨⟨i, hi, hri⟩, hlt⟩ := h.made row hrow
      exact ⟨⟨i, Nat.lt_succ_of_lt hi, hri⟩, hlt.trans hle⟩
    · rw [← hs]
      exact ⟨⟨m.created, Nat.lt_succ_self _, rfl⟩, hle⟩

/-! ## The search for a session -/

variable (clock : Nat → Nat) {preKey : Bool} {answer : Str → SessionAnswer}

variable (preKey answer) in
/-- What the loop does at a session, by what it is to do with it -/
theorem tryDecryptFrom_cons (n : Nat) (s : Session) (rest : List Session) :
    (¬Tries preKey (answer s.id) ∧ GoesOn preKey (answer s.id) ∧
      tryDecryptFrom clock preKey answer n (s :: rest) =
        (s :: (tryDecryptFrom clock preKey answer n rest).1,
          (tryDecryptFrom clock preKey answer n rest).2)) ∨
    (¬Tries preKey (answer s.id) ∧ ¬GoesOn preKey (answer s.id) ∧
      tryDecryptFrom clock preKey answer n (s :: rest) = (s :: rest, n, .raised)) ∨
    (Tries preKey (answer s.id) ∧ GoesOn preKey (answer s.id) ∧ preKey = false ∧
      tryDecryptFrom clock preKey answer n (s :: rest) =
        (s.use (clock n) :: (tryDecryptFrom clock preKey answer (n + 1) rest).1,
          (tryDecryptFrom clock preKey answer (n + 1) rest).2)) ∨
    (Tries preKey (answer s.id) ∧ ¬GoesOn preKey (answer s.id) ∧
      ∃ trial, (trial = .decrypted (s.use (clock n)) ∨ trial = .failed ∨ trial = .raised) ∧
        tryDecryptFrom clock preKey answer n (s :: rest) =
          (s.use (clock n) :: rest, n + 1, trial)) := by
  unfold Tries GoesOn
  rw [tryDecryptFrom]
  cases preKey with
  | true =>
    cases hm : (answer s.id).sessionMatches with
    | ok b =>
      cases b with
      | false => simp
      | true =>
        cases hp : (answer s.id).plaintext with
        | ok text => simp
        | error e => cases e <;> simp
    | error e => cases e <;> simp
  | false =>
    cases hp : (answer s.id).plaintext with
    | ok text => simp
    | error e => cases e <;> simp

theorem tryDecryptFrom_untried {l : List Session} (h : Untried preKey answer l) (n : Nat) :
    ∃ trial, (trial = .unmatched ∨ trial = .raised) ∧
      tryDecryptFrom clock preKey answer n l = (l, n, trial) := by
  induction l with
  | nil => exact ⟨.unmatched, Or.inl rfl, rfl⟩
  | cons s rest ih =>
    obtain ⟨hs, hrest⟩ := h
    rcases tryDecryptFrom_cons clock preKey answer n s rest with
      ⟨-, hgo, heq⟩ | ⟨-, -, heq⟩ | ⟨ht, -⟩ | ⟨ht, -⟩
    · obtain ⟨trial, htrial, hr⟩ := ih (hrest hgo)
      rw [heq, hr]
      exact ⟨trial, htrial, rfl⟩
    · rw [heq]
      exact ⟨.raised, Or.inr rfl, rfl⟩
    · exact absurd ht hs
    · exact absurd ht hs

/-- A message that is only tried with the first session changes no other. -/
theorem tryDecryptFrom_first {l : List Session} (h : FirstOnly preKey answer l) (n : Nat) :
    (∃ trial, (trial = .unmatched ∨ trial = .raised) ∧
      tryDecryptFrom clock preKey answer n l = (l, n, trial)) ∨
    ∃ s rest trial, l = s :: rest ∧ (∀ t, trial = .decrypted t → t = s.use (clock n)) ∧
      tryDecryptFrom clock preKey answer n l = (s.use (clock n) :: rest, n + 1, trial) := by
  cases l with
  | nil => exact Or.inl ⟨.unmatched, Or.inl rfl, rfl⟩
  | cons s rest =>
    rcases tryDecryptFrom_cons clock preKey answer n s rest with
      ⟨-, hgo, heq⟩ | ⟨-, -, heq⟩ | ⟨-, hgo, -, heq⟩ | ⟨-, -, trial, htrial, heq⟩
    · obtain ⟨trial, htrial, hr⟩ := tryDecryptFrom_untried clock (h hgo) n
      refine Or.inl ⟨trial, htrial, ?_⟩
      rw [heq, hr]
    · exact Or.inl ⟨.raised, Or.inr rfl, heq⟩
    · obtain ⟨trial, htrial, hr⟩ := tryDecryptFrom_untried clock (h hgo) (n + 1)
      refine Or.inr ⟨s, rest, trial, rfl, ?_, by rw [heq, hr]⟩
      rintro t rfl
      rcases htrial with htrial | htrial <;> cases htrial
    · refine Or.inr ⟨s, rest, trial, rfl, ?_, heq⟩
      rintro t rfl
      rcases htrial with htrial | htrial | htrial
      · cases htrial
        rfl
      · cases htrial
      · cases htrial

variable (preKey answer) in
theorem tryDecryptFrom_objects (n : Nat) (l : List Session) :
    (tryDecryptFrom clock preKey answer n l).1.map Session.object = l.map Session.object := by
  induction l generalizing n with
  | nil => rfl
  | cons s rest ih =>
    rcases tryDecryptFrom_cons clock preKey answer n s rest with
      ⟨-, -, heq⟩ | ⟨-, -, heq⟩ | ⟨-, -, -, heq⟩ | ⟨-, -, trial, -, heq⟩ <;> rw [heq]
    · rw [List.map_cons, List.map_cons, ih]
    · rw [List.map_cons, List.map_cons, ih]
      rfl
    · rfl

/-- A session that is tried is used at a reading that is taken then; a pre-key message is not tried
with another session. -/
theorem tryDecryptFrom_tried {l : List Session} (h : ¬Untried preKey answer l) (n : Nat) :
    (∃ t ∈ (tryDecryptFrom w.clock preKey answer n l).1, w.clock n ≤ t.useTime) ∧
    (preKey → (tryDecryptFrom w.clock preKey answer n l).2.2 ≠ .unmatched) := by
  induction l generalizing n with
  | nil => exact absurd trivial h
  | cons s rest ih =>
    rcases tryDecryptFrom_cons w.clock preKey answer n s rest
      with ⟨ht, hgo, heq⟩ | ⟨ht, hgo, heq⟩ | ⟨-, -, hpre, heq⟩ | ⟨-, -, trial, htrial, heq⟩ <;>
      rw [heq]
    · have hrest : ¬Untried preKey answer rest := fun hrest => h ⟨ht, fun _ => hrest⟩
      obtain ⟨⟨t, htl, hle⟩, htrial⟩ := ih hrest n
      exact ⟨⟨t, List.mem_cons_of_mem _ htl, hle⟩, htrial⟩
    · exact absurd ⟨ht, fun hgo' => absurd hgo' hgo⟩ h
    · exact ⟨⟨_, List.mem_cons_self, Nat.le_refl _⟩, fun hpre' => absurd hpre' (by simp [hpre])⟩
    · refine ⟨⟨_, List.mem_cons_self, Nat.le_refl _⟩, fun _ hun => ?_⟩
      have hun : trial = .unmatched := hun
      subst hun
      rcases htrial with htrial | htrial | htrial <;> cases htrial

/-! ## Every step -/

theorem Ordered.decrypt (h : Ordered w m) {inbound : Bool}
    (hfirst : FirstOnly preKey answer (m.sessionStore k)) :
    Ordered w (m.decrypt w k preKey answer inbound) := by
  unfold SessionMachine.decrypt
  rcases tryDecryptFrom_first w.clock hfirst m.readings with
    ⟨trial, htrial, heq⟩ | ⟨s, rest, trial, hl, hdecrypted, heq⟩
  · -- no session is tried
    rw [heq]
    dsimp only
    rw [Function.update_eq_self]
    rcases htrial with rfl | rfl
    · dsimp only
      split
      · exact h.keepNew k
      · exact h
    · exact h
  · rw [heq]
    dsimp only
    have hused := h.useFirst k
    rw [← useFirst_eq hl]
    cases trial with
    | decrypted t =>
      obtain rfl := hdecrypted t rfl
      exact hused.save (mem_useFirst hl)
    | failed => exact hused
    | raised => exact hused
    | unmatched =>
      dsimp only
      split
      · exact hused.keepNew k
      · exact hused

theorem Ordered.encrypt (h : Ordered w m) {object : Nat}
    (hfirst : ∀ s ∈ m.sessionStore k, s.object = object → m.sessionStore.get k = some s) :
    Ordered w (m.encrypt w k object) := by
  unfold SessionMachine.encrypt
  cases hs : (m.sessionStore k).find? fun s => s.object = object with
  | none => exact h
  | some s =>
    have hobject : s.object = object := by simpa using List.find?_some hs
    obtain ⟨rest, hl⟩ :=
      List.head?_eq_some_iff.mp (hfirst s (List.mem_of_find?_eq_some hs) hobject)
    -- the other sessions are other objects
    have hrest : ∀ t ∈ rest, t.object ≠ object := by
      intro t ht heq
      have hnodup := h.numbered.nodup k
      rw [hl, List.map_cons, List.nodup_cons] at hnodup
      exact hnodup.1 (List.mem_map.mpr ⟨t, ht, heq.trans hobject.symm⟩)
    have hmap : (m.sessionStore k).map
        (fun t => if t.object = object then t.use (w.clock m.readings) else t) =
        s.use (w.clock m.readings) :: rest := by
      rw [hl, List.map_cons, if_pos hobject]
      have hid : rest.map (fun t => if t.object = object then t.use (w.clock m.readings) else t) =
          rest.map id := List.map_congr_left fun t ht => if_neg (hrest t ht)
      rw [hid, List.map_id]
    dsimp only
    rw [hmap, ← useFirst_eq hl]
    exact (h.useFirst k).save (mem_useFirst hl)

theorem Ordered.step (h : Ordered w m) (e : SessionEvent) (he : m.UsesFirst e) :
    Ordered w (m.step w e) := by
  cases e with
  | createSession k => exact h.keepNew k
  | decrypt k preKey answer inbound => exact h.decrypt he
  | encrypt k object => exact h.encrypt he
  | loadSessions => exact h.reload

/-- A session that was used after the first one is not the one that `get` returns. -/
theorem not_freshest {s t : Session} {rest : List Session} (hl : m.sessionStore k = s :: rest)
    (ht : t ∈ rest) (hobject : t.object ≠ s.object) (hle : s.useTime ≤ t.useTime) :
    ¬m.Selects := by
  intro hselects
  have hlt := (hselects k).1 s (by rw [SessionStore.get, hl]; rfl) t
    (by rw [hl]; exact List.mem_cons_of_mem _ ht) hobject
  omega

theorem Ordered.firstOnly_of_selects (h : Ordered w m) {inbound : Bool}
    (hselects : (m.decrypt w k preKey answer inbound).Selects) :
    FirstOnly preKey answer (m.sessionStore k) := by
  cases hl : m.sessionStore k with
  | nil => trivial
  | cons s rest =>
    intro hgo
    by_contra hun
    have hclock := w.clock_strictMono (Nat.lt_succ_self m.readings)
    have hused := h.used k s (by rw [hl]; exact List.mem_cons_self)
    have hnodup := h.numbered.nodup k
    rw [hl, List.map_cons, List.nodup_cons] at hnodup
    -- the loop goes on from the first session, used or not, and tries another one
    obtain ⟨s', n, hs', hle, heq⟩ : ∃ s' n, s'.object = s.object ∧ s'.useTime ≤ w.clock n ∧
        tryDecryptFrom w.clock preKey answer m.readings (s :: rest) =
          (s' :: (tryDecryptFrom w.clock preKey answer n rest).1,
            (tryDecryptFrom w.clock preKey answer n rest).2) := by
      rcases tryDecryptFrom_cons w.clock preKey answer m.readings
        s rest with ⟨-, -, heq⟩ | ⟨-, hno, -⟩ | ⟨-, -, -, heq⟩ | ⟨-, hno, -⟩
      · exact ⟨s, m.readings, rfl, hused.le, heq⟩
      · exact absurd hgo hno
      · exact ⟨s.use (w.clock m.readings), m.readings + 1, rfl, hclock.le, heq⟩
      · exact absurd hgo hno
    obtain ⟨⟨t, ht, hlt⟩, hmatched⟩ := tryDecryptFrom_tried (w := w) hun n
    have hobject : t.object ≠ s'.object := by
      intro hts
      refine hnodup.1 ?_
      rw [← tryDecryptFrom_objects w.clock preKey answer n rest,
        ← hs', ← hts]
      exact List.mem_map_of_mem ht
    refine not_freshest (k := k) (s := s') ?_ ht hobject (hle.trans hlt) hselects
    unfold SessionMachine.decrypt
    rw [hl, heq]
    generalize tryDecryptFrom w.clock preKey answer n rest = r at hmatched
    obtain ⟨sessions, readings, trial⟩ := r
    cases trial with
    | decrypted u => exact Function.update_self _ _ _
    | failed => exact Function.update_self _ _ _
    | raised => exact Function.update_self _ _ _
    | unmatched =>
      -- no session is made, as the message is none with which one can be made
      dsimp only at hmatched ⊢
      rw [if_neg fun hpre => hmatched hpre.1 rfl]
      exact Function.update_self _ _ _

theorem Ordered.first_of_selects (h : Ordered w m) {object : Nat}
    (hselects : (m.encrypt w k object).Selects) {s : Session} (hs : s ∈ m.sessionStore k)
    (hobject : s.object = object) : m.sessionStore.get k = some s := by
  subst hobject
  cases hl : m.sessionStore k with
  | nil =>
    rw [hl] at hs
    cases hs
  | cons first rest =>
    rw [SessionStore.get, hl, List.head?_cons]
    by_contra hne
    have hnodup := h.numbered.nodup k
    have hused := h.used k first (by rw [hl]; exact List.mem_cons_self)
    rw [hl, List.map_cons, List.nodup_cons] at hnodup
    rw [hl] at hs
    have hs : s ∈ rest := by
      rcases List.mem_cons.mp hs with rfl | hs
      · exact absurd rfl hne
      · exact hs
    have hobject : first.object ≠ s.object := fun heq =>
      hnodup.1 (List.mem_map.mpr ⟨s, hs, heq.symm⟩)
    obtain ⟨found, hfound⟩ : ∃ t, (m.sessionStore k).find? (fun t => t.object = s.object) =
        some t := by
      refine Option.isSome_iff_exists.mp (List.find?_isSome.mpr ⟨s, ?_, decide_eq_true rfl⟩)
      rw [hl]
      exact List.mem_cons_of_mem _ hs
    have hstore : (m.encrypt w k s.object).sessionStore k = first :: rest.map
        (fun t => if t.object = s.object then t.use (w.clock m.readings) else t) := by
      unfold SessionMachine.encrypt
      rw [hfound, hl, List.map_cons, if_neg hobject]
      exact Function.update_self _ _ _
    refine not_freshest (t := s.use (w.clock m.readings)) hstore ?_ (Ne.symm hobject) hused.le
      hselects
    exact List.mem_map.mpr ⟨s, hs, if_pos rfl⟩

/-- The session that `get` returns is the last one used and survives a reload, at every point of a
run, exactly when no other session is tried or encrypts. -/
theorem selects_iff (w : SessionWorld) (events : List SessionEvent) :
    (∀ done rest, events = done ++ rest → (run (SessionMachine.step w) .new done).Selects) ↔
      Along (SessionMachine.step w) SessionMachine.UsesFirst .new events := by
  have hbad : ∀ m e, Ordered w m → (m.step w e).Selects → m.UsesFirst e := by
    intro m e h hselects
    cases e with
    | createSession k => trivial
    | decrypt k preKey answer inbound => exact h.firstOnly_of_selects hselects
    | encrypt k object =>
      intro s hs hobject
      exact h.first_of_selects hselects hs hobject
    | loadSessions => trivial
  exact good_along_iff (fun m h => h.selects) (fun m e h he => h.step e he) hbad (ordered_new w)
    events

end Ordered

/-- Each reading is the next number, and so is each session id. -/
def countingWorld : SessionWorld where
  clock := id
  clock_strictMono := strictMono_id
  sessionId n := List.replicate n (chr 'a')
  sessionId_injective n m h := by simpa using congrArg List.length h

/-- Only the first of two sessions can decrypt the message. -/
def olderAnswers (id : Str) : SessionAnswer :=
  ⟨.ok false, if id = [] then .ok (py "\x7b\x7d") else .error .olmDecryption⟩

/-- A message is decrypted with the older of two sessions: `get` still returns the newer one, which
was used before it. -/
theorem older_session_used :
    ((run (SessionMachine.step countingWorld) .new [.createSession (py "curve"),
      .createSession (py "curve"), .decrypt (py "curve") false olderAnswers false]).sessionStore
        (py "curve")).map Session.facts = [(py "a", 2, 4), ([], 0, 5)] ∧
    ¬(run (SessionMachine.step countingWorld) .new [.createSession (py "curve"),
      .createSession (py "curve"), .decrypt (py "curve") false olderAnswers false]).Selects := by
  have hstore : (run (SessionMachine.step countingWorld) .new [.createSession (py "curve"),
      .createSession (py "curve"), .decrypt (py "curve") false olderAnswers false]).sessionStore
        (py "curve") = [⟨1, py "a", 2, 4⟩, ⟨0, [], 0, 5⟩] := by decide +kernel
  rw [hstore]
  exact ⟨rfl, not_freshest hstore List.mem_cons_self (by decide) (by decide)⟩

end Nio.Crypto
