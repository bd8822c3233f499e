import Mathlib.Data.List.Basic

/-!
# Logs that are consumed in order

A log holds entries with increasing positive keys and the number of entries that were consumed.
Consuming takes the oldest pending entry, so that what was consumed is always a prefix.

* `Log.append`, `Log.advance` — the two ways to move on
* `Log.progress_lt` — the sum of the last consumed key and the last key grows with each of them
-/

namespace Nio.Lib

variable {α : Type} {key : α → Nat}

/-- The key of the last entry, or `0`. -/
def lastKey (key : α → Nat) (es : List α) : Nat := (es.map key).getLastD 0

theorem lastKey_append (es : List α) (e : α) : lastKey key (es ++ [e]) = key e := by
  simp only [lastKey, List.map_append, List.map_cons, List.map_nil, List.getLastD_concat]

/-- Entries with increasing keys are at most the last one. -/
theorem key_le_lastKey {es : List α} (h : (es.map key).Pairwise (· < ·)) {e : α} (he : e ∈ es) :
    key e ≤ lastKey key es := by
  rcases List.eq_nil_or_concat es with rfl | ⟨init, last, rfl⟩
  · cases he
  · rw [List.concat_eq_append] at h he ⊢
    rw [lastKey_append]
    rw [List.map_append, List.pairwise_append] at h
    rcases List.mem_append.mp he with he | he
    · exact Nat.le_of_lt (h.2.2 _ (List.mem_map_of_mem he) _ (List.mem_singleton.mpr rfl))
    · exact Nat.le_of_eq (congrArg key (List.mem_singleton.mp he))

/-- Later entries have larger keys. -/
theorem key_lt_of_lt {es : List α} (h : (es.map key).Pairwise (· < ·)) {i j : Nat} (hij : i < j)
    {a b : α} (ha : es[i]? = some a) (hb : es[j]? = some b) : key a < key b := by
  obtain ⟨hi, rfl⟩ := List.getElem?_eq_some_iff.mp ha
  obtain ⟨hj, rfl⟩ := List.getElem?_eq_some_iff.mp hb
  rw [List.pairwise_map] at h
  exact List.pairwise_iff_getElem.mp h i j hi hj hij

theorem lastKey_pos {es : List α} (h : ∀ e ∈ es, 0 < key e) (hne : es ≠ []) :
    0 < lastKey key es := by
  rcases List.eq_nil_or_concat es with rfl | ⟨init, last, rfl⟩
  · exact absurd rfl hne
  · rw [List.concat_eq_append, lastKey_append]
    exact h last (by simp)

/-- A longer sequence of entries with increasing positive keys ends in a greater one. -/
theorem lastKey_lt {es fs : List α} (hp : es <+: fs) (hne : es ≠ fs)
    (hi : (fs.map key).Pairwise (· < ·)) (hpos : ∀ e ∈ fs, 0 < key e) :
    lastKey key es < lastKey key fs := by
  obtain ⟨rest, rfl⟩ := hp
  have hrest : rest ≠ [] := fun h => hne (by rw [h, List.append_nil])
  obtain ⟨e, he⟩ := List.exists_mem_of_ne_nil rest hrest
  have hle : key e ≤ lastKey key (es ++ rest) := key_le_lastKey hi (List.mem_append_right _ he)
  rw [List.map_append, List.pairwise_append] at hi
  rcases List.eq_nil_or_concat es with rfl | ⟨init, last, rfl⟩
  · exact lastKey_pos hpos (by simpa using hrest)
  · rw [List.concat_eq_append] at hi hle ⊢
    have hlt := hi.2.2 (key last) (List.mem_map_of_mem (by simp)) _ (List.mem_map_of_mem he)
    rw [lastKey_append]
    exact Nat.lt_of_lt_of_le hlt hle

/-- Entries in the order of their keys, of which the first `position` are consumed. -/
structure Log (key : α → Nat) where
  entries : List α
  position : Nat
  increasing : (entries.map key).Pairwise (· < ·)
  positive : ∀ e ∈ entries, 0 < key e
  position_le : position ≤ entries.length

namespace Log

variable {l l' : Log key}

/-- A log is known by its entries and its position. -/
theorem ext_of (he : l.entries = l'.entries) (hp : l.position = l'.position) : l = l' := by
  obtain ⟨es, p, _, _, _⟩ := l
  obtain ⟨es', p', _, _, _⟩ := l'
  simp only at he hp
  subst he hp
  rfl

def empty : Log key := ⟨[], 0, List.Pairwise.nil, by simp, Nat.le_refl _⟩

def consumed (l : Log key) : List α := l.entries.take l.position

def pending (l : Log key) : List α := l.entries.drop l.position

/-- What was consumed and what is pending make up the log. -/
theorem consumed_append_pending (l : Log key) : l.consumed ++ l.pending = l.entries :=
  List.take_append_drop _ _

/-- What was consumed is a prefix of the log. -/
theorem consumed_prefix (l : Log key) : l.consumed <+: l.entries := List.take_prefix _ _

def append (l : Log key) (e : α) (h : lastKey key l.entries < key e) : Log key where
  entries := l.entries ++ [e]
  position := l.position
  increasing := by
    rw [List.map_append, List.pairwise_append]
    refine ⟨l.increasing, List.pairwise_singleton _ _, fun a ha b hb => ?_⟩
    obtain ⟨x, hx, rfl⟩ := List.mem_map.mp ha
    rw [List.map_singleton, List.mem_singleton] at hb
    rw [hb]
    exact Nat.lt_of_le_of_lt (key_le_lastKey l.increasing hx) h
  positive := by
    intro x hx
    rcases List.mem_append.mp hx with hx | hx
    · exact l.positive x hx
    · rw [List.mem_singleton.mp hx]
      omega
  position_le := by
    have := l.position_le
    rw [List.length_append]
    omega

/-- The oldest pending entry is consumed. -/
def advance (l : Log key) (h : l.pending ≠ []) : Log key where
  entries := l.entries
  position := l.position + 1
  increasing := l.increasing
  positive := l.positive
  position_le := by
    have := mt List.drop_eq_nil_of_le h
    omega

/-- A new entry is pending, -/
theorem pending_append {e : α} (h : lastKey key l.entries < key e) :
    (l.append e h).pending = l.pending ++ [e] :=
  List.drop_append_of_le_length l.position_le

/-- and is not consumed yet. -/
theorem consumed_append {e : α} (h : lastKey key l.entries < key e) :
    (l.append e h).consumed = l.consumed :=
  List.take_append_of_le_length l.position_le

/-- An advance takes the first pending entry, -/
theorem pending_advance (h : l.pending ≠ []) : (l.advance h).pending = l.pending.tail := by
  show l.entries.drop (l.position + 1) = (l.entries.drop l.position).tail
  rw [List.tail_drop]

/-- which is consumed from then on. -/
theorem consumed_advance {e : α} {rest : List α} (h : l.pending = e :: rest)
    (hne : l.pending ≠ []) : (l.advance hne).consumed = l.consumed ++ [e] := by
  show l.entries.take (l.position + 1) = l.entries.take l.position ++ [e]
  have hget : l.entries[l.position]? = some e := by
    rw [← List.head?_drop]
    exact congrArg List.head? h
  rw [List.take_add_one, hget]
  rfl

/-! ### The order of logs -/

/-- Entries are only appended and the position only grows. -/
instance : LE (Log key) := ⟨fun l l' => l.entries <+: l'.entries ∧ l.position ≤ l'.position⟩

/-- A later log has consumed at least as much. -/
theorem consumed_prefix_of_le (h : l ≤ l') : l.consumed <+: l'.consumed := by
  obtain ⟨⟨rest, he⟩, hp⟩ := h
  have htake : l'.entries.take l.position = l.consumed := by
    rw [← he]
    exact List.take_append_of_le_length l.position_le
  rw [← htake]
  exact List.take_prefix_take_left hp

/-- How far the log has come: it grows with each entry and with each consumption. -/
def progress (l : Log key) : Nat := lastKey key l.consumed + lastKey key l.entries

/-- Pending entries have larger keys than consumed ones. -/
theorem consumed_lt_pending {e : α} (he : e ∈ l.pending) : lastKey key l.consumed < key e := by
  have hi := l.increasing
  rw [← l.consumed_append_pending, List.map_append, List.pairwise_append] at hi
  rcases List.eq_nil_or_concat l.consumed with hc | ⟨init, last, hc⟩
  · rw [hc]
    exact l.positive e (List.mem_of_mem_drop he)
  · rw [hc, List.concat_eq_append] at hi ⊢
    rw [lastKey_append]
    exact hi.2.2 _ (List.mem_map_of_mem (by simp)) _ (List.mem_map_of_mem he)

/-- The last key is the last pending one, or the last consumed one when nothing is pending. -/
theorem progress_eq (l : Log key) : l.progress =
    lastKey key l.consumed + max (lastKey key l.consumed) (lastKey key l.pending) := by
  have hsplit := l.consumed_append_pending
  unfold progress
  rcases List.eq_nil_or_concat l.pending with hp | ⟨init, last, hp⟩
  · rw [hp, List.append_nil] at hsplit
    rw [hp, ← hsplit]
    exact congrArg _ (Nat.max_eq_left (Nat.zero_le _)).symm
  · rw [List.concat_eq_append] at hp
    have hlt : lastKey key l.consumed < key last := consumed_lt_pending (by rw [hp]; simp)
    rw [← hsplit, hp, ← List.append_assoc, lastKey_append, lastKey_append,
      Nat.max_eq_right (Nat.le_of_lt hlt)]

theorem length_consumed (l : Log key) : l.consumed.length = l.position := by
  rw [consumed, List.length_take]
  exact Nat.min_eq_left l.position_le

/-- A log that moved has made progress. -/
theorem progress_lt (h : l ≤ l') (hne : l ≠ l') : l.progress < l'.progress := by
  have hpos : ∀ e ∈ l'.consumed, 0 < key e := fun e he =>
    l'.positive e (List.mem_of_mem_take he)
  have hinc : (l'.consumed.map key).Pairwise (· < ·) :=
    l'.increasing.sublist ((l'.consumed_prefix.sublist).map _)
  have hc : lastKey key l.consumed ≤ lastKey key l'.consumed ∧
      (l.consumed ≠ l'.consumed → lastKey key l.consumed < lastKey key l'.consumed) := by
    by_cases heq : l.consumed = l'.consumed
    · exact ⟨Nat.le_of_eq (by rw [heq]), fun hn => absurd heq hn⟩
    · have := lastKey_lt (consumed_prefix_of_le h) heq hinc hpos
      exact ⟨Nat.le_of_lt this, fun _ => this⟩
  have he : lastKey key l.entries ≤ lastKey key l'.entries ∧
      (l.entries ≠ l'.entries → lastKey key l.entries < lastKey key l'.entries) := by
    by_cases heq : l.entries = l'.entries
    · exact ⟨Nat.le_of_eq (by rw [heq]), fun hn => absurd heq hn⟩
    · have := lastKey_lt h.1 heq l'.increasing l'.positive
      exact ⟨Nat.le_of_lt this, fun _ => this⟩
  have hdiff : l.consumed ≠ l'.consumed ∨ l.entries ≠ l'.entries := by
    by_contra hcon
    rw [not_or, not_not, not_not] at hcon
    refine hne (ext_of hcon.2 ?_)
    rw [← length_consumed l, ← length_consumed l', hcon.1]
  unfold progress
  rcases hdiff with hd | hd
  · have := hc.2 hd
    omega
  · have := he.2 hd
    omega

end Log

end Nio.Lib
