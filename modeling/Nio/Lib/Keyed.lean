import Nio.Lib.Run

/-!
# Entries that do not meet

A loop goes through entries with keys. What an entry does, and whether it fails, depends on what is
seen of the state under its own key, and nothing is seen of it under another key.

* `Concerns` — each step of the loop concerns its own key
* `foldlM_isOk` — the loop ends when each entry alone does
* `foldlM_filter_idle` — entries that change nothing can be left out
-/

namespace Nio.Lib

variable {σ α κ β ε : Type} {key : α → κ} {sees : κ → σ → β}
  {step : σ → α → Except ε σ}

/-- A step concerns its own key alone. -/
structure Concerns (key : α → κ) (sees : κ → σ → β) (step : σ → α → Except ε σ) : Prop where
  others : ∀ s a s', step s a = .ok s' → ∀ k, k ≠ key a → sees k s' = sees k s
  own : ∀ s t a s', sees (key a) s = sees (key a) t → step s a = .ok s' →
    ∃ t', step t a = .ok t' ∧ sees (key a) s' = sees (key a) t'

theorem Concerns.isOk_congr (h : Concerns key sees step) {s t : σ} {a : α}
    (hst : sees (key a) s = sees (key a) t) : (∃ s', step s a = .ok s') ↔ ∃ t', step t a = .ok t' := by
  constructor
  · rintro ⟨s', hs'⟩
    obtain ⟨t', ht', -⟩ := h.own s t a s' hst hs'
    exact ⟨t', ht'⟩
  · rintro ⟨t', ht'⟩
    obtain ⟨s', hs', -⟩ := h.own t s a t' hst.symm ht'
    exact ⟨s', hs'⟩

theorem foldlM_isOk (h : Concerns key sees step) {as : List α} (hn : (as.map key).Nodup) (s : σ) :
    (∃ s', as.foldlM step s = .ok s') ↔ ∀ a ∈ as, ∃ s', step s a = .ok s' := by
  induction as generalizing s with
  | nil => exact ⟨fun _ _ ha => absurd ha List.not_mem_nil, fun _ => ⟨s, rfl⟩⟩
  | cons a as ih =>
    rw [List.map_cons, List.nodup_cons] at hn
    obtain ⟨hnot, hn⟩ := hn
    -- The entries after this one see the state as it was before.
    have hsame : ∀ s₁, step s a = .ok s₁ → ∀ b ∈ as,
        ((∃ s', step s₁ b = .ok s') ↔ ∃ s', step s b = .ok s') := by
      intro s₁ hs₁ b hb
      refine h.isOk_congr (h.others s a s₁ hs₁ (key b) ?_)
      intro he
      exact hnot (he ▸ List.mem_map_of_mem hb)
    rw [List.foldlM_cons]
    constructor
    · rintro ⟨s', hs'⟩
      cases hs₁ : step s a with
      | error e => rw [hs₁] at hs'; cases hs'
      | ok s₁ =>
        rw [hs₁] at hs'
        have hrest := (ih hn s₁).mp ⟨s', hs'⟩
        intro b hb
        rcases List.mem_cons.mp hb with rfl | hb
        · exact ⟨s₁, hs₁⟩
        · exact (hsame s₁ hs₁ b hb).mp (hrest b hb)
    · intro hall
      obtain ⟨s₁, hs₁⟩ := hall a List.mem_cons_self
      obtain ⟨s', hs'⟩ := (ih hn s₁).mpr fun b hb =>
        (hsame s₁ hs₁ b hb).mpr (hall b (List.mem_cons_of_mem _ hb))
      exact ⟨s', by rw [hs₁]; exact hs'⟩

theorem foldlM_others (h : Concerns key sees step) {as : List α} {s s' : σ}
    (hrun : as.foldlM step s = .ok s') {k : κ} (hk : k ∉ as.map key) : sees k s' = sees k s := by
  induction as generalizing s with
  | nil => rw [Except.ok.inj hrun]
  | cons a as ih =>
    rw [List.map_cons, List.mem_cons, not_or] at hk
    rw [List.foldlM_cons] at hrun
    cases hs₁ : step s a with
    | error e => rw [hs₁] at hrun; cases hrun
    | ok s₁ =>
      rw [hs₁] at hrun
      exact (ih hrun hk.2).trans (h.others s a s₁ hs₁ k hk.1)

/-- States that look alike under all keys of the entries look alike there after the loop. -/
theorem foldlM_congr (h : Concerns key sees step) {P : κ → Prop} {as : List α}
    (hP : ∀ a ∈ as, P (key a)) {s s' t : σ} (hst : ∀ k, P k → sees k s = sees k t)
    (hrun : as.foldlM step s = .ok s') :
    ∃ t', as.foldlM step t = .ok t' ∧ ∀ k, P k → sees k s' = sees k t' := by
  induction as generalizing s t with
  | nil => exact ⟨t, rfl, by rw [← Except.ok.inj hrun]; exact hst⟩
  | cons a as ih =>
    rw [List.foldlM_cons] at hrun ⊢
    cases hs₁ : step s a with
    | error e => rw [hs₁] at hrun; cases hrun
    | ok s₁ =>
      rw [hs₁] at hrun
      obtain ⟨t₁, ht₁, hown⟩ := h.own s t a s₁ (hst _ (hP a List.mem_cons_self)) hs₁
      rw [ht₁]
      refine ih (fun b hb => hP b (List.mem_cons_of_mem _ hb)) (fun k hk => ?_) hrun
      rcases Classical.em (k = key a) with rfl | hne
      · exact hown
      · rw [h.others s a s₁ hs₁ k hne, h.others t a t₁ ht₁ k hne, hst k hk]

/-- What is seen under the key of an entry after the loop is what the entry alone does. -/
theorem foldlM_own (h : Concerns key sees step) {as : List α} (hn : (as.map key).Nodup) {s s' t : σ}
    {a : α} (ha : a ∈ as) (hst : sees (key a) s = sees (key a) t)
    (hrun : as.foldlM step s = .ok s') :
    ∃ t', step t a = .ok t' ∧ sees (key a) s' = sees (key a) t' := by
  induction as generalizing s t with
  | nil => exact absurd ha List.not_mem_nil
  | cons b as ih =>
    rw [List.map_cons, List.nodup_cons] at hn
    rw [List.foldlM_cons] at hrun
    cases hs₁ : step s b with
    | error e => rw [hs₁] at hrun; cases hrun
    | ok s₁ =>
      rw [hs₁] at hrun
      rcases List.mem_cons.mp ha with rfl | ha
      · obtain ⟨t', ht', hst'⟩ := h.own s t a s₁ hst hs₁
        exact ⟨t', ht', (foldlM_others h hrun hn.1).trans hst'⟩
      · have hne : key a ≠ key b := fun he => hn.1 (he ▸ List.mem_map_of_mem ha)
        exact ih hn.2 ha ((h.others s b s₁ hs₁ _ hne).trans hst) hrun

/-- Entries that do nothing may be left out. -/
theorem foldlM_filter_idle {P : σ → Prop} {p : α → Bool} {as : List α}
    (hP : ∀ s a s', a ∈ as → P s → step s a = .ok s' → P s')
    (hidle : ∀ s a, a ∈ as → P s → p a = false → step s a = .ok s) {s : σ} (hs : P s) :
    (as.filter p).foldlM step s = as.foldlM step s := by
  induction as generalizing s with
  | nil => rfl
  | cons a as ih =>
    have ih' := fun {t : σ} (ht : P t) =>
      ih (fun s a s' ha => hP s a s' (List.mem_cons_of_mem _ ha))
        (fun s a ha => hidle s a (List.mem_cons_of_mem _ ha)) ht
    cases hp : p a with
    | false =>
      rw [List.filter_cons_of_neg (by rw [hp]; exact Bool.false_ne_true), List.foldlM_cons,
        hidle s a List.mem_cons_self hs hp]
      exact ih' hs
    | true =>
      rw [List.filter_cons_of_pos hp, List.foldlM_cons, List.foldlM_cons]
      cases hs₁ : step s a with
      | error e => rfl
      | ok s₁ => exact ih' (hP s a s₁ List.mem_cons_self hs hs₁)

end Nio.Lib
