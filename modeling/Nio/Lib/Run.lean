import Mathlib.Data.List.Basic

/-!
# Runs

Runs of a transition system and of a loop that an exception can leave, with their invariant rules.

* `run_invariant` — what every step preserves holds after a run
* `good_along_iff` — when all states of a run are good
* `foldlM_invariant` — what every round of a loop preserves holds after the loop
* `mem_of_mapM` — what a loop collects comes from its rounds
-/

namespace Nio.Lib

variable {σ α ε : Type}

/-- The state after a list of actions. -/
def run (step : σ → α → σ) (s : σ) (actions : List α) : σ := actions.foldl step s

theorem run_append (step : σ → α → σ) (s : σ) (as bs : List α) :
    run step s (as ++ bs) = run step (run step s as) bs := List.foldl_append

theorem run_concat (step : σ → α → σ) (s : σ) (as : List α) (a : α) :
    run step s (as ++ [a]) = step (run step s as) a := by
  rw [run_append]
  rfl

/-- Every step of the run meets a condition on the state before it and its action. -/
def Along (step : σ → α → σ) (ok : σ → α → Prop) : σ → List α → Prop
  | _, [] => True
  | s, a :: as => ok s a ∧ Along step ok (step s a) as

theorem along_of_forall {step : σ → α → σ} {ok : σ → α → Prop} (h : ∀ s a, ok s a) (s : σ)
    (as : List α) : Along step ok s as := by
  induction as generalizing s with
  | nil => trivial
  | cons a as ih => exact ⟨h s a, ih _⟩

/-- Two conditions that agree in the states of a run that meets the first one hold along the same
runs. -/
theorem along_congr {step : σ → α → σ} {ok ok' : σ → α → Prop} {P : σ → Prop}
    (h : ∀ s a, P s → (ok s a ↔ ok' s a)) (hstep : ∀ s a, P s → ok s a → P (step s a)) {s : σ}
    {as : List α} (hs : P s) : Along step ok s as ↔ Along step ok' s as := by
  induction as generalizing s with
  | nil => exact Iff.rfl
  | cons a as ih =>
    constructor
    · rintro ⟨hok, hrest⟩
      exact ⟨(h s a hs).mp hok, (ih (hstep s a hs hok)).mp hrest⟩
    · rintro ⟨hok, hrest⟩
      have hok := (h s a hs).mpr hok
      exact ⟨hok, (ih (hstep s a hs hok)).mpr hrest⟩

/-- What each step that meets the condition preserves holds after a run of such steps. -/
theorem run_invariant_along {step : σ → α → σ} {ok : σ → α → Prop} {P : σ → Prop}
    (hstep : ∀ s a, ok s a → P s → P (step s a)) {s : σ} {as : List α}
    (hok : Along step ok s as) (hs : P s) : P (run step s as) := by
  induction as generalizing s with
  | nil => exact hs
  | cons a as ih => exact ih hok.2 (hstep s a hok.1 hs)

/-- When an invariant is preserved by the steps that meet a condition and by no other step that
leaves a good state, the states of a run are all good exactly when all its steps meet it. -/
theorem good_along_iff {step : σ → α → σ} {ok : σ → α → Prop} {Inv Good : σ → Prop}
    (hgood : ∀ s, Inv s → Good s) (hstep : ∀ s a, Inv s → ok s a → Inv (step s a))
    (hbad : ∀ s a, Inv s → Good (step s a) → ok s a) {s : σ} (hs : Inv s) (as : List α) :
    (∀ bs cs, as = bs ++ cs → Good (run step s bs)) ↔ Along step ok s as := by
  induction as generalizing s with
  | nil =>
    refine ⟨fun _ => trivial, fun _ bs cs h => ?_⟩
    obtain ⟨rfl, rfl⟩ := List.append_eq_nil_iff.mp h.symm
    exact hgood s hs
  | cons a as ih =>
    constructor
    · intro h
      have hok : ok s a := hbad s a hs (h [a] as rfl)
      refine ⟨hok, (ih (hstep s a hs hok)).mp fun bs cs hbs => ?_⟩
      exact h (a :: bs) cs (by rw [hbs, List.cons_append])
    · rintro ⟨hok, hrest⟩ bs cs hbs
      cases bs with
      | nil => exact hgood s hs
      | cons b bs =>
        rw [List.cons_append, List.cons.injEq] at hbs
        obtain ⟨rfl, hbs⟩ := hbs
        exact (ih (hstep s a hs hok)).mpr hrest bs cs hbs

/-- What every step preserves holds after every run. -/
theorem run_invariant {step : σ → α → σ} {P : σ → Prop} (hstep : ∀ s a, P s → P (step s a))
    {s : σ} (as : List α) (hs : P s) : P (run step s as) :=
  @run_invariant_along _ _ step (fun _ _ => True) P (fun s a _ => hstep s a) s as
    (along_of_forall (fun _ _ => trivial) s as) hs

/-- What every round of a loop preserves holds after the loop, if no round raises. -/
theorem foldlM_invariant {f : σ → α → Except ε σ} {P : σ → Prop} {as : List α}
    (h : ∀ a ∈ as, ∀ s s', f s a = .ok s' → P s → P s') {s s' : σ}
    (hrun : as.foldlM f s = .ok s') (hs : P s) : P s' := by
  induction as generalizing s with
  | nil =>
    obtain rfl := Except.ok.inj hrun
    exact hs
  | cons a as ih =>
    rw [List.foldlM_cons] at hrun
    cases hf : f s a with
    | error e => rw [hf] at hrun; cases hrun
    | ok s₁ =>
      rw [hf] at hrun
      exact ih (fun b hb => h b (List.mem_cons_of_mem _ hb)) hrun
        (h a List.mem_cons_self s s₁ hf hs)

/-- A loop collects what its rounds return, in order, if no round raises. -/
theorem mapM_eq_ok {β : Type} {f : α → Except ε β} {as : List α} {bs : List β} :
    as.mapM f = .ok bs ↔ List.Forall₂ (fun a b => f a = .ok b) as bs := by
  induction as generalizing bs with
  | nil =>
    constructor
    · intro h
      obtain rfl := Except.ok.inj h
      exact List.Forall₂.nil
    · rintro ⟨⟩
      rfl
  | cons a as ih =>
    rw [List.mapM_cons]
    constructor
    · intro h
      cases hf : f a with
      | error e => rw [hf] at h; cases h
      | ok b =>
        rw [hf] at h
        change (as.mapM f >>= fun bs => Except.ok (b :: bs)) = _ at h
        cases hrest : as.mapM f with
        | error e => rw [hrest] at h; cases h
        | ok bs' =>
          rw [hrest] at h
          obtain rfl := Except.ok.inj h
          exact List.Forall₂.cons hf (ih.mp hrest)
    · intro h
      cases h with
      | cons hf hrest =>
        rw [hf]
        change (as.mapM f >>= fun bs => Except.ok (_ :: bs)) = _
        rw [ih.mpr hrest]
        rfl

/-- What a loop collects comes from its rounds. -/
theorem mem_of_mapM {β : Type} {f : α → Except ε β} {as : List α} {bs : List β}
    (h : as.mapM f = .ok bs) {b : β} (hb : b ∈ bs) : ∃ a ∈ as, f a = .ok b := by
  induction mapM_eq_ok.mp h with
  | nil => cases hb
  | @cons a b' as bs hf hrest ih =>
    rcases List.mem_cons.mp hb with rfl | hb
    · exact ⟨a, List.mem_cons_self, hf⟩
    · obtain ⟨a', ha', hfa⟩ := ih (mapM_eq_ok.mpr hrest) hb
      exact ⟨a', List.mem_cons_of_mem _ ha', hfa⟩

theorem exists_of_mapM {β : Type} {f : α → Except ε β} {as : List α} {bs : List β}
    (h : as.mapM f = .ok bs) {a : α} (ha : a ∈ as) : ∃ b ∈ bs, f a = .ok b := by
  induction mapM_eq_ok.mp h with
  | nil => cases ha
  | @cons a' b as bs hf hrest ih =>
    rcases List.mem_cons.mp ha with rfl | ha
    · exact ⟨b, List.mem_cons_self, hf⟩
    · obtain ⟨b', hb', hfb⟩ := ih (mapM_eq_ok.mpr hrest) ha
      exact ⟨b', List.mem_cons_of_mem _ hb', hfb⟩

/-- A loop comes to its end exactly when no round raises. -/
theorem mapM_isOk {β : Type} {f : α → Except ε β} {as : List α} :
    (∃ bs, as.mapM f = .ok bs) ↔ ∀ a ∈ as, ∃ b, f a = .ok b := by
  constructor
  · rintro ⟨bs, h⟩ a ha
    obtain ⟨b, -, hb⟩ := exists_of_mapM h ha
    exact ⟨b, hb⟩
  · intro h
    induction as with
    | nil => exact ⟨[], rfl⟩
    | cons a as ih =>
      obtain ⟨b, hb⟩ := h a List.mem_cons_self
      obtain ⟨bs, hbs⟩ := ih fun a' ha' => h a' (List.mem_cons_of_mem _ ha')
      exact ⟨b :: bs, mapM_eq_ok.mpr (List.Forall₂.cons hb (mapM_eq_ok.mp hbs))⟩

/-- A loop whose rounds return values of their own under a condition of their own -/
theorem mapM_eq_ok_map {β : Type} {f : α → Except ε β} {P : α → Prop} {g : α → β}
    (h : ∀ a b, f a = .ok b ↔ P a ∧ b = g a) {as : List α} {bs : List β} :
    as.mapM f = .ok bs ↔ (∀ a ∈ as, P a) ∧ bs = as.map g := by
  rw [mapM_eq_ok]
  constructor
  · intro hall
    induction hall with
    | nil => exact ⟨fun _ ha => (nomatch ha), rfl⟩
    | @cons a b as bs hab _ ih =>
      obtain ⟨ha, rfl⟩ := (h a b).mp hab
      exact ⟨List.forall_mem_cons.mpr ⟨ha, ih.1⟩, congrArg (g a :: ·) ih.2⟩
  · rintro ⟨hall, rfl⟩
    induction as with
    | nil => exact List.Forall₂.nil
    | cons a as ih =>
      obtain ⟨ha, hall⟩ := List.forall_mem_cons.mp hall
      exact List.Forall₂.cons ((h a _).mpr ⟨ha, rfl⟩) (ih hall)

/-- What is picked from both sides of a loop agrees when it agrees in each round. -/
theorem filterMap_of_forall₂ {β γ : Type} {R : α → β → Prop} {g : β → Option γ} {f : α → Option γ}
    {as : List α} {bs : List β} (h : List.Forall₂ R as bs) (hR : ∀ a b, R a b → g b = f a) :
    bs.filterMap g = as.filterMap f := by
  induction h with
  | nil => rfl
  | cons hab _ ih => rw [List.filterMap_cons, List.filterMap_cons, hR _ _ hab, ih]

end Nio.Lib
