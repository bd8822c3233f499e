import Nio.Durable.Retained

/-!
# What a transaction publishes

The records of a committed transaction, read off the response that the transaction interprets, and
the changes of memberships that it leaves without a record.

* `Interpretation.published` — the records of an interpretation around those of its items
* `published_step` — what every transaction publishes of the retained response
* `undropped_step` — when no change of a membership is left without a record
-/

namespace Nio.Durable

open Nio.Py
open Nio.Events
open Nio.Lib

variable {env : Env} {K : SyncRecord → Prop} {S : Work → Work → Prop}

/-! ## Interpretations -/

/-- The records of the items stand between boundaries: the losses before, and those of the rooms. -/
theorem Interpretation.published {pre post : List Effect} {s s' : Session} {historyRooms : List Str}
    {main : Work} (h : Interpretation K S pre post s historyRooms main s') :
    ∃ w w' before after, S w w' ∧ Changes K w w' ∧ w.log = s.disk.published ++ before ∧
      s'.disk.published = w'.log ++ after ∧ ∀ record ∈ before ++ after, Boundary record := by
  obtain ⟨first, processor, w, hfirst, hlosses, hprocessor, -, items, hchanges, hsettles, hmain,
    hclosed, htaken⟩ := h
  obtain ⟨before, hbefore, hboundary⟩ := hlosses.changes.log
  obtain ⟨after, hafter, hboundary'⟩ := hsettles.log
  have hstart : Work.log { w.effects pre with processor } = s.disk.published ++ before := by
    have hw : w.processor.records = [] := hlosses.processor ▸ hfirst
    unfold Work.log at hbefore ⊢
    dsimp only [Work.effects] at hbefore ⊢
    rw [hfirst, hw, List.append_nil, List.append_nil] at hbefore
    rw [hprocessor, List.append_nil]
    exact hbefore
  have hend : s'.disk.published = main.log := by
    unfold Work.log Disk.published
    rw [hclosed.batches, hmain, List.append_nil]
  refine ⟨_, items, before, after, htaken, hchanges, hstart, hend.trans hafter, fun record hr => ?_⟩
  rcases List.mem_append.mp hr with hr | hr
  · exact hboundary record hr
  · exact hboundary' record hr

/-- All records of an interpretation are boundaries or those of its changes. -/
theorem Interpretation.allowed {pre post : List Effect} {s s' : Session} {historyRooms : List Str}
    {main : Work} (h : Interpretation K S pre post s historyRooms main s') :
    ∃ rs, s'.disk.published = s.disk.published ++ rs ∧ ∀ record ∈ rs, Boundary record ∨ K record := by
  obtain ⟨w, w', before, after, -, hchanges, hstart, hend, hboundary⟩ := h.published
  obtain ⟨rs, hlog, hK⟩ := hchanges.log
  refine ⟨before ++ rs ++ after, ?_, fun record hr => ?_⟩
  · rw [hend, hlog, hstart]
    simp only [List.append_assoc]
  · rcases List.mem_append.mp hr with hr | hr
    · rcases List.mem_append.mp hr with hr | hr
      · exact Or.inl (hboundary record (List.mem_append_left _ hr))
      · exact Or.inr (hK record hr)
    · exact Or.inl (hboundary record (List.mem_append_right _ hr))

/-- An interpretation that takes some items publishes their events. -/
theorem Interpretation.shown {pre post : List Effect} {s s' : Session} {historyRooms : List Str}
    {main : Work} {P : Processor → List Item → Prop}
    (h : Interpretation K S pre post s historyRooms main s')
    (hS : ∀ w w', S w w' → w.processor.stopOnOversized = false ∧
      ∃ items, P w.processor items ∧ Consumes env w items w') :
    ∃ processor items rs, P processor items ∧ s'.disk.published = s.disk.published ++ rs ∧
      Durable.shown rs = frozen processor.suppressed items := by
  obtain ⟨w, w', before, after, htaken, -, hstart, hend, hboundary⟩ := h.published
  obtain ⟨hstop, items, hP, hconsumes⟩ := hS w w' htaken
  obtain ⟨-, rs, hlog, hshown⟩ := hconsumes.shown hstop
  refine ⟨w.processor, items, before ++ rs ++ after, hP, ?_, ?_⟩
  · rw [hend, hlog, hstart]
    simp only [List.append_assoc]
  · rw [shown_append, shown_append, hshown,
      shown_boundary fun record hr => hboundary record (List.mem_append_left _ hr),
      shown_boundary fun record hr => hboundary record (List.mem_append_right _ hr), List.nil_append,
      List.append_nil]

theorem Source.stopOnOversized {userId : Str} {crypto : Crypto} {plan : Plan} {response : SyncInput}
    {processor : Processor} {items : List Item}
    (h : Source userId crypto plan response processor items) : processor.stopOnOversized = false := by
  obtain ⟨explicit, hprocessor⟩ := h.starts
  rw [hprocessor]
  rfl

theorem suppressed_tailProcessor (userId : Str) (plan : Plan) (response : SyncResponse events) :
    (tailProcessor userId plan response).suppressed = plan.applied := rfl

/-- The items of a tail convey its response. -/
theorem Source.conveys {userId : Str} {crypto : Crypto} {plan : Plan} {response : SyncInput}
    {processor : Processor} {items : List Item}
    (h : Source userId crypto plan response processor items) :
    Conveys crypto plan response processor.suppressed items := by
  cases h with
  | classic response => exact conveys_classic crypto plan response
  | sliding response explicit items conveys => exact conveys

/-- A prologue leaves the rooms to the tail. -/
theorem records_clearToDevice (crypto : Crypto) (plan plan' : Plan) (response : SyncInput) :
    (clearToDevice plan' response).records crypto plan = response.records crypto plan := by
  unfold clearToDevice
  split
  · rfl
  · cases response with
    | classic r =>
      funext kind
      cases kind <;> rfl
    | sliding r =>
      funext kind
      cases kind <;> rfl

theorem toDeviceOf_clearToDevice (plan : Plan) (response : SyncInput) :
    toDeviceOf (clearToDevice plan response) =
      if plan.position = none then toDeviceOf response else [] := by
  unfold clearToDevice
  split
  · rfl
  · cases response with
    | classic r => rfl
    | sliding r => rfl

/-! ## Transactions -/

/-- The kinds of the records that a tail makes of a response -/
def SyncInput.tells : SyncInput → RecordKind → Prop
  | _, .timeline | _, .state | _, .globalAccountData | .classic _, .roomAccountData => True
  | _, _ => False

/-- What a transaction publishes of a response: the to-device events when it decrypts them, and
everything else with the tail -/
structure Interprets (crypto : Crypto) (plan : Plan) (response : SyncInput) (es : List Effect)
    (rs : List SyncRecord) : Prop where
  toDevice : ofKind .toDevice (shown rs) =
    ((if Effect.decrypted ∈ es then deliveries crypto (toDeviceOf response) else []) ++
      (if Effect.tail ∈ es then notices crypto else [])).map freezeEvent
  rooms : ∀ kind, response.tells kind → ofKind kind (shown rs) =
    if Effect.tail ∈ es then response.records crypto plan kind else []

/-- The plan of a tail: the one that its recovery has left, or that of an input without a recovery -/
inductive PlanOf (env : Env) (s : Session) (response : SyncInput) : Continuation → Plan → Prop
  | tail (flags : Flags) (plan : Plan) : PlanOf env s response (.tail flags plan) plan
  | captured (flags : Flags) (plan : Plan)
      (planned : makePlan env (s.withResponse response) response = .ok plan) :
      PlanOf env s response (.captured flags) plan

/-- What a committed transaction publishes -/
inductive Published (env : Env) (s : Session) (es : List Effect) (rs : List SyncRecord) :
    Action → Prop
  /-- The retained response, or its to-device events -/
  | response (crypto : Crypto) (body : List Nat) (c : Continuation) (response : SyncInput)
      (plan : Plan) (input : s.disk.input = some (body, c)) (decodes : Decodes env body response)
      (planned : PlanOf env s response c plan)
      (tells : Effect.decrypted ∈ es ∨ Effect.tail ∈ es)
      (interprets : Interprets crypto plan response es rs) :
      Published env s es rs (.prepare crypto true)
  /-- The timeline of a page -/
  | page (r : Str) (crypto : Crypto) (answer : Answer) (page : Effect.page r ∈ es)
      (silent : Effect.decrypted ∉ es ∧ Effect.tail ∉ es) (timeline : ∀ record ∈ rs, TimelineIn r record) :
      Published env s es rs (.page answer crypto true)
  | boundary (action : Action) (silent : Effect.decrypted ∉ es ∧ Effect.tail ∉ es)
      (boundary : ∀ record ∈ rs, Boundary record) : Published env s es rs action

/-- The effects of a transaction are those of its phase, and changes without a record. -/
theorem Interpreted.mem_effects {pre post : List Effect} {s s' : Session}
    (h : Interpreted pre post s s') (hs : s.effects = []) {e : Effect} (he : ∀ r c, e ≠ .dropped r c) :
    e ∈ s'.effects ↔ e ∈ pre ++ post := by
  obtain ⟨es, heffects, hes⟩ := h.effects
  have hnot : e ∉ es := fun hmem => by
    obtain ⟨r, c, heq⟩ := hes e hmem
    exact he r c heq
  rw [heffects, hs]
  simp [hnot]

/-- The effects of the last transaction -/
theorem effects_of_commit {s s' : Session} {es : List Effect}
    (hs : s'.disk.history = s.disk.history)
    (h : s'.commit.disk.history = s.disk.history ++ [es]) : es = s'.effects := by
  change s'.disk.history ++ [s'.effects] = _ at h
  rw [hs] at h
  exact (List.singleton_inj.mp (List.append_cancel_left h)).symm

/-- A prologue publishes the to-device events. -/
theorem interprets_prologue {crypto : Crypto} (plan : Plan) {response : SyncInput} {s s' : Session}
    {historyRooms : List Str} {main : Work}
    (h : Interpretation K (DeviceItems env crypto response) [.decrypted] [] s historyRooms main s')
    (hs : s.effects = []) :
    ∃ rs, s'.disk.published = s.disk.published ++ rs ∧ Effect.decrypted ∈ s'.effects ∧
      Interprets crypto plan response s'.effects rs := by
  obtain ⟨processor, items, rs, ⟨rfl, rfl⟩, hpublished, hshown⟩ := h.shown
    (P := fun processor items => processor = .new [] ∧ items = deliveries crypto (toDeviceOf response))
    fun w w' ⟨hprocessor, hconsumes⟩ => ⟨hprocessor ▸ rfl, _, ⟨hprocessor, rfl⟩, hconsumes⟩
  have hdecrypted : Effect.decrypted ∈ s'.effects :=
    (h.interpreted.mem_effects hs (by simp)).mpr (by simp)
  have htail : Effect.tail ∉ s'.effects := fun hmem => by
    simpa using (h.interpreted.mem_effects hs (by simp)).mp hmem
  rw [frozen_deliveries] at hshown
  refine ⟨rs, hpublished, hdecrypted, ?_, fun kind hkind => ?_⟩
  · rw [hshown, if_pos hdecrypted, if_neg htail, List.append_nil, ofKind_deliveries, if_pos rfl]
  · rw [hshown, if_neg htail, ofKind_deliveries, if_neg fun heq => ?_]
    subst heq
    cases response with
    | _ => exact hkind

/-- A tail publishes the rooms, and the to-device events if no prologue did. -/
theorem interprets_tail {crypto : Crypto} {plan : Plan} {response : SyncInput} {s s' : Session}
    {historyRooms : List Str} {main : Work} {cursor : Str}
    (h : Interpretation K (TailItems env crypto plan response) plan.decrypts [.tail, .cursor cursor] s
      historyRooms main s') (hs : s.effects = []) :
    ∃ rs, s'.disk.published = s.disk.published ++ rs ∧ Effect.tail ∈ s'.effects ∧
      Interprets crypto plan response s'.effects rs := by
  obtain ⟨processor, items, rs, hsource, hpublished, hshown⟩ := h.shown
    (P := Source env.userId crypto plan (clearToDevice plan response))
    fun w w' ⟨items, hsource, hconsumes⟩ => ⟨hsource.stopOnOversized, items, hsource, hconsumes⟩
  have hconveys := hsource.conveys
  have htail : Effect.tail ∈ s'.effects :=
    (h.interpreted.mem_effects hs (by simp)).mpr (by simp)
  have hdecrypted : Effect.decrypted ∈ s'.effects ↔ plan.position = none := by
    refine (h.interpreted.mem_effects hs (by simp)).trans ?_
    unfold Plan.decrypts
    split
    · next hp => simp [hp]
    · next hp => simp [hp]
  refine ⟨rs, hpublished, htail, ?_, fun kind hkind => ?_⟩
  · rw [hshown, hconveys.toDevice, toDeviceOf_clearToDevice, if_pos htail]
    simp only [hdecrypted]
    split
    · rfl
    · rfl
  · rw [hshown, if_pos htail, ← records_clearToDevice crypto plan plan response]
    cases kind with
    | timeline => exact hconveys.timeline
    | state => exact hconveys.state
    | globalAccountData => exact hconveys.globalAccountData
    | roomAccountData =>
      cases response with
      | classic r =>
        obtain ⟨r', hr'⟩ : ∃ r', clearToDevice plan (.classic r) = .classic r' := by
          unfold clearToDevice
          split
          · exact ⟨_, rfl⟩
          · exact ⟨_, rfl⟩
        exact hconveys.roomAccountData r' hr'
      | sliding r => exact hkind.elim
    | _ =>
      cases response with
      | _ => exact hkind.elim

/-- A transaction interprets the retained response, or it publishes boundaries at most. -/
inductive Transacted (env : Env) (s : Session) (action : Action) (es : List Effect) (s' : Session) :
    Prop
  | interprets {crypto : Crypto} (body : List Nat) (c : Continuation) (response : SyncInput)
      (s₁ : Session) (input : s.disk.input = some (body, c)) (decodes : Decodes env body response)
      (run : Advances env crypto (s.withResponse response) response s₁ c)
      (interprets : action.Interprets crypto c)
      (effects : es = s₁.effects) (same : s' = s₁.commit)
  | other (effects : ∀ e ∈ es, (∃ body, e = .captured body) ∨ e = .finished)
      (records : List SyncRecord) (published : s'.disk.published = s.disk.published ++ records)
      (boundary : ∀ record ∈ records, Boundary record)

theorem transacted_step {s : Session} (hretained : Retained env s) {action : Action}
    {es : List Effect} (hes : (step env s action).disk.history = s.disk.history ++ [es]) :
    Transacted env s action es (step env s action) := by
  generalize hs' : step env s action = s' at hes ⊢
  have hstep := hs' ▸ step_cases s action
  have hkeeps : ∀ s₁ : Session, s₁.disk.history = s.disk.history →
      s₁.disk.history ≠ s.disk.history ++ [es] := by
    intro s₁ h₁ h₂
    rw [h₁] at h₂
    simpa using congrArg List.length h₂
  have hother : ∀ s₁ : Session, s₁.disk.batches = s.disk.batches →
      (∀ e ∈ es, (∃ body, e = .captured body) ∨ e = .finished) →
      Transacted env s action es s₁ := by
    intro s₁ hbatches heffects
    refine .other heffects [] ?_ fun record hr => nomatch hr
    unfold Disk.published
    rw [hbatches, List.append_nil]
  cases hstep with
  | idle _ same response => exact absurd hes (hkeeps _ (by rw [same]))
  | capture body flags response sections decoded free =>
    obtain rfl := effects_of_commit rfl hes
    refine hother _ rfl ?_
    simp [Session.captured, Session.effect, hretained.effects]
  | interpret body c response s' input current run interprets =>
    exact .interprets body c response s' input (hretained.current input current) run interprets
      (effects_of_commit run.history hes) rfl
  | finish body s' input acked run =>
    unfold Session.publish at run
    obtain ⟨size, -, run⟩ := bind_eq_ok.mp run
    cases run
    obtain rfl := @effects_of_commit s (s.ended.storeBatch [] true size) es rfl hes
    refine .other ?_ [] ?_ fun record hr => nomatch hr
    · simp [Session.ended, Session.effect, Session.storeBatch, hretained.effects]
    · change (s.disk.batches ++ [(⟨[], true, size⟩ : Batch)]).flatMap Batch.records = _
      rw [List.flatMap_append]
      rfl
  | ack pending => exact absurd hes (hkeeps _ rfl)
  | intent intent step =>
    obtain rfl := @effects_of_commit s (s.saveIntent intent) es rfl hes
    refine hother _ rfl ?_
    rw [show (s.saveIntent intent).effects = [] from hretained.effects]
    simp
  | apply intent s' stored sequence free position run =>
    obtain ⟨⟨size, hshape⟩, -, -, -⟩ := applied_applyLocal run
    have hhistory : s'.disk.history = s.disk.history := by
      rw [hshape]
    obtain rfl := effects_of_commit hhistory hes
    refine .other ?_ [lifecycleRecord intent.roomId (Session.localChange intent)] ?_
      fun record hr => ?_
    · rw [show s'.effects = s.effects from by rw [hshape], hretained.effects]
      simp
    · change s'.disk.batches.flatMap Batch.records = _
      rw [hshape]
      simp [Disk.published]
    · rw [List.mem_singleton.mp hr]
      exact Or.inl rfl
  | reopen isInvited => exact absurd hes (hkeeps _ rfl)

/-- What every transaction publishes -/
theorem published_step {s : Session} (hretained : Retained env s) {action : Action}
    {es : List Effect} (hes : (step env s action).disk.history = s.disk.history ++ [es]) :
    ∃ rs, (step env s action).disk.published = s.disk.published ++ rs ∧
      Published env s es rs action := by
  cases transacted_step hretained hes with
  | interprets body c response s₁ input decodes run interprets effects same =>
    have heffects : (s.withResponse response).effects = [] := hretained.effects
    subst effects
    rw [same]
    cases run with
    | prologue flags plan plan' last main hplan hcontinues hrooms hstart hrun hl =>
      obtain rfl := interprets
      obtain ⟨rs, hpublished, hmem, hinterprets⟩ := interprets_prologue plan hrun heffects
      exact ⟨rs, hpublished, .response _ body _ response plan input decodes (.captured flags plan hplan)
        (Or.inl hmem) hinterprets⟩
    | whole flags plan main hplan hnothing hrun hl =>
      obtain rfl := interprets
      have hdecrypts : plan.decrypts = [.decrypted] := if_pos (makePlan_position hplan)
      rw [← hdecrypts] at hrun
      obtain ⟨rs, hpublished, hmem, hinterprets⟩ := interprets_tail hrun heffects
      exact ⟨rs, hpublished, .response _ body _ response plan input decodes (.captured flags plan hplan)
        (Or.inr hmem) hinterprets⟩
    | page flags plan position entry c main next hposition hof hroom hrun hl hnext =>
      obtain ⟨answer, rfl⟩ := interprets
      obtain ⟨rs, hpublished, hallowed⟩ := hrun.allowed
      have hmem := fun e he => hrun.interpreted.mem_effects heffects (e := e) he
      refine ⟨rs, hpublished, .page entry.roomId _ answer ?_ ⟨?_, ?_⟩ fun record hr => ?_⟩
      · exact (hmem _ (by simp)).mpr (by simp)
      · exact fun h => by simpa using (hmem _ (by simp)).mp h
      · exact fun h => by simpa using (hmem _ (by simp)).mp h
      · exact (hallowed record hr).elim Or.inr id
    | smaller flags plan position hposition hlimit hsame' =>
      subst hsame'
      refine ⟨[], (List.append_nil _).symm, .boundary action ?_ fun record hr => nomatch hr⟩
      rw [show ((s.withResponse response).saveContinuation _).effects = [] from heffects]
      simp
    | tail flags plan main hrun hl =>
      obtain rfl := interprets
      obtain ⟨rs, hpublished, hmem, hinterprets⟩ := interprets_tail hrun heffects
      exact ⟨rs, hpublished, .response _ body _ response plan input decodes (.tail flags plan)
        (Or.inr hmem) hinterprets⟩
  | other effects records published boundary =>
    refine ⟨records, published, .boundary action ⟨fun hmem => ?_, fun hmem => ?_⟩ boundary⟩
    · simpa using effects _ hmem
    · simpa using effects _ hmem

/-! ## Changes without a record -/

/-- Only an event of a room that passes over identities leaves a change without a record. -/
theorem undropped_changes {w w' : Work} (h : Changes K w w')
    (hnone : (∀ record, K record → Boundary record) ∨ ∀ r, w.processor.suppressed r = [])
    (hw : Undropped w.session.effects) : Undropped w'.session.effects := by
  induction h with
  | refl => exact hw
  | @tail w₁ w₂ hchanges hstep ih =>
    have hkept : ∀ es, w₁.Frame es w₂ → es = [] → Undropped w₂.session.effects := by
      rintro es hframe rfl
      rw [hframe.effects, List.append_nil]
      exact ih
    cases hstep with
    | quiet still => exact hkept _ still.frame rfl
    | record _ frame | carried _ _ _ frame | observe _ frame => exact hkept _ frame rfl
    | dropped r c frame log leads tenure intent entered fenced event suppressed =>
      exfalso
      obtain ⟨es, hframe, -⟩ := Changes.frame hchanges
      rcases hnone with hboundary | hempty
      · obtain ⟨record, hK, hevent⟩ := event
        exact hevent (hboundary record hK)
      · refine suppressed ?_
        unfold Processor.suppressed
        rw [hframe.suppressIds]
        exact hempty r

/-- An interpretation leaves no change without a record if its items do not. -/
theorem Interpretation.undropped {pre post : List Effect} {s s' : Session} {historyRooms : List Str}
    {main : Work} (h : Interpretation K S pre post s historyRooms main s')
    (hS : ∀ w w', S w w' → Changes K w w' → (∀ r, w.session.tenure r = s.tenure r) →
      w.session.disk.intent = s.disk.intent → Undropped w.session.effects →
      Undropped w'.session.effects)
    (hs : Undropped (s.effects ++ pre)) (hpost : Undropped post) : Undropped s'.effects := by
  obtain ⟨first, processor, w, -, hlosses, -, -, items, hchanges, hsettles, -, hclosed, htaken⟩ := h
  have hstart : Undropped (Work.session { w.effects pre with processor }).effects := by
    change Undropped (w.session.effects ++ pre)
    rw [hlosses.effects]
    exact hs
  have hitems := hS _ items htaken hchanges hlosses.tenure hlosses.intent hstart
  have hmain := undropped_changes hsettles (Or.inl fun _ hb => hb) hitems
  intro r c hmem
  rw [hclosed.effects] at hmem
  rcases List.mem_append.mp hmem with hmem | hmem
  · exact hmain r c hmem
  · exact hpost r c hmem

/-- What the reading of a room is when the tail of a response begins -/
def tailReading (env : Env) (s : Session) (plan : Plan) (response : SyncResponse events) (r : Str) :
    Reading :=
  (decide (r ∈ (tailProcessor env.userId plan response).explicitMemberships),
    (s.getMetadata r).membership)

/-- The own membership events of a Classic tail whose identity a recovered page has applied report the
membership that their room has by then. -/
def KeepsChanges (env : Env) (s : Session) : Action → Prop
  | .prepare crypto true => ∀ body flags plan response,
      s.disk.input = some (body, .tail flags plan) → Decodes env body (.classic response) →
      ∀ r, s.unobserved r = false → agree env.userId (plan.applied r)
        (itemsIn r (classicItems crypto plan response)) (tailReading env s plan response r) = true
  | _ => True

theorem itemsIn_deliveries (crypto : Crypto) (toDevice : List (Option ToDeviceEvent)) (r : Str) :
    itemsIn r (deliveries crypto toDevice) = [] := by
  unfold itemsIn
  refine List.filter_eq_nil_iff.mpr fun item hitem => ?_
  rw [(deliveries_route hitem).2.2]
  simp

/-- The to-device events belong to no room. -/
theorem clearToDevice_classic (crypto : Crypto) {plan : Plan} {response : SyncInput}
    {response' : SyncResponse events} (h : clearToDevice plan response = .classic response') :
    ∃ r, response = .classic r ∧ roomEntries (.classic response') = roomEntries (.classic r) ∧
      ∀ room, itemsIn room (classicItems crypto plan response') =
        itemsIn room (classicItems crypto plan r) := by
  have hitems : ∀ r : SyncResponse events, ∀ room,
      itemsIn room (classicItems crypto plan { r with toDeviceEvents := [] }) =
        itemsIn room (classicItems crypto plan r) := by
    intro r room
    have hnone := itemsIn_deliveries crypto r.toDeviceEvents room
    have hnone' := itemsIn_deliveries crypto [] room
    unfold itemsIn classicItems at *
    simp only [List.filter_append, hnone, hnone']
  unfold clearToDevice at h
  split at h
  · exact ⟨response', h, rfl, fun _ => rfl⟩
  · cases response with
    | classic r =>
      cases h
      exact ⟨r, rfl, rfl, hitems r⟩
    | sliding r => cases h

/-- A tail whose response agrees leaves no change without a record. -/
theorem undropped_tail {crypto : Crypto} {plan : Plan} {response : SyncInput} {s : Session}
    {w w' : Work} (h : TailItems env crypto plan response w w')
    (hagree : ∀ r, response = .classic r → ∀ room, s.unobserved room = false →
      agree env.userId (plan.applied room) (itemsIn room (classicItems crypto plan r))
        (tailReading env s plan r room) = true)
    (htenure : ∀ r, w.session.tenure r = s.tenure r) (hintent : w.session.disk.intent = s.disk.intent)
    (hw : Undropped w.session.effects) : Undropped w'.session.effects := by
  obtain ⟨items, hsource, hconsumes⟩ := h
  refine hconsumes.undropped hsource.stopOnOversized (fun room hu => ?_) hw
  rw [unobserved_congr hintent room] at hu
  generalize hresponse : clearToDevice plan response = response' at hsource
  generalize hprocessor : w.processor = processor at hsource ⊢
  cases hsource with
  | classic r' =>
    obtain ⟨r, hr, hentries, hitems⟩ := clearToDevice_classic crypto hresponse
    have hreading : w.reading room = tailReading env s plan r room := by
      have hmembership := congrArg Prod.fst (htenure room)
      unfold Work.reading tailReading
      rw [hprocessor]
      unfold tailProcessor
      rw [hentries]
      exact congrArg (Prod.mk _) hmembership
    rw [hreading, hitems, suppressed_tailProcessor]
    exact hagree r hr room hu
  | sliding r explicit items conveys => exact agree_of_nil _ _ _

/-- The plan of an input without a recovery has applied nothing of a Classic response. -/
theorem applied_makePlan {s : Session} {response : SyncResponse events} {plan : Plan}
    (h : makePlan env s (.classic response) = .ok plan) (r : Str) : plan.applied r = [] := by
  cases h
  rfl

/-- A transaction leaves no change of a membership without a record, if the action meets its
condition. -/
theorem undropped_step {s : Session} (hretained : Retained env s) {action : Action}
    (hkeeps : KeepsChanges env s action) {es : List Effect}
    (hes : (step env s action).disk.history = s.disk.history ++ [es]) : Undropped es := by
  cases transacted_step hretained hes with
  | interprets body c response s₁ input decodes run interprets effects same =>
    have heffects : (s.withResponse response).effects = [] := hretained.effects
    subst effects
    cases run with
    | prologue flags plan plan' last main hplan hcontinues hrooms hstart hrun hl =>
      refine hrun.undropped (fun w w' htaken hchanges _ _ hw => ?_) ?_ fun r c h => nomatch h
      · exact undropped_changes hchanges (Or.inr fun r => by rw [htaken.1]; rfl) hw
      · simp [Undropped, heffects]
    | whole flags plan main hplan hnothing hrun hl =>
      refine hrun.undropped (fun w w' htaken _ htenure hintent hw => ?_) ?_ ?_
      · refine undropped_tail htaken (fun r hr room _ => ?_) htenure hintent hw
        subst hr
        rw [applied_makePlan hplan]
        exact agree_of_nil _ _ _
      · simp [Undropped, heffects]
      · simp [Undropped]
    | page flags plan position entry c main next hposition hof hroom hrun hl hnext =>
      refine hrun.undropped (fun w w' htaken hchanges _ _ hw => ?_) ?_ fun r c h => nomatch h
      · refine undropped_changes hchanges (Or.inr fun r => ?_) hw
        unfold Processor.suppressed
        rw [show w.processor.suppressIds = [] from htaken]
        rfl
      · simp [Undropped, heffects]
    | smaller flags plan position hposition hlimit hsame' =>
      subst hsame'
      rw [show ((s.withResponse response).saveContinuation _).effects = [] from heffects]
      simp [Undropped]
    | tail flags plan main hrun hl =>
      obtain rfl := interprets
      refine hrun.undropped (fun w w' htaken _ htenure hintent hw => ?_) ?_ ?_
      · refine undropped_tail htaken (fun r hr room hu => ?_) htenure hintent hw
        subst hr
        exact hkeeps body flags plan r input decodes room hu
      · unfold Plan.decrypts
        split
        · simp [Undropped, heffects]
        · simp [Undropped, heffects]
      · simp [Undropped]
  | other effects records published boundary =>
    intro r c hmem
    simpa using effects _ hmem

end Nio.Durable
