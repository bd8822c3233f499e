import Nio.Durable.Steps

/-!
# The retained input

What the retained input is in every session that a run reaches: its body decodes, the response in
memory is what the body decodes to, and a recovery is in a room of that response.

* `Interpretation.interpreted` — what an interpretation leaves alone
* `makePlan_starts` — a recovery knows where each of its rooms starts
* `retained_reachable` — the invariant
-/

namespace Nio.Durable

open Nio.Py
open Nio.Lib
open Relation (ReflTransGen)

variable {env : Env}

/-! ## What an interpretation leaves alone -/

/-- The parts of a session that an interpretation keeps, and its effects -/
structure Interpreted (pre post : List Effect) (s s' : Session) : Prop where
  acked : s'.disk.acked = s.disk.acked
  history : s'.disk.history = s.disk.history
  batches : s.disk.batches <+: s'.disk.batches
  response : s'.response = s.response
  isOpen : s'.isOpen = s.isOpen
  effects : ∃ es, s'.effects = s.effects ++ pre ++ es ++ post ∧ ∀ e ∈ es, ∃ r c, e = .dropped r c
  mirrored : s.baselines = s.disk.checkpoints → s'.baselines = s'.disk.checkpoints

theorem Interpretation.interpreted {K : SyncRecord → Prop} {S : Work → Work → Prop}
    {pre post : List Effect} {s s' : Session} {historyRooms : List Str} {main : Work}
    (h : Interpretation K S pre post s historyRooms main s') : Interpreted pre post s s' := by
  obtain ⟨first, processor, w, -, hlosses, -, -, items, hchanges, hsettles, -, hclosed, -⟩ := h
  obtain ⟨es₀, hf₀, -⟩ := hlosses.changes.frame
  obtain ⟨es₁, hf₁, hes₁⟩ := hchanges.frame
  obtain ⟨es₂, hf₂, hes₂⟩ := hsettles.frame
  have hf := hf₁.trans hf₂
  have hw : w.session.effects = s.effects := hlosses.effects
  refine ⟨?_, ?_, ?_, ?_, ?_, ⟨es₁ ++ es₂, ?_, fun e he => ?_⟩, fun hm => ?_⟩
  · exact hclosed.acked.trans (hf.acked.trans hf₀.acked)
  · exact hclosed.history.trans (hf.history.trans hf₀.history)
  · rw [hclosed.batches]
    exact hf₀.batches.trans hf.batches
  · exact hclosed.response.trans (hf.response.trans hf₀.response)
  · exact hclosed.isOpen.trans (hf.isOpen.trans hf₀.isOpen)
  · rw [hclosed.effects, hf.effects, ← hw]
    rfl
  · rcases List.mem_append.mp he with he | he
    · exact hes₁ e he
    · exact hes₂ e he
  · have hbase : main.session.baselines = s.baselines := hf.baselines.trans hf₀.baselines
    have hcheck : main.session.disk.checkpoints = s.disk.checkpoints :=
      hf.checkpoints.trans hf₀.checkpoints
    exact hclosed.checkpoints (hbase.trans (hm.trans hcheck.symm))

/-- An advance of the input leaves the history to its commit. -/
theorem Advances.history {crypto : Crypto} {s s' : Session} {response : SyncInput}
    {c : Continuation} (h : Advances env crypto s response s' c) :
    s'.disk.history = s.disk.history := by
  cases h with
  | prologue _ _ _ _ _ _ _ _ _ run _ => exact run.interpreted.history
  | whole _ _ _ _ _ run _ => exact run.interpreted.history
  | page _ _ _ _ _ _ _ _ _ _ run _ _ => exact run.interpreted.history
  | smaller _ _ _ _ _ same =>
    subst same
    rfl
  | tail _ _ _ run _ => exact run.interpreted.history

/-! ## Where a recovery stands -/

/-- The candidates only depend on the checkpoints. -/
theorem candidates_congr {s s' : Session} (h : s'.baselines = s.baselines) (response : SyncInput) :
    candidates env s' response = candidates env s response := by
  cases response with
  | classic r => rfl
  | sliding r =>
    unfold candidates recoveryStart Session.slidingMembership Session.checkpoint
    rw [h]

/-- The plan of a recovery that is in a room of the response -/
structure Recovers (env : Env) (s : Session) (response : SyncInput) (plan : Plan) : Prop where
  position : ∃ position, plan.position = some position ∧ position.pages ≤ env.maxPages ∧
    position.limit ≤ env.pageLimit
  room : plan.roomIndex < (candidates env s response).length
  starts : ∀ entry ∈ candidates env s response, ∃ token, startToken plan (some entry) = .ok token

/-- What recovers depends on the baselines only. -/
theorem Recovers.congr {s s' : Session} {response : SyncInput} {plan : Plan}
    (h : s'.baselines = s.baselines) (hr : Recovers env s response plan) :
    Recovers env s' response plan := by
  refine ⟨hr.position, ?_, ?_⟩
  · rw [candidates_congr h]
    exact hr.room
  · rw [candidates_congr h]
    exact hr.starts

/-- The token that a plan has for a room of a Sliding response -/
def SlidingPlan.hasStart (sliding : SlidingPlan) (roomId : Str) : Prop :=
  (dictGet? sliding.starts roomId).isSome

theorem hasStart_dictSet {starts : List (Str × Str)} {r r' token : Str}
    (h : (dictGet? starts r').isSome) : (dictGet? (dictSet starts r token) r').isSome := by
  rw [dictGet?_dictSet]
  split
  · rfl
  · exact h

theorem planSlidingRoom_hasStart {s : Session} {p p' : Plan × SlidingPlan}
    {entry : Str × SlidingRoom} (h : planSlidingRoom env s p entry = .ok p') :
    (∀ r, p.2.hasStart r → p'.2.hasStart r) ∧
      ((entry.2.initial = true ∨ entry.2.limited = true) →
        (recoveryStart env s entry.1 entry.2).isSome → p'.2.hasStart entry.1) := by
  unfold planSlidingRoom at h
  obtain ⟨n, -, h⟩ := bind_eq_ok.mp h
  dsimp only at h
  split at h
  · split at h
    · cases h
      refine ⟨fun r hr => hasStart_dictSet hr, fun _ _ => ?_⟩
      unfold SlidingPlan.hasStart
      rw [dictGet?_dictSet, if_pos rfl]
      rfl
    · next hnone =>
      cases h
      refine ⟨fun r hr => hr, fun _ hs => ?_⟩
      rw [hnone] at hs
      cases hs
  · next hwindow =>
    split at h
    · cases h
      exact ⟨fun r hr => hr, fun hw => absurd hw hwindow⟩
    · cases h
      exact ⟨fun r hr => hr, fun hw => absurd hw hwindow⟩

/-- Every room of a Sliding response that can be recovered has its token in the plan. -/
theorem foldlM_planSlidingRoom_hasStart {s : Session} {rooms : List (Str × SlidingRoom)}
    {p p' : Plan × SlidingPlan} (h : rooms.foldlM (planSlidingRoom env s) p = .ok p')
    {entry : Str × SlidingRoom} (he : entry ∈ rooms)
    (hwindow : entry.2.initial = true ∨ entry.2.limited = true)
    (hstart : (recoveryStart env s entry.1 entry.2).isSome) : p'.2.hasStart entry.1 := by
  induction rooms generalizing p with
  | nil => cases he
  | cons e rooms ih =>
    rw [List.foldlM_cons] at h
    obtain ⟨p₁, h₁, h₂⟩ := bind_eq_ok.mp h
    rcases List.mem_cons.mp he with rfl | he
    · refine foldlM_invariant (P := fun p : Plan × SlidingPlan => p.2.hasStart entry.1) ?_ h₂
        ((planSlidingRoom_hasStart h₁).2 hwindow hstart)
      exact fun e _ p p' hstep hp => (planSlidingRoom_hasStart hstep).1 _ hp
    · exact ih h₂ he

/-- Every room of a new plan has a token to start from. -/
theorem makePlan_starts {s : Session} {response : SyncInput} {plan : Plan}
    (h : makePlan env s response = .ok plan) {entry : RoomEntry}
    (he : entry ∈ candidates env s response) : ∃ token, startToken plan (some entry) = .ok token := by
  unfold makePlan at h
  cases response with
  | classic r =>
    cases h
    exact ⟨_, rfl⟩
  | sliding r =>
    dsimp only at h
    unfold planSliding at h
    obtain ⟨⟨plan', sliding⟩, hp, h⟩ := bind_eq_ok.mp h
    cases h
    unfold candidates at he
    obtain ⟨-, he⟩ := List.mem_filter.mp he
    split at he
    · next room hroom =>
      obtain ⟨hwindow, hstart⟩ := Bool.and_eq_true_iff.mp he
      have hhas := foldlM_planSlidingRoom_hasStart hp (mem_of_dictGet? hroom)
        (Bool.or_eq_true_iff.mp hwindow) hstart
      obtain ⟨token, htoken⟩ := Option.isSome_iff_exists.mp hhas
      refine ⟨some token, ?_⟩
      unfold startToken
      dsimp only at htoken ⊢
      rw [htoken]
    · cases he

/-- The room after the last one starts from the old cursor. -/
theorem nextRoom_cases {plan plan' : Plan} {rooms : List RoomEntry} {index : Nat} {last : Bool}
    (h : nextRoom env plan rooms index = .ok (plan', last)) :
    ∃ start, startToken plan rooms[index]? = .ok start ∧
      plan' = { plan with
        roomIndex := index
        position := some ⟨start, 0, [start], env.pageLimit⟩ } ∧
      last = decide (rooms.length ≤ index) := by
  unfold nextRoom at h
  obtain ⟨start, hs, h⟩ := bind_eq_ok.mp h
  cases h
  exact ⟨start, hs, rfl, rfl⟩

/-- The next room of a plan recovers as the first did. -/
theorem recovers_nextRoom {s s' : Session} {response : SyncInput} {plan plan' : Plan}
    {index : Nat} (hb : s'.baselines = s.baselines)
    (hstarts : ∀ entry ∈ candidates env s response, ∃ token,
      startToken plan (some entry) = .ok token)
    (h : nextRoom env plan (candidates env s response) index = .ok (plan', false)) :
    Recovers env s' response plan' := by
  obtain ⟨start, -, rfl, hlast⟩ := nextRoom_cases h
  have hindex : index < (candidates env s response).length :=
    Nat.not_le.mp (of_decide_eq_false hlast.symm)
  exact Recovers.congr hb ⟨⟨_, rfl, Nat.zero_le _, Nat.le_refl _⟩, hindex, hstarts⟩

/-- The token depends on the old cursor and the sliding plan. -/
theorem startToken_congr {plan plan' : Plan} (ho : plan'.oldCursor = plan.oldCursor)
    (hs : plan'.sliding = plan.sliding) (entry : Option RoomEntry) :
    startToken plan' entry = startToken plan entry := by
  unfold startToken
  rw [ho, hs]

/-- A page leaves a recovery that is in a room, or the phase of the tail. -/
theorem recovers_pageNext {flags : Flags} {s s' : Session} {response : SyncInput} {plan : Plan}
    {position : Position} {c : PageCommit} {historyRooms : List Str} {next : Continuation}
    (hb : s'.baselines = s.baselines) (hr : Recovers env s response plan)
    (hposition : plan.position = some position) (hof : PageOf env plan position c)
    (h : PageNext env flags (candidates env s response) c historyRooms next) :
    (∃ plan', next = .recover flags plan' ∧ Recovers env s' response plan') ∨
      ∃ plan', next = .tail flags plan' ∧ plan'.position ≠ none := by
  obtain ⟨p, hp, hpages, hlimit⟩ := hr.position
  obtain rfl : p = position := Option.some.inj (hp.symm.trans hposition)
  have hstarts : ∀ appliedIds explicitRooms, ∀ entry ∈ candidates env s response,
      ∃ token, startToken (c.planAfter appliedIds historyRooms explicitRooms) (some entry) =
        .ok token := by
    intro appliedIds explicitRooms entry he
    obtain ⟨token, ht⟩ := hr.starts entry he
    exact ⟨token, (startToken_congr hof.oldCursor hof.sliding _).trans ht⟩
  cases h with
  | again explicitRooms more =>
    obtain ⟨hmax, hnext, hsame⟩ := hof.more more
    refine Or.inl ⟨_, rfl, Recovers.congr hb ⟨⟨_, rfl, ?_, ?_⟩, ?_, ?_⟩⟩
    · dsimp only
      omega
    · dsimp only
      omega
    · change c.plan.roomIndex < _
      rw [hof.roomIndex]
      exact hr.room
    · exact hstarts c.plan.appliedIds explicitRooms
  | room appliedIds explicitRooms plan' last hnext =>
    cases last with
    | false => exact Or.inl ⟨plan', rfl, recovers_nextRoom hb (hstarts _ _) hnext⟩
    | true =>
      obtain ⟨start, -, rfl, -⟩ := nextRoom_cases hnext
      exact Or.inr ⟨_, rfl, by simp⟩

/-! ## The invariant -/

/-- The response that a body is decoded to -/
def Decodes (env : Env) (body : List Nat) (response : SyncInput) : Prop :=
  ∃ sections, decodeResponse env.config env.parsers body = .ok (response, sections)

/-- A body is decoded to one response. -/
theorem Decodes.unique {body : List Nat} {r r' : SyncInput} (h : Decodes env body r)
    (h' : Decodes env body r') : r = r' := by
  obtain ⟨x, h⟩ := h
  obtain ⟨x', h'⟩ := h'
  rw [h] at h'
  cases h'
  rfl

/-- What the continuation of a retained input says about its response -/
def Continuation.Fits (env : Env) (s : Session) (response : SyncInput) : Continuation → Prop
  | .recover _ plan => Recovers env s response plan
  | .tail _ plan => plan.position ≠ none
  | .captured _ | .prepared => True

theorem Continuation.Fits.congr {s s' : Session} {response : SyncInput} {c : Continuation}
    (hb : s'.baselines = s.baselines) (h : c.Fits env s response) : c.Fits env s' response := by
  cases c with
  | recover flags plan => exact Recovers.congr hb h
  | tail flags plan => exact h
  | captured flags => trivial
  | prepared => trivial

/-- The retained input of a session between two transactions -/
structure Retained (env : Env) (s : Session) : Prop where
  effects : s.effects = []
  mirrored : s.baselines = s.disk.checkpoints
  input : ∀ body c, s.disk.input = some (body, c) →
    ∃ response, Decodes env body response ∧ c.Fits env s response
  response : ∀ response, s.response = some response →
    ∃ body c, s.disk.input = some (body, c) ∧ Decodes env body response

theorem retained_fresh (cursor : Option Str) : Retained env (.fresh cursor) :=
  ⟨rfl, rfl, fun _ _ h => (nomatch h), fun _ h => (nomatch h)⟩

/-- The response that an interpretation works on is that of the retained body. -/
theorem Retained.current {s : Session} (h : Retained env s) {body : List Nat} {c : Continuation}
    (hinput : s.disk.input = some (body, c)) {response : SyncInput}
    (hcurrent : s.currentResponse env = some response) : Decodes env body response := by
  unfold Session.currentResponse at hcurrent
  split at hcurrent
  · next response' hr =>
    cases hcurrent
    obtain ⟨body', c', hinput', hdecodes⟩ := h.response _ hr
    rw [hinput] at hinput'
    cases hinput'
    exact hdecodes
  · rw [hinput] at hcurrent
    dsimp only at hcurrent
    obtain ⟨p, hp, rfl⟩ := Option.map_eq_some_iff.mp hcurrent
    cases hdecode : decodeResponse env.config env.parsers body with
    | error e =>
      rw [hdecode] at hp
      cases hp
    | ok q =>
      rw [hdecode] at hp
      cases hp
      exact ⟨_, hdecode⟩

/-- An advance of the input keeps it retained. -/
theorem retained_advances {s s' : Session} {body : List Nat} {c : Continuation}
    {response : SyncInput} (h : Retained env s) (hinput : s.disk.input = some (body, c))
    (hcurrent : s.currentResponse env = some response)
    {crypto : Crypto} (hrun : Advances env crypto (s.withResponse response) response s' c) :
    Retained env s'.commit := by
  have hdecodes := h.current hinput hcurrent
  obtain ⟨response', hdecodes', hfits⟩ := h.input body c hinput
  obtain rfl := hdecodes.unique hdecodes'
  -- what a transaction has to leave for the invariant
  have hkeep : ∀ next : Continuation,
      s'.disk.input = (s.withResponse response).disk.input.map (fun p => (p.1, next)) →
      s'.response = (s.withResponse response).response → s'.baselines = s'.disk.checkpoints →
      next.Fits env s' response → Retained env s'.commit := by
    intro next hin hresp hmirrored hnext
    change s'.disk.input = s.disk.input.map (fun p => (p.1, next)) at hin
    rw [hinput] at hin
    refine ⟨rfl, hmirrored, fun body' c' hc => ?_, fun r hr => ?_⟩
    · have hc : s'.disk.input = some (body', c') := hc
      rw [hin] at hc
      cases hc
      exact ⟨response, hdecodes, @Continuation.Fits.congr _ s' s'.commit _ _ rfl hnext⟩
    · have hr : s'.response = some r := hr
      rw [hresp] at hr
      cases hr
      exact ⟨body, next, hin, hdecodes⟩
  cases hrun with
  | prologue flags plan plan' last main hplan hcontinues hrooms hstart hrun hleaves =>
    refine hkeep _ hleaves.input hrun.interpreted.response (hrun.interpreted.mirrored h.mirrored) ?_
    obtain ⟨start, -, rfl, hlast⟩ := nextRoom_cases hstart
    obtain rfl : last = false := by
      rw [hlast]
      exact decide_eq_false (Nat.not_le.mpr (List.length_pos_iff.mpr hrooms))
    obtain ⟨hp, hroom, hstarts⟩ := recovers_nextRoom hleaves.baselines
      (fun entry he => makePlan_starts hplan he) hstart
    exact ⟨hp, hroom, fun entry he => (startToken_congr rfl rfl _).symm ▸ hstarts entry he⟩
  | whole flags plan main hplan hnothing hrun hleaves =>
    exact hkeep _ hleaves.input hrun.interpreted.response (hrun.interpreted.mirrored h.mirrored) trivial
  | page flags plan position entry c main next hposition hof hroom hrun hleaves hnext =>
    refine hkeep _ hleaves.input hrun.interpreted.response (hrun.interpreted.mirrored h.mirrored) ?_
    have hrecovers : Recovers env (s.withResponse response) response plan :=
      @Recovers.congr env s (s.withResponse response) response plan rfl hfits
    rcases recovers_pageNext hleaves.baselines hrecovers hposition hof hnext with
      ⟨plan', rfl, hr⟩ | ⟨plan', rfl, hp⟩
    · exact hr
    · exact hp
  | smaller flags plan position hposition hlimit hsame =>
    subst hsame
    refine hkeep _ rfl rfl h.mirrored ?_
    obtain ⟨⟨p, hp, hpages, hle⟩, hroom, hstarts⟩ : Recovers env s response plan := hfits
    obtain rfl : p = position := Option.some.inj (hp.symm.trans hposition)
    refine Recovers.congr rfl ⟨⟨_, rfl, hpages, ?_⟩, hroom, hstarts⟩
    dsimp only
    omega
  | tail flags plan main hrun hleaves =>
    exact hkeep _ hleaves.input hrun.interpreted.response (hrun.interpreted.mirrored h.mirrored) trivial

/-! ### Local operations -/

theorem baselines_localRooms {s : Session} {intent : Intent}
    (h : s.baselines = s.disk.checkpoints) :
    (s.localRooms intent).baselines = (s.localRooms intent).disk.checkpoints := by
  unfold Session.localRooms
  split
  · exact congrArg (dictErase · intent.roomId) h
  · exact h

/-- A local operation writes the rooms, their metadata and their checkpoints, -/
theorem localRooms_shape (s : Session) (intent : Intent) : s.localRooms intent = { s with
    metadata := (s.localRooms intent).metadata
    rooms := (s.localRooms intent).rooms
    invited := (s.localRooms intent).invited
    baselines := (s.localRooms intent).baselines
    disk := { s.disk with checkpoints := (s.localRooms intent).disk.checkpoints } } := by
  unfold Session.localRooms
  split
  · rfl
  · rfl

/-- and leaves every tenure. -/
theorem tenure_localRooms (s : Session) (intent : Intent) (r : Str) :
    (s.localRooms intent).tenure r = s.tenure r := by
  unfold Session.localRooms
  split
  · exact Session.tenure_resetJoinedRoom s intent.roomId r
  · rfl

/-- What a successful local operation publishes and changes -/
structure Applied (s : Session) (intent : Intent) (s' : Session) : Prop where
  shape : ∃ size, s' = { s with
    metadata := s'.metadata
    rooms := s'.rooms
    invited := s'.invited
    baselines := s'.baselines
    disk := { s.disk with
      rooms := s'.disk.rooms
      checkpoints := s'.disk.checkpoints
      batches := s.disk.batches ++
        [⟨[lifecycleRecord intent.roomId (Session.localChange intent)], false, size⟩]
      intent := some { intent with sequence := some (s.disk.batches.length + 1) } } }
  mirrored : s.baselines = s.disk.checkpoints → s'.baselines = s'.disk.checkpoints
  tenure : ∀ r, s'.tenure r = s.tenureAfter intent.roomId (Session.localChange intent) r
  rows : ∀ r, s'.disk.tenure r = if r = intent.roomId then s'.tenure r else s.disk.tenure r

/-- An operation that is applied publishes its own change. -/
theorem applied_applyLocal {s s' : Session} {intent : Intent} (h : s.applyLocal intent = .ok s') :
    Applied s intent s' := by
  unfold Session.applyLocal Session.publish at h
  dsimp only at h
  obtain ⟨s₁, h₁, h⟩ := bind_eq_ok.mp h
  obtain ⟨size, -, h₁⟩ := bind_eq_ok.mp h₁
  cases h₁
  cases h
  generalize hbase : (s.updateMetadata intent.roomId fun m => { m with
    membership := some (Session.localChange intent).current
    membershipEpoch := (Session.localChange intent).currentEpoch
    baseline := false }) = base
  have hbase' : base = { s with metadata := base.metadata } := by
    rw [← hbase]
    rfl
  have htenure : ∀ r, base.tenure r =
      s.tenureAfter intent.roomId (Session.localChange intent) r := by
    intro r
    rw [← hbase]
    unfold Session.tenure Session.tenureAfter
    rw [Session.getMetadata_updateMetadata]
    split
    · rfl
    · rfl
  have hmirrored : base.baselines = base.disk.checkpoints → _ := @baselines_localRooms base intent
  have hlocal := localRooms_shape base intent
  have hsame := tenure_localRooms base intent
  have hsave := saveRooms_frame (base.localRooms intent) [intent.roomId]
  have hget := saveRooms_getMetadata (base.localRooms intent) [intent.roomId]
  have hrow := saveRooms_row (base.localRooms intent) [intent.roomId]
  generalize base.localRooms intent = s₂ at *
  generalize s₂.saveRooms [intent.roomId] = s₃ at *
  have htenure₃ : ∀ r, s₃.tenure r = s.tenureAfter intent.roomId (Session.localChange intent) r := by
    intro r
    rw [← htenure, ← hsame]
    unfold Session.tenure
    rw [hget]
  refine ⟨⟨size, ?_⟩, fun hm => ?_, htenure₃, fun r => ?_⟩
  · unfold Session.storeBatch Session.saveIntent
    dsimp only
    rw [hsave, hlocal, hbase']
    simp
  · change s₃.baselines = s₃.disk.checkpoints
    rw [hsave]
    exact hmirrored (by rw [hbase']; exact hm)
  · change s₃.disk.tenure r = if r = intent.roomId then s₃.tenure r else s.disk.tenure r
    have h₂ : s₂.disk.metadata r = s.disk.metadata r := by
      rw [hlocal, hbase']
      rfl
    have hmeta := hrow r
    rw [h₂] at hmeta
    rw [tenure_row hmeta]
    simp only [List.mem_singleton]
    unfold Session.tenure
    rw [hget]
    rfl

/-- Every action keeps the input retained. -/
theorem retained_step {s : Session} (h : Retained env s) (action : Action) :
    Retained env (step env s action) := by
  -- an action that leaves the input, the response and the checkpoints
  have hsame : ∀ s' : Session, s'.effects = [] → s'.baselines = s.baselines →
      s'.disk.checkpoints = s.disk.checkpoints → s'.disk.input = s.disk.input →
      (s'.response = s.response ∨ s'.response = s.currentResponse env ∨ s'.response = none) →
      Retained env s' := by
    intro s' heffects hb hc hin hresp
    refine ⟨heffects, hb.trans (h.mirrored.trans hc.symm), fun body c hinput => ?_, fun r hr => ?_⟩
    · obtain ⟨response, hdecodes, hfits⟩ := h.input body c (hin ▸ hinput)
      exact ⟨response, hdecodes, hfits.congr hb⟩
    · rw [hin]
      rcases hresp with hresp | hresp | hresp
      · exact h.response r (hresp ▸ hr)
      · rw [hresp] at hr
        cases hinput : s.disk.input with
        | none =>
          unfold Session.currentResponse at hr
          cases hold : s.response with
          | some r' =>
            obtain ⟨body, c, hinput', -⟩ := h.response r' hold
            rw [hinput] at hinput'
            cases hinput'
          | none =>
            rw [hold, hinput] at hr
            cases hr
        | some p => exact ⟨p.1, p.2, rfl, h.current hinput hr⟩
      · rw [hresp] at hr
        cases hr
  generalize hs' : step env s action = s'
  have hstep := hs' ▸ step_cases s action
  cases hstep with
  | idle _ same response =>
    rw [same]
    refine hsame _ h.effects rfl rfl rfl ?_
    rcases response with hr | hr
    · exact Or.inl hr
    · exact Or.inr (Or.inl hr)
  | capture body flags response sections decoded free =>
    refine ⟨rfl, h.mirrored, fun body' c' hc => ?_, fun r hr => ?_⟩
    · cases hc
      exact ⟨response, ⟨sections, decoded⟩, trivial⟩
    · cases hr
      exact ⟨body, _, rfl, sections, decoded⟩
  | interpret body c response s' input current run => exact retained_advances h input current run
  | finish body s' input acked run =>
    unfold Session.publish at run
    obtain ⟨size, -, run⟩ := bind_eq_ok.mp run
    cases run
    exact ⟨rfl, h.mirrored, fun _ _ h => (nomatch h), fun _ h => (nomatch h)⟩
  | ack pending => exact hsame _ h.effects rfl rfl rfl (Or.inl rfl)
  | intent intent step => exact hsame _ rfl rfl rfl rfl (Or.inl rfl)
  | apply intent s' stored sequence free position run =>
    obtain ⟨⟨size, hshape⟩, hmirrored, -, -⟩ := applied_applyLocal run
    refine ⟨rfl, hmirrored h.mirrored, fun body c hinput => ?_, fun r hr => ?_⟩
    · have hinput : s'.disk.input = some (body, c) := hinput
      rw [hshape] at hinput
      rw [show s.disk.input = some (body, c) from hinput] at free
      cases free
    · have hr : s'.response = some r := hr
      rw [hshape] at hr
      obtain ⟨body, c, hinput, -⟩ := h.response r hr
      rw [hinput] at free
      cases free
  | reopen isInvited => exact hsame _ rfl h.mirrored.symm rfl rfl (Or.inr (Or.inr rfl))

end Nio.Durable
