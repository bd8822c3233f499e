import Nio.Durable.Interpretation

/-!
# The phases of an input

Each transaction that interprets the retained input, as a sequence of changes and the continuation
that it leaves. Invariants of the session go through `Advances` and look at no function of a
phase again.

* `commitPage_run` — the transaction of a page
* `prepare_advances`, `advance_advances` — the four kinds of transactions
-/

namespace Nio.Durable

open Nio.Py
open Nio.Lib
open Relation (ReflTransGen)

variable {K : SyncRecord → Prop} {S : Work → Work → Prop} {env : Env}

/-- The ghost of what the transaction does from here on -/
def Work.effects (w : Work) (es : List Effect) : Work :=
  { w with session := { w.session with effects := w.session.effects ++ es } }

/-- What a transaction takes between two works: the to-device events of a response -/
def DeviceItems (env : Env) (crypto : Crypto) (response : SyncInput) (w w' : Work) : Prop :=
  w.processor = .new [] ∧ Consumes env w (deliveries crypto (toDeviceOf response)) w'

/-- The observations of a response, but for the to-device events that a prologue has taken -/
def TailItems (env : Env) (crypto : Crypto) (plan : Plan) (response : SyncInput) (w w' : Work) :
    Prop :=
  ∃ items, Source env.userId crypto plan (clearToDevice plan response) w.processor items ∧
    Consumes env w items w'

/-- The events of a page, of which none is passed over as applied -/
def PageItems (w _w' : Work) : Prop := w.processor.suppressIds = []

/-- An interpretation of the retained input: losses of rooms that nothing is known of, the changes of
its items, those of the boundaries of its rooms, and the end of the transaction. `S` says which items
the changes belong to. -/
inductive Interpretation (K : SyncRecord → Prop) (S : Work → Work → Prop) (pre post : List Effect)
    (s : Session) (historyRooms : List Str) (main : Work) (s' : Session) : Prop
  | mk (first processor : Processor) (w : Work)
      (records : first.records = [])
      (losses : Losses ⟨s, historyRooms, first⟩ w)
      (processorRecords : processor.records = []) (processorRooms : processor.rooms = [])
      (items : Work) (changes : Changes K { w.effects pre with processor } items)
      (settles : Changes Boundary items main)
      (mainRecords : main.processor.records = [])
      (closed : Closed post main s')
      (taken : S { w.effects pre with processor } items)

/-- What a transaction says about the input -/
structure Leaves (s : Session) (next : Continuation) (cursor : Option Str) (s' : Session) : Prop where
  input : s'.disk.input = s.disk.input.map fun p => (p.1, next)
  position : s'.disk.cursor = cursor

/-- A transaction that goes on with the recovery of the input -/
structure Continues (s : Session) (next : Continuation) (s' : Session) : Prop
    extends Leaves s next s.disk.cursor s' where
  baselines : s'.baselines = s.baselines
  checkpoints : s'.disk.checkpoints = s.disk.checkpoints

/-! ## Pages -/

/-- The plan that a page leaves, but for the room that comes next -/
def PageCommit.planAfter (c : PageCommit) (appliedIds : List (Str × List Json))
    (historyRooms explicitRooms : List Str) : Plan :=
  { c.plan with appliedIds, historyRooms, explicitRooms }

/-- The continuation that a page leaves -/
inductive PageNext (env : Env) (flags : Flags) (rooms : List RoomEntry) (c : PageCommit)
    (historyRooms : List Str) : Continuation → Prop
  | again (explicitRooms : List Str) (more : c.done = false) :
      PageNext env flags rooms c historyRooms (.recover flags
        { c.planAfter c.plan.appliedIds historyRooms explicitRooms with
          position := some { c.position with «from» := c.end } })
  | room (appliedIds : List (Str × List Json)) (explicitRooms : List Str) (plan : Plan) (last : Bool)
      (next : nextRoom env (c.planAfter appliedIds historyRooms explicitRooms) rooms
        (c.plan.roomIndex + 1) = .ok (plan, last)) :
      PageNext env flags rooms c historyRooms (if last then .tail flags plan else .recover flags plan)

/-- Two works that differ at most in what stopped the processor -/
structure SameRooms (w w' : Work) : Prop where
  session : w'.session = w.session
  historyRooms : w'.historyRooms = w.historyRooms
  rooms : w'.processor.rooms = w.processor.rooms
  records : w'.processor.records = w.processor.records

theorem Closed.congr {es : List Effect} {w w' : Work} {s' : Session} (hw : SameRooms w w')
    (h : Closed es w s') : Closed es w' s' := by
  constructor
  all_goals rw [hw.session]
  · exact h.acked
  · exact h.history
  · exact h.batches
  · exact h.intent
  · exact h.response
  · exact h.isOpen
  · exact h.effects
  · exact h.tenure
  · rw [hw.rooms]
    exact h.rows
  · exact h.checkpoints

theorem records_addKnownRoom (w : Work) (r : Str) :
    (w.addKnownRoom r).processor.records = w.processor.records := by
  unfold Work.addKnownRoom
  split
  · rfl
  · rfl

/-- The loss of a page stands for the record that stopped it, if one did. -/
theorem pageLoss_changes {w₀ w w' : Work} {r : Str} {pages : Nat} {reason : Option String}
    (hK : ∀ record, Boundary record → K record)
    (hconsumed : Changes K w₀ w ∨ ∃ w₁, Changes K w₀ w₁ ∧ Overflow r w₁ w)
    (hstart : w₀.processor.oversizedMembership = none) (hrecords : w.processor.records = [])
    (hreason : w.processor.oversized = true → reason.isSome)
    (h : pageLoss env w r pages reason = .ok w') :
    ∃ main, Changes K w₀ main ∧ SameRooms w' main ∧ main.processor.records = [] := by
  unfold pageLoss at h
  rcases hconsumed with hc | ⟨w₁, hc, hover⟩
  · obtain ⟨es, hframe, -⟩ := hc.frame
    cases reason with
    | none =>
      cases h
      exact ⟨w, hc, ⟨rfl, rfl, rfl, rfl⟩, hrecords⟩
    | some reason =>
      obtain ⟨w₂, hloss, h⟩ := bind_eq_ok.mp h
      cases h
      rw [hframe.oversizedMembership, hstart] at hloss
      obtain ⟨hchange, hrec⟩ := loss_changes hK hrecords hloss
      refine ⟨_, (hc.tail hchange).tail (.quiet (still_addKnownRoom w₂ r)), ⟨rfl, rfl, rfl, rfl⟩, ?_⟩
      rw [records_addKnownRoom]
      exact hrec
  · -- A page that was stopped has a loss.
    cases reason with
    | none => exact absurd (hreason hover.oversized) (by simp)
    | some reason =>
      obtain ⟨w₂, hloss, h⟩ := bind_eq_ok.mp h
      cases h
      obtain ⟨hchange, hrec⟩ := overflow_loss hK hover hrecords hloss
      refine ⟨_, (hc.tail hchange).tail (.quiet (still_addKnownRoom _ r)), ?_, ?_⟩
      · unfold Work.addKnownRoom Work.resumed
        dsimp only
        split
        · exact ⟨rfl, rfl, rfl, rfl⟩
        · exact ⟨rfl, rfl, rfl, rfl⟩
      · rw [records_addKnownRoom]
        exact hrec

theorem pageLoss_oversized {w w' : Work} {r : Str} {pages : Nat} {reason : Option String}
    (h : pageLoss env w r pages reason = .ok w') :
    w'.processor.oversized = w.processor.oversized := by
  unfold pageLoss at h
  cases reason with
  | none =>
    cases h
    rfl
  | some reason =>
    obtain ⟨w₁, hloss, h⟩ := bind_eq_ok.mp h
    cases h
    obtain ⟨bs, epoch, rfl, -⟩ := loss_cases hloss
    unfold Work.addKnownRoom
    split
    · rfl
    · rfl

theorem continues_saveContinuation {s : Session} {w : Work} (next : Continuation)
    (hinput : w.session.disk.input = s.disk.input) (hcursor : w.session.disk.cursor = s.disk.cursor)
    (hbaselines : w.session.baselines = s.baselines)
    (hcheckpoints : w.session.disk.checkpoints = s.disk.checkpoints) :
    Continues s next (w.save.session.saveContinuation next) := by
  refine ⟨⟨?_, ?_⟩, ?_, ?_⟩
  all_goals
    unfold Session.saveContinuation Work.save
    dsimp only
    rw [saveRooms_frame]
  · exact congrArg (Option.map fun p => (p.1, next)) hinput
  · exact hcursor
  · exact hbaselines
  · exact hcheckpoints

/-- The transaction of a page, from the changes of its events to the continuation that it leaves. -/
theorem commitPage_run {crypto : Crypto} {flags : Flags} {s s' : Session} {rooms : List RoomEntry}
    {entry : RoomEntry} {c : PageCommit} (h : commitPage env crypto flags s rooms entry c = .ok s') :
    ∃ main next, Interpretation (TimelineIn entry.roomId) PageItems [.page entry.roomId] [] s
        c.plan.historyRooms main s' ∧
      Continues s next s' ∧ PageNext env flags rooms c main.historyRooms next := by
  unfold commitPage at h
  dsimp only at h
  obtain ⟨w₁, hconsume, h⟩ := bind_eq_ok.mp h
  obtain ⟨w₂, hloss, h⟩ := bind_eq_ok.mp h
  obtain ⟨hconsumed, hrec₁⟩ := @consumePage_consumed env crypto
    ⟨s.effect (.page entry.roomId), c.plan.historyRooms, .page c.plan⟩ w₁ entry c.events rfl hconsume
  have hK : ∀ record : SyncRecord, Boundary record → TimelineIn entry.roomId record :=
    fun record hb => Or.inr hb
  obtain ⟨main, hchanges, hsame, hrec⟩ := pageLoss_changes hK hconsumed rfl hrec₁
    (fun ho => by rw [if_pos ho]; rfl) hloss
  obtain ⟨es, hframe, -⟩ := hchanges.frame
  have hrun : ∀ next, Interpretation (TimelineIn entry.roomId) PageItems [.page entry.roomId] [] s
        c.plan.historyRooms main (w₂.save.session.saveContinuation next) ∧
      Continues s next (w₂.save.session.saveContinuation next) := by
    intro next
    have hclosed := (closed_saveContinuation w₂ next).congr hsame
    refine ⟨⟨.page c.plan, .page c.plan, _, rfl, .refl _, rfl, rfl, main, hchanges, .refl, hrec, hclosed,
      rfl⟩, ?_⟩
    exact continues_saveContinuation (w := w₂) next (hsame.session ▸ hframe.input)
      (hsame.session ▸ hframe.cursor) (hsame.session ▸ hframe.baselines)
      (hsame.session ▸ hframe.checkpoints)
  split at h
  · obtain ⟨⟨plan, last⟩, hnext, h⟩ := bind_eq_ok.mp h
    cases h
    rw [← hsame.historyRooms] at hnext
    refine ⟨main, _, (hrun _).1, (hrun _).2, ?_⟩
    split at hnext
    · exact .room _ _ plan last hnext
    · exact .room _ _ plan last hnext
  · next hmore =>
    cases h
    rw [← hsame.historyRooms]
    obtain ⟨hdone, hover⟩ := not_or.mp hmore
    refine ⟨main, _, (hrun _).1, (hrun _).2, ?_⟩
    rw [if_neg (pageLoss_oversized hloss ▸ hover)]
    exact .again _ (Bool.eq_false_iff.mpr hdone)

/-! ## Plans -/

theorem planSlidingRoom_position {s : Session} {p p' : Plan × SlidingPlan}
    {entry : Str × SlidingRoom} (h : planSlidingRoom env s p entry = .ok p') :
    p'.1.position = p.1.position := by
  unfold planSlidingRoom at h
  obtain ⟨n, -, h⟩ := bind_eq_ok.mp h
  dsimp only at h
  split at h
  · split at h
    · cases h
      rfl
    · cases h
      rfl
  · split at h
    · cases h
      rfl
    · cases h
      rfl

/-- A plan is not in a room yet. -/
theorem makePlan_position {s : Session} {response : SyncInput} {plan : Plan}
    (h : makePlan env s response = .ok plan) : plan.position = none := by
  unfold makePlan at h
  cases response with
  | classic r =>
    cases h
    rfl
  | sliding r =>
    dsimp only at h
    unfold planSliding at h
    obtain ⟨p, hp, h⟩ := bind_eq_ok.mp h
    cases h
    refine foldlM_invariant (P := fun p : Plan × SlidingPlan => p.1.position = none) ?_ hp rfl
    intro entry _ p p' hstep hpos
    exact (planSlidingRoom_position hstep).trans hpos

/-! ## Transactions -/

/-- The ghost of a tail: whether it decrypts the to-device events -/
def Plan.decrypts (plan : Plan) : List Effect := if plan.position = none then [.decrypted] else []

/-- What is committed of a page belongs to the room of the plan; one that is not the last of its room
was asked for within the limit. -/
structure PageOf (env : Env) (plan : Plan) (position : Position) (c : PageCommit) : Prop where
  historyRooms : c.plan.historyRooms = plan.historyRooms
  roomIndex : c.plan.roomIndex = plan.roomIndex
  oldCursor : c.plan.oldCursor = plan.oldCursor
  sliding : c.plan.sliding = plan.sliding
  more : c.done = false → position.pages < env.maxPages ∧
    c.position.pages = position.pages + 1 ∧ c.position.limit = position.limit

/-- What a transaction does that interprets the retained input in the phase `c` -/
inductive Advances (env : Env) (crypto : Crypto) (s : Session) (response : SyncInput)
    (s' : Session) : Continuation → Prop
  /-- The prologue of an input that has rooms to recover -/
  | prologue (flags : Flags) (plan plan' : Plan) (last : Bool) (main : Work)
      (planned : makePlan env s response = .ok plan) (continues : s.continues env = true)
      (candidates : candidates env s response ≠ [])
      (start : nextRoom env plan (Durable.candidates env s response) 0 = .ok (plan', last))
      (run : Interpretation (TimelineOf response) (DeviceItems env crypto response) [.decrypted] [] s
        plan.historyRooms main s')
      (leaves : Continues s (.recover flags { plan' with historyRooms := main.historyRooms }) s') :
      Advances env crypto s response s' (.captured flags)
  /-- An input without a room to recover -/
  | whole (flags : Flags) (plan : Plan) (main : Work)
      (planned : makePlan env s response = .ok plan)
      (nothing : s.continues env = true → candidates env s response = [])
      (run : Interpretation (TimelineOf response) (TailItems env crypto plan response) [.decrypted]
        [.tail, .cursor (nextCursor response)] s plan.historyRooms main s')
      (leaves : Leaves s .prepared (some (nextCursor response)) s') :
      Advances env crypto s response s' (.captured flags)
  | page (flags : Flags) (plan : Plan) (position : Position) (entry : RoomEntry) (c : PageCommit)
      (main : Work) (next : Continuation) (recovers : plan.position = some position)
      (planned : PageOf env plan position c)
      (room : (candidates env s response)[plan.roomIndex]? = some entry)
      (run : Interpretation (TimelineIn entry.roomId) PageItems [.page entry.roomId] [] s
        c.plan.historyRooms main s')
      (leaves : Continues s next s')
      (next : PageNext env flags (candidates env s response) c main.historyRooms next) :
      Advances env crypto s response s' (.recover flags plan)
  /-- The bodies of the page are smaller from here on. -/
  | smaller (flags : Flags) (plan : Plan) (position : Position)
      (recovers : plan.position = some position) (limit : 1 < position.limit)
      (same : s' = s.saveContinuation (.recover flags { plan with
        position := some { position with limit := max 1 (position.limit / 2) } })) :
      Advances env crypto s response s' (.recover flags plan)
  | tail (flags : Flags) (plan : Plan) (main : Work)
      (run : Interpretation (TimelineOf response) (TailItems env crypto plan response) plan.decrypts
        [.tail, .cursor (nextCursor response)] s plan.historyRooms main s')
      (leaves : Leaves s .prepared (some (nextCursor response)) s') :
      Advances env crypto s response s' (.tail flags plan)

theorem tailStart_effects (plan : Plan) (w : Work) :
    tailStart plan w = w.effects plan.decrypts := by
  unfold tailStart tailDecrypts Work.effects Plan.decrypts
  split
  · rfl
  · simp

/-- A tail after the losses of its input -/
theorem tail_interpretation {crypto : Crypto} {flags : Flags} {plan : Plan} {s : Session}
    {historyRooms : List Str} {first : Processor} {w w' : Work} {response : SyncInput}
    (hrecords : first.records = []) (hlosses : Losses ⟨s, historyRooms, first⟩ w)
    (h : tail env crypto flags plan w response = .ok w') :
    ∃ main, Interpretation (TimelineOf response) (TailItems env crypto plan response) plan.decrypts
        [.tail, .cursor (nextCursor response)] s historyRooms main w'.session ∧
      Leaves s .prepared (some (nextCursor response)) w'.session := by
  obtain ⟨processor, items, main, settled, hsource, hchanges, hconsumes, hsettles, hidle, hclosed,
    hinput, hposition⟩ := tail_run h
  obtain ⟨explicit, hprocessor⟩ := hsource.starts
  have hchanges := Changes.congr (timelineOf_clearToDevice plan response) hchanges
  rw [tailStart_effects] at hchanges hconsumes
  obtain ⟨es, hframe, -⟩ := Changes.frame hchanges
  obtain ⟨es', hframe', -⟩ := Changes.frame hsettles
  obtain ⟨es₀, hlosses', -⟩ := hlosses.changes.frame
  refine ⟨settled, ⟨first, processor, w, hrecords, hlosses, hprocessor ▸ rfl, hprocessor ▸ rfl,
    main, hchanges, hsettles, hidle.records, hclosed, items, hsource, hconsumes⟩, ?_, hposition⟩
  rw [hinput, hframe'.input, hframe.input]
  exact congrArg (Option.map fun p => (p.1, Continuation.prepared)) hlosses'.input

/-- The prologue -/
theorem prologue_advances {crypto : Crypto} {flags : Flags} {plan : Plan} {s s' : Session}
    {response : SyncInput} (hplan : makePlan env s response = .ok plan)
    (hcontinues : s.continues env = true) (hrooms : candidates env s response ≠ [])
    (h : prologue env crypto flags plan s response = .ok s') :
    Advances env crypto s response s' (.captured flags) := by
  unfold prologue at h
  obtain ⟨⟨plan', last⟩, hnext, h⟩ := bind_eq_ok.mp h
  obtain ⟨moves, hmoves, h⟩ := bind_eq_ok.mp h
  obtain ⟨w₁, hrun, h⟩ := bind_eq_ok.mp h
  obtain ⟨w₂, hlosses, h⟩ := bind_eq_ok.mp h
  cases h
  have hN : ∀ record : SyncRecord, record.kind ≠ .timeline → TimelineOf response record :=
    fun record hk hk' => absurd hk' hk
  obtain ⟨hc₁, hrec₁⟩ := @runMoves_changes (TimelineOf response) env
    ⟨s.effect .decrypted, plan'.historyRooms, .new []⟩ w₁ moves rfl
    (allowed_iterToDevice hN hmoves) hrun
  have hconsumes := @runMoves_consumes env ⟨s.effect .decrypted, plan'.historyRooms, .new []⟩ w₁ moves
    rfl rfl hrun
  rw [itemsOf_iterToDevice hmoves] at hconsumes
  have hl := unknownLosses_losses hrec₁ hlosses
  obtain ⟨es₁, hframe₁, -⟩ := Changes.frame hc₁
  obtain ⟨es₂, hframe₂, -⟩ := Changes.frame hl.changes
  have hframe := hframe₁.trans hframe₂
  have hrec₂ : w₂.processor.records = [] := hl.processor ▸ hrec₁
  have hhistory : plan'.historyRooms = plan.historyRooms := by
    unfold nextRoom at hnext
    obtain ⟨start, -, hnext⟩ := bind_eq_ok.mp hnext
    cases hnext
    rfl
  rw [hhistory] at hc₁ hconsumes
  refine .prologue flags plan plan' last w₂ hplan hcontinues hrooms hnext
    ⟨.new [], .new [], _, rfl, .refl _, rfl, rfl, w₁, hc₁, hl.changes, hrec₂,
      closed_saveContinuation w₂ _, rfl, hconsumes⟩ ?_
  exact continues_saveContinuation _ hframe.input hframe.cursor hframe.baselines hframe.checkpoints

theorem prepare_advances {crypto : Crypto} {s s' : Session} {response : SyncInput}
    {c : Continuation} (hc : (∃ flags, c = .captured flags) ∨ ∃ flags plan, c = .tail flags plan)
    (h : prepare env crypto s response c = .ok s') : Advances env crypto s response s' c := by
  rcases hc with ⟨flags, rfl⟩ | ⟨flags, plan, rfl⟩
  · unfold prepare at h
    obtain ⟨plan, hplan, h⟩ := bind_eq_ok.mp h
    split at h
    · next hrooms => exact prologue_advances hplan hrooms.1 hrooms.2 h
    · next hnothing =>
      unfold prepareAll at h
      obtain ⟨w, hlosses, h⟩ := bind_eq_ok.mp h
      obtain ⟨w', htail, h⟩ := bind_eq_ok.mp h
      cases h
      have hl := @initialLosses_losses env plan ⟨s, plan.historyRooms, .new []⟩ w rfl hlosses
      obtain ⟨main, hrun, hleaves⟩ := tail_interpretation rfl hl htail
      unfold Plan.decrypts at hrun
      rw [if_pos (makePlan_position hplan)] at hrun
      refine .whole flags plan main hplan (fun hcontinues => ?_) hrun hleaves
      exact Decidable.not_not.mp fun hrooms => hnothing ⟨hcontinues, hrooms⟩
  · unfold prepare at h
    obtain ⟨w', htail, h⟩ := bind_eq_ok.mp h
    cases h
    obtain ⟨main, hrun, hleaves⟩ := @tail_interpretation env crypto flags plan s plan.historyRooms
      (.new []) ⟨s, plan.historyRooms, .new []⟩ w' response rfl (.refl _) htail
    exact .tail flags plan main hrun hleaves

theorem pageOf_finish (plan : Plan) (position : Position) (reason : Option String) :
    PageOf env plan position (.finish plan position reason) :=
  ⟨rfl, rfl, rfl, rfl, fun h => nomatch h⟩

theorem pageOf_planPage {flags : Flags} {plan : Plan} {position : Position} {entry : RoomEntry}
    {page : Page} {c : PageCommit} (hpages : position.pages < env.maxPages)
    (h : planPage env flags plan position entry page = .ok c) : PageOf env plan position c := by
  unfold planPage at h
  dsimp only at h
  obtain ⟨size, -, h⟩ := bind_eq_ok.mp h
  split at h
  · cases h
    exact ⟨rfl, rfl, rfl, rfl, fun h => nomatch h⟩
  · cases h
    exact ⟨rfl, rfl, rfl, rfl, fun _ => ⟨hpages, rfl, rfl⟩⟩

/-- A page is only asked for within the limit. -/
theorem pages_of_request {plan : Plan} {position : Position} {entry : RoomEntry}
    (h : pageStep env plan position entry = .request) : position.pages < env.maxPages := by
  unfold pageStep at h
  split at h
  · cases h
  · split at h
    · cases h
    · split at h
      · cases h
      · split at h
        · cases h
        · next hpages => exact Nat.not_le.mp hpages

theorem advance_advances {crypto : Crypto} {flags : Flags} {plan : Plan} {position : Position}
    {s s' : Session} {response : SyncInput} {answer : Answer}
    (hposition : plan.position = some position)
    (h : advance env crypto flags plan position s response answer = .ok s') :
    Advances env crypto s response s' (.recover flags plan) := by
  unfold advance at h
  dsimp only at h
  cases hroom : (candidates env s response)[plan.roomIndex]? with
  | none =>
    rw [hroom] at h
    cases h
  | some entry =>
    rw [hroom] at h
    dsimp only at h
    have hpage : ∀ c : PageCommit, PageOf env plan position c →
        commitPage env crypto flags s (candidates env s response) entry c = .ok s' →
        Advances env crypto s response s' (.recover flags plan) := by
      intro c hof hc
      obtain ⟨main, next, hrun, hleaves, hnext⟩ := commitPage_run hc
      exact .page flags plan position entry c main next hposition hof hroom hrun hleaves hnext
    split at h
    · exact hpage _ (pageOf_finish plan position _) h
    · next hrequest =>
      split at h
      · cases h
      · split at h
        · next hlimit =>
          cases h
          exact .smaller flags plan position hposition hlimit rfl
        · exact hpage _ (pageOf_finish plan position _) h
      · exact hpage _ (pageOf_finish plan position _) h
      · obtain ⟨c, hc, h⟩ := bind_eq_ok.mp h
        exact hpage c (pageOf_planPage (pages_of_request hrequest) hc) h

end Nio.Durable
