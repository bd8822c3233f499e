import Nio.Durable.Termination

/-!
# The chain of own memberships

The changes of the own membership that the records of a room carry are links of one chain, and the
row of the room is where the chain ends. The exception is a change without a record: the identity of
its event was applied by a recovered page already, and the event still changed the membership.

* `chained_changes` — the changes of a transaction extend the chain
* `membership_chain` — the chain of every room in every run without such an exception
-/

namespace Nio.Durable

open Nio.Py
open Nio.Lib
open Relation (ReflTransGen)

variable {env : Env}

/-! ## Chains -/

/-- The change leads on from a membership, as far as it is a join, and from its epoch. -/
structure Follows (tenure : Option Membership × Nat) (c : OwnMembership) : Prop where
  previous : c.previous = some .join ↔ tenure.1 = some .join
  previousEpoch : c.previousEpoch = tenure.2
  currentEpoch : c.currentEpoch =
    c.previousEpoch + if c.previous = some .join ∧ c.current ≠ .join then 1 else 0

/-- Each change leads on from the one before it, and the last one to the tenure. -/
inductive Chain (start : Option Membership × Nat) :
    List OwnMembership → Option Membership × Nat → Prop
  | nil : Chain start [] start
  | snoc (cs : List OwnMembership) (tenure : Option Membership × Nat) (c : OwnMembership)
      (chain : Chain start cs tenure) (follows : Follows tenure c) :
      Chain start (cs ++ [c]) (some c.current, c.currentEpoch)

/-- The change that a record carries for a room -/
def SyncRecord.carried (r : Str) (record : SyncRecord) : Option OwnMembership :=
  if record.roomId = some r then record.membership else none

/-- The changes that the records carry for a room, in order -/
def carried (r : Str) (records : List SyncRecord) : List OwnMembership :=
  records.filterMap (SyncRecord.carried r)

theorem carried_concat (r : Str) (records : List SyncRecord) (record : SyncRecord) :
    carried r (records ++ [record]) =
      carried r records ++ (record.carried r).toList := by
  unfold carried
  rw [List.filterMap_append]
  cases h : record.carried r with
  | none => simp [h]
  | some c => simp [h]

/-- The chain of each room leads to its tenure. -/
def Chained (records : List SyncRecord) (tenure : Str → Option Membership × Nat) : Prop :=
  ∀ r, Chain (none, 0) (carried r records) (tenure r)

theorem Chained.quiet {records : List SyncRecord} {tenure tenure' : Str → Option Membership × Nat}
    (h : Chained records tenure) (ht : ∀ r, tenure' r = tenure r) : Chained records tenure' :=
  fun r => (ht r).symm ▸ h r

/-- A record that carries no change -/
theorem Chained.record {records : List SyncRecord} {tenure : Str → Option Membership × Nat}
    (h : Chained records tenure) {record : SyncRecord} (hm : record.membership = none) :
    Chained (records ++ [record]) tenure := by
  intro r
  have hnone : record.carried r = none := by
    unfold SyncRecord.carried
    split
    · exact hm
    · rfl
  rw [carried_concat, hnone, Option.toList_none, List.append_nil]
  exact h r

/-- A record that carries the next change of its room -/
theorem Chained.carried {records : List SyncRecord} {tenure : Str → Option Membership × Nat}
    (h : Chained records tenure) {record : SyncRecord} {r : Str} {c : OwnMembership}
    (hr : record.roomId = some r) (hm : record.membership = some c) (hf : Follows (tenure r) c) :
    Chained (records ++ [record])
      fun r' => if r' = r then (some c.current, c.currentEpoch) else tenure r' := by
  intro r'
  dsimp only
  rw [carried_concat]
  unfold SyncRecord.carried
  by_cases heq : r' = r
  · subst heq
    rw [if_pos hr, hm, if_pos rfl]
    exact .snoc _ _ c (h r') hf
  · rw [if_neg fun hr' => heq (Option.some.inj (hr'.symm.trans hr)), if_neg heq]
    simpa using h r'

/-! ## Transactions -/

theorem follows_of_leads {s : Session} {r : Str} {c : OwnMembership} (h : s.Leads r c) :
    Follows (s.tenure r) c :=
  ⟨by rw [h.previous]; rfl, h.previousEpoch, h.currentEpoch⟩

/-- One change extends the chain of its room, unless it is dropped. -/
theorem chained_change {K : SyncRecord → Prop} {w w' : Work} (h : Change K w w')
    (hkept : Undropped w'.session.effects) (hw : Chained w.log w.session.tenure) :
    Chained w'.log w'.session.tenure := by
  cases h with
  | quiet still =>
    rw [still.log]
    exact hw.quiet still.tenure
  | record record frame log tenure intent recorded membership =>
    rw [log]
    exact (hw.record membership).quiet tenure
  | carried r c record frame log leads tenure intent recorded membership roomId entered fenced =>
    rw [log]
    exact (hw.carried roomId membership (follows_of_leads leads)).quiet tenure
  | dropped r c frame log leads tenure intent entered fenced =>
    refine absurd ?_ (hkept r c)
    rw [frame.effects]
    exact List.mem_append_right _ List.mem_cons_self
  | observe intent frame log tenure before unobserved after =>
    rw [log]
    exact hw.quiet tenure

theorem Change.effects_subset {K : SyncRecord → Prop} {w w' : Work} (h : Change K w w') :
    w.session.effects ⊆ w'.session.effects := by
  obtain ⟨es, hframe, -⟩ := h.frame
  rw [hframe.effects]
  exact List.subset_append_left _ _

/-- The changes of a transaction extend the chains, if none of them is dropped. -/
theorem chained_changes {K : SyncRecord → Prop} {w w' : Work} (h : Changes K w w')
    (hkept : Undropped w'.session.effects) (hw : Chained w.log w.session.tenure) :
    Chained w'.log w'.session.tenure := by
  induction h with
  | refl => exact hw
  | tail _ hstep ih =>
    have hkept' : Undropped _ := fun r c hm => hkept r c (hstep.effects_subset hm)
    exact chained_change hstep hkept (ih hkept')

/-- A tenure that changes belongs to a room that the transaction saves. -/
theorem tenure_changes {K : SyncRecord → Prop} {w w' : Work} (h : Changes K w w') (r : Str) :
    r ∈ w'.processor.rooms ∨ w'.session.tenure r = w.session.tenure r := by
  induction h with
  | refl => exact Or.inr rfl
  | tail _ hstep ih =>
    obtain ⟨es, hframe, -⟩ := hstep.frame
    have hrooms := @hframe.rooms r
    have hafter : ∀ {w₁ w₂ : Work} {r' : Str} {c : OwnMembership}, r' ∈ w₂.processor.rooms →
        (∀ r, w₂.session.tenure r = w₁.session.tenureAfter r' c r) →
        r ∈ w₂.processor.rooms ∨ w₂.session.tenure r = w₁.session.tenure r := by
      intro w₁ w₂ r' c hentered ht
      by_cases heq : r = r'
      · exact Or.inl (heq ▸ hentered)
      · refine Or.inr ((ht r).trans ?_)
        unfold Session.tenureAfter
        rw [if_neg heq]
    have hone : r ∈ _ ∨ _ := match hstep with
      | .quiet still => Or.inr (still.tenure r)
      | .record _ _ _ tenure _ _ _ => Or.inr (tenure r)
      | .carried _ _ _ _ _ _ tenure _ _ _ _ entered _ => hafter entered tenure
      | .dropped _ _ _ _ _ tenure _ entered _ _ _ => hafter entered tenure
      | .observe _ _ _ tenure _ _ _ => Or.inr (tenure r)
    rcases hone with hin | heq
    · exact Or.inl hin
    · rcases ih with hin | heq'
      · exact Or.inl (hrooms hin)
      · exact Or.inr (heq.trans heq')

/-- The memberships in memory are those of the rows, and the chains of the records lead to them. -/
structure Tenured (s : Session) : Prop where
  rows : ∀ r, s.disk.tenure r = s.tenure r
  chained : Chained s.disk.published s.tenure

theorem tenured_fresh (cursor : Option Str) : Tenured (.fresh cursor) :=
  ⟨fun _ => rfl, fun _ => .nil⟩

theorem tenured_interpretation {K : SyncRecord → Prop} {S : Work → Work → Prop}
    {pre post : List Effect} {s s' : Session} {historyRooms : List Str} {main : Work}
    (h : Interpretation K S pre post s historyRooms main s') (hkept : Undropped s'.effects)
    (hs : Tenured s) : Tenured s' := by
  obtain ⟨first, processor, w, hrecords, hlosses, hprec, hprooms, items, hitems, hsettles, hmrec,
    hclosed, -⟩ := h
  have hkept' : Undropped main.session.effects := by
    intro r c hm
    refine hkept r c ?_
    rw [hclosed.effects]
    exact List.mem_append_left _ hm
  obtain ⟨es, hframe, -⟩ := Changes.frame hitems
  obtain ⟨es₁, hframe₁, -⟩ := Changes.frame hsettles
  obtain ⟨es₀, hframe₀, -⟩ := Changes.frame hlosses.changes
  have hitemsKept : Undropped items.session.effects := by
    intro r c hm
    refine hkept' r c ?_
    rw [hframe₁.effects]
    exact List.mem_append_left _ hm
  -- the losses come first, and carry nothing
  have hlossKept : Undropped w.session.effects := by
    intro r c hm
    refine hitemsKept r c ?_
    rw [hframe.effects]
    exact List.mem_append_left _ (List.mem_append_left _ hm)
  have hfirst : Chained (Work.log ⟨s, historyRooms, first⟩) s.tenure := by
    unfold Work.log
    rw [hrecords, List.append_nil]
    exact hs.chained
  have hw := chained_changes hlosses.changes hlossKept hfirst
  have hwlog : Work.log { w.effects pre with processor } = w.log := by
    unfold Work.log Work.effects
    rw [hprec, show w.processor.records = [] from hlosses.processor ▸ hrecords]
  have hmain := chained_changes hsettles hkept' (chained_changes hitems hitemsKept (hwlog ▸ hw))
  have hpublished : s'.disk.published = main.log := by
    unfold Work.log Disk.published
    rw [hclosed.batches, hmrec, List.append_nil]
  have htenure : s'.tenure = main.session.tenure := funext hclosed.tenure
  refine ⟨fun r => ?_, ?_⟩
  · rw [hclosed.rows r, htenure]
    split
    · rfl
    · next hout =>
      have hsame := (tenure_changes hsettles r).resolve_left hout
      have hsame' := (tenure_changes hitems r).resolve_left fun hin => hout (hframe₁.rooms hin)
      have hrow : main.session.disk.tenure r = s.disk.tenure r := by
        unfold Disk.tenure Disk.metadata
        rw [hframe₁.rows.trans (hframe.rows.trans hframe₀.rows)]
      rw [hrow, hs.rows r, hsame, hsame']
      exact (hlosses.tenure r).symm
  · rw [hpublished, htenure]
    exact hmain

/-! ## Runs -/

theorem Tenured.same {s s' : Session} (h : Tenured s) (hb : s'.disk.batches = s.disk.batches)
    (hr : s'.disk.rooms = s.disk.rooms) (hm : s'.metadata = s.metadata) : Tenured s' := by
  have hd : ∀ r, s'.disk.tenure r = s.disk.tenure r := by
    intro r
    unfold Disk.tenure Disk.metadata
    rw [hr]
  have ht : ∀ r, s'.tenure r = s.tenure r := by
    intro r
    unfold Session.tenure Session.getMetadata
    rw [hm]
  have hp : s'.disk.published = s.disk.published := by
    unfold Disk.published
    rw [hb]
  exact ⟨fun r => (hd r).trans ((h.rows r).trans (ht r).symm), hp ▸ h.chained.quiet ht⟩

theorem tenured_advances {s s' : Session} {c : Continuation} {response : SyncInput}
    {crypto : Crypto} (hrun : Advances env crypto (s.withResponse response) response s' c)
    (hkept : Undropped s'.effects)
    (hs : Tenured s) : Tenured s'.commit := by
  have hs' : Tenured (s.withResponse response) := hs.same rfl rfl rfl
  have hcommit : Tenured s' → Tenured s'.commit := fun h => h.same rfl rfl rfl
  cases hrun with
  | prologue _ _ _ _ _ _ _ _ _ run _ => exact hcommit (tenured_interpretation run hkept hs')
  | whole _ _ _ _ _ run _ => exact hcommit (tenured_interpretation run hkept hs')
  | page _ _ _ _ _ _ _ _ _ _ run _ _ => exact hcommit (tenured_interpretation run hkept hs')
  | smaller _ _ _ _ _ same =>
    subst same
    exact hcommit (hs'.same rfl rfl rfl)
  | tail _ _ _ run _ => exact hcommit (tenured_interpretation run hkept hs')

/-- The position that a local operation needs is that of its room. -/
theorem follows_localChange {s : Session} {intent : Intent}
    (h : s.localPositionMatches intent = true) :
    Follows (s.tenure intent.roomId) (Session.localChange intent) := by
  unfold Session.localPositionMatches at h
  obtain ⟨hjoined, hepoch⟩ := Bool.and_eq_true_iff.mp h
  have hjoined := of_decide_eq_true hjoined
  have hepoch := of_decide_eq_true hepoch
  refine ⟨?_, hepoch.symm, ?_⟩
  · unfold Session.localChange Session.tenure
    unfold Metadata.joined at hjoined
    cases hp : intent.previousMembership with
    | join => simpa [hp, LocalMembership.membership] using hjoined
    | leave => simpa [hp, LocalMembership.membership] using hjoined
  · unfold Session.localChange
    cases intent.previousMembership with
    | join => cases intent.currentMembership <;> simp [LocalMembership.membership]
    | leave => cases intent.currentMembership <;> simp [LocalMembership.membership]

theorem tenured_step {s : Session} {action : Action} (hretained : Retained env s)
    (hkeeps : KeepsChanges env s action) (hs : Tenured s) : Tenured (step env s action) := by
  have hkept := fun es => @undropped_step env s hretained action hkeeps es
  generalize hs' : step env s action = s' at *
  have hstep := hs' ▸ step_cases s action
  cases hstep with
  | idle _ same response =>
    rw [same]
    exact hs.same rfl rfl rfl
  | capture body flags response sections decoded free => exact hs.same rfl rfl rfl
  | interpret body c response s' input current run =>
    refine tenured_advances run (hkept s'.effects ?_) hs
    have hhistory : s'.disk.history = s.disk.history := run.history
    change s'.disk.history ++ [s'.effects] = _
    rw [hhistory]
  | finish body s' input acked run =>
    unfold Session.publish at run
    obtain ⟨size, -, run⟩ := bind_eq_ok.mp run
    cases run
    refine ⟨hs.rows, ?_⟩
    have hpublished : (s.ended.storeBatch [] true size).commit.disk.published = s.disk.published := by
      change (s.disk.batches ++ [(⟨[], true, size⟩ : Batch)]).flatMap Batch.records = _
      rw [List.flatMap_append]
      exact List.append_nil _
    rw [hpublished]
    exact hs.chained
  | ack pending => exact hs.same rfl rfl rfl
  | intent intent step => exact hs.same rfl rfl rfl
  | apply intent s' stored sequence free position run =>
    obtain ⟨⟨size, hshape⟩, -, htenure, hrows⟩ := applied_applyLocal run
    have hpublished : s'.commit.disk.published = s.disk.published ++
        [lifecycleRecord intent.roomId (Session.localChange intent)] := by
      change s'.disk.batches.flatMap (·.records) = _
      rw [hshape]
      simp [Disk.published]
    have ht : s'.commit.tenure = s.tenureAfter intent.roomId (Session.localChange intent) :=
      funext htenure
    refine ⟨fun r => ?_, ?_⟩
    · change s'.disk.tenure r = s'.tenure r
      rw [hrows r]
      split
      · rfl
      · next hne =>
        rw [htenure r]
        unfold Session.tenureAfter
        rw [if_neg hne]
        exact hs.rows r
    · rw [hpublished, ht]
      exact hs.chained.carried rfl rfl (follows_localChange position)
  | reopen isInvited =>
    refine ⟨fun _ => rfl, ?_⟩
    exact hs.chained.quiet fun r => hs.rows r

/-- In every run in which the own membership events that a page has applied already report, when a tail
tells them again, the membership that their room has by then, the changes that the records of a room
carry form one chain, which leads to the row of the room. -/
theorem membership_chain {env : Env} {cursor : Option Str} {actions : List Action}
    (hkeeps : Along (step env) (KeepsChanges env) (.fresh cursor) actions) (r : Str) :
    Chain (none, 0) (carried r (run (step env) (.fresh cursor) actions).disk.published)
      ((run (step env) (.fresh cursor) actions).disk.tenure r) := by
  obtain ⟨-, h⟩ := run_invariant_along (P := fun s => Retained env s ∧ Tenured s)
    (fun _ _ ha hs => ⟨retained_step hs.1 _, tenured_step hs.1 ha hs.2⟩) hkeeps
    ⟨retained_fresh cursor, tenured_fresh cursor⟩
  rw [h.rows r]
  exact h.chained r

/-! ### A membership that comes back -/

/-- A chain leads to its last change. -/
theorem chain_end {start tenure : Option Membership × Nat} {cs : List OwnMembership}
    (h : Chain start cs tenure) :
    tenure = (cs.getLast?.map fun c => (some c.current, c.currentEpoch)).getD start := by
  cases h with
  | nil => rfl
  | snoc cs tenure c chain follows => simp

/-- `KeepsChanges` as a computation -/
def keepsChanges (env : Env) (s : Session) : Action → Bool
  | .prepare crypto true =>
    match s.disk.input with
    | some (body, .tail _ plan) =>
      match decodeResponse env.config env.parsers body with
      | .ok (.classic response, _) =>
        let items := classicItems crypto plan response
        (items.filterMap Item.roomId).all fun r => s.unobserved r ||
          agree env.userId (plan.applied r) (itemsIn r items) (tailReading env s plan response r)
      | _ => true
    | _ => true
  | _ => true

theorem itemsIn_of_not_mem {items : List Item} {r : Str} (h : r ∉ items.filterMap Item.roomId) :
    itemsIn r items = [] := by
  refine List.filter_eq_nil_iff.mpr fun item hitem hr => h ?_
  exact List.mem_filterMap.mpr ⟨item, hitem, by simpa using hr⟩

theorem keepsChanges_sound {s : Session} {action : Action} (h : keepsChanges env s action = true) :
    KeepsChanges env s action := by
  unfold keepsChanges at h
  unfold KeepsChanges
  split
  · next crypto =>
    intro body flags plan response hinput hdecodes r hu
    obtain ⟨sections, hdecodes⟩ := hdecodes
    dsimp only at h
    rw [hinput] at h
    dsimp only at h
    rw [hdecodes] at h
    by_cases hr : r ∈ (classicItems crypto plan response).filterMap Item.roomId
    · have hroom := List.all_eq_true.mp h r hr
      rw [hu, Bool.false_or] at hroom
      exact hroom
    · rw [itemsIn_of_not_mem hr]
      rfl
  · trivial

/-- An event of a room that tells own memberships from everything else -/
def memberEvent (source : Json) : Event :=
  let content := (source.get? (py "content")).getD .null
  match source.get? (py "state_key"), [Membership.join, .leave, .invite, .ban, .knock].find? fun m =>
    getSource content "membership" = .str m.value with
  | some (.str stateKey), some membership =>
    { plainEvent source with cls := .roomMember stateKey membership false }
  | _, _ => plainEvent source

def memberEnv : Env :=
  ⟨py "@a:b", .default .classic, false, { plainParsers with room := fun v => .ok (some (memberEvent v)) }⟩

/-- An own membership event -/
def memberText (eventId membership : String) : String :=
  "\x7b\"type\":\"m.room.member\",\"state_key\":\"@a:b\",\"event_id\":\"" ++ eventId ++
    "\",\"content\":\x7b\"membership\":\"" ++ membership ++ "\"\x7d\x7d"

/-- A response with a gap, in which the state of the room holds an own membership event -/
def stateBody (member : String) : List Nat :=
  asciiBody ("\x7b\"next_batch\":\"s2\",\"rooms\":\x7b\"join\":\x7b\"!r\":\x7b\"state\":\x7b\"events\":[" ++
    member ++
    "]\x7d,\"timeline\":\x7b\"events\":[],\"limited\":true,\"prev_batch\":\"p\"\x7d\x7d\x7d\x7d\x7d")

/-- The own user has left and joined again in the gap. -/
def rejoinPage : Answer :=
  .body (asciiBody ("\x7b\"start\":\"s1\",\"end\":\"p\",\"chunk\":[" ++ memberText "$l" "leave" ++ "," ++
    memberText "$j" "join" ++ "]\x7d"))

def joinActions : List Action :=
  [.capture (roomBody "s1" "\"events\":[]") ⟨true, none⟩ true, .prepare plainCrypto true]

/-- A joined room, a gap with its page, and the tail -/
def stateActions (member : String) : List Action :=
  joinActions ++ [.ack, .finish true, .ack, .capture (stateBody member) ⟨false, none⟩ true,
    .prepare plainCrypto true, .page rejoinPage plainCrypto true, .ack, .ack, .ack, .ack,
    .prepare plainCrypto true]

/-- The state tells the join of the page again. -/
theorem membership_chain_rejoin :
    Chain (none, 0)
      (carried (py "!r") (run (step memberEnv) (.fresh none)
        (stateActions (memberText "$j" "join"))).disk.published)
      ((run (step memberEnv) (.fresh none) (stateActions (memberText "$j" "join"))).disk.tenure
        (py "!r")) :=
  @membership_chain memberEnv none (stateActions (memberText "$j" "join"))
    ⟨trivial, keepsChanges_sound (by decide +kernel), trivial, trivial, trivial, trivial,
      keepsChanges_sound (by decide +kernel), trivial, trivial, trivial, trivial, trivial,
      keepsChanges_sound (by decide +kernel), trivial⟩ _

/-- The page publishes the leave and the join. The leave in the state is suppressed as applied, after it
has changed the membership again: the row says `leave`, and the last record `join`. -/
theorem stale_leave_unpublished :
    ¬ Chain (none, 0)
      (carried (py "!r") (run (step memberEnv) (.fresh none)
        (stateActions (memberText "$l" "leave"))).disk.published)
      ((run (step memberEnv) (.fresh none) (stateActions (memberText "$l" "leave"))).disk.tenure
        (py "!r")) :=
  fun h => absurd (chain_end h) (by decide +kernel)

end Nio.Durable
