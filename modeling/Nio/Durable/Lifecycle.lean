import Nio.Durable.Records

/-!
# The transactions of an input

The committed transactions of a session, read as the lives of its inputs one after the other. Each
input is captured once, its to-device events are decrypted in one transaction, each page is one
transaction, and one transaction commits the tail together with the position.

* `Opened`, `Completed` — the transactions of an input
* `interpreted_once` — every history is made of these, with at most one input that is open
-/

namespace Nio.Durable

open Nio.Py
open Nio.Lib

variable {env : Env}

/-! ## Histories -/

/-- The effect says where an input is. -/
def Effect.isPhase : Effect → Bool
  | .dropped .. => false
  | _ => true

/-- The transactions that say something about an input -/
def phases (history : List (List Effect)) : List (List Effect) :=
  (history.map (·.filter Effect.isPhase)).filter (· ≠ [])

/-- The position that a history leads to -/
def positionAfter (cursor : Option Str) (history : List (List Effect)) : Option Str :=
  history.flatten.foldl (fun c e => match e with
    | .cursor c' => some c'
    | _ => c) cursor

/-- The transactions of an input that was captured and that is in the phase of its continuation -/
inductive Opened (env : Env) (s : Session) (body : List Nat) (response : SyncInput) :
    Continuation → List (List Effect) → Prop
  | captured (flags : Flags) : Opened env s body response (.captured flags) [[.captured body]]
  | recover (flags : Flags) (plan : Plan) (pages : List Str)
      (behind : ∀ i < plan.roomIndex, ∀ entry, (candidates env s response)[i]? = some entry →
        entry.roomId ∈ pages) :
      Opened env s body response (.recover flags plan)
        ([.captured body] :: [.decrypted] :: pages.map fun r => [.page r])
  /-- Every room that has a gap has committed its pages. -/
  | tail (flags : Flags) (plan : Plan) (pages : List Str)
      (behind : ∀ entry ∈ candidates env s response, entry.roomId ∈ pages) :
      Opened env s body response (.tail flags plan)
        ([.captured body] :: [.decrypted] :: pages.map fun r => [.page r])
  | whole : Opened env s body response .prepared
      [[.captured body], [.decrypted, .tail, .cursor (nextCursor response)]]
  | prepared (pages : List Str) : Opened env s body response .prepared
      (([.captured body] :: [.decrypted] :: pages.map fun r => [.page r]) ++
        [[.tail, .cursor (nextCursor response)]])

/-- The transactions of an input from its capture to its end -/
inductive Completed (env : Env) : List (List Effect) → Prop
  | mk (s : Session) (body : List Nat) (response : SyncInput) (opened : List (List Effect))
      (decoded : Decodes env body response)
      (prepared : Opened env s body response .prepared opened) :
      Completed env (opened ++ [[.finished]])

/-- The history of a session is that of completed inputs and of the retained one. -/
structure Traced (env : Env) (cursor : Option Str) (s : Session) : Prop where
  position : s.disk.cursor = positionAfter cursor s.disk.history
  phases : ∃ (completed : List (List (List Effect))) (opened : List (List Effect)),
    phases s.disk.history = completed.flatten ++ opened ∧
    (∀ input ∈ completed, Completed env input) ∧
    match s.disk.input with
    | none => opened = []
    | some (body, c) => ∃ response, Decodes env body response ∧
        Opened env s body response c opened

/-! ## One transaction -/

/-- The phases of a history are those of its parts. -/
theorem phases_append (h h' : List (List Effect)) : phases (h ++ h') = phases h ++ phases h' := by
  unfold phases
  rw [List.map_append, List.filter_append]

/-- So is the position. -/
theorem positionAfter_append (cursor : Option Str) (h h' : List (List Effect)) :
    positionAfter cursor (h ++ h') = positionAfter (positionAfter cursor h) h' := by
  unfold positionAfter
  rw [List.flatten_append, List.foldl_append]

/-- Dropped events belong to no phase. -/
theorem filter_isPhase_dropped {es : List Effect} (h : ∀ e ∈ es, ∃ r c, e = .dropped r c) :
    es.filter Effect.isPhase = [] := by
  refine List.filter_eq_nil_iff.mpr fun e he => ?_
  obtain ⟨r, c, rfl⟩ := h e he
  simp [Effect.isPhase]

theorem foldl_position_dropped {es : List Effect} (h : ∀ e ∈ es, ∃ r c, e = .dropped r c)
    (cursor : Option Str) : es.foldl (fun c e => match e with
      | .cursor c' => some c'
      | _ => c) cursor = cursor := by
  induction es with
  | nil => rfl
  | cons e es ih =>
    obtain ⟨r, c, rfl⟩ := h e List.mem_cons_self
    exact ih fun e he => h e (List.mem_cons_of_mem _ he)

/-- A transaction that says nothing about the input -/
theorem phases_nil : phases [[]] = [] := rfl

/-- The effects of a transaction without those that are no phase -/
structure Commits (pre post : List Effect) (s s' : Session) : Prop where
  history : s'.disk.history = s.disk.history
  effects : ∃ es, s'.effects = pre ++ es ++ post ∧ ∀ e ∈ es, ∃ r c, e = .dropped r c

/-- An interpretation is committed with its phases around what it drops. -/
theorem Interpreted.commits {pre post : List Effect} {s s' : Session} (h : Interpreted pre post s s')
    (hs : s.effects = []) : Commits pre post s s' := by
  obtain ⟨es, he, hes⟩ := h.effects
  refine ⟨h.history, es, ?_, hes⟩
  rw [he, hs, List.nil_append]

/-- The commit adds its phases to the history, -/
theorem Commits.phases {pre post : List Effect} {s s' : Session} (h : Commits pre post s s')
    (hpre : ∀ e ∈ pre, e.isPhase = true) (hpost : ∀ e ∈ post, e.isPhase = true)
    (hne : pre ++ post ≠ []) :
    phases s'.commit.disk.history = phases s.disk.history ++ [pre ++ post] := by
  obtain ⟨es, he, hes⟩ := h.effects
  change Durable.phases (s'.disk.history ++ [s'.effects]) = _
  rw [phases_append, h.history, he]
  congr 1
  unfold Durable.phases
  rw [List.map_singleton, List.filter_append, List.filter_append, filter_isPhase_dropped hes,
    List.append_nil, List.filter_eq_self.mpr hpre, List.filter_eq_self.mpr hpost,
    List.filter_singleton]
  simp [hne]

/-- and moves the position by their cursor. -/
theorem Commits.position {pre post : List Effect} {s s' : Session} (h : Commits pre post s s')
    (cursor : Option Str) : positionAfter cursor s'.commit.disk.history =
      positionAfter (positionAfter cursor s.disk.history) [pre ++ post] := by
  obtain ⟨es, he, hes⟩ := h.effects
  change positionAfter cursor (s'.disk.history ++ [s'.effects]) = _
  rw [positionAfter_append, h.history, he]
  unfold positionAfter
  simp only [List.flatten_cons, List.flatten_nil, List.append_nil, List.foldl_append]
  rw [foldl_position_dropped hes]

/-! ## One step -/

/-- What was opened depends on the baselines only. -/
theorem Opened.congr {s s' : Session} {body : List Nat} {response : SyncInput} {c : Continuation}
    {opened : List (List Effect)} (hb : s'.baselines = s.baselines)
    (h : Opened env s body response c opened) : Opened env s' body response c opened := by
  have hcandidates : candidates env s' response = candidates env s response :=
    candidates_congr hb response
  cases h with
  | captured flags => exact .captured flags
  | recover flags plan pages behind =>
    exact .recover flags plan pages fun i hi entry he => behind i hi entry (hcandidates ▸ he)
  | tail flags plan pages behind =>
    exact .tail flags plan pages fun entry he => behind entry (hcandidates ▸ he)
  | whole => exact .whole
  | prepared pages => exact .prepared pages

theorem mem_take_succ {α : Type} {xs : List α} {i : Nat} {x y : α} (hx : xs[i]? = some x)
    {j : Nat} (hj : j < i + 1) (hy : xs[j]? = some y) : j < i ∨ y = x := by
  rcases Nat.lt_succ_iff_lt_or_eq.mp hj with h | rfl
  · exact Or.inl h
  · rw [hx] at hy
    exact Or.inr (Option.some.inj hy).symm

/-- A page leads from a recovery to a recovery, or to the tail after the last room. -/
theorem opened_page {s s' : Session} {body : List Nat} {response : SyncInput} {flags : Flags}
    {plan : Plan} {position : Position} {entry : RoomEntry} {c : PageCommit}
    {historyRooms : List Str} {next : Continuation} {opened : List (List Effect)}
    (hb : s'.baselines = s.baselines) (hof : PageOf env plan position c)
    (hroom : (candidates env s response)[plan.roomIndex]? = some entry)
    (hnext : PageNext env flags (candidates env s response) c historyRooms next)
    (h : Opened env s body response (.recover flags plan) opened) :
    Opened env s' body response next (opened ++ [[.page entry.roomId]]) := by
  have hcandidates : candidates env s' response = candidates env s response :=
    candidates_congr hb response
  cases h with
  | recover _ _ pages behind =>
    have hpages : ([.captured body] :: [.decrypted] :: pages.map fun r => [Effect.page r]) ++
        [[.page entry.roomId]] =
        [.captured body] :: [.decrypted] :: (pages ++ [entry.roomId]).map fun r => [.page r] := by
      simp
    -- the room of the page is behind as well
    have hbehind : ∀ i < plan.roomIndex + 1, ∀ entry',
        (candidates env s response)[i]? = some entry' → entry'.roomId ∈ pages ++ [entry.roomId] := by
      intro i hi entry' he
      rcases mem_take_succ hroom hi he with hlt | rfl
      · exact List.mem_append_left _ (behind i hlt entry' he)
      · exact List.mem_append_right _ List.mem_cons_self
    rw [hpages]
    cases hnext with
    | again explicitRooms more =>
      refine .recover _ _ _ fun i hi entry' he => ?_
      have hi : i < c.plan.roomIndex := hi
      rw [hof.roomIndex] at hi
      exact hbehind i (Nat.lt_succ_of_lt hi) entry' (hcandidates ▸ he)
    | room appliedIds explicitRooms plan' last hnext =>
      obtain ⟨start, -, rfl, hlast⟩ := nextRoom_cases hnext
      rw [hof.roomIndex] at hlast
      cases last with
      | false =>
        refine .recover _ _ _ fun i hi entry' he => ?_
        have hi : i < c.plan.roomIndex + 1 := hi
        rw [hof.roomIndex] at hi
        exact hbehind i hi entry' (hcandidates ▸ he)
      | true =>
        refine .tail _ _ _ fun entry' he => ?_
        rw [hcandidates] at he
        obtain ⟨i, hi, hget⟩ := List.getElem_of_mem he
        have hlength := of_decide_eq_true hlast.symm
        exact hbehind i (by omega) entry' (by rw [List.getElem?_eq_getElem hi, hget])

/-- A step that says nothing about the input; the baselines matter only while there is one. -/
theorem Traced.same {cursor : Option Str} {s s' : Session} (h : Traced env cursor s)
    (hcursor : s'.disk.cursor = s.disk.cursor) (hinput : s'.disk.input = s.disk.input)
    (hbaselines : s.disk.input ≠ none → s'.baselines = s.baselines)
    (hhistory : s'.disk.history = s.disk.history ∨ s'.disk.history = s.disk.history ++ [[]]) :
    Traced env cursor s' := by
  have hphases : Durable.phases s'.disk.history = Durable.phases s.disk.history := by
    rcases hhistory with hh | hh
    · rw [hh]
    · rw [hh, phases_append, phases_nil, List.append_nil]
  obtain ⟨completed, opened, heq, hcompleted, hopened⟩ := h.phases
  refine ⟨?_, completed, opened, hphases.trans heq, hcompleted, ?_⟩
  · rw [hcursor, h.position]
    rcases hhistory with hh | hh
    · rw [hh]
    · rw [hh, positionAfter_append]
      rfl
  · rw [hinput]
    cases hin : s.disk.input with
    | none =>
      rw [hin] at hopened
      exact hopened
    | some p =>
      rw [hin] at hopened
      obtain ⟨response, hdecodes, hopen⟩ := hopened
      exact ⟨response, hdecodes, hopen.congr (hbaselines (hin ▸ Option.some_ne_none p))⟩

/-- A smaller page is asked for at the same place. -/
theorem Traced.smaller {cursor : Option Str} {s s' : Session} {body : List Nat} {flags : Flags}
    {plan : Plan} {position : Option Position} (h : Traced env cursor s)
    (hinput : s.disk.input = some (body, .recover flags plan))
    (hcursor : s'.disk.cursor = s.disk.cursor)
    (hnext : s'.disk.input = some (body, .recover flags { plan with position }))
    (hbaselines : s'.baselines = s.baselines)
    (hhistory : s'.disk.history = s.disk.history ++ [[]]) : Traced env cursor s' := by
  obtain ⟨completed, opened, heq, hcompleted, hopen⟩ := h.phases
  rw [hinput] at hopen
  obtain ⟨response, hdecodes, hopen⟩ := hopen
  refine ⟨?_, completed, opened, ?_, hcompleted, ?_⟩
  · rw [hcursor, hhistory, positionAfter_append, ← h.position]
    rfl
  · rw [hhistory, phases_append, phases_nil, List.append_nil, heq]
  · rw [hnext]
    refine ⟨response, hdecodes, ?_⟩
    cases hopen.congr hbaselines with
    | recover _ _ pages behind => exact .recover _ _ pages behind

/-- A transaction that goes on with the retained input -/
theorem Traced.continued {cursor : Option Str} {s s' : Session} {body : List Nat}
    {c next : Continuation} {response : SyncInput} {pre post : List Effect}
    (h : Traced env cursor s) (hinput : s.disk.input = some (body, c))
    (hdecodes : Decodes env body response) (hcommits : Commits pre post s s')
    (hpre : ∀ e ∈ pre, e.isPhase = true) (hpost : ∀ e ∈ post, e.isPhase = true)
    (hne : pre ++ post ≠ []) (hnext : s'.disk.input = some (body, next))
    (hposition : s'.disk.cursor = positionAfter s.disk.cursor [pre ++ post])
    (hopened : ∀ opened, Opened env s body response c opened →
      Opened env s' body response next (opened ++ [pre ++ post])) :
    Traced env cursor s'.commit := by
  obtain ⟨completed, opened, heq, hcompleted, hopen⟩ := h.phases
  rw [hinput] at hopen
  obtain ⟨response', hdecodes', hopen⟩ := hopen
  obtain rfl := hdecodes.unique hdecodes'
  refine ⟨?_, completed, opened ++ [pre ++ post], ?_, hcompleted, ?_⟩
  · rw [hcommits.position, ← h.position]
    exact hposition
  · rw [hcommits.phases hpre hpost hne, heq, List.append_assoc]
  · change match s'.disk.input with
      | none => _
      | some (body, c) => ∃ response, Decodes env body response ∧ Opened env s'.commit body response c _
    rw [hnext]
    exact ⟨response, hdecodes, @Opened.congr env s' s'.commit _ _ _ _ rfl (hopened opened hopen)⟩

/-- A plan that has a position decrypts nothing any more. -/
theorem decrypts_of_position {plan : Plan} (h : plan.position ≠ none) : plan.decrypts = [] := by
  unfold Plan.decrypts
  rw [if_neg h]

/-- An advance of the input is traced by what it commits. -/
theorem traced_advances {cursor : Option Str} {s s' : Session} {body : List Nat} {c : Continuation}
    {response : SyncInput} (hretained : Retained env s) (h : Traced env cursor s)
    (hinput : s.disk.input = some (body, c)) (hcurrent : s.currentResponse env = some response)
    {crypto : Crypto} (hrun : Advances env crypto (s.withResponse response) response s' c) :
    Traced env cursor s'.commit := by
  have hdecodes := hretained.current hinput hcurrent
  have hleaves : ∀ {next : Continuation} {position : Option Str},
      Leaves (s.withResponse response) next position s' → s'.disk.input = some (body, next) := by
    intro next position hl
    rw [hl.input]
    change s.disk.input.map _ = _
    rw [hinput]
    rfl
  have heffects : (s.withResponse response).effects = [] := hretained.effects
  have hcommits : ∀ {pre post : List Effect}, Interpreted pre post (s.withResponse response) s' →
      Commits pre post s s' := fun ho => ⟨(ho.commits heffects).history, (ho.commits heffects).effects⟩
  cases hrun with
  | prologue flags plan plan' last main hplan hcontinues hrooms hstart hrun hl =>
    refine h.continued hinput hdecodes (hcommits hrun.interpreted) (by simp [Effect.isPhase]) (by simp)
      (by simp) (hleaves hl.toLeaves) hl.position fun opened hopen => ?_
    cases hopen with
    | captured _ =>
      -- no room lies behind the first one
      obtain ⟨start, -, rfl, -⟩ := nextRoom_cases hstart
      refine .recover _ _ [] fun i hi => ?_
      exact absurd hi (Nat.not_lt_zero i)
  | whole flags plan main hplan hnothing hrun hl =>
    refine h.continued hinput hdecodes (hcommits hrun.interpreted) (by simp [Effect.isPhase])
      (by simp [Effect.isPhase]) (by simp) (hleaves hl) hl.position fun opened hopen => ?_
    cases hopen with
    | captured _ => exact .whole
  | page flags plan position entry c main next hposition hof hroom hrun hl hnext =>
    refine h.continued hinput hdecodes (hcommits hrun.interpreted) (by simp [Effect.isPhase]) (by simp)
      (by simp) (hleaves hl.toLeaves) hl.position fun opened hopen => ?_
    have hb : s'.baselines = s.baselines := hl.baselines
    exact opened_page hb hof hroom hnext hopen
  | smaller flags plan position hposition hlimit hsame =>
    subst hsame
    refine @Traced.smaller env cursor s _ body flags plan
      (some { position with limit := max 1 (position.limit / 2) }) h hinput rfl ?_ rfl ?_
    · change s.disk.input.map _ = _
      rw [hinput]
      rfl
    · change s.disk.history ++ [s.effects] = _
      rw [hretained.effects]
  | tail flags plan main hrun hl =>
    obtain ⟨response', hdecodes', hfits⟩ := hretained.input body _ hinput
    rw [decrypts_of_position hfits] at hrun
    refine h.continued hinput hdecodes (hcommits hrun.interpreted) (by simp)
      (by simp [Effect.isPhase]) (by simp) (hleaves hl) hl.position fun opened hopen => ?_
    cases hopen with
    | tail _ _ pages behind => exact .prepared pages

/-- Every action keeps the trace, -/
theorem traced_step {cursor : Option Str} {s : Session} (hretained : Retained env s)
    (h : Traced env cursor s) (action : Action) : Traced env cursor (step env s action) := by
  generalize hs' : step env s action = s'
  have hstep := hs' ▸ step_cases s action
  cases hstep with
  | idle _ same response =>
    rw [same]
    exact h.same rfl rfl (fun _ => rfl) (Or.inl rfl)
  | capture body flags response sections decoded free =>
    obtain ⟨completed, opened, heq, hcompleted, hopen⟩ := h.phases
    rw [free] at hopen
    have hhistory : (s.captured body flags response).commit.disk.history =
        s.disk.history ++ [[.captured body]] := by
      change s.disk.history ++ [s.effects ++ [.captured body]] = _
      rw [hretained.effects]
      rfl
    refine ⟨?_, completed, [[.captured body]], ?_, hcompleted, response, ⟨sections, decoded⟩,
      .captured flags⟩
    · rw [hhistory, positionAfter_append, ← h.position]
      rfl
    · rw [hhistory, phases_append, heq, hopen, List.append_nil]
      rfl
  | interpret body c response s' input current run => exact traced_advances hretained h input current run
  | finish body s' input acked run =>
    unfold Session.publish at run
    obtain ⟨size, -, run⟩ := bind_eq_ok.mp run
    cases run
    -- the transactions of the input are complete with the one that ends it
    obtain ⟨completed, opened, heq, hcompleted, hopen⟩ := h.phases
    rw [input] at hopen
    obtain ⟨response, hdecodes, hopen⟩ := hopen
    have hhistory : (s.ended.storeBatch [] true size).commit.disk.history =
        s.disk.history ++ [[.finished]] := by
      change s.disk.history ++ [s.effects ++ [.finished]] = _
      rw [hretained.effects]
      rfl
    refine ⟨?_, completed ++ [opened ++ [[.finished]]], [], ?_, ?_, rfl⟩
    · rw [hhistory, positionAfter_append, ← h.position]
      rfl
    · rw [hhistory, phases_append, heq]
      simp [phases, Effect.isPhase]
    · intro input hinput
      rcases List.mem_append.mp hinput with hin | hin
      · exact hcompleted input hin
      · rw [List.mem_singleton.mp hin]
        exact .mk s body response opened hdecodes hopen
  | ack pending => exact h.same rfl rfl (fun _ => rfl) (Or.inl rfl)
  | intent intent step =>
    refine h.same rfl rfl (fun _ => rfl) (Or.inr ?_)
    change s.disk.history ++ [s.effects] = _
    rw [hretained.effects]
  | apply intent s' stored sequence free position run =>
    obtain ⟨⟨size, hshape⟩, -, -, -⟩ := applied_applyLocal run
    -- a local operation changes baselines, but it waits until there is no input
    refine h.same ?_ ?_ (fun hinput => absurd free hinput) (Or.inr ?_)
    · change s'.disk.cursor = _
      rw [hshape]
    · change s'.disk.input = _
      rw [hshape]
    · change s'.disk.history ++ [s'.effects] = _
      rw [hshape]
      exact congrArg (s.disk.history ++ [·]) hretained.effects
  | reopen isInvited => exact h.same rfl rfl (fun _ => hretained.mirrored.symm) (Or.inl rfl)

/-! ## The tail comes last -/

/-- The retained input has nothing left to recover: it never had, or each room with a gap has committed
its pages since the capture. -/
inductive NothingLeft (env : Env) (s : Session) (body : List Nat) (response : SyncInput) : Prop
  | whole (flags : Flags) (input : s.disk.input = some (body, .captured flags))
      (nothing : s.continues env = true → candidates env s response = [])
  | tail (flags : Flags) (plan : Plan) (completed opened : List (List Effect))
      (input : s.disk.input = some (body, .tail flags plan))
      (history : phases s.disk.history = completed ++ [.captured body] :: opened)
      (recovered : ∀ entry ∈ candidates env s response, [Effect.page entry.roomId] ∈ opened)

theorem tail_mem_effects {pre post : List Effect} {s s' : Session} (h : Commits pre post s s')
    (hmem : Effect.tail ∈ s'.effects) : Effect.tail ∈ pre ++ post := by
  obtain ⟨es, he, hes⟩ := h.effects
  rw [he, List.append_assoc] at hmem
  simp only [List.mem_append] at hmem ⊢
  rcases hmem with hm | hm | hm
  · exact Or.inl hm
  · obtain ⟨r, c, hc⟩ := hes _ hm
    cases hc
  · exact Or.inr hm

/-- A tail is committed when nothing is left to recover. -/
theorem nothingLeft_of_tail {cursor : Option Str} {s : Session} (hretained : Retained env s)
    (h : Traced env cursor s) {action : Action} {es : List Effect}
    (hes : (step env s action).disk.history = s.disk.history ++ [es]) (htail : Effect.tail ∈ es) :
    ∃ body response, Decodes env body response ∧ NothingLeft env s body response := by
  cases transacted_step hretained hes with
  | interprets body c response s' input hdecodes run interprets effects same =>
    have heffects : (s.withResponse response).effects = [] := hretained.effects
    subst effects
    cases run with
    | prologue flags plan plan' last main hplan hcontinues hrooms hstart hrun hl =>
      have hmem := tail_mem_effects (hrun.interpreted.commits heffects) htail
      simp at hmem
    | whole flags plan main hplan hnothing hrun hl =>
      exact ⟨body, response, hdecodes, .whole flags input hnothing⟩
    | page flags plan position entry c main next hposition hof hroom hrun hl hnext =>
      have hmem := tail_mem_effects (hrun.interpreted.commits heffects) htail
      simp at hmem
    | smaller flags plan position hposition hlimit hsame' =>
      subst hsame'
      have hmem : Effect.tail ∈ s.effects := htail
      rw [hretained.effects] at hmem
      cases hmem
    | tail flags plan main hrun hl =>
      obtain ⟨completed, opened, heq, -, hopen⟩ := h.phases
      rw [input] at hopen
      obtain ⟨response', hdecodes', hopen⟩ := hopen
      obtain rfl := hdecodes.unique hdecodes'
      refine ⟨body, response, hdecodes, ?_⟩
      cases hopen with
      | tail _ _ pages behind =>
        refine .tail flags plan completed.flatten ([.decrypted] :: pages.map fun r => [.page r]) input heq
          fun entry he => List.mem_cons_of_mem _ ?_
        exact List.mem_map_of_mem (behind entry he)
  | other effects records published boundary => simpa using effects _ htail

/-! ## Runs -/

theorem traced_fresh (cursor : Option Str) : Traced env cursor (.fresh cursor) :=
  ⟨rfl, [], [], rfl, fun _ h => (nomatch h), rfl⟩

/-- and so does every run. -/
theorem traced_run (cursor : Option Str) (actions : List Action) :
    Retained env (run (step env) (.fresh cursor) actions) ∧
      Traced env cursor (run (step env) (.fresh cursor) actions) :=
  run_invariant (P := fun s => Retained env s ∧ Traced env cursor s)
    (fun _ a hs => ⟨retained_step hs.1 a, traced_step hs.1 hs.2 a⟩) actions
    ⟨retained_fresh cursor, traced_fresh cursor⟩

/-- Each retained response is interpreted once: the committed transactions are those of completed
inputs and of the retained one, a tail is committed when no page is left, and what each transaction
publishes is what its effects say of the response. -/
theorem interpreted_once (env : Env) (cursor : Option Str) (actions : List Action) :
    Traced env cursor (run (step env) (.fresh cursor) actions) ∧
      ∀ action es, (step env (run (step env) (.fresh cursor) actions) action).disk.history =
          (run (step env) (.fresh cursor) actions).disk.history ++ [es] →
        (Effect.tail ∈ es → ∃ body response, Decodes env body response ∧
          NothingLeft env (run (step env) (.fresh cursor) actions) body response) ∧
        ∃ rs, (step env (run (step env) (.fresh cursor) actions) action).disk.published =
            (run (step env) (.fresh cursor) actions).disk.published ++ rs ∧
          Published env (run (step env) (.fresh cursor) actions) es rs action := by
  obtain ⟨hretained, htraced⟩ := @traced_run env cursor actions
  exact ⟨htraced, fun action es hes =>
    ⟨fun htail => nothingLeft_of_tail hretained htraced hes htail, published_step hretained hes⟩⟩

end Nio.Durable
