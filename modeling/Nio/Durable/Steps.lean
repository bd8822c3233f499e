import Nio.Durable.Phases

/-!
# The steps of a session

What one action does to a session. Every invariant of a run is a statement about these cases.

* `step_cases` — what one action can do
* `retained_reachable` — what the retained input is in every session that a run reaches
-/

namespace Nio.Durable

open Nio.Py
open Nio.Lib

variable {env : Env}

/-! ## One action -/

namespace Session

/-- The session of a captured response, before its transaction commits -/
def captured (s : Session) (body : List Nat) (flags : Flags) (response : SyncInput) : Session :=
  { s.effect (.captured body) with
    disk := { s.disk with input := some (body, .captured flags) }
    response := some response }

/-- The session of an input that ends, before the transaction commits -/
def ended (s : Session) : Session :=
  { s.effect .finished with
    disk := { s.disk with input := none }
    response := none }

end Session

/-- What a transaction can do to the retained local operation alone -/
inductive IntentStep (s : Session) : Option Intent → Prop
  | retain (intent : Intent) (free : s.disk.intent = none) (sequence : intent.sequence = none)
      (observed : intent.observed = false) (position : s.localPositionMatches intent = true) :
      IntentStep s (some intent)
  | prove (intent : Intent) (cursor : Option Str) (stored : s.disk.intent = some intent)
      (sequence : intent.sequence = none) :
      IntentStep s (some { intent with joinBaselineCursor := some cursor })
  | drop (intent : Intent) (stored : s.disk.intent = some intent)
      (sequence : intent.sequence = none) (free : s.disk.input = none) : IntentStep s none
  | forget (intent : Intent) (sequence : Nat) (stored : s.disk.intent = some intent)
      (published : intent.sequence = some sequence) (acked : sequence ≤ s.disk.acked)
      (observed : intent.observed = true) : IntentStep s none

/-- The action interprets the retained input in the phase of the continuation. -/
def Action.Interprets (crypto : Crypto) : Continuation → Action → Prop
  | .recover _ _, action => ∃ answer, action = .page answer crypto true
  | _, action => action = .prepare crypto true

/-- What one action can do -/
inductive Stepped (env : Env) (s : Session) (action : Action) : Session → Prop
  /-- Nothing that lasts: an action that is not in place, a transaction that fails -/
  | idle (s' : Session) (same : s' = { s with response := s'.response, isOpen := s'.isOpen })
      (response : s'.response = s.response ∨ s'.response = s.currentResponse env) :
      Stepped env s action s'
  | capture (body : List Nat) (flags : Flags) (response : SyncInput) (sections : TransientSections)
      (decoded : decodeResponse env.config env.parsers body = .ok (response, sections))
      (free : s.disk.input = none) : Stepped env s action (s.captured body flags response).commit
  | interpret {crypto : Crypto} (body : List Nat) (c : Continuation) (response : SyncInput)
      (s' : Session) (input : s.disk.input = some (body, c))
      (current : s.currentResponse env = some response)
      (run : Advances env crypto (s.withResponse response) response s' c)
      (interprets : action.Interprets crypto c) : Stepped env s action s'.commit
  | finish (body : List Nat) (s' : Session) (input : s.disk.input = some (body, .prepared))
      (acked : s.disk.hasBatches = false) (run : s.ended.publish [] true = .ok s') :
      Stepped env s action s'.commit
  | ack (pending : s.disk.hasBatches = true) :
      Stepped env s action { s with disk := { s.disk with acked := s.disk.acked + 1 } }
  | intent (intent : Option Intent) (step : IntentStep s intent) :
      Stepped env s action (s.saveIntent intent).commit
  | apply (intent : Intent) (s' : Session) (stored : s.disk.intent = some intent)
      (sequence : intent.sequence = none) (free : s.disk.input = none)
      (position : s.localPositionMatches intent = true) (run : s.applyLocal intent = .ok s') :
      Stepped env s action s'.commit
  | reopen (isInvited : Str → Bool) : Stepped env s action (.opened s.disk isInvited)

variable {action : Action}

/-- An action may leave the session as it is. -/
theorem stepped_refl (s : Session) : Stepped env s action s := .idle s rfl (Or.inl rfl)

/-- A captured response is the input from then on. -/
theorem stepped_capture (s : Session) (body : List Nat) (flags : Flags) (commits : Bool) :
    Stepped env s action (s.capture env body flags commits) := by
  unfold Session.capture
  cases hdecode : decodeResponse env.config env.parsers body with
  | error e => exact stepped_refl s
  | ok p =>
    dsimp only
    split
    · exact stepped_refl s
    · next hfree =>
      cases commits with
      | false => exact stepped_refl s
      | true => exact .capture body flags p.1 p.2 hdecode (Option.not_isSome_iff_eq_none.mp hfree)

/-- An interpretation that commits advances the input. -/
theorem stepped_interpret {s : Session} {body : List Nat} {c : Continuation} {response : SyncInput}
    {crypto : Crypto} {commits : Bool} {result : Except SessionError Session}
    (hinput : s.disk.input = some (body, c)) (hcurrent : s.currentResponse env = some response)
    (hrun : ∀ s', result = .ok s' → Advances env crypto (s.withResponse response) response s' c)
    (haction : commits = true → action.Interprets crypto c) :
    Stepped env s action ((s.withResponse response).interpret commits result) := by
  have hidle : Stepped env s action { s.withResponse response with isOpen := false } :=
    .idle _ rfl (Or.inr hcurrent.symm)
  unfold Session.interpret
  cases result with
  | error e => exact hidle
  | ok s' =>
    cases commits with
    | false => exact hidle
    | true => exact .interpret body c response s' hinput hcurrent (hrun s' rfl) (haction rfl)

/-- A continuation is that of an input. -/
theorem continuation_eq_some {d : Disk} {c : Continuation} (h : d.continuation = some c) :
    ∃ body, d.input = some (body, c) := by
  unfold Disk.continuation at h
  obtain ⟨p, hp, rfl⟩ := Option.map_eq_some_iff.mp h
  exact ⟨p.1, hp⟩

/-- `prepare` interprets the input or does nothing. -/
theorem stepped_prepare (s : Session) (crypto : Crypto) (commits : Bool) :
    Stepped env s (.prepare crypto commits) (s.prepareStep env crypto commits) := by
  unfold Session.prepareStep
  cases hc : s.disk.continuation with
  | none => exact stepped_refl s
  | some c =>
    obtain ⟨body, hinput⟩ := continuation_eq_some hc
    cases hr : s.currentResponse env with
    | none =>
      cases c with
      | _ => exact stepped_refl s
    | some response =>
      cases c with
      | captured flags =>
        exact stepped_interpret hinput hr (fun s' h => prepare_advances (Or.inl ⟨flags, rfl⟩) h)
          fun hcommits => hcommits ▸ rfl
      | tail flags plan =>
        exact stepped_interpret hinput hr (fun s' h => prepare_advances (Or.inr ⟨flags, plan, rfl⟩) h)
          fun hcommits => hcommits ▸ rfl
      | recover flags plan => exact .idle _ rfl (Or.inr hr.symm)
      | prepared => exact stepped_refl s

/-- So does `advance` with an answer. -/
theorem stepped_page (s : Session) (answer : Answer) (crypto : Crypto) (commits : Bool) :
    Stepped env s (.page answer crypto commits) (s.pageStep env answer crypto commits) := by
  unfold Session.pageStep
  cases hc : s.disk.continuation with
  | none => exact stepped_refl s
  | some c =>
    obtain ⟨body, hinput⟩ := continuation_eq_some hc
    cases hr : s.currentResponse env with
    | none =>
      cases c with
      | _ => exact stepped_refl s
    | some response =>
      cases c with
      | recover flags plan =>
        dsimp only
        cases hposition : plan.position with
        | none => exact stepped_refl s
        | some position =>
          dsimp only
          split
          · exact stepped_refl s
          · exact stepped_interpret hinput hr (fun s' h => advance_advances hposition h)
              fun hcommits => hcommits ▸ ⟨answer, rfl⟩
      | _ => exact stepped_refl s

/-- `finish` ends an input that is prepared and has nothing left to publish. -/
theorem stepped_finish (s : Session) (commits : Bool) :
    Stepped env s action (s.finish commits) := by
  unfold Session.finish
  split
  · next hc =>
    obtain ⟨body, hinput⟩ := continuation_eq_some hc
    split
    · exact stepped_refl s
    · next hacked =>
      change Stepped env s action (s.attempt commits (s.ended.publish [] true))
      unfold Session.attempt
      cases hrun : s.ended.publish [] true with
      | error e => exact stepped_refl s
      | ok s' =>
        cases commits with
        | false => exact stepped_refl s
        | true => exact .finish body s' hinput (Bool.eq_false_iff.mpr hacked) hrun
  · exact stepped_refl s

/-- A step of the local operation only writes its intent. -/
theorem stepped_intent {s : Session} {intent : Option Intent} (h : IntentStep s intent)
    (commits : Bool) : Stepped env s action (s.attempt commits (.ok (s.saveIntent intent))) := by
  cases commits with
  | false => exact stepped_refl s
  | true => exact .intent intent h

/-- A local operation is stored, or nothing is. -/
theorem stepped_changeMembership (s : Session) (operationId roomId : Str)
    (previous : Option LocalMembership) (previousEpoch : Nat) (current : LocalMembership)
    (commits : Bool) : Stepped env s action
      (s.changeMembershipStep env operationId roomId previous previousEpoch current commits) := by
  unfold Session.changeMembershipStep
  dsimp only
  split
  · exact stepped_refl s
  · next h =>
    obtain ⟨-, -, hfree, hposition⟩ : _ ∧ _ ∧ _ ∧ _ := by simpa only [not_or] using h
    exact stepped_intent (.retain _ (Option.not_isSome_iff_eq_none.mp hfree) rfl rfl
      (Bool.not_eq_false _ ▸ hposition)) commits

/-- `prove_join` keeps the position of a join, or drops an operation whose room moved on. -/
theorem stepped_proveJoin (s : Session) (commits : Bool) :
    Stepped env s action (s.proveJoin commits) := by
  unfold Session.proveJoin
  split
  · next intent hintent =>
    split
    · exact stepped_refl s
    · next h =>
      obtain ⟨hfree, hsequence⟩ := not_or.mp h
      have hnone := Option.not_isSome_iff_eq_none.mp hsequence
      split
      · exact stepped_intent
          (.drop intent hintent hnone (Option.not_isSome_iff_eq_none.mp hfree)) commits
      · split
        · exact stepped_intent (.prove intent _ hintent hnone) commits
        · exact stepped_refl s
  · exact stepped_refl s

/-- The answer to the request of an operation: an accepted one is applied to the rooms, a
    refused one is dropped. -/
theorem stepped_request (s : Session) (accepted commits : Bool) :
    Stepped env s action (s.request accepted commits) := by
  unfold Session.request
  split
  · next intent hintent =>
    split
    · exact stepped_refl s
    · next h =>
      obtain ⟨hfree, hsequence, hposition, -⟩ : _ ∧ _ ∧ _ ∧ _ := by simpa only [not_or] using h
      have hnone := Option.not_isSome_iff_eq_none.mp hsequence
      have hinput := Option.not_isSome_iff_eq_none.mp hfree
      split
      · have hidle : Stepped env s action { s with isOpen := false } := .idle _ rfl (Or.inl rfl)
        unfold Session.interpret
        split
        · next s' hrun =>
          cases commits with
          | false => exact hidle
          | true => exact .apply intent s' hintent hnone hinput (Bool.not_eq_false _ ▸ hposition) hrun
        · exact hidle
      · exact stepped_intent (.drop intent hintent hnone hinput) commits
  · exact stepped_refl s

/-- An operation that was observed and acknowledged is forgotten. -/
theorem stepped_membershipIdle (s : Session) (commits : Bool) :
    Stepped env s action (s.membershipIdle commits) := by
  unfold Session.membershipIdle
  split
  · next intent hintent =>
    split
    · next sequence hsequence =>
      split
      · next h => exact stepped_intent (.forget intent sequence hintent hsequence h.1 h.2) commits
      · exact stepped_refl s
    · exact stepped_refl s
  · exact stepped_refl s

/-- What one action can do -/
theorem step_cases (s : Session) (action : Action) : Stepped env s action (step env s action) := by
  unfold step
  cases action with
  | reopen isInvited => exact .reopen isInvited
  | _ =>
    dsimp only
    split
    · exact stepped_refl s
    · first
      | exact stepped_capture s _ _ _
      | exact stepped_prepare s _ _
      | exact stepped_page s _ _ _
      | exact stepped_finish s _
      | exact stepped_changeMembership s _ _ _ _ _ _
      | exact stepped_proveJoin s _
      | exact stepped_request s _ _
      | exact stepped_membershipIdle s _
      | unfold Session.ack
        split
        · next h => exact .ack h
        · exact stepped_refl s

end Nio.Durable
