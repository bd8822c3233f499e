import Nio.Durable.CryptoMaintenance

/-!
# What retained requests keep

Each HTTP attempt is for the request that is retained, from the transaction that retains it to the
transaction that applies its answer. The queue of messages is carried along by every step.
-/

namespace Nio.Durable

open Nio.Py
open Nio.Events (PyError)

variable {lib : CryptoLibrary} {P : Str → Prop}

/-! ## The fields that a step leaves alone -/

namespace CryptoOwner

variable {o o' : CryptoOwner}

/-- No request is pending only where none is retained. -/
theorem pending_eq_none (h : o.pending = .ok none) : o.rows.request = none := by
  unfold pending pendingOf at h
  split at h
  · next hr => exact hr
  · repeat' split at h
    all_goals cases h

/-- A pending request is the retained one. -/
theorem pending_eq_some {r : CryptoRequest} {id : Option Str}
    (h : o.pending = .ok (some (r, id))) :
    ∃ fingerprint, o.rows.request = some ⟨r, id, fingerprint⟩ := by
  unfold pending pendingOf at h
  split at h
  · cases h
  · next data hr =>
    repeat' split at h
    all_goals cases h
    exact ⟨data.encryptedFingerprint, hr⟩

/-! ## What retains a request -/

/-- The transaction id of the retained request -/
def retainedId (o : CryptoOwner) : Option Str := o.rows.request.map (·.request.requestId)

/-- The five ways to retain a request; `P` is said of the transaction ids that callers choose. -/
inductive Enqueues (lib : CryptoLibrary) (P : Str → Prop) (o : CryptoOwner) :
    CryptoOwner → CryptoRequest → Prop
  | upload (view : OlmView) :
    Enqueues lib P o (o.enqueueUpload lib view).1 (o.enqueueUpload lib view).2
  | query (view : OlmView) (users : Option (List Str)) :
    Enqueues lib P o (o.enqueueQuery lib view users).1 (o.enqueueQuery lib view users).2
  | claim (users : List (Str × List Str)) :
    Enqueues lib P o (o.enqueueClaim lib users).1 (o.enqueueClaim lib users).2
  | message {o' : CryptoOwner} {r : CryptoRequest} (m : Nat) (txId fingerprint : Option Str)
    (htx : ∀ tx, txId = some tx → P tx)
    (hf : ∀ f, fingerprint = some f → isFingerprint f = true)
    (h : o.enqueueMessage lib m txId fingerprint = .ok (o', r)) : Enqueues lib P o o' r
  | toDevice {o' : CryptoOwner} {r : CryptoRequest} (type : Str) (content : List (Str × Json))
    (h : o.enqueueToDevice lib type content = .ok (o', r)) : Enqueues lib P o o' r

/-- A message is only enqueued where no request is retained, under a transaction id of its own. -/
theorem enqueueToDevice_eq {type : Str} {content : List (Str × Json)} {r : CryptoRequest}
    (h : o.enqueueToDevice lib type content = .ok (o', r)) :
    o.rows.request = none ∧ (o', r) = { o with drawn := o.drawn + 1 }.retainRequest lib .toDevice
      (toDevice type content (lib.uuid o.drawn)) (some (lib.uuid o.drawn)) none none := by
  unfold enqueueToDevice at h
  obtain ⟨p, hp, h⟩ := bind_eq_ok.mp h
  cases p with
  | some p =>
    simp only [Option.isSome_some, ↓reduceIte] at h
    cases h
  | none => exact ⟨pending_eq_none hp, (Except.ok.inj h).symm⟩

/-- So is a message of the queue, which is retained with its content. -/
theorem enqueueMessage_eq {m : Nat} {txId fingerprint : Option Str} {r : CryptoRequest}
    (hr : o.rows.request = none)
    (h : o.enqueueMessage lib m txId fingerprint = .ok (o', r)) :
    ∃ value, o.live.objects[m]? = some value ∧
      (o', r) = (o.appendMessage lib m txId).2.retainRequest lib .toDevice
        (toDevice value.message.type (asDict value.message) (o.appendMessage lib m txId).1)
        (some (o.appendMessage lib m txId).1) (some (o.appendMessage lib m txId).1) fingerprint := by
  unfold enqueueMessage at h
  obtain ⟨p, hp, h⟩ := bind_eq_ok.mp h
  cases p with
  | some p =>
    obtain ⟨f, hf⟩ := pending_eq_some hp
    rw [hr] at hf
    cases hf
  | none =>
    obtain ⟨value, hv, h⟩ := bind_eq_ok.mp h
    refine ⟨value, ?_, (Except.ok.inj h).symm⟩
    unfold LiveCrypto.object at hv
    split at hv
    · next w hw =>
      rw [← Except.ok.inj hv]
      exact hw
    · cases hv

@[simp] theorem log_appendMessage (m : Nat) (txId : Option Str) :
    (o.appendMessage lib m txId).2.log = o.log := by
  unfold appendMessage
  split <;> rfl

@[simp] theorem users_appendMessage (m : Nat) (txId : Option Str) :
    (o.appendMessage lib m txId).2.live.usersForKeyQuery = o.live.usersForKeyQuery := by
  unfold appendMessage
  split <;> rfl

/-- A request is logged when it is retained. -/
theorem log_retainRequest (kind : RequestKind) (result : String × List Str × Json)
    (requestId messageId fingerprint : Option Str) :
    (o.retainRequest lib kind result requestId messageId fingerprint).1.log =
      o.log ++ [.retained (o.retainRequest lib kind result requestId messageId fingerprint).2] :=
  rfl

/-- It is the request of the row from then on. -/
theorem request_retainRequest (kind : RequestKind) (result : String × List Str × Json)
    (requestId messageId fingerprint : Option Str) :
    (o.retainRequest lib kind result requestId messageId fingerprint).1.rows.request =
      some ⟨(o.retainRequest lib kind result requestId messageId fingerprint).2, messageId,
        fingerprint⟩ := rfl

@[simp] theorem users_retainRequest (kind : RequestKind) (result : String × List Str × Json)
    (requestId messageId fingerprint : Option Str) :
    (o.retainRequest lib kind result requestId messageId fingerprint).1.live.usersForKeyQuery =
      o.live.usersForKeyQuery := rfl

/-- A request is retained in the row and in the log. -/
theorem Enqueues.retains {r : CryptoRequest} (hr : o.rows.request = none)
    (h : Enqueues lib P o o' r) :
    o'.log = o.log ++ [.retained r] ∧ ∃ id fingerprint, o'.rows.request = some ⟨r, id, fingerprint⟩ := by
  cases h with
  | upload view => exact ⟨rfl, none, none, rfl⟩
  | query view users => exact ⟨rfl, none, none, rfl⟩
  | claim users => exact ⟨rfl, none, none, rfl⟩
  | message m txId fingerprint htx hf h =>
    obtain ⟨value, -, heq⟩ := enqueueMessage_eq hr h
    obtain ⟨ho : o' = _, hr' : r = _⟩ := Prod.ext_iff.mp heq
    rw [ho, hr', log_retainRequest, log_appendMessage]
    exact ⟨rfl, _, _, request_retainRequest _ _ _ _ _⟩
  | toDevice type content h =>
    obtain ⟨-, heq⟩ := enqueueToDevice_eq h
    obtain ⟨ho : o' = _, hr' : r = _⟩ := Prod.ext_iff.mp heq
    rw [ho, hr']
    exact ⟨rfl, none, none, rfl⟩

end CryptoOwner

/-! ## How a call goes on -/

/-- `P` is said of the transaction id that the call has yet to use. -/
def OutboundTask.Named (P : Str → Prop) : OutboundTask → Prop
  | .enqueueMessage _ txId => ∀ tx, txId = some tx → P tx
  | .encryptedQuery _ txId => ∀ tx, txId = some tx → P tx
  | .encryptedResolve _ txId => ∀ tx, txId = some tx → P tx
  | .encryptedSend _ txId => ∀ tx, txId = some tx → P tx
  | _ => True

def OutboundCall.Named (P : Str → Prop) : OutboundCall → Prop
  | .toDevice _ txId => ∀ tx, txId = some tx → P tx
  | .encryptedToDevice _ txId => ∀ tx, txId = some tx → P tx
  | _ => True

/-- A task that is named by some ids is named by more of them. -/
theorem OutboundTask.Named.mono {Q : Str → Prop} {task : OutboundTask} (h : task.Named P)
    (hpq : ∀ tx, P tx → Q tx) : task.Named Q := by
  cases task <;> first | trivial | exact fun tx htx => hpq tx (h tx htx)

theorem OutboundTask.named_true (task : OutboundTask) : task.Named fun _ => True := by
  cases task <;> first | trivial | exact fun _ _ => trivial

/-- A call is named where every id will do. -/
theorem OutboundCall.named_of_forall (h : ∀ tx, P tx) (call : OutboundCall) : call.Named P := by
  cases call <;> first | trivial | exact fun tx _ => h tx

namespace CryptoOwner

variable {o o' : CryptoOwner}

/-- From one `await` to the next: the call is over, sends what is retained already, or retains a
request of its own when there is none. A transaction id is left to use only before the message. -/
inductive Next (lib : CryptoLibrary) (P : Str → Prop) (o : CryptoOwner) :
    CryptoOwner → Option (CryptoRequest × OutboundTask) → Prop
  | over : Next lib P o o none
  | swept (h : o.rows.request = none) (hm : (o.retainMessages lib).live.messages = []) :
    Next lib P o (o.retainMessages lib) none
  | again (q : RetainedRequest) (next : OutboundTask) (hn : next.Named P)
    (h : o.rows.request = some q) : Next lib P o o (some (q.request, next))
  | retains (o₁ : CryptoOwner) {o' : CryptoOwner} {r : CryptoRequest} (next : OutboundTask)
    (hn : next.Named fun tx => P tx ∧ r.kind ≠ .toDevice) (hr : o.rows.request = none)
    (h₁ : o₁ = o ∨ o₁ = o.retainMessages lib ∨
      ∃ value, o₁ = { o with live.objects := o.live.objects ++ [value] })
    (h : Enqueues lib P o₁ o' r) : Next lib P o o' (some (r, next))

/-- A mapped computation returns what its result is mapped to. -/
theorem map_eq_ok {α β : Type} {x : Except PyError α} {f : α → β} {b : β} (h : f <$> x = .ok b) :
    ∃ a, x = .ok a ∧ f a = b := by
  cases x with
  | error e => cases h
  | ok a => exact ⟨a, rfl, Except.ok.inj h⟩

/-- What `next_request` returns is a next step of the machine. -/
theorem nextRequest_next {view : OlmView} {completed : List RequestKind}
    {x : Option CryptoRequest} (h : o.nextRequest lib view completed = .ok (o', x))
    (k : CryptoRequest → OutboundTask) (hk : ∀ r {Q : Str → Prop}, (k r).Named Q) :
    Next lib P o o' (x.map fun r => (r, k r)) := by
  unfold nextRequest at h
  obtain ⟨p, hp, h⟩ := bind_eq_ok.mp h
  cases p with
  | some p =>
    obtain ⟨f, hf⟩ := pending_eq_some hp
    obtain ⟨rfl, rfl⟩ := Prod.mk.inj (Except.ok.inj h)
    exact .again ⟨p.1, p.2, f⟩ _ (hk _) hf
  | none =>
    have hr := pending_eq_none hp
    dsimp only at h
    split at h
    · next m rest heq =>
      obtain ⟨⟨o₁, r⟩, hm, h⟩ := bind_eq_ok.mp h
      obtain ⟨rfl, rfl⟩ := Prod.mk.inj (Except.ok.inj h)
      exact .retains _ _ (hk _) hr (.inr (.inl rfl))
        (.message _ none none (fun _ h => (nomatch h)) (fun _ h => (nomatch h)) hm)
    · next hm =>
      split at h
      · obtain ⟨rfl, rfl⟩ := Prod.mk.inj (Except.ok.inj h)
        exact .retains _ _ (hk _) hr (.inr (.inl rfl)) (.upload view)
      · split at h
        · obtain ⟨rfl, rfl⟩ := Prod.mk.inj (Except.ok.inj h)
          exact .retains _ _ (hk _) hr (.inr (.inl rfl)) (.query view none)
        · split at h
          · obtain ⟨rfl, rfl⟩ := Prod.mk.inj (Except.ok.inj h)
            exact .retains _ _ (hk _) hr (.inr (.inl rfl)) (.claim view.claimTargets)
          · obtain ⟨rfl, rfl⟩ := Prod.mk.inj (Except.ok.inj h)
            exact .swept hr hm

end CryptoOwner

namespace OutboundTask

open CryptoOwner

variable {o o' : CryptoOwner} {x : Option (CryptoRequest × OutboundTask)} {view : OlmView}

/-- So is the first request of an encrypted operation. -/
theorem encrypted_next {operation : EncryptedToDevice} {txId : Option Str}
    (htx : ∀ tx, txId = some tx → P tx) (hr : o.rows.request = none)
    (h : encrypted lib view operation txId o = .ok (o', x)) : Next lib P o o' x := by
  unfold encrypted at h
  split at h
  · next value _ =>
    obtain ⟨⟨o₁, r⟩, hm, heq⟩ := map_eq_ok h
    obtain ⟨rfl, rfl⟩ := Prod.mk.inj heq
    refine .retains _ _ trivial hr (.inr (.inr ⟨value, rfl⟩)) (.message _ _ _ htx (fun f hf => ?_) hm)
    rw [← Option.some.inj hf]
    exact operation.valid
  · obtain ⟨rfl, rfl⟩ := Prod.mk.inj (Except.ok.inj h)
    exact .over

/-- No task but the maintenance loop runs while a request is retained. -/
theorem proceed_next {task : OutboundTask} (hr : o.rows.request = none ∨ ∃ c, task = .maintain c)
    (h : proceed lib view o task = .ok (o', x)) (hn : task.Named P) : Next lib P o o' x := by
  -- only the maintenance loop looks at a request that is still retained
  rcases hr with hr | ⟨c, rfl⟩
  · cases task with
    | done =>
      obtain ⟨rfl, rfl⟩ := Prod.mk.inj (Except.ok.inj h)
      exact .over
    | maintain completed =>
      obtain ⟨⟨o₁, r⟩, hm, h⟩ := bind_eq_ok.mp h
      obtain ⟨rfl, rfl⟩ := Prod.mk.inj (Except.ok.inj h)
      exact nextRequest_next hm _ fun _ => trivial
    | enqueueMessage message txId =>
      obtain ⟨⟨o₁, r⟩, hm, heq⟩ := map_eq_ok h
      obtain ⟨rfl, rfl⟩ := Prod.mk.inj heq
      exact .retains _ _ trivial hr (.inl rfl) (.message _ _ none hn (fun _ h => (nomatch h)) hm)
    | enqueueUpload =>
      simp only [proceed] at h
      split at h
      · obtain ⟨rfl, rfl⟩ := Prod.mk.inj (Except.ok.inj h)
        exact .retains _ _ trivial hr (.inl rfl) (.upload view)
      · obtain ⟨rfl, rfl⟩ := Prod.mk.inj (Except.ok.inj h)
        exact .over
    | enqueueQuery users =>
      simp only [proceed] at h
      split at h
      · obtain ⟨rfl, rfl⟩ := Prod.mk.inj (Except.ok.inj h)
        exact .retains _ _ trivial hr (.inl rfl) (.query view users)
      · obtain ⟨rfl, rfl⟩ := Prod.mk.inj (Except.ok.inj h)
        exact .over
    | enqueueClaim users =>
      obtain ⟨rfl, rfl⟩ := Prod.mk.inj (Except.ok.inj h)
      exact .retains _ _ trivial hr (.inl rfl) (.claim users)
    | encryptedQuery operation txId =>
      obtain ⟨rfl, rfl⟩ := Prod.mk.inj (Except.ok.inj h)
      exact .retains _ _ (fun tx htx => ⟨hn tx htx, nofun⟩) hr (.inl rfl) (.query view _)
    | encryptedResolve operation txId =>
      simp only [proceed] at h
      split at h
      · next users _ =>
        obtain ⟨rfl, rfl⟩ := Prod.mk.inj (Except.ok.inj h)
        exact .retains _ _ (fun tx htx => ⟨hn tx htx, nofun⟩) hr (.inl rfl) (.claim users)
      · exact encrypted_next hn hr h
    | encryptedSend operation txId => exact encrypted_next hn hr h
    | share =>
      simp only [proceed] at h
      split at h
      · obtain ⟨⟨o₁, r⟩, hm, heq⟩ := map_eq_ok h
        obtain ⟨rfl, rfl⟩ := Prod.mk.inj heq
        exact .retains _ _ trivial hr (.inl rfl) (.toDevice _ _ hm)
      · obtain ⟨rfl, rfl⟩ := Prod.mk.inj (Except.ok.inj h)
        exact .over
  · obtain ⟨⟨o₁, r⟩, hm, h⟩ := bind_eq_ok.mp h
    obtain ⟨rfl, rfl⟩ := Prod.mk.inj (Except.ok.inj h)
    exact nextRequest_next hm _ fun _ => trivial

/-- What a call looks at first: the retained request is sent again, or there is none. -/
theorem pending_next {f : CryptoRequest → Option Str → OutboundNext} {task : OutboundTask}
    (hn : o.rows.request = none → task.Named P)
    (hf : ∀ r id fingerprint, o.rows.request = some ⟨r, id, fingerprint⟩ →
      f r id = .ok (o', x) → Next lib P o o' x)
    (h : (match o.pending with
      | .ok (some (r, id)) => f r id
      | .ok none => proceed lib view o task
      | .error _ => .ok (o, none)) = .ok (o', x)) : Next lib P o o' x := by
  split at h
  · next r id hp =>
    obtain ⟨fingerprint, hq⟩ := pending_eq_some hp
    exact hf r id fingerprint hq h
  · next hp =>
    have hr := pending_eq_none hp
    exact proceed_next (.inl hr) h (hn hr)
  · obtain ⟨rfl, rfl⟩ := Prod.mk.inj (Except.ok.inj h)
    exact .over

/-- The retained request is returned again as it is. -/
theorem again_of {r : CryptoRequest} {id fingerprint : Option Str} {next : OutboundTask}
    (hq : o.rows.request = some ⟨r, id, fingerprint⟩)
    (h : (.ok (o, some (r, next)) : OutboundNext) = .ok (o', x)) (hn : next.Named P) :
    Next lib P o o' x := by
  obtain ⟨rfl, rfl⟩ := Prod.mk.inj (Except.ok.inj h)
  exact .again ⟨r, id, fingerprint⟩ next hn hq

section

variable {txId : Option Str} (hn : ∀ tx, txId = some tx → o.retainedId = some tx ∨ P tx)
include hn

/-- A transaction id that is not retained is a fresh one. -/
theorem named_of_none (hr : o.rows.request = none) (tx : Str) (htx : txId = some tx) : P tx := by
  rcases hn tx htx with hid | hP
  · rw [retainedId, hr] at hid
    cases hid
  · exact hP

/-- So is one that differs from the retained one. -/
theorem named_of_other {r : CryptoRequest} {id fingerprint : Option Str}
    (hq : o.rows.request = some ⟨r, id, fingerprint⟩) (hne : some r.requestId ≠ txId) (tx : Str)
    (htx : txId = some tx) : P tx := by
  rcases hn tx htx with hid | hP
  · rw [retainedId, hq] at hid
    exact absurd (hid.trans htx.symm) hne
  · exact hP

end

/-- A caller that comes with the id of the retained request waits for that request only. -/
theorem start_next {call : OutboundCall}
    (hn : call.Named fun tx => o.retainedId = some tx ∨ P tx)
    (h : call.start lib view o = .ok (o', x)) : Next lib P o o' x := by
  -- a call goes on with the retained request, or with its own task if there is none
  cases call with
  | maintain => exact proceed_next (.inr ⟨_, rfl⟩) h trivial
  | toDevice message txId =>
    simp only [OutboundCall.start] at h
    split at h
    · obtain ⟨rfl, rfl⟩ := Prod.mk.inj (Except.ok.inj h)
      exact .over
    · refine @pending_next _ _ _ _ _ _ _ (.enqueueMessage message txId) (named_of_none hn)
        (fun r id fingerprint hq h => ?_) h
      split at h
      · exact again_of hq h trivial
      · next hother =>
        exact again_of hq h (named_of_other hn hq fun heq => hother (.inl heq))
  | encryptedToDevice operation txId =>
    refine @pending_next _ _ _ _ _ _ _ (.encryptedQuery operation txId) (named_of_none hn)
      (fun r id fingerprint hq h => ?_) h
    dsimp only at h
    split at h
    · obtain ⟨rfl, rfl⟩ := Prod.mk.inj (Except.ok.inj h)
      exact .over
    · split at h
      · exact again_of hq h trivial
      · next hother =>
        exact again_of hq h (named_of_other hn hq fun heq => hother (.inl heq))
  | keysUpload =>
    refine @pending_next _ _ _ _ _ _ _ .enqueueUpload (fun _ => trivial) (fun r id fingerprint hq h => ?_) h
    refine again_of hq h ?_
    split <;> trivial
  | keysQuery users =>
    refine @pending_next _ _ _ _ _ _ _ (.enqueueQuery users) (fun _ => trivial)
      (fun r id fingerprint hq h => ?_) h
    refine again_of hq h ?_
    split <;> trivial
  | keysClaim users =>
    simp only [OutboundCall.start, finishPending] at h
    split at h
    · obtain ⟨rfl, rfl⟩ := Prod.mk.inj (Except.ok.inj h)
      exact .over
    · next r id hp =>
      obtain ⟨fingerprint, hq⟩ := pending_eq_some hp
      exact again_of hq h trivial
    · next hp => exact proceed_next (.inl (pending_eq_none hp)) h trivial
  | shareGroupSession =>
    simp only [OutboundCall.start, finishPending] at h
    split at h
    · obtain ⟨rfl, rfl⟩ := Prod.mk.inj (Except.ok.inj h)
      exact .over
    · next r id hp =>
      obtain ⟨fingerprint, hq⟩ := pending_eq_some hp
      exact again_of hq h trivial
    · next hp => exact proceed_next (.inl (pending_eq_none hp)) h trivial

end OutboundTask

namespace CryptoOwner

variable {o o' : CryptoOwner} {request : CryptoRequest} {effect : OlmEffect}

/-! ## What an answer does -/

/-- An answer is only taken for the retained request, and then settles it. -/
theorem send_eq {body : Json} (h : o.send lib request body effect = .ok o') :
    ∃ id fingerprint response, o.rows.request = some ⟨request, id, fingerprint⟩ ∧
      response = decodeAnswer request (o.pendingMessage id) body ∧ response ≠ .error ∧
      o' = o.settle lib request response effect := by
  obtain ⟨⟨o₁, response⟩, h, hs⟩ := bind_eq_ok.mp h
  unfold apply at h
  obtain ⟨p, hp, h⟩ := bind_eq_ok.mp h
  cases p with
  | none => cases h
  | some p =>
    obtain ⟨fingerprint, hq⟩ := pending_eq_some hp
    dsimp only at h
    split at h
    · cases h
    · next heq =>
      rw [not_not] at heq
      split at h
      · cases h
      · refine ⟨p.2, fingerprint, decodeAnswer request (o.pendingMessage p.2) body, ?_, rfl, ?_⟩
        · rw [hq, heq]
        · split at h
          · obtain ⟨rfl, rfl⟩ := Prod.mk.inj (Except.ok.inj h)
            cases hs
          · next hne =>
            obtain ⟨rfl, rfl⟩ := Prod.mk.inj (Except.ok.inj h)
            dsimp only at hs
            split at hs
            · next hbad => exact absurd hbad hne
            · exact ⟨hne, (Except.ok.inj hs).symm⟩

@[simp] theorem log_handleResponse (response : CryptoResponse) :
    (o.handleResponse lib response).log = o.log := by
  unfold handleResponse
  split <;> rfl

@[simp] theorem users_handleResponse (response : CryptoResponse) :
    (o.handleResponse lib response).live.usersForKeyQuery = o.live.usersForKeyQuery := by
  unfold handleResponse
  split <;> rfl

@[simp] theorem log_markMissing (response : CryptoResponse) (dirty : List Str) :
    (o.markMissing request response dirty).log = o.log := by
  unfold markMissing
  split <;> rfl

/-- Settling marks what the answer settles and then applies it. -/
theorem log_settle (response : CryptoResponse) : (o.settle lib request response effect).log =
    o.log ++ [.marked effect.marks] ++ [.applied request response.users] := by
  show ((o.handleResponse lib response).markMissing request response _).log ++ [_] ++ [_] = _
  rw [log_markMissing, log_handleResponse]

/-- A settled request is retained no longer. -/
@[simp] theorem request_settle (response : CryptoResponse) :
    (o.settle lib request response effect).rows.request = none := rfl

end CryptoOwner

/-! ## Exactness -/

/-- The request that is retained after what was observed -/
def retainedNext : Option CryptoRequest → CryptoEvent → Option CryptoRequest
  | _, .retained r => some r
  | _, .applied _ _ => none
  | open', _ => open'

def retainedAfter (log : List CryptoEvent) : Option CryptoRequest := log.foldl retainedNext none

/-- A request is retained when there is none, sent while it is retained, and applied once. -/
def CryptoEvent.Exact (retained : Option CryptoRequest) : CryptoEvent → Prop
  | .marked _ => True
  | .retained _ => retained = none
  | .attempted r => retained = some r
  | .applied r _ => retained = some r

/-- What was observed before each event allows it. -/
def ExactLog (log : List CryptoEvent) : Prop :=
  ∀ before e after, log = before ++ e :: after → e.Exact (retainedAfter before)

/-- A log stays exact by an event that fits the request retained after it. -/
theorem exactLog_concat {log : List CryptoEvent} {e : CryptoEvent} (h : ExactLog log)
    (he : e.Exact (retainedAfter log)) : ExactLog (log ++ [e]) := by
  intro before e' after heq
  rcases List.eq_nil_or_concat after with rfl | ⟨init, last, rfl⟩
  · obtain ⟨hlog, hlast⟩ := List.append_inj' heq rfl
    obtain rfl := (List.cons.inj hlast).1
    rw [← hlog]
    exact he
  · rw [List.concat_eq_append, ← List.cons_append, ← List.append_assoc] at heq
    exact h before e' init (List.append_inj' heq rfl).1

/-- The request that is retained after one more event -/
theorem retainedAfter_concat (log : List CryptoEvent) (e : CryptoEvent) :
    retainedAfter (log ++ [e]) = retainedNext (retainedAfter log) e := by
  rw [retainedAfter, List.foldl_append]
  rfl

/-- The log is exact, it ends with the request of the row, and that is the one being sent. -/
structure Tracked (o : CryptoOwner) : Prop where
  exact : ExactLog o.log
  row : o.rows.request.map RetainedRequest.request = retainedAfter o.log

namespace Tracked

variable {o o' : CryptoOwner}

/-- The invariant is one of the log and of the retained row. -/
theorem congr (h : Tracked o) (hlog : o'.log = o.log) (hrows : o'.rows.request = o.rows.request) :
    Tracked o' := by
  constructor
  · rw [hlog]
    exact h.exact
  · rw [hlog, hrows]
    exact h.row

theorem absorb (h : Tracked o) (effect : OlmEffect) : Tracked (o.absorb effect) := by
  constructor
  · exact exactLog_concat h.exact trivial
  · show _ = retainedAfter (o.log ++ [.marked effect.marks])
    rw [retainedAfter_concat]
    exact h.row

theorem capture (h : Tracked o) : Tracked (o.capture lib) := h.congr rfl rfl

/-- The retained request may be attempted any number of times. -/
theorem attempted (h : Tracked o) {q : RetainedRequest} (hq : o.rows.request = some q) :
    Tracked (o.record (.attempted q.request)) := by
  have hrow := h.row
  rw [hq] at hrow
  constructor
  · exact exactLog_concat h.exact hrow.symm
  · show _ = retainedAfter (o.log ++ [.attempted q.request])
    rw [retainedAfter_concat]
    exact h.row

/-- A request may be retained where none is. -/
theorem retains (h : Tracked o) {r : CryptoRequest} {id fingerprint : Option Str}
    (hr : o.rows.request = none) (hlog : o'.log = o.log ++ [.retained r])
    (hrow : o'.rows.request = some ⟨r, id, fingerprint⟩) : Tracked o' := by
  have hnone := h.row
  rw [hr] at hnone
  constructor
  · rw [hlog]
    exact exactLog_concat h.exact hnone.symm
  · rw [hlog, hrow, retainedAfter_concat]
    rfl

/-- The retained request may be settled. -/
theorem settle (h : Tracked o) {request : CryptoRequest} {id fingerprint : Option Str}
    (hq : o.rows.request = some ⟨request, id, fingerprint⟩) (response : CryptoResponse)
    (effect : OlmEffect) : Tracked (o.settle lib request response effect) := by
  have hrow := h.row
  rw [hq] at hrow
  have hmark : ExactLog (o.log ++ [.marked effect.marks]) := exactLog_concat h.exact trivial
  constructor
  · rw [CryptoOwner.log_settle]
    refine exactLog_concat hmark ?_
    show retainedAfter _ = some request
    rw [retainedAfter_concat]
    exact hrow.symm
  · rw [CryptoOwner.log_settle, retainedAfter_concat]
    rfl

/-- A next step of the machine keeps the invariant, and its request is the retained one. -/
theorem next {x : Option (CryptoRequest × OutboundTask)} (h : Tracked o)
    (hn : CryptoOwner.Next lib P o o' x) :
    Tracked o' ∧ ∀ r next, x = some (r, next) → o'.rows.request.map (·.request) = some r := by
  cases hn with
  | «over» => exact ⟨h, fun r next hx => nomatch hx⟩
  | swept hr _ => exact ⟨h.congr rfl rfl, fun r next hx => nomatch hx⟩
  | again q next _ hq =>
    refine ⟨h, fun r next hx => ?_⟩
    obtain ⟨rfl, rfl⟩ := Prod.mk.inj (Option.some.inj hx)
    rw [hq]
    rfl
  | retains o₁ next _ hr h₁ henq =>
    have hsame : o₁.log = o.log ∧ o₁.rows = o.rows := by
      rcases h₁ with rfl | rfl | ⟨value, rfl⟩ <;> exact ⟨rfl, rfl⟩
    obtain ⟨hlog, id, fingerprint, hrow⟩ := henq.retains (by rw [hsame.2]; exact hr)
    rw [hsame.1] at hlog
    refine ⟨h.retains hr hlog hrow, fun r next hx => ?_⟩
    obtain ⟨rfl, rfl⟩ := Prod.mk.inj (Option.some.inj hx)
    rw [hrow]
    rfl

end Tracked

namespace OutboundCrypto

variable {w : OutboundCrypto}

/-- The request that is being sent is the retained one. -/
structure Tracked (w : OutboundCrypto) : Prop where
  owner : Durable.Tracked w.owner
  flight : ∀ r next, w.flight = some (r, next) →
    w.owner.rows.request.map RetainedRequest.request = some r

end OutboundCrypto

end Nio.Durable
