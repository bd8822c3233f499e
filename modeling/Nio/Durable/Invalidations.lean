import Mathlib.Data.List.Dedup
import Nio.Durable.RetainedRequests
import Nio.Py.Dict
import Nio.Py.JsonRoundtrip

/-!
# Users whose devices must be queried

A user that was marked stays in the set until a query for it is retained, and comes back to the set
if the answer to that query does not have it.

* `invalidations_kept` — when no mark is ever lost
-/

namespace Nio.Durable

open Nio.Py

variable {lib : CryptoLibrary} {P : Str → Prop}

/-! ## Where a mark is -/

/-- The retained query was retained after the mark and asks for the user. -/
def Awaited (row : Option RetainedRequest) (after : List CryptoEvent) (u : Str) : Prop :=
  ∃ mid rest q, after = mid ++ .retained q.request :: rest ∧ (∀ r users, .applied r users ∉ rest) ∧
    row = some q ∧ q.request.kind = .query ∧ u ∈ queriedUsers q.request

/-- A query that was retained after the mark has been answered, and the answer has the user. -/
def Answered (after : List CryptoEvent) (u : Str) : Prop :=
  ∃ mid r between users rest, after = mid ++ .retained r :: (between ++ .applied r users :: rest) ∧
    r.kind = .query ∧ u ∈ users

/-- Where a mark is after the events `after` it -/
def Kept (dirty : List Str) (row : Option RetainedRequest) (after : List CryptoEvent) (u : Str) :
    Prop :=
  u ∈ dirty ∨ Awaited row after u ∨ Answered after u

/-- Every mark of the log is somewhere. -/
def MarksKept (dirty : List Str) (row : Option RetainedRequest) (log : List CryptoEvent) : Prop :=
  ∀ before marked after u, log = before ++ .marked marked :: after → u ∈ marked →
    Kept dirty row after u

variable {dirty dirty' : List Str} {row row' : Option RetainedRequest} {log after : List CryptoEvent}
  {u : Str}

theorem Answered.concat (h : Answered after u) (e : CryptoEvent) : Answered (after ++ [e]) u := by
  obtain ⟨mid, r, between, users, rest, rfl, hk, hu⟩ := h
  exact ⟨mid, r, between, users, rest ++ [e], by simp, hk, hu⟩

/-- An event that retains and answers nothing -/
def CryptoEvent.Silent : CryptoEvent → Prop
  | .marked _ => True
  | .attempted _ => True
  | _ => False

/-- A silent event keeps what is kept. -/
theorem Kept.silent (h : Kept dirty row after u) {e : CryptoEvent} (he : e.Silent)
    (hd : ∀ u ∈ dirty, u ∈ dirty') : Kept dirty' row (after ++ [e]) u := by
  rcases h with hu | ⟨mid, rest, q, rfl, hrest, hq⟩ | h
  · exact .inl (hd u hu)
  · refine .inr (.inl ⟨mid, rest ++ [e], q, by simp, fun r users hmem => ?_, hq⟩)
    rcases List.mem_append.mp hmem with hmem | hmem
    · exact hrest r users hmem
    · rw [← List.mem_singleton.mp hmem] at he
      exact he
  · exact .inr (.inr (h.concat e))

/-- When a request is retained the user is still in the set, or the request asks for it. -/
theorem Kept.retained (h : Kept dirty none after u) {q : RetainedRequest}
    (hd : ∀ u ∈ dirty, u ∈ dirty' ∨ (q.request.kind = .query ∧ u ∈ queriedUsers q.request)) :
    Kept dirty' (some q) (after ++ [.retained q.request]) u := by
  rcases h with hu | ⟨mid, rest, q', -, -, hq, -⟩ | h
  · rcases hd u hu with hu | ⟨hk, hu⟩
    · exact .inl hu
    · exact .inr (.inl ⟨after, [], q, rfl, by simp, rfl, hk, hu⟩)
  · cases hq
  · exact .inr (.inr (h.concat _))

/-- When a request is answered the user is in the answer, or it is marked again. -/
theorem Kept.applied {q : RetainedRequest} (h : Kept dirty (some q) after u) {users : List Str}
    (hd : ∀ u ∈ dirty, u ∈ dirty')
    (hmissing : q.request.kind = .query → ∀ u ∈ queriedUsers q.request, u ∉ users → u ∈ dirty') :
    Kept dirty' none (after ++ [.applied q.request users]) u := by
  rcases h with hu | ⟨mid, rest, q', rfl, -, hq, hk, hu⟩ | h
  · exact .inl (hd u hu)
  · obtain rfl := Option.some.inj hq
    by_cases hmem : u ∈ users
    · exact .inr (.inr ⟨mid, q.request, rest, users, [], by simp, hk, hmem⟩)
    · exact .inl (hmissing hk u hu hmem)
  · exact .inr (.inr (h.concat _))

/-- A further event keeps the marks if it keeps the old ones and what it marks itself is dirty. -/
theorem marksKept_concat (h : MarksKept dirty row log) {e : CryptoEvent}
    (hold : ∀ after u, Kept dirty row after u → Kept dirty' row' (after ++ [e]) u)
    (hnew : ∀ marked, e = .marked marked → ∀ u ∈ marked, u ∈ dirty') :
    MarksKept dirty' row' (log ++ [e]) := by
  intro before marked after u heq hu
  rcases List.eq_nil_or_concat after with rfl | ⟨init, last, rfl⟩
  · obtain ⟨-, hlast⟩ := List.append_inj' heq rfl
    exact .inl (hnew marked (List.cons.inj hlast).1 u hu)
  · rw [List.concat_eq_append, ← List.cons_append, ← List.append_assoc] at heq
    obtain ⟨hlog, hlast⟩ := List.append_inj' heq rfl
    obtain rfl := (List.cons.inj hlast).1
    rw [List.concat_eq_append]
    exact hold init u (h before marked init u hlog hu)

/-- More dirty users keep more. -/
theorem MarksKept.congr (h : MarksKept dirty row log) (hd : ∀ u ∈ dirty, u ∈ dirty') :
    MarksKept dirty' row log := by
  intro before marked after u heq hu
  rcases h before marked after u heq hu with hu | h
  · exact .inl (hd u hu)
  · exact .inr h

/-! ## What a query asks for -/

/-- Sorting loses no user. -/
theorem mem_sortedUsers {users : List Str} : u ∈ sortedUsers users ↔ u ∈ users := by
  rw [sortedUsers, List.mem_insertionSort, List.mem_dedup]

theorem keys_dictOf {α : Type} (pairs : List (Str × α)) (k : Str) :
    k ∈ (dictOf pairs).map (·.1) ↔ k ∈ pairs.map (·.1) := by
  have key : ∀ (ps d : List (Str × α)),
      k ∈ (ps.foldl (fun d p => dictSet d p.1 p.2) d).map (·.1) ↔
        k ∈ d.map (·.1) ∨ k ∈ ps.map (·.1) := by
    intro ps
    induction ps with
    | nil => simp
    | cons p ps ih =>
      intro d
      rw [List.foldl_cons, ih, keys_dictSet]
      split
      · next hmem =>
        constructor
        · rintro (h | h)
          · exact .inl h
          · exact .inr (List.mem_cons_of_mem _ h)
        · rintro (h | h)
          · exact .inl h
          · rcases List.mem_cons.mp h with rfl | h
            · exact .inl hmem
            · exact .inr h
      · simp only [List.mem_append, List.map_cons, List.mem_cons, List.not_mem_nil, or_false,
          or_assoc]
  rw [dictOf, key]
  simp

/-- A query asks for the users that it was made for. -/
theorem queriedUsers_query {id : Str} {users : List Str} {token : Option Str} :
    u ∈ queriedUsers ⟨id, .query, (keysQuery users token).1, (keysQuery users token).2.1,
      (keysQuery users token).2.2⟩ ↔ u ∈ users := by
  have hget : ∀ rest : List (Str × Json),
      dictGet? ((py "device_keys", usersBody users) :: rest) (py "device_keys") =
        some (usersBody users) := fun rest => by
    rw [dictGet?_cons, if_pos rfl]
  unfold queriedUsers keysQuery
  dsimp only
  rw [hget]
  show u ∈ (dictOf _).map (·.1) ↔ _
  rw [keys_dictOf, List.map_map]
  simp

/-! ## Steps -/

namespace CryptoOwner

variable {o o' : CryptoOwner}

/-- A user of the set stays in it, or is asked for by the request that is retained. -/
theorem Enqueues.keepsDirty {r : CryptoRequest} (hr : o.rows.request = none)
    (h : Enqueues lib P o o' r) (hu : u ∈ o.live.usersForKeyQuery) :
    u ∈ o'.live.usersForKeyQuery ∨ (r.kind = .query ∧ u ∈ queriedUsers r) := by
  cases h with
  | upload view => exact .inl hu
  | query view users =>
    by_cases hq : u ∈ sortedUsers (users.getD o.live.usersForKeyQuery)
    · exact .inr ⟨rfl, queriedUsers_query.mpr hq⟩
    · refine .inl (List.mem_filter.mpr ⟨hu, ?_⟩)
      exact decide_eq_true hq
  | claim users => exact .inl hu
  | message m txId fingerprint _ _ h =>
    obtain ⟨value, -, heq⟩ := enqueueMessage_eq hr h
    obtain ⟨ho : o' = _, -⟩ := Prod.ext_iff.mp heq
    rw [ho, users_retainRequest, users_appendMessage]
    exact .inl hu
  | toDevice type content h =>
    obtain ⟨-, heq⟩ := enqueueToDevice_eq h
    obtain ⟨ho : o' = _, -⟩ := Prod.ext_iff.mp heq
    rw [ho]
    exact .inl hu

/-- Settling a request leaves the users that its effect marks, -/
theorem users_settle (request : CryptoRequest) (response : CryptoResponse) (effect : OlmEffect) :
    (o.settle lib request response effect).live.usersForKeyQuery =
      ((o.handleResponse lib response).markMissing request response
        o.live.usersForKeyQuery).live.usersForKeyQuery ++ effect.marks := rfl

/-- those that were dirty -/
theorem dirty_settle (request : CryptoRequest) (response : CryptoResponse) (effect : OlmEffect)
    (hu : u ∈ o.live.usersForKeyQuery) :
    u ∈ (o.settle lib request response effect).live.usersForKeyQuery := by
  rw [users_settle]
  refine List.mem_append_left _ ?_
  unfold markMissing
  split
  · exact List.mem_append_right _ (List.mem_append_left _ hu)
  · rw [users_handleResponse]
    exact hu

/-- The users that the answer misses are marked again. -/
theorem missing_settle {request : CryptoRequest} {users : List Str} (effect : OlmEffect)
    (hq : u ∈ queriedUsers request) (hu : u ∉ users) :
    u ∈ (o.settle lib request (.query users) effect).live.usersForKeyQuery := by
  rw [users_settle]
  refine List.mem_append_left _ (List.mem_append_right _ (List.mem_append_right _ ?_))
  exact List.mem_filter.mpr ⟨hq, decide_eq_true hu⟩

theorem marked_settle (request : CryptoRequest) (response : CryptoResponse) (effect : OlmEffect)
    (hu : u ∈ effect.marks) :
    u ∈ (o.settle lib request response effect).live.usersForKeyQuery := by
  rw [users_settle]
  exact List.mem_append_right _ hu

/-- The answer to a query that is no error is read as one. -/
theorem decodeAnswer_query {request : CryptoRequest} (hk : request.kind = .query)
    (message : Option Nat) (body : Json) :
    decodeAnswer request message body = .error ∨
      ∃ users, decodeAnswer request message body = .query users := by
  unfold decodeAnswer
  split
  · split
    · exact .inl rfl
    · rw [hk]
      dsimp only
      split
      · exact .inr ⟨_, rfl⟩
      · exact .inl rfl
  · exact .inl rfl

end CryptoOwner

namespace OutboundCrypto

variable {w : OutboundCrypto}

/-- Every mark is in the set, in the retained query, or answered. -/
def Marked (o : CryptoOwner) : Prop :=
  MarksKept o.live.usersForKeyQuery o.rows.request o.log

theorem marked_absorb {o : CryptoOwner} (h : Marked o) (effect : OlmEffect) :
    Marked (o.absorb effect) := by
  refine marksKept_concat h (fun after u hk => hk.silent trivial fun u hu => ?_) ?_
  · exact List.mem_append_left _ hu
  · rintro marked heq u hu
    obtain rfl := CryptoEvent.marked.inj heq
    exact List.mem_append_right _ hu

/-- Choosing the next request keeps every mark. -/
theorem marked_next {o o' : CryptoOwner} {x : Option (CryptoRequest × OutboundTask)} (h : Marked o)
    (hn : CryptoOwner.Next lib P o o' x) : Marked o' := by
  cases hn with
  | «over» => exact h
  | swept hr _ => exact h
  | again q next _ hq => exact h
  | @retains o₁ _ r next _ hr h₁ henq =>
    have hsame : o₁.log = o.log ∧ o₁.rows = o.rows ∧
        o₁.live.usersForKeyQuery = o.live.usersForKeyQuery := by
      rcases h₁ with rfl | rfl | ⟨value, rfl⟩ <;> exact ⟨rfl, rfl, rfl⟩
    obtain ⟨hlog, hrows, husers⟩ := hsame
    rw [← hrows] at hr
    obtain ⟨hlog', id, fingerprint, hrow⟩ := henq.retains hr
    unfold Marked
    rw [hlog', hrow]
    have hnone : MarksKept o₁.live.usersForKeyQuery none o₁.log := by
      rw [hlog, husers, ← hr, hrows]
      exact h
    refine marksKept_concat hnone (fun after u hk => ?_) (fun marked heq => nomatch heq)
    exact Kept.retained (q := ⟨r, id, fingerprint⟩) hk fun u hu => henq.keepsDirty hr hu

theorem marked_settle {o : CryptoOwner} {request : CryptoRequest} {id fingerprint : Option Str}
    {message : Option Nat} {body : Json} {response : CryptoResponse} (h : Marked o)
    (hq : o.rows.request = some ⟨request, id, fingerprint⟩)
    (hresponse : response = decodeAnswer request message body) (hne : response ≠ .error)
    (effect : OlmEffect) : Marked (o.settle lib request response effect) := by
  unfold Marked
  rw [CryptoOwner.log_settle, CryptoOwner.request_settle]
  have hmark : MarksKept (o.absorb effect).live.usersForKeyQuery
      (some ⟨request, id, fingerprint⟩) (o.log ++ [.marked effect.marks]) := by
    rw [← hq]
    exact marked_absorb h effect
  refine marksKept_concat hmark (fun after u hk => ?_) (fun marked heq => nomatch heq)
  refine Kept.applied (q := ⟨request, id, fingerprint⟩) hk (fun u hu => ?_)
    (fun hkind u hu hmissing => ?_)
  · rcases List.mem_append.mp hu with hu | hu
    · exact CryptoOwner.dirty_settle _ _ _ hu
    · exact CryptoOwner.marked_settle _ _ _ hu
  · rcases CryptoOwner.decodeAnswer_query hkind message body with herr | ⟨users, husers⟩
    · exact absurd (hresponse.trans herr) hne
    · rw [hresponse.trans husers] at hmissing ⊢
      exact CryptoOwner.missing_settle effect hu hmissing

theorem marked_launch {n : OutboundNext} (h : Marked w.owner)
    (hn : ∀ o' x, n = .ok (o', x) →
      CryptoOwner.Next lib (fun _ => True) w.owner o' x) :
    Marked (w.launch n).owner := by
  cases n with
  | error e => exact h
  | ok p =>
    obtain ⟨o', x⟩ := p
    have ho := marked_next h (hn o' x rfl)
    cases x with
    | none => exact ho
    | some p =>
      exact marksKept_concat ho (fun after u hk => hk.silent trivial fun u hu => hu)
        (fun marked heq => nomatch heq)

theorem marked_answer (h : Marked w.owner) (body : Json) (effect : OlmEffect) (view : OlmView) :
    Marked (w.answer lib body effect view).owner := by
  unfold answer
  split
  · exact h
  · next r next hf =>
    split
    · exact h
    · next o hs =>
      obtain ⟨id, fingerprint, response, hq, hresponse, hne, rfl⟩ := CryptoOwner.send_eq hs
      exact marked_launch (marked_settle h hq hresponse hne effect) fun o' x hn =>
        OutboundTask.proceed_next (.inl rfl) hn next.named_true

/-! ## Marks that a restart loses -/

/-- The users of the set that are stored -/
def storedDirty (rows : CryptoRows) : List Str :=
  (rows.facts.map Facts.usersForKeyQuery).getD []

/-- Every user that is marked in memory is marked in the stored facts. -/
def Saved (o : CryptoOwner) : Prop := ∀ u ∈ o.live.usersForKeyQuery, u ∈ storedDirty o.rows

instance (o : CryptoOwner) : Decidable (Saved o) :=
  inferInstanceAs (Decidable (∀ u ∈ o.live.usersForKeyQuery, u ∈ storedDirty o.rows))

/-- The session is opened again only when no mark is in memory alone. -/
def KeepsMarks (w : OutboundCrypto) : OutboundAction → Prop
  | .restart => Saved w.owner
  | _ => True

/-- A restart reads the dirty users of the last save. -/
theorem restore_users {rows : CryptoRows} {live : LiveCrypto}
    (h : CryptoOwner.restore rows = .ok live) : live.usersForKeyQuery = storedDirty rows := by
  unfold CryptoOwner.restore at h
  unfold storedDirty
  split at h
  · next hf =>
    rw [hf, ← Except.ok.inj h]
    rfl
  · next facts hf =>
    rw [hf]
    split at h
    · cases h
    · split at h
      · cases h
      · obtain ⟨p, -, rfl⟩ := CryptoOwner.map_eq_ok h
        rfl

/-- Every action keeps the marks, a restart where they were saved. -/
theorem marked_step (h : Marked w.owner) (a : OutboundAction) (hok : KeepsMarks w a) :
    Marked (w.step lib a).owner := by
  cases a with
  | restart =>
    show Marked w.restart.owner
    unfold restart
    split
    · next live hl =>
      refine MarksKept.congr h fun u hu => ?_
      rw [restore_users hl]
      exact hok u hu
    · exact h
  | crash => exact h
  | fail => exact h
  | construct message =>
    simp only [step]
    split <;> exact h
  | call call view =>
    simp only [step]
    split
    · exact marked_launch h fun o' x hn =>
        OutboundTask.start_next (call.named_of_forall fun _ => .inr trivial) hn
    · exact h
  | answer body effect view =>
    simp only [step]
    split
    · exact marked_answer h body effect view
    · exact h
  | sync effect =>
    simp only [step]
    split
    · exact marked_absorb h effect
    · exact h
  | decryptEvent effect =>
    simp only [step]
    split
    · exact marked_absorb h effect
    · exact h
  | joinedMembers untracked =>
    simp only [step]
    split
    · exact marked_absorb h _
    · exact h

/-! ### What is stored -/

/-- A capture saves the users. -/
theorem saved_capture (o : CryptoOwner) : Saved (o.capture lib) := fun _ hu =>
  mem_sortedUsers.mpr hu

/-- So does the next request, -/
theorem saved_next {o o' : CryptoOwner} {x : Option (CryptoRequest × OutboundTask)} (h : Saved o)
    (hn : CryptoOwner.Next lib P o o' x) : Saved o' := by
  cases hn with
  | «over» => exact h
  | swept hr _ => exact h
  | again q next _ hq => exact h
  | retains o₁ next _ hr h₁ henq =>
    have hrows : o₁.rows.request = none := by
      rcases h₁ with rfl | rfl | ⟨value, rfl⟩ <;> exact hr
    cases henq with
    | upload view => exact saved_capture _
    | query view users => exact saved_capture _
    | claim users => exact saved_capture _
    | message m txId fingerprint _ _ h =>
      obtain ⟨value, -, heq⟩ := CryptoOwner.enqueueMessage_eq hrows h
      obtain ⟨ho : o' = _, -⟩ := Prod.ext_iff.mp heq
      rw [ho]
      exact saved_capture _
    | toDevice type content h =>
      obtain ⟨-, heq⟩ := CryptoOwner.enqueueToDevice_eq h
      obtain ⟨ho : o' = _, -⟩ := Prod.ext_iff.mp heq
      rw [ho]
      exact saved_capture _

/-- and its launch. -/
theorem saved_launch {n : OutboundNext} (h : Saved w.owner)
    (hn : ∀ o' x, n = .ok (o', x) →
      CryptoOwner.Next lib (fun _ => True) w.owner o' x) :
    Saved (w.launch n).owner := by
  cases n with
  | error e => exact h
  | ok p =>
    obtain ⟨o', x⟩ := p
    have ho := saved_next h (hn o' x rfl)
    cases x with
    | none => exact ho
    | some p => exact ho

/-- Only `decrypt_event` marks users without storing them. -/
theorem saved_step (h : Saved w.owner) (a : OutboundAction)
    (ha : ∀ effect, a = .decryptEvent effect → effect.marks = []) : Saved (w.step lib a).owner := by
  cases a with
  | restart =>
    show Saved w.restart.owner
    unfold restart
    split
    · next live hl =>
      intro u hu
      rw [← restore_users hl]
      exact hu
    · exact h
  | crash => exact h
  | fail => exact h
  | construct message =>
    simp only [step]
    split <;> exact h
  | call call view =>
    simp only [step]
    split
    · exact saved_launch h fun o' x hn =>
        OutboundTask.start_next (call.named_of_forall fun _ => .inr trivial) hn
    · exact h
  | answer body effect view =>
    simp only [step]
    split
    · unfold answer
      split
      · exact h
      · next r next hf =>
        split
        · exact h
        · next o hs =>
          obtain ⟨id, fingerprint, response, -, -, -, rfl⟩ := CryptoOwner.send_eq hs
          exact saved_launch (saved_capture _) fun o' x hn =>
            OutboundTask.proceed_next (.inl rfl) hn next.named_true
    · exact h
  | sync effect =>
    simp only [step]
    split
    · exact saved_capture _
    · exact h
  | decryptEvent effect =>
    simp only [step]
    split
    · intro u hu
      have hu : u ∈ w.owner.live.usersForKeyQuery ++ effect.marks := hu
      rw [ha effect rfl, List.append_nil] at hu
      exact h u hu
    · exact h
  | joinedMembers untracked =>
    simp only [step]
    split
    · exact saved_capture _
    · exact h

/-- Without a decryption that marks users, every restart finds them saved. -/
theorem keepsMarks_of_saved (actions : List OutboundAction) (h : Saved w.owner)
    (ha : ∀ effect, .decryptEvent effect ∈ actions → effect.marks = []) :
    Lib.Along (step lib) KeepsMarks w actions := by
  induction actions generalizing w with
  | nil => trivial
  | cons a actions ih =>
    have hstep : Saved (w.step lib a).owner :=
      saved_step h a fun effect heq => ha effect (heq ▸ List.mem_cons_self)
    refine ⟨?_, ih hstep fun effect hmem => ha effect (List.mem_cons_of_mem _ hmem)⟩
    cases a <;> first | exact h | trivial

/-! ## The theorem -/

/-- What the answer to a query does to the set: no mark is cleared, and a user that was asked for
and is missing is marked. -/
def AnswerKeeps (lib : CryptoLibrary) (o : CryptoOwner) : Prop :=
  ∀ request body effect o', o.send lib request body effect = .ok o' →
    (∀ u ∈ o.live.usersForKeyQuery, u ∈ o'.live.usersForKeyQuery) ∧
    (request.kind = .query → ∃ users,
      o'.log = o.log ++ [.marked effect.marks] ++ [.applied request users] ∧
      ∀ u ∈ queriedUsers request, u ∉ users → u ∈ o'.live.usersForKeyQuery)

theorem answerKeeps (o : CryptoOwner) : AnswerKeeps lib o := by
  intro request body effect o' hs
  obtain ⟨id, fingerprint, response, hq, hresponse, hne, rfl⟩ := CryptoOwner.send_eq hs
  refine ⟨fun u hu => CryptoOwner.dirty_settle _ _ _ hu, fun hkind => ?_⟩
  refine ⟨response.users, CryptoOwner.log_settle _, fun u hu hmissing => ?_⟩
  rcases CryptoOwner.decodeAnswer_query hkind (o.pendingMessage id) body with herr | ⟨users, husers⟩
  · exact absurd (hresponse.trans herr) hne
  · rw [hresponse.trans husers] at hmissing ⊢
    exact CryptoOwner.missing_settle effect hu hmissing

theorem marked_fresh : Marked fresh.owner := by
  intro before marked after u heq
  exact absurd heq (by simp [fresh])

/-- If the session is only opened again when no mark is in memory alone, then every user that was
marked is in the set, in the body of a retained query that was retained after the mark, or in the
answer to such a query. Marks are in memory alone only after `decrypt_event`. -/
theorem invalidations_kept (lib : CryptoLibrary) (actions : List OutboundAction) :
    (Lib.Along (step lib) KeepsMarks fresh actions → Marked (run lib actions).owner) ∧
    AnswerKeeps lib (run lib actions).owner ∧
    ((∀ effect, .decryptEvent effect ∈ actions → effect.marks = []) →
      Lib.Along (step lib) KeepsMarks fresh actions) := by
  refine ⟨fun hok => ?_, answerKeeps _, fun ha => ?_⟩
  · exact Lib.run_invariant_along (P := fun w => Marked w.owner)
      (fun w a hok h => marked_step h a hok) hok marked_fresh
  · exact keepsMarks_of_saved actions (fun u hu => nomatch hu) ha

/-- A machine that has nothing to do but to query -/
def queryView : OlmView := ⟨false, [], [], none, .refused, none⟩

/-- Sync marks two users, and a query for them is retained. Meanwhile `decrypt_event` marks a third,
the next transaction stores it, and the session is opened again and sends the query. -/
def markAndReopen : List OutboundAction :=
  [.sync ⟨[py "@alice:x", py "@bob:x"], []⟩, .call .maintain queryView,
    .decryptEvent ⟨[py "@carol:x"], []⟩, .sync ⟨[], []⟩, .restart, .call .maintain queryView]

/-- The answer has one of the two users. -/
def partialAnswer : OutboundAction :=
  .answer (.obj [(py "device_keys", .obj [(py "@alice:x", .obj [])]), (py "failures", .obj [])])
    ⟨[], []⟩ queryView

/-- The third user is still marked after the answer, and so is the one that the answer misses. -/
theorem invalidations_kept_reopened :
    (Marked (run countingLibrary markAndReopen).owner ∧
      (run countingLibrary markAndReopen).owner.live.usersForKeyQuery = [py "@carol:x"] ∧
      (run countingLibrary markAndReopen).owner.rows.request.map (fun q => queriedUsers q.request) =
        some [py "@alice:x", py "@bob:x"]) ∧
    Marked (run countingLibrary (markAndReopen ++ [partialAnswer])).owner ∧
    AnswerKeeps countingLibrary (run countingLibrary markAndReopen).owner ∧
    (run countingLibrary (markAndReopen ++ [partialAnswer])).owner.rows.request.isNone = true ∧
    ∀ u ∈ [py "@bob:x", py "@carol:x"],
      u ∈ (run countingLibrary (markAndReopen ++ [partialAnswer])).owner.live.usersForKeyQuery := by
  have hsaved : Saved (run countingLibrary (markAndReopen.take 4)).owner := by decide +kernel
  obtain ⟨hmarked, hanswer, -⟩ := invalidations_kept countingLibrary markAndReopen
  obtain ⟨hmarked', -, -⟩ := invalidations_kept countingLibrary (markAndReopen ++ [partialAnswer])
  refine ⟨⟨hmarked ?_, by decide +kernel, by decide +kernel⟩, hmarked' ?_, hanswer,
    by decide +kernel, by decide +kernel⟩
  · exact ⟨trivial, trivial, trivial, trivial, hsaved, trivial, trivial⟩
  · exact ⟨trivial, trivial, trivial, trivial, hsaved, trivial, trivial, trivial⟩

/-- `decrypt_event` does not know the device of an event and marks its user; then the session is
opened again. -/
def decryptAndReopen : List OutboundAction := [.decryptEvent ⟨[py "@alice:x"], []⟩, .restart]

/-- A mark of a decryption is lost at a restart before the next save. -/
theorem decrypted_mark_lost : ¬ Marked (run countingLibrary decryptAndReopen).owner := by
  intro h
  rcases h [] [py "@alice:x"] [] (py "@alice:x") rfl (List.mem_singleton.mpr rfl) with h | h | h
  · cases h
  · obtain ⟨mid, rest, q, heq, -⟩ := h
    simp at heq
  · obtain ⟨mid, r, between, users, rest, heq, -⟩ := h
    simp at heq

end OutboundCrypto

end Nio.Durable
