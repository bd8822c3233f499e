import Nio.Crypto.GroupRevocation

/-!
# The requests of a share

`share_group_session_parallel` is a generator. It goes over the devices of the listed users once,
and each request that it yields is built from the next twenty of the devices that it kept.

* `recipients_eq` — the loop is a filter, although it adds to the set that it tests
* `shareRequests_exact_iff` — when the requests are for exactly the devices that lack the key
-/

namespace Nio.Crypto

open Nio.Py
open Nio.Lib
open Nio.Store (Mark)

/-! ## Requests -/

/-- What one turn of the second loop yields -/
structure ShareRequest (α : Type) where
  /-- The slice of `user_map`, which is encrypted for in this order -/
  userMap : List OlmDevice
  /-- `sharing_with`, a set -/
  sharingWith : List (Str × Str)
  /-- `to_device_dict["messages"]` -/
  messages : List (Str × List (Str × α))

namespace ShareRequest

variable {α σ : Type}

def empty : ShareRequest α := ⟨[], [], []⟩

/-- `sharing_with` and the messages after the next device -/
def add (request : ShareRequest α) (d : OlmDevice) (message : α) : ShareRequest α where
  userMap := request.userMap ++ [d]
  sharingWith := if d.key ∈ request.sharingWith then request.sharingWith
    else request.sharingWith ++ [d.key]
  messages := dictSet request.messages d.userId
    (dictSet ((dictGet? request.messages d.userId).getD []) d.deviceId message)

/-- The body of the loop over the chunks: `encrypt` is `_olm_encrypt` for the room key. -/
def build (encrypt : σ → OlmDevice → σ × α) (olm : σ) (devices : List OlmDevice) :
    σ × ShareRequest α :=
  devices.foldl (fun acc d =>
    let (olm, message) := encrypt acc.1 d
    (olm, acc.2.add d message)) (olm, empty)

/-- The ids under which the body has a message -/
def Addresses (request : ShareRequest α) (key : Str × Str) : Prop :=
  ∃ inner, dictGet? request.messages key.1 = some inner ∧ (dictGet? inner key.2).isSome

end ShareRequest

/-- The second loop, run to its end -/
def shareChunks {α σ : Type} (encrypt : σ → OlmDevice → σ × α) (olm : σ)
    (parts : List (List OlmDevice)) : σ × List (ShareRequest α) :=
  parts.foldl (fun acc part =>
    let (olm, request) := ShareRequest.build encrypt acc.1 part
    (olm, acc.2 ++ [request])) (olm, [])

/-- `share_group_session_parallel`, with the requests of a caller that takes all of them. What Olm
sessions do with a message is left open. -/
def GroupMachine.shareRequests {α σ : Type} (env : KeyQueryEnv)
    (encrypt : σ → OlmDevice → σ × α) (m : GroupMachine) (olm : σ) (roomId : Str)
    (users : List Str) (ignoreUnverifiedDevices : Bool) :
    GroupMachine × σ × Except ShareError (List (ShareRequest α)) :=
  let (m, i) := m.shareable roomId
  let rs := recipients env m (m.session i) users ignoreUnverifiedDevices
  let m := m.modify i (.setIgnored rs.ignored)
  if rs.refused then (m, olm, .error .unverified)
  else
    match ignoreDevices m.keeper rs.markAsIgnored with
    | .error _ => (m, olm, .error .assertion)
    | .ok keeper =>
      let (olm, requests) := shareChunks encrypt olm (chunks 20 rs.userMap.length rs.userMap)
      ({ m with keeper }, olm, .ok requests)

/-! ## The first loop -/

/-- The tests of the loop other than that of the device id: the device is to have the key and lacks
it. -/
def lacksKey (m : GroupMachine) (s : OutboundGroupSession) (d : OlmDevice) : Bool :=
  !m.isBlacklisted d && (d.key ∉ s.usersSharedWith && d.key ∉ s.usersIgnored) && m.hasOlmSession d

/-- A device that nobody has decided about -/
def unsettled (m : GroupMachine) (d : OlmDevice) : Bool :=
  !isMarked m.keeper.deviceKeys .verified d && !isMarked m.keeper.deviceKeys .ignored d

/-- The devices that the loop keeps -/
def kept (env : KeyQueryEnv) (m : GroupMachine) (s : OutboundGroupSession) (d : OlmDevice) : Bool :=
  d.deviceId ≠ env.deviceId && lacksKey m s d

theorem isBlacklisted_of_key {m : GroupMachine} {d d' : OlmDevice} (h : d'.key = d.key) :
    m.isBlacklisted d' = m.isBlacklisted d := by
  unfold GroupMachine.isBlacklisted isMarked
  rw [h]

/-- What the loop adds to the ignored set has no effect on the devices that come later: a device
with the same ids takes the same early branch. -/
theorem recipient_eq {env : KeyQueryEnv} {m : GroupMachine} {s : OutboundGroupSession}
    {ignored : List (Str × Str)} {ign : Bool} {d : OlmDevice}
    (hstart : s.usersIgnored ⊆ ignored)
    (hignored : ∀ k ∈ ignored, k ∈ s.usersIgnored ∨ ∃ d' : OlmDevice, d'.key = k ∧
      (d'.deviceId = env.deviceId ∨ m.isBlacklisted d' = true)) :
    match recipient env m s.usersSharedWith ignored ign d with
    | .ignored | .known | .missingSession => kept env m s d = false
    | .unverified => kept env m s d = true ∧ unsettled m d = true ∧ ign = false
    | .send mark => kept env m s d = true ∧ unsettled m d = mark ∧ (mark = true → ign = true) := by
  unfold recipient kept lacksKey
  by_cases hown : d.deviceId = env.deviceId
  · rw [if_pos hown]
    simp [hown]
  · rw [if_neg hown]
    by_cases hblack : m.isBlacklisted d = true
    · rw [if_pos hblack]
      simp [hblack]
    · rw [if_neg hblack]
      have hsame : d.key ∈ ignored ↔ d.key ∈ s.usersIgnored := by
        refine ⟨fun hk => ?_, fun hk => hstart hk⟩
        rcases hignored _ hk with h | ⟨d', hkey, h | h⟩
        · exact h
        · exact absurd ((congrArg Prod.snd hkey).symm.trans h) hown
        · exact absurd ((isBlacklisted_of_key hkey).symm.trans h) hblack
      by_cases hknown : d.key ∈ s.usersSharedWith ∨ d.key ∈ ignored
      · rw [if_pos hknown]
        rw [hsame] at hknown
        rcases hknown with h | h <;> simp [h]
      · rw [if_neg hknown]
        rw [hsame, not_or] at hknown
        have hblack : m.isBlacklisted d = false := by simpa using hblack
        cases holm : m.hasOlmSession d with
        | false => simp
        | true =>
          cases hv : isMarked m.keeper.deviceKeys .verified d with
          | true => simp [hown, hblack, hknown, unsettled, hv]
          | false =>
            cases hi : isMarked m.keeper.deviceKeys .ignored d with
            | true => simp [hown, hblack, hknown, unsettled, hv, hi]
            | false => cases ign <;> simp [hown, hblack, hknown, unsettled, hv, hi]

/-- The loop keeps the devices that pass its tests, in their order, unless one of them is to be
refused. -/
theorem recipients_eq (env : KeyQueryEnv) (m : GroupMachine) (s : OutboundGroupSession)
    (ign : Bool) (devices : List OlmDevice) :
    let rs := devices.foldl (Recipients.add env m s.usersSharedWith ign) ⟨s.usersIgnored, [], [], false⟩
    rs.refused = (!ign && devices.any fun d => kept env m s d && unsettled m d) ∧
    (rs.refused = false → rs.userMap = devices.filter (kept env m s) ∧
      rs.markAsIgnored = devices.filter fun d => kept env m s d && unsettled m d) := by
  induction devices using List.reverseRecOn with
  | nil => simp
  | append_singleton devices d ih =>
    have hg := gathered_foldl env m s.usersSharedWith s.usersIgnored ign devices
    rw [List.foldl_concat]
    generalize devices.foldl (Recipients.add env m s.usersSharedWith ign)
      ⟨s.usersIgnored, [], [], false⟩ = rs at ih hg
    obtain ⟨hrefused, hlists⟩ := ih
    have hr := @recipient_eq env m s rs.ignored ign d hg.start fun k hk =>
      (hg.ignored k hk).imp_right fun ⟨d', _, h⟩ => ⟨d', h⟩
    unfold Recipients.add
    cases hwas : rs.refused with
    | true =>
      rw [hwas] at hrefused
      have hany := (Bool.and_eq_true _ _).mp hrefused.symm
      simp [hwas, List.any_append, hany.1, hany.2]
    | false =>
      rw [hwas] at hrefused
      obtain ⟨hmap, hmark⟩ := hlists hwas
      rw [if_neg (by simp)]
      cases hrec : recipient env m s.usersSharedWith rs.ignored ign d with
      | ignored =>
        rw [hrec] at hr
        simp [hmap, hmark, hr, List.any_append, List.filter_append, ← hrefused]
      | known =>
        rw [hrec] at hr
        simp [hwas, hmap, hmark, hr, List.any_append, List.filter_append, ← hrefused]
      | missingSession =>
        rw [hrec] at hr
        simp [hwas, hmap, hmark, hr, List.any_append, List.filter_append, ← hrefused]
      | unverified =>
        rw [hrec] at hr
        simp [hr.1, hr.2.1, hr.2.2, List.any_append]
      | send mark =>
        rw [hrec] at hr
        obtain ⟨hkept, hmarked, hign⟩ := hr
        cases mark with
        | true =>
          have hign := hign rfl
          simp [hmap, hmark, hkept, hmarked, hign, List.filter_append]
        | false =>
          simp only [List.any_append, Bool.and_or_distrib_left, ← hrefused]
          simp [hmap, hmark, hkept, hmarked, List.filter_append]

/-! ## The second loop -/

/-- What one chunk of devices has become -/
structure ShareRequest.Built {α : Type} (devices : List OlmDevice) (request : ShareRequest α) :
    Prop where
  userMap : request.userMap = devices
  sharingWith : ∀ k, k ∈ request.sharingWith ↔ k ∈ devices.map OlmDevice.key
  size : request.sharingWith.length ≤ devices.length
  body : ∀ k, request.Addresses k ↔ k ∈ devices.map OlmDevice.key

theorem ShareRequest.addresses_add {α : Type} (request : ShareRequest α) (d : OlmDevice)
    (message : α) (k : Str × Str) :
    (request.add d message).Addresses k ↔ k = d.key ∨ request.Addresses k := by
  obtain ⟨u, i⟩ := k
  unfold ShareRequest.Addresses ShareRequest.add OlmDevice.key
  simp only [dictGet?_dictSet, Prod.mk.injEq]
  by_cases hu : u = d.userId
  · subst hu
    simp only [if_true, Option.some.injEq, exists_eq_left', dictGet?_dictSet, true_and]
    by_cases hi : i = d.deviceId
    · simp [hi]
    · simp only [hi, if_false, false_or]
      cases dictGet? request.messages d.userId with
      | none => simp [dictGet?]
      | some inner => simp
  · simp [hu]

theorem ShareRequest.built {α σ : Type} (encrypt : σ → OlmDevice → σ × α) (olm : σ)
    (devices : List OlmDevice) : (ShareRequest.build encrypt olm devices).2.Built devices := by
  unfold ShareRequest.build
  induction devices using List.reverseRecOn with
  | nil => exact ⟨rfl, by simp [empty], by simp [empty], by simp [empty, Addresses, dictGet?]⟩
  | append_singleton devices d ih =>
    rw [List.foldl_concat]
    generalize devices.foldl (fun acc d =>
      let (olm, message) := encrypt acc.1 d
      (olm, acc.2.add d message)) (olm, empty) = acc at ih
    refine ⟨?_, fun k => ?_, ?_, fun k => ?_⟩
    · show acc.2.userMap ++ [d] = _
      rw [ih.userMap]
    · show k ∈ (if d.key ∈ acc.2.sharingWith then _ else _) ↔ _
      rw [List.map_append, List.mem_append, ← ih.sharingWith]
      split
      · next hd =>
        simp only [List.map_cons, List.map_nil, List.mem_singleton]
        exact ⟨Or.inl, fun h => h.elim id fun h => h ▸ hd⟩
      · simp
    · show (if d.key ∈ acc.2.sharingWith then _ else _ : List (Str × Str)).length ≤ _
      have := ih.size
      rw [List.length_append]
      split <;> simp <;> omega
    · show (acc.2.add d _).Addresses k ↔ _
      rw [ShareRequest.addresses_add, ih.body]
      simp [or_comm]

theorem shareChunks_built {α σ : Type} (encrypt : σ → OlmDevice → σ × α) (olm : σ)
    (parts : List (List OlmDevice)) :
    List.Forall₂ ShareRequest.Built parts (shareChunks encrypt olm parts).2 := by
  unfold shareChunks
  induction parts using List.reverseRecOn with
  | nil => exact .nil
  | append_singleton parts part ih =>
    rw [List.foldl_concat]
    exact List.rel_append ih (.cons (ShareRequest.built encrypt _ part) .nil)

theorem length_of_mem_chunks {α : Type} {n fuel : Nat} {xs part : List α}
    (h : part ∈ chunks n fuel xs) : part.length ≤ n := by
  induction fuel generalizing xs with
  | zero => cases h
  | succ fuel ih =>
    unfold chunks at h
    split at h
    · cases h
    · rcases List.mem_cons.mp h with rfl | h
      · exact List.length_take_le n xs
      · exact ih h

theorem map_chunks {α β : Type} (f : α → β) (n fuel : Nat) (xs : List α) :
    chunks n fuel (xs.map f) = (chunks n fuel xs).map (List.map f) := by
  induction fuel generalizing xs with
  | zero => rfl
  | succ fuel ih =>
    unfold chunks
    rw [List.isEmpty_map, ← List.map_drop, ih, ← List.map_take]
    split
    · rfl
    · rfl

/-- The same computation as that of the coroutine that sends the requests, which looks at the ids
only -/
theorem shareRequests_parallel {α σ : Type} (env : KeyQueryEnv) (encrypt : σ → OlmDevice → σ × α)
    (m : GroupMachine) (olm : σ) (r : Str) (users : List Str) (ign : Bool) :
    let before := m.shareGroupSessionParallel env r users ign
    let out := m.shareRequests env encrypt olm r users ign
    out.1 = before.1 ∧ before.2 = out.2.2.map fun requests =>
      ((m.shareable r).2, requests.map fun request => request.userMap.map OlmDevice.key) := by
  unfold GroupMachine.shareGroupSessionParallel GroupMachine.shareRequests
  generalize m.shareable r = p
  obtain ⟨m₁, i⟩ := p
  dsimp only
  generalize recipients env m₁ (m₁.session i) users ign = rs
  by_cases hrefused : rs.refused = true
  · rw [if_pos hrefused, if_pos hrefused]
    exact ⟨rfl, rfl⟩
  · rw [if_neg hrefused, if_neg hrefused]
    cases ignoreDevices (m₁.modify i (.setIgnored rs.ignored)).keeper rs.markAsIgnored with
    | error e => exact ⟨rfl, rfl⟩
    | ok keeper =>
      have hbuilt := shareChunks_built encrypt olm (chunks 20 rs.userMap.length rs.userMap)
      refine ⟨rfl, congrArg (fun parts => Except.ok (i, parts)) ?_⟩
      rw [map_chunks]
      generalize (shareChunks encrypt olm (chunks 20 rs.userMap.length rs.userMap)).2 = requests
        at hbuilt ⊢
      generalize chunks 20 rs.userMap.length rs.userMap = parts at hbuilt ⊢
      induction hbuilt with
      | nil => rfl
      | cons h _ ih => rw [List.map_cons, List.map_cons, ih, h.userMap]

/-! ## Exactness -/

/-- The devices that lack the key: the active devices of the listed users other than our own device
that are not blacklisted, do not have the key, are not ignored and have an Olm session. -/
def targets (env : KeyQueryEnv) (m : GroupMachine) (s : OutboundGroupSession) (users : List Str) :
    List OlmDevice :=
  (users.flatMap (activeUserDevices m.keeper.deviceStore)).filter fun d =>
    d.key ≠ (env.userId, env.deviceId) && lacksKey m s d

/-- The requests are for the given devices. -/
structure Exact {α : Type} (devices : List OlmDevice) (requests : List (ShareRequest α)) : Prop where
  union : ∀ k, (∃ request ∈ requests, k ∈ request.sharingWith) ↔ k ∈ devices.map OlmDevice.key
  /-- No device is encrypted for a second time, in the same request or in another one. -/
  once : (requests.flatMap fun request => request.userMap.map OlmDevice.key).Nodup
  size : ∀ request ∈ requests, request.userMap.length ≤ 20 ∧ request.sharingWith.length ≤ 20
  body : ∀ request ∈ requests, ∀ k, request.Addresses k ↔ k ∈ request.sharingWith

/-- The share refuses to go on before anything was encrypted, or its requests are exact. -/
structure Shares {α σ : Type} (env : KeyQueryEnv) (m : GroupMachine) (s : OutboundGroupSession)
    (users : List Str) (ign : Bool) (olm : σ)
    (out : σ × Except ShareError (List (ShareRequest α))) : Prop where
  refuses : ign = false → (∃ d ∈ targets env m s users, unsettled m d = true) →
    out = (olm, .error .unverified)
  sends : ¬ (ign = false ∧ ∃ d ∈ targets env m s users, unsettled m d = true) →
    ∃ requests, out.2 = .ok requests ∧ Exact (targets env m s users) requests

/-- No device of another user stands in the way: where a device has to be refused there is one whose
id is not ours, and else no device has our id, no user with a device is listed twice, and the store
has a row for each device that is to be ignored from now on. -/
structure Distinct (env : KeyQueryEnv) (m : GroupMachine) (s : OutboundGroupSession)
    (users : List Str) (ign : Bool) : Prop where
  refused : ign = false → (∃ d ∈ targets env m s users, unsettled m d = true) →
    ∃ d ∈ targets env m s users, unsettled m d = true ∧ d.deviceId ≠ env.deviceId
  sent : ¬ (ign = false ∧ ∃ d ∈ targets env m s users, unsettled m d = true) →
    ∀ d ∈ targets env m s users, d.deviceId ≠ env.deviceId ∧ users.count d.userId = 1 ∧
      (unsettled m d = true → (lookup DeviceKeys.key d.key m.keeper.deviceKeys).isSome)

/-- With distinct devices, a list of active devices repeats one exactly when it repeats its user. -/
theorem nodup_active_iff {store : List OlmDevice} (hstore : (store.map OlmDevice.key).Nodup)
    (p : OlmDevice → Bool) (users : List Str) :
    (((users.flatMap (activeUserDevices store)).filter p).map OlmDevice.key).Nodup ↔
      ∀ d ∈ (users.flatMap (activeUserDevices store)).filter p, users.count d.userId = 1 := by
  have hone : ∀ u, (((activeUserDevices store u).filter p).map OlmDevice.key).Nodup := fun u =>
    hstore.sublist ((List.filter_sublist.trans List.filter_sublist).map OlmDevice.key)
  have hdisjoint : ∀ u v, List.Disjoint (((activeUserDevices store u).filter p).map OlmDevice.key)
      (((activeUserDevices store v).filter p).map OlmDevice.key) ↔
      (u = v → (activeUserDevices store u).filter p = []) := by
    intro u v
    constructor
    · rintro h rfl
      rw [List.eq_nil_iff_forall_not_mem]
      exact fun d hd => h (List.mem_map_of_mem hd) (List.mem_map_of_mem hd)
    · intro h k hk hk'
      obtain ⟨d, hd, rfl⟩ := List.mem_map.mp hk
      obtain ⟨d', hd', hkey⟩ := List.mem_map.mp hk'
      have hu := (mem_activeUserDevices.mp (List.mem_of_mem_filter hd)).2.1
      have hv := (mem_activeUserDevices.mp (List.mem_of_mem_filter hd')).2.1
      have huv : u = v := hu.symm.trans ((congrArg Prod.fst hkey).symm.trans hv)
      rw [h huv] at hd
      cases hd
  rw [List.filter_flatMap, List.map_flatMap, List.nodup_flatMap]
  constructor
  · rintro ⟨-, hpair⟩ d hd
    have hpair := hpair.imp fun h => (hdisjoint _ _).mp h
    obtain ⟨u, hu, hdu⟩ := List.mem_flatMap.mp hd
    have huser := (mem_activeUserDevices.mp (List.mem_of_mem_filter hdu)).2.1
    rw [huser]
    refine le_antisymm (not_lt.mp fun htwo => ?_) (List.count_pos_iff.mpr hu)
    have hsub : [u, u].Sublist users := List.replicate_sublist_iff.mpr htwo
    have hnil := (List.pairwise_iff_forall_sublist.mp hpair) hsub rfl
    rw [hnil] at hdu
    cases hdu
  · intro h
    refine ⟨fun u _ => hone u, List.Pairwise.imp (fun h => (hdisjoint _ _).mpr h)
      (List.pairwise_iff_forall_sublist.mpr ?_)⟩
    rintro u v hsub rfl
    rw [List.eq_nil_iff_forall_not_mem]
    intro d hd
    have htwo : 2 ≤ users.count u := List.replicate_sublist_iff.mp hsub
    have hu : u ∈ users := hsub.subset List.mem_cons_self
    have hcount := h d (List.mem_flatMap.mpr ⟨u, hu, hd⟩)
    rw [(mem_activeUserDevices.mp (List.mem_of_mem_filter hd)).2.1] at hcount
    omega

/-- The requests for a list of devices are exact for another one if both have the same ids and the
first one repeats none. -/
theorem exact_iff {α σ : Type} (encrypt : σ → OlmDevice → σ × α) (olm : σ)
    (sent devices : List OlmDevice) :
    Exact devices (shareChunks encrypt olm (chunks 20 sent.length sent)).2 ↔
      (∀ k, k ∈ sent.map OlmDevice.key ↔ k ∈ devices.map OlmDevice.key) ∧
        (sent.map OlmDevice.key).Nodup := by
  have hbuilt := shareChunks_built encrypt olm (chunks 20 sent.length sent)
  have hflat : (chunks 20 sent.length sent).flatten = sent := chunks_flatten (by decide) le_rfl
  have hsize : ∀ part ∈ chunks 20 sent.length sent, part.length ≤ 20 := fun _ =>
    length_of_mem_chunks
  generalize (shareChunks encrypt olm (chunks 20 sent.length sent)).2 = requests at hbuilt ⊢
  generalize chunks 20 sent.length sent = parts at hbuilt hflat hsize
  subst hflat
  have hunion : ∀ k, (∃ request ∈ requests, k ∈ request.sharingWith) ↔
      k ∈ parts.flatten.map OlmDevice.key := by
    intro k
    clear hsize
    induction hbuilt with
    | nil => simp
    | cons h _ ih => simp [h.sharingWith, ih, or_and_right, exists_or]
  have honce : requests.flatMap (fun request => request.userMap.map OlmDevice.key)
      = parts.flatten.map OlmDevice.key := by
    clear hsize hunion
    induction hbuilt with
    | nil => rfl
    | cons h _ ih => rw [List.flatMap_cons, List.flatten_cons, List.map_append, h.userMap, ih]
  have hall : ∀ request ∈ requests, ∃ part ∈ parts, request.Built part := by
    clear hsize hunion honce
    induction hbuilt with
    | nil => simp
    | cons h _ ih =>
      rw [List.forall_mem_cons]
      exact ⟨⟨_, List.mem_cons_self, h⟩, fun request hr =>
        (ih request hr).imp fun part hp => ⟨List.mem_cons_of_mem _ hp.1, hp.2⟩⟩
  constructor
  · intro h
    exact ⟨fun k => (hunion k).symm.trans (h.union k), honce ▸ h.once⟩
  · rintro ⟨hsame, hnodup⟩
    refine ⟨fun k => (hunion k).trans (hsame k), honce ▸ hnodup, fun request hr => ?_,
      fun request hr k => ?_⟩
    · obtain ⟨part, hpart, hb⟩ := hall request hr
      rw [hb.userMap]
      exact ⟨hsize part hpart, hb.size.trans (hsize part hpart)⟩
    · obtain ⟨part, -, hb⟩ := hall request hr
      rw [hb.body, hb.sharingWith]

theorem ignoreDevices_isOk_iff {keeper : DeviceKeeper} {devices : List OlmDevice} :
    (∃ keeper', ignoreDevices keeper devices = .ok keeper') ↔
      ∀ d ∈ devices, (lookup DeviceKeys.key d.key keeper.deviceKeys).isSome := by
  unfold ignoreDevices
  split
  · next h => exact ⟨fun _ => h, fun _ => ⟨_, rfl⟩⟩
  · next h => exact ⟨(by rintro ⟨_, h'⟩; cases h'), fun h' => absurd h' h⟩

/-- The requests of a share, in terms of the devices that the first loop keeps -/
theorem shareRequests_cases {α σ : Type} (env : KeyQueryEnv) (encrypt : σ → OlmDevice → σ × α)
    (m : GroupMachine) (olm : σ) (r : Str) (users : List Str) (ign : Bool) :
    let s := (m.shareable r).1.session (m.shareable r).2
    let devices := users.flatMap (activeUserDevices m.keeper.deviceStore)
    let sent := devices.filter (kept env m s)
    let out := (m.shareRequests env encrypt olm r users ign).2
    if (!ign && devices.any fun d => kept env m s d && unsettled m d) = true then
      out = (olm, .error .unverified)
    else if ∀ d ∈ devices.filter (fun d => kept env m s d && unsettled m d),
        (lookup DeviceKeys.key d.key m.keeper.deviceKeys).isSome then
      out.2 = .ok (shareChunks encrypt olm (chunks 20 sent.length sent)).2
    else out = (olm, .error .assertion) := by
  intro s devices sent out
  obtain ⟨hkeeper, holm⟩ := m.shareable_keeper r
  obtain ⟨⟨m₁, i⟩, hshare⟩ : ∃ p, m.shareable r = p := ⟨_, rfl⟩
  have hkept : kept env m₁ s = kept env m s := by
    funext d
    unfold kept lacksKey GroupMachine.isBlacklisted GroupMachine.hasOlmSession
    rw [hshare] at hkeeper holm
    rw [hkeeper, holm]
  have hunsettled : unsettled m₁ = unsettled m := by
    funext d
    unfold unsettled
    rw [hshare] at hkeeper
    rw [hkeeper]
  have hs : s = m₁.session i := by
    show (m.shareable r).1.session (m.shareable r).2 = _
    rw [hshare]
  rw [hshare] at hkeeper
  have hloop := recipients_eq env m₁ s ign devices
  have hdevices : devices = users.flatMap (activeUserDevices m₁.keeper.deviceStore) := by
    rw [hkeeper]
  have hrs : devices.foldl (Recipients.add env m₁ s.usersSharedWith ign) ⟨s.usersIgnored, [], [], false⟩
      = recipients env m₁ (m₁.session i) users ign := by
    rw [hdevices, hs]
    rfl
  rw [hrs, hkept, hunsettled] at hloop
  obtain ⟨hrefused, hlists⟩ := hloop
  have hout : out = (m.shareRequests env encrypt olm r users ign).2 := rfl
  unfold GroupMachine.shareRequests at hout
  rw [hshare] at hout
  dsimp only at hout
  rw [← hrefused]
  cases hr : (recipients env m₁ (m₁.session i) users ign).refused with
  | true =>
    rw [if_pos rfl, hout, if_pos hr]
  | false =>
    obtain ⟨hmap, hmark⟩ := hlists hr
    rw [if_neg (by simp)]
    rw [if_neg (by simp [hr]), hmap, hmark] at hout
    have hk : (m₁.modify i (.setIgnored (recipients env m₁ (m₁.session i) users ign).ignored)).keeper
        = m.keeper := hkeeper
    rw [hk] at hout
    cases hign : ignoreDevices m.keeper
        (devices.filter fun d => kept env m s d && unsettled m d) with
    | error e =>
      rw [hign] at hout
      rw [if_neg fun h => ?_, hout]
      obtain ⟨keeper', hk'⟩ := ignoreDevices_isOk_iff.mpr h
      rw [hign] at hk'
      cases hk'
    | ok keeper' =>
      rw [hign] at hout
      rw [if_pos (ignoreDevices_isOk_iff.mp ⟨keeper', hign⟩), hout]

/-- The requests of a share are exact if and only if the devices of the listed users can be told
from ours by their ids alone, and no user with one of them is listed twice. They are the requests of
`shareGroupSessionParallel` with their bodies. -/
theorem shareRequests_exact_iff {α σ : Type} (env : KeyQueryEnv) (encrypt : σ → OlmDevice → σ × α)
    (m : GroupMachine) (olm : σ) (r : Str) (users : List Str) (ign : Bool)
    (hstore : (m.keeper.deviceStore.map OlmDevice.key).Nodup) :
    (Shares env m ((m.shareable r).1.session (m.shareable r).2) users ign olm
        (m.shareRequests env encrypt olm r users ign).2 ↔
      Distinct env m ((m.shareable r).1.session (m.shareable r).2) users ign) ∧
    let before := m.shareGroupSessionParallel env r users ign
    let out := m.shareRequests env encrypt olm r users ign
    out.1 = before.1 ∧ before.2 = out.2.2.map fun requests =>
      ((m.shareable r).2, requests.map fun request => request.userMap.map OlmDevice.key) := by
  refine ⟨?_, shareRequests_parallel env encrypt m olm r users ign⟩
  have hcases := shareRequests_cases env encrypt m olm r users ign
  generalize (m.shareable r).1.session (m.shareable r).2 = s at hcases ⊢
  generalize (m.shareRequests env encrypt olm r users ign).2 = out at hcases ⊢
  dsimp only at hcases
  have hmem : ∀ d, d ∈ targets env m s users ↔
      d ∈ users.flatMap (activeUserDevices m.keeper.deviceStore) ∧
        d.key ≠ (env.userId, env.deviceId) ∧ lacksKey m s d = true := fun d => by
    simp [targets]
  have hnodup := nodup_active_iff hstore (kept env m s) users
  have hsentmem : ∀ d, d ∈ (users.flatMap (activeUserDevices m.keeper.deviceStore)).filter
      (kept env m s) ↔ d ∈ targets env m s users ∧ d.deviceId ≠ env.deviceId := by
    intro d
    rw [hmem, List.mem_filter]
    unfold kept
    simp only [Bool.and_eq_true, decide_eq_true_eq]
    exact ⟨fun ⟨hd, hid, hl⟩ => ⟨⟨hd, fun hk => hid (congrArg Prod.snd hk), hl⟩, hid⟩,
      fun ⟨⟨hd, _, hl⟩, hid⟩ => ⟨hd, hid, hl⟩⟩
  have hrefused : ((!ign && (users.flatMap (activeUserDevices m.keeper.deviceStore)).any fun d =>
      kept env m s d && unsettled m d) = true) ↔ ign = false ∧
      ∃ d ∈ targets env m s users, unsettled m d = true ∧ d.deviceId ≠ env.deviceId := by
    rw [Bool.and_eq_true, Bool.not_eq_true', List.any_eq_true]
    refine and_congr_right fun _ => ⟨?_, ?_⟩
    · rintro ⟨d, hd, hp⟩
      rw [Bool.and_eq_true] at hp
      obtain ⟨ht, hid⟩ := (hsentmem d).mp (List.mem_filter.mpr ⟨hd, hp.1⟩)
      exact ⟨d, ht, hp.2, hid⟩
    · rintro ⟨d, ht, hu, hid⟩
      obtain ⟨hd, hk⟩ := List.mem_filter.mp ((hsentmem d).mpr ⟨ht, hid⟩)
      exact ⟨d, hd, by rw [hk, hu]; rfl⟩
  have hkeys : ∀ d ∈ users.flatMap (activeUserDevices m.keeper.deviceStore),
      d ∈ m.keeper.deviceStore := by
    intro d hd
    obtain ⟨u, -, hu⟩ := List.mem_flatMap.mp hd
    exact (mem_activeUserDevices.mp hu).1
  generalize users.flatMap (activeUserDevices m.keeper.deviceStore) = devices at *
  constructor
  · intro h
    refine ⟨fun hign hex => ?_, fun hnot d hd => ?_⟩
    · have hout := h.refuses hign hex
      split at hcases
      · next hr => exact (hrefused.mp hr).2
      · split at hcases
        · rw [hout] at hcases
          cases hcases
        · rw [hout] at hcases
          cases hcases
    · obtain ⟨requests, hok, hexact⟩ := h.sends hnot
      split at hcases
      · rw [hcases] at hok
        cases hok
      · split at hcases
        · next hrows =>
          rw [hcases] at hok
          cases hok
          obtain ⟨hsame, hone⟩ := (exact_iff encrypt olm _ _).mp hexact
          obtain ⟨d', hd', hkey⟩ := List.mem_map.mp ((hsame d.key).mpr (List.mem_map_of_mem hd))
          have heq : d' = d := List.inj_on_of_nodup_map hstore
            (hkeys d' (List.mem_of_mem_filter hd')) (hkeys d ((hmem d).mp hd).1) hkey
          rw [heq] at hd'
          refine ⟨((hsentmem d).mp hd').2, hnodup.mp hone d hd', fun hu => ?_⟩
          refine hrows d (List.mem_filter.mpr ⟨((hmem d).mp hd).1, ?_⟩)
          rw [(List.mem_filter.mp hd').2, hu]
          rfl
        · rw [hcases] at hok
          cases hok
  · intro h
    refine ⟨fun hign hex => ?_, fun hnot => ?_⟩
    · rw [if_pos (hrefused.mpr ⟨hign, h.refused hign hex⟩)] at hcases
      exact hcases
    · have hsent := h.sent hnot
      rw [if_neg fun hr => hnot ⟨(hrefused.mp hr).1, ?_⟩, if_pos ?_] at hcases
      · refine ⟨_, hcases, (exact_iff encrypt olm _ _).mpr ⟨fun k => ?_, hnodup.mpr ?_⟩⟩
        · simp only [List.mem_map, hsentmem]
          exact exists_congr fun d =>
            ⟨fun hd => ⟨hd.1.1, hd.2⟩, fun hd => ⟨⟨hd.1, (hsent d hd.1).1⟩, hd.2⟩⟩
        · intro d hd
          exact (hsent d ((hsentmem d).mp hd).1).2.1
      · intro d hd
        obtain ⟨hin, hp⟩ := List.mem_filter.mp hd
        rw [Bool.and_eq_true] at hp
        have ht := ((hsentmem d).mp (List.mem_filter.mpr ⟨hin, hp.1⟩)).1
        exact (hsent d ht).2.2 hp.2
      · obtain ⟨d, ht, hu, -⟩ := (hrefused.mp hr).2
        exact ⟨d, ht, hu⟩

namespace SharingClient

/-- A device with its Olm session and its row -/
def phoneOf (userId deviceId : String) (trust : Store.TrustState) : OlmDevice :=
  ⟨py userId, py deviceId, ⟨py deviceId, py (deviceId ++ " curve25519")⟩, .str [], false, trust⟩

def rowOfDevice (d : OlmDevice) : DeviceKeys :=
  ⟨d.userId, d.deviceId, [], d.deleted, d.keys, some d.trustState⟩

/-- Our device, one of Bob's that is verified and one that is blacklisted, and Carol's, about which
nobody has decided -/
def crowdDevices : List OlmDevice :=
  [phoneOf "@alice:x" "ALICE" .unset, phoneOf "@bob:x" "BOB" .verified,
    phoneOf "@bob:x" "TABLET" .blacklisted, phoneOf "@carol:x" "PHONE" .unset]

def crowd : GroupMachine where
  keeper := ⟨crowdDevices, crowdDevices.map rowOfDevice, [], [], []⟩
  olmSessions := crowdDevices.map (·.keys.curve25519)
  sessions := []
  outbound := []

def crowdUsers : List Str := [py "@alice:x", py "@bob:x", py "@carol:x"]

end SharingClient

open SharingClient in
/-- A share that ignores undecided devices names Bob's verified device and Carol's; one that does not
is refused. -/
theorem shareRequests_exact_bob :
    (targets aliceEnv crowd (.new (py "!room:x")) crowdUsers).map OlmDevice.key =
      [(py "@bob:x", py "BOB"), (py "@carol:x", py "PHONE")] ∧
    ∀ ign, Shares aliceEnv crowd (.new (py "!room:x")) crowdUsers ign 0
      (crowd.shareRequests aliceEnv (fun (n : Nat) d => (n + 1, d.key)) 0 (py "!room:x") crowdUsers
        ign).2 := by
  have hsent : ∀ d ∈ targets aliceEnv crowd (.new (py "!room:x")) crowdUsers,
      d.deviceId ≠ aliceEnv.deviceId ∧ crowdUsers.count d.userId = 1 ∧
        (lookup DeviceKeys.key d.key crowd.keeper.deviceKeys).isSome = true := by
    decide +kernel
  refine ⟨by decide +kernel, fun ign => ?_⟩
  refine (shareRequests_exact_iff aliceEnv (fun (n : Nat) d => (n + 1, d.key)) crowd 0
    (py "!room:x") crowdUsers ign (by decide +kernel)).1.mpr ⟨fun _ ⟨d, hd, hu⟩ => ?_, fun _ d hd => ?_⟩
  · exact ⟨d, hd, hu, (hsent d hd).1⟩
  · exact ⟨(hsent d hd).1, (hsent d hd).2.1, fun _ => (hsent d hd).2.2⟩

namespace SharingClient

/-- Bob has given his device the id of Alice's. -/
def sameId : GroupMachine where
  keeper := ⟨[{ bobDevice with deviceId := py "ALICE" }], [{ bobRow with deviceId := py "ALICE" }],
    [], [], []⟩
  olmSessions := [py "bob curve25519"]
  sessions := []
  outbound := []

/-- Bob's device is not blacklisted and has an Olm session, and no request names it. -/
theorem share_omits_same_id :
    ¬ Shares aliceEnv sameId (.new (py "!room:x")) [py "@bob:x"] false 0
      (sameId.shareRequests aliceEnv (fun (n : Nat) d => (n + 1, d.key)) 0 (py "!room:x")
        [py "@bob:x"] false).2 := by
  intro h
  have hsettled : ∀ d ∈ targets aliceEnv sameId (.new (py "!room:x")) [py "@bob:x"],
      unsettled sameId d = false := by decide +kernel
  obtain ⟨requests, hok, hexact⟩ := h.sends fun ⟨_, d, hd, hu⟩ => by
    rw [hsettled d hd] at hu
    cases hu
  have hnone : requests = [] := (Except.ok.inj hok).symm
  subst hnone
  have hbob : (py "@bob:x", py "ALICE") ∈
      (targets aliceEnv sameId (.new (py "!room:x")) [py "@bob:x"]).map OlmDevice.key := by
    decide +kernel
  obtain ⟨request, hr, -⟩ := (hexact.union _).mpr hbob
  cases hr

end SharingClient

end Nio.Crypto
