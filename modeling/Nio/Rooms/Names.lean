import Mathlib.Data.List.Sort
import Nio.Rooms.Membership

/-!
# Display names

The name that a room shows for a member, and the name of the room itself.

* `names_tell_apart` — when two members are shown under the same name
* `displayName_order_free` — the name of a room does not depend on the order in which its members
  came
-/

namespace Nio.Rooms

open Nio.Lib Nio.Py
open Nio.Events (PyError)

structure RoomSummary where
  invitedMemberCount : Option Int
  joinedMemberCount : Option Int
  heroes : Option (List Str)
  deriving DecidableEq

/-- What the name of a room is made of, beside its members -/
structure RoomNaming where
  ownUserId : Str
  name : Option Str
  canonicalAlias : Option Str
  summary : Option RoomSummary

/-- `a or b` of a string that may be missing -/
def orElse : Option Str → Str → Str
  | some (c :: rest), _ => c :: rest
  | _, other => other

/-- Python's order of strings, by code points -/
def strLe : Str → Str → Bool
  | [], _ => true
  | _ :: _, [] => false
  | c :: s, d :: t => c < d || (c = d && strLe s t)

theorem strLe_total (s t : Str) : strLe s t = true ∨ strLe t s = true := by
  fun_induction strLe s t with
  | case1 t => exact Or.inl rfl
  | case2 c s => exact Or.inr rfl
  | case3 c s d t ih =>
    rw [strLe]
    rcases lt_trichotomy c d with h | h | h
    · simp [h]
    · subst h
      simpa using ih
    · simp [h]

theorem strLe_trans {s t u : Str} (hst : strLe s t = true) (htu : strLe t u = true) :
    strLe s u = true := by
  induction s generalizing t u with
  | nil => rfl
  | cons c s ih =>
    cases t with
    | nil => cases hst
    | cons d t =>
      cases u with
      | nil => cases htu
      | cons e u =>
        simp only [strLe, Bool.or_eq_true, Bool.and_eq_true, decide_eq_true_eq] at hst htu ⊢
        rcases hst with hcd | ⟨rfl, hst⟩
        · rcases htu with hde | ⟨rfl, -⟩
          · exact Or.inl (lt_trans hcd hde)
          · exact Or.inl hcd
        · rcases htu with hce | ⟨rfl, htu⟩
          · exact Or.inl hce
          · exact Or.inr ⟨rfl, ih hst htu⟩

theorem strLe_antisymm {s t : Str} (hst : strLe s t = true) (hts : strLe t s = true) : s = t := by
  induction s generalizing t with
  | nil =>
    cases t with
    | nil => rfl
    | cons d t => cases hts
  | cons c s ih =>
    cases t with
    | nil => cases hst
    | cons d t =>
      simp only [strLe, Bool.or_eq_true, Bool.and_eq_true, decide_eq_true_eq] at hst hts
      rcases hst with hcd | ⟨rfl, hst⟩
      · rcases hts with hdc | ⟨rfl, -⟩
        · exact absurd (lt_trans hcd hdc) (lt_irrefl c)
        · exact absurd hcd (lt_irrefl _)
      · rcases hts with hcc | ⟨-, hts⟩
        · exact absurd hcc (lt_irrefl c)
        · rw [ih hst hts]

namespace MatrixUser

def disambiguatedName (user : MatrixUser) : Str :=
  match user.displayName with
  | some (c :: rest) => (c :: rest) ++ py " (" ++ user.userId ++ py ")"
  | _ => user.userId

end MatrixUser

/-- `_summary_details`; `none` is its `ValueError`. -/
def summaryDetails (naming : RoomNaming) : Option (List Str × Int × Int) := do
  let summary ← naming.summary
  let joined ← summary.joinedMemberCount
  let invited ← summary.invitedMemberCount
  return (summary.heroes.getD [], joined, invited)

namespace MatrixRoom

def userName (room : MatrixRoom) (userId : Str) : Option Str :=
  (dictGet? room.users userId).map fun user =>
    if 1 < (namesAt room.names user.name).length then user.disambiguatedName else user.name

/-- The key that the users are sorted by -/
def sortKey (room : MatrixRoom) (userId : Str) : Str := (room.userName userId).getD []

/-- `sorted(self.users, key=...)` without the own user -/
def otherUsers (room : MatrixRoom) (naming : RoomNaming) : List Str :=
  ((room.users.map (·.1)).insertionSort fun u v => strLe (room.sortKey u) (room.sortKey v)).filter
    (· ≠ naming.ownUserId)

def memberCount (room : MatrixRoom) (naming : RoomNaming) : Int :=
  match summaryDetails naming with
  | some (_, joined, invited) => joined + invited
  | none => room.users.length

def groupNameStructure (room : MatrixRoom) (naming : RoomNaming) : Bool × List Str × Int :=
  match summaryDetails naming with
  | none =>
    let users := room.otherUsers naming
    if users.length ≤ 5 then (users.isEmpty, users, 0)
    else (users.isEmpty, users.take 5, users.length - 5)
  | some (heroes, _, _) =>
    let empty : Bool := room.memberCount naming ≤ 1
    if heroes.length ≥ room.memberCount naming - 1 then (empty, heroes, 0)
    else (empty, heroes, room.memberCount naming - 1 - heroes.length)

/-- `", ".join(names)` -/
def joinNames (names : List Str) : Str := List.intercalate (py ", ") names

/-- The text of `group_name` -/
def groupText (names : List Str) (others : Int) : Except ValueError Str :=
  if others ≠ 0 then do
    let count ← dumpsInt others
    return joinNames names ++ py " and " ++ count ++ py " other" ++
      (if others = 1 then py "" else py "s")
  else
    match names.getLast? with
    | none => .ok (py "")
    | some last =>
      if names.length = 1 then .ok last
      else .ok (joinNames names.dropLast ++ py " and " ++ last)

def groupName (room : MatrixRoom) (naming : RoomNaming) : Except ValueError Str := do
  let (empty, userIds, others) := room.groupNameStructure naming
  let text ← groupText (userIds.map fun u => orElse (room.userName u) u) others
  return if empty then
      if text ≠ [] then py "Empty Room (had " ++ text ++ py ")" else py "Empty Room"
    else text

/-- `display_name`: a name or an alias that is not empty, or the name of the group -/
def displayName (room : MatrixRoom) (naming : RoomNaming) : Except ValueError Str :=
  match orElse naming.name (orElse naming.canonicalAlias []) with
  | [] => room.groupName naming
  | named => .ok named

/-! ## Shared names -/

/-- Another member has the same name. -/
def Shares (room : MatrixRoom) (u : Str) : Prop :=
  ∃ v, v ≠ u ∧ (bears room.users u).isSome ∧ bears room.users v = bears room.users u

theorem bears_of_user {room : MatrixRoom} {u : Str} {user : MatrixUser}
    (hu : dictGet? room.users u = some user) : bears room.users u = some user.name := by
  unfold bears
  rw [hu]
  rfl

/-- A list without repetitions has a second element exactly when it has another one. -/
theorem one_lt_length_iff_other {ids : List Str} (hnodup : ids.Nodup) {u : Str} (hu : u ∈ ids) :
    1 < ids.length ↔ ∃ v ∈ ids, v ≠ u := by
  match ids with
  | [] => cases hu
  | [a] =>
    obtain rfl := List.mem_singleton.mp hu
    simp
  | a :: b :: rest =>
    have hab : a ≠ b := by
      rintro rfl
      exact (List.nodup_cons.mp hnodup).1 List.mem_cons_self
    refine ⟨fun _ => ?_, fun _ => by simp⟩
    by_cases ha : a = u
    · exact ⟨b, by simp, fun hb => hab (ha.trans hb.symm)⟩
    · exact ⟨a, by simp, ha⟩

/-- The list of a name has another entry exactly when another member has the name. -/
theorem one_lt_length_iff {room : MatrixRoom} (h : WellFormed room) {u : Str} {user : MatrixUser}
    (hu : dictGet? room.users u = some user) :
    1 < (namesAt room.names user.name).length ↔ room.Shares u := by
  have hbears := bears_of_user hu
  have ⟨hnodup, hmem⟩ := h.names user.name
  rw [one_lt_length_iff_other hnodup ((hmem u).mpr hbears)]
  constructor
  · rintro ⟨v, hv, hne⟩
    refine ⟨v, hne, by rw [hbears]; rfl, ?_⟩
    rw [(hmem v).mp hv, hbears]
  · rintro ⟨v, hne, -, hv⟩
    exact ⟨v, (hmem v).mpr (hv.trans hbears), hne⟩

theorem userName_of_shares {room : MatrixRoom} (h : WellFormed room) {u : Str} {user : MatrixUser}
    (hu : dictGet? room.users u = some user) (hshares : room.Shares u) :
    room.userName u = some user.disambiguatedName := by
  unfold userName
  rw [hu, Option.map_some, if_pos ((one_lt_length_iff h hu).mpr hshares)]

theorem userName_of_not_shares {room : MatrixRoom} (h : WellFormed room) {u : Str}
    {user : MatrixUser} (hu : dictGet? room.users u = some user) (hshares : ¬ room.Shares u) :
    room.userName u = some user.name := by
  unfold userName
  rw [hu, Option.map_some, if_neg fun hlength => hshares ((one_lt_length_iff h hu).mp hlength)]

/-! ## Names that tell members apart -/

/-- What follows the last blank of a text -/
theorem eq_of_last_blank {a b s t : Str} {c : CodePoint} (hs : c ∉ s) (ht : c ∉ t)
    (h : a ++ c :: s = b ++ c :: t) : s = t := by
  rcases List.append_eq_append_iff.mp h with ⟨d, rfl, hd⟩ | ⟨d, rfl, hd⟩
  · cases d with
    | nil => exact (List.cons.inj hd).2
    | cons x d =>
      rw [List.cons_append, List.cons.injEq] at hd
      exact absurd (hd.2 ▸ List.mem_append_right d List.mem_cons_self) hs
  · cases d with
    | nil => exact (List.cons.inj hd).2.symm
    | cons x d =>
      rw [List.cons_append, List.cons.injEq] at hd
      exact absurd (hd.2 ▸ List.mem_append_right d List.mem_cons_self) ht

theorem blank_mem_disambiguated {user : MatrixUser} {c : CodePoint} {rest : Str}
    (h : user.displayName = some (c :: rest)) :
    user.disambiguatedName = (c :: rest) ++ chr ' ' :: (chr '(' :: (user.userId ++ [chr ')'])) := by
  unfold MatrixUser.disambiguatedName
  rw [h]
  have hopen : py " (" = [chr ' ', chr '('] := rfl
  have hclose : py ")" = [chr ')'] := rfl
  simp [hopen, hclose]

/-- The user has no display name, or one that is not empty. -/
theorem disambiguatedName_cases (user : MatrixUser) :
    (user.name = user.userId ∧ user.disambiguatedName = user.userId) ∨
      ∃ c rest, user.displayName = some (c :: rest) ∧ user.name = c :: rest := by
  unfold MatrixUser.name MatrixUser.disambiguatedName
  cases hdisplay : user.displayName with
  | none => exact Or.inl ⟨rfl, rfl⟩
  | some text =>
    cases text with
    | nil => exact Or.inl ⟨rfl, rfl⟩
    | cons c rest => exact Or.inr ⟨c, rest, rfl, rfl⟩

/-- Full names are different where the ids have no blanks. -/
theorem disambiguatedName_inj {user user' : MatrixUser} (hblank : chr ' ' ∉ user.userId)
    (hblank' : chr ' ' ∉ user'.userId) (h : user.disambiguatedName = user'.disambiguatedName) :
    user.userId = user'.userId := by
  have hparen : chr ' ' ≠ chr '(' := by decide
  have hclose : chr ' ' ≠ chr ')' := by decide
  rcases disambiguatedName_cases user with ⟨-, hname⟩ | ⟨c, rest, hdisplay, -⟩
  · rcases disambiguatedName_cases user' with ⟨-, hname'⟩ | ⟨c', rest', hdisplay', -⟩
    · rw [← hname, h, hname']
    · rw [hname, blank_mem_disambiguated hdisplay'] at h
      exact absurd (h ▸ List.mem_append_right _ List.mem_cons_self) hblank
  · rcases disambiguatedName_cases user' with ⟨-, hname'⟩ | ⟨c', rest', hdisplay', -⟩
    · rw [hname', blank_mem_disambiguated hdisplay] at h
      exact absurd (h ▸ List.mem_append_right _ List.mem_cons_self) hblank'
    · rw [blank_mem_disambiguated hdisplay, blank_mem_disambiguated hdisplay'] at h
      have htail := eq_of_last_blank (by simp [hparen, hclose, hblank])
        (by simp [hparen, hclose, hblank']) h
      exact List.append_cancel_right (List.cons.inj htail).2

/-- `v` has taken the full name of `u` for its display name. -/
def PosesAs (room : MatrixRoom) (v u : Str) : Prop :=
  ∃ user user' c rest, dictGet? room.users u = some user ∧ dictGet? room.users v = some user' ∧
    user.displayName = some (c :: rest) ∧
    user'.displayName = some ((c :: rest) ++ py " (" ++ u ++ py ")") ∧
    room.Shares u ∧ ¬ room.Shares v

/-- The one whose name is unique has the full name of the other one. -/
theorem posesAs_iff {room : MatrixRoom} (h : WellFormed room) {u v : Str} (hne : u ≠ v)
    {user user' : MatrixUser} (hu : dictGet? room.users u = some user)
    (hv : dictGet? room.users v = some user') (hblank : chr ' ' ∉ v) (hshares : room.Shares u)
    (hunique : ¬ room.Shares v) : room.userName u = room.userName v ↔ room.PosesAs v u := by
  have huserId : user.userId = u := h.userId u user hu
  have huserId' : user'.userId = v := h.userId v user' hv
  rw [userName_of_shares h hu hshares, userName_of_not_shares h hv hunique, Option.some.injEq]
  constructor
  · intro heq
    rcases disambiguatedName_cases user with ⟨hname, hfull⟩ | ⟨c, rest, hdisplay, -⟩
    · -- then both would have the same name
      refine absurd ⟨u, hne, ?_, ?_⟩ hunique
      · rw [bears_of_user hv]
        rfl
      · rw [bears_of_user hu, bears_of_user hv, hname, ← hfull, heq]
    · rcases disambiguatedName_cases user' with ⟨hname', -⟩ | ⟨c', rest', hdisplay', hname'⟩
      · rw [hname', huserId', blank_mem_disambiguated hdisplay] at heq
        exact absurd (heq ▸ List.mem_append_right _ List.mem_cons_self) hblank
      · refine ⟨user, user', c, rest, hu, hv, hdisplay, ?_, hshares, hunique⟩
        rw [hdisplay', ← hname', ← heq, ← huserId]
        unfold MatrixUser.disambiguatedName
        rw [hdisplay]
  · rintro ⟨user₁, user₁', c, rest, hu₁, hv₁, hdisplay, hdisplay', -, -⟩
    cases hu.symm.trans hu₁
    cases hv.symm.trans hv₁
    unfold MatrixUser.disambiguatedName MatrixUser.name
    rw [hdisplay, hdisplay', huserId]
    rfl

/-- Whatever a room was told of its members, two of them (whose ids have no blanks) are shown under
the same name exactly when one of them, whose display name nobody else has, has taken the full name
that tells the other one apart from its namesakes. -/
theorem names_tell_apart (inputs : List RoomInput) (room : MatrixRoom)
    (hroom : new.applyAll inputs = .ok room) (u v : Str) (hne : u ≠ v)
    (hu : (dictGet? room.users u).isSome) (hv : (dictGet? room.users v).isSome)
    (hblank : chr ' ' ∉ u) (hblank' : chr ' ' ∉ v) :
    room.userName u = room.userName v ↔ room.PosesAs u v ∨ room.PosesAs v u := by
  obtain ⟨room', hok, h⟩ := applyAll_wellFormed inputs
  rw [hroom] at hok
  cases hok
  obtain ⟨user, hu⟩ := Option.isSome_iff_exists.mp hu
  obtain ⟨user', hv⟩ := Option.isSome_iff_exists.mp hv
  have huserId : user.userId = u := h.userId u user hu
  have huserId' : user'.userId = v := h.userId v user' hv
  have honce : ∀ {w w'}, room.PosesAs w w' → room.Shares w' ∧ ¬ room.Shares w := by
    rintro w w' ⟨-, -, -, -, -, -, -, -, hshares, hunique⟩
    exact ⟨hshares, hunique⟩
  by_cases hshares : room.Shares u
  · by_cases hshares' : room.Shares v
    · rw [userName_of_shares h hu hshares, userName_of_shares h hv hshares', Option.some.injEq]
      constructor
      · intro heq
        have hids := disambiguatedName_inj (huserId ▸ hblank) (huserId' ▸ hblank') heq
        exact absurd (huserId.symm.trans (hids.trans huserId')) hne
      · rintro (hposes | hposes)
        · exact absurd hshares (honce hposes).2
        · exact absurd hshares' (honce hposes).2
    · rw [posesAs_iff h hne hu hv hblank' hshares hshares']
      refine ⟨Or.inr, fun hposes => hposes.resolve_left fun hposes => ?_⟩
      exact (honce hposes).2 hshares
  · by_cases hshares' : room.Shares v
    · rw [eq_comm, posesAs_iff h (Ne.symm hne) hv hu hblank hshares' hshares]
      refine ⟨Or.inl, fun hposes => hposes.resolve_right fun hposes => ?_⟩
      exact (honce hposes).2 hshares'
    · rw [userName_of_not_shares h hu hshares, userName_of_not_shares h hv hshares',
        Option.some.injEq]
      constructor
      · intro heq
        refine absurd ⟨v, Ne.symm hne, ?_, ?_⟩ hshares
        · rw [bears_of_user hu]
          rfl
        · rw [bears_of_user hu, bears_of_user hv, heq]
      · rintro (hposes | hposes)
        · exact absurd (honce hposes).1 hshares'
        · exact absurd (honce hposes).1 hshares

/-! ## The name of the room -/

variable {room room' : MatrixRoom}

/-- Both rooms have the same members, with the same display names. -/
def SameMembers (room room' : MatrixRoom) : Prop :=
  ∀ u, (dictGet? room.users u).map (·.displayName) = (dictGet? room'.users u).map (·.displayName)

theorem SameMembers.user (hsame : SameMembers room room') (h : WellFormed room)
    (h' : WellFormed room') {u : Str} {user : MatrixUser} (hu : dictGet? room.users u = some user) :
    ∃ user', dictGet? room'.users u = some user' ∧ user'.name = user.name ∧
      user'.disambiguatedName = user.disambiguatedName := by
  have hdisplay := hsame u
  rw [hu, Option.map_some] at hdisplay
  obtain ⟨user', hu', hdisplay⟩ := Option.map_eq_some_iff.mp hdisplay.symm
  have huserId : user'.userId = user.userId := (h'.userId u user' hu').trans (h.userId u user hu).symm
  refine ⟨user', hu', ?_, ?_⟩
  · unfold MatrixUser.name
    rw [hdisplay, huserId]
  · unfold MatrixUser.disambiguatedName
    rw [hdisplay, huserId]

theorem SameMembers.none (hsame : SameMembers room room') {u : Str} :
    dictGet? room.users u = none ↔ dictGet? room'.users u = none := by
  have hdisplay := hsame u
  rw [← Option.map_eq_none_iff (f := MatrixUser.displayName), hdisplay, Option.map_eq_none_iff]

theorem SameMembers.bears (hsame : SameMembers room room') (h : WellFormed room)
    (h' : WellFormed room') (u : Str) : bears room'.users u = bears room.users u := by
  cases hu : dictGet? room.users u with
  | none =>
    unfold MatrixRoom.bears
    rw [hu, hsame.none.mp hu]
  | some user =>
    obtain ⟨user', hu', hname, -⟩ := hsame.user h h' hu
    rw [bears_of_user hu, bears_of_user hu', hname]

theorem SameMembers.shares (hsame : SameMembers room room') (h : WellFormed room)
    (h' : WellFormed room') (u : Str) : room'.Shares u ↔ room.Shares u := by
  unfold Shares
  rw [hsame.bears h h' u]
  simp only [hsame.bears h h']

theorem SameMembers.userName (hsame : SameMembers room room') (h : WellFormed room)
    (h' : WellFormed room') (u : Str) : room'.userName u = room.userName u := by
  cases hu : dictGet? room.users u with
  | none =>
    unfold MatrixRoom.userName
    rw [hu, hsame.none.mp hu]
    rfl
  | some user =>
    obtain ⟨user', hu', hname, hfull⟩ := hsame.user h h' hu
    by_cases hshares : room.Shares u
    · rw [userName_of_shares h hu hshares,
        userName_of_shares h' hu' ((hsame.shares h h' u).mpr hshares), hfull]
    · rw [userName_of_not_shares h hu hshares,
        userName_of_not_shares h' hu' (mt (hsame.shares h h' u).mp hshares), hname]

theorem SameMembers.keys (hsame : SameMembers room room') (h : WellFormed room)
    (h' : WellFormed room') : (room'.users.map (·.1)).Perm (room.users.map (·.1)) := by
  refine (List.perm_ext_iff_of_nodup h'.keys h.keys).mpr fun u => ?_
  have hnone := @SameMembers.none room room' hsame u
  rw [dictGet?_eq_none_iff, dictGet?_eq_none_iff] at hnone
  exact (not_iff_not.mp hnone).symm

/-- A member that is shown under an empty name has an empty id. -/
theorem orElse_userName (h : WellFormed room) {u : Str} (hu : u ∈ room.users.map (·.1)) :
    orElse (room.userName u) u = room.sortKey u := by
  obtain ⟨user, huser⟩ : ∃ user, dictGet? room.users u = some user := by
    cases hget : dictGet? room.users u with
    | none => exact absurd hu (dictGet?_eq_none_iff.mp hget)
    | some user => exact ⟨user, rfl⟩
  have huserId : user.userId = u := h.userId u user huser
  have hempty : room.userName u = some [] → u = [] := by
    intro hname
    by_cases hshares : room.Shares u
    · rw [userName_of_shares h huser hshares, Option.some.injEq] at hname
      rcases disambiguatedName_cases user with ⟨-, hfull⟩ | ⟨c, rest, hdisplay, -⟩
      · rw [← huserId, ← hfull, hname]
      · rw [blank_mem_disambiguated hdisplay] at hname
        cases hname
    · rw [userName_of_not_shares h huser hshares, Option.some.injEq] at hname
      rcases disambiguatedName_cases user with ⟨hfull, -⟩ | ⟨c, rest, -, hfull⟩
      · rw [← huserId, ← hfull, hname]
      · rw [hfull] at hname
        cases hname
  unfold sortKey
  cases hname : room.userName u with
  | none =>
    unfold userName at hname
    rw [huser] at hname
    cases hname
  | some name =>
    cases name with
    | nil => exact hempty hname
    | cons c rest => rfl

/-- The names that the users are shown under, in their order -/
theorem pairwise_otherUsers (room : MatrixRoom) (naming : RoomNaming) :
    ((room.otherUsers naming).map room.sortKey).Pairwise fun s t => strLe s t = true := by
  have htotal : Std.Total fun u v => strLe (room.sortKey u) (room.sortKey v) = true :=
    ⟨fun _ _ => strLe_total _ _⟩
  have htrans : IsTrans Str fun u v => strLe (room.sortKey u) (room.sortKey v) = true :=
    ⟨fun _ _ _ => strLe_trans⟩
  have hsorted := List.pairwise_insertionSort
    (fun u v => strLe (room.sortKey u) (room.sortKey v) = true) (room.users.map (·.1))
  exact List.pairwise_map.mpr (hsorted.filter _)

/-- Sorting and leaving the own user out does not depend on the order of the users. -/
theorem SameMembers.otherUsers (hsame : SameMembers room room') (h : WellFormed room)
    (h' : WellFormed room') (naming : RoomNaming) :
    (room'.otherUsers naming).map (fun u => orElse (room'.userName u) u) =
      (room.otherUsers naming).map fun u => orElse (room.userName u) u := by
  have hmem : ∀ {r : MatrixRoom} {u : Str}, u ∈ r.otherUsers naming → u ∈ r.users.map (·.1) := by
    intro r u hu
    exact (List.mem_insertionSort _).mp (List.mem_filter.mp hu).1
  have hkey : ∀ u, room'.sortKey u = room.sortKey u := by
    intro u
    unfold sortKey
    rw [hsame.userName h h' u]
  rw [List.map_congr_left fun u hu => orElse_userName h' (hmem hu),
    List.map_congr_left fun u hu => orElse_userName h (hmem hu)]
  refine List.Perm.eq_of_pairwise (fun _ _ _ _ => strLe_antisymm) (pairwise_otherUsers room' naming)
    (pairwise_otherUsers room naming) ?_
  rw [List.map_congr_left fun u _ => hkey u]
  refine List.Perm.map _ (List.Perm.filter _ ?_)
  exact (List.perm_insertionSort _ _).trans
    ((hsame.keys h h').trans (List.perm_insertionSort _ _).symm)

/-- The name of a room does not depend on the order in which its members came, even where some of
them are shown under the same name. -/
theorem displayName_order_free (inputs inputs' : List RoomInput) (room room' : MatrixRoom)
    (hroom : new.applyAll inputs = .ok room) (hroom' : new.applyAll inputs' = .ok room')
    (hsame : SameMembers room room') (naming : RoomNaming) :
    room'.displayName naming = room.displayName naming := by
  obtain ⟨room₁, hok, h⟩ := applyAll_wellFormed inputs
  rw [hroom] at hok
  cases hok
  obtain ⟨room₂, hok', h'⟩ := applyAll_wellFormed inputs'
  rw [hroom'] at hok'
  cases hok'
  have hothers := hsame.otherUsers h h' naming
  have hlength : (room'.otherUsers naming).length = (room.otherUsers naming).length := by
    have := congrArg List.length hothers
    rwa [List.length_map, List.length_map] at this
  have hempty : (room'.otherUsers naming).isEmpty = (room.otherUsers naming).isEmpty := by
    rw [Bool.eq_iff_iff, List.isEmpty_iff_length_eq_zero, List.isEmpty_iff_length_eq_zero, hlength]
  have hgroup : room'.groupName naming = room.groupName naming := by
    unfold groupName groupNameStructure
    cases hsummary : summaryDetails naming with
    | none =>
      dsimp only
      rw [hlength, hempty]
      split
      · rw [hothers]
      · rw [List.map_take, List.map_take, hothers]
    | some details =>
      have hcount : room'.memberCount naming = room.memberCount naming := by
        unfold memberCount
        rw [hsummary]
      have hnames : (fun u => orElse (room'.userName u) u) =
          fun u => orElse (room.userName u) u := by
        funext u
        rw [hsame.userName h h' u]
      dsimp only
      rw [hcount, hnames]
  unfold displayName
  rw [hgroup]

/-! ## Three members -/

def memberEvent (u displayname : String) : RoomInput :=
  .membership ⟨py u, .join, some (some (py displayname)), none⟩

/-- The third member has taken the full name of the first one. -/
theorem names_tell_apart_eve :
    ∃ room, new.applyAll [memberEvent "@al:x" "Al", memberEvent "@a:x" "Al",
        memberEvent "@eve:x" "Al (@a:x)"] = .ok room ∧
      (room.userName (py "@a:x") = room.userName (py "@eve:x") ↔
        room.PosesAs (py "@a:x") (py "@eve:x") ∨ room.PosesAs (py "@eve:x") (py "@a:x")) := by
  obtain ⟨room, hok, -⟩ := applyAll_wellFormed [memberEvent "@al:x" "Al",
    memberEvent "@a:x" "Al", memberEvent "@eve:x" "Al (@a:x)"]
  have hmembers : (new.applyAll [memberEvent "@al:x" "Al", memberEvent "@a:x" "Al",
      memberEvent "@eve:x" "Al (@a:x)"]).map (fun room =>
        (dictGet? room.users (py "@a:x")).isSome && (dictGet? room.users (py "@eve:x")).isSome) =
      .ok true := by
    decide +kernel
  rw [hok] at hmembers
  have ⟨ha, he⟩ := (Bool.and_eq_true _ _).mp (Except.ok.inj hmembers)
  exact ⟨room, hok, names_tell_apart _ room hok _ _ (by decide) ha he (by decide) (by decide)⟩

def joined (u displayname : String) : Str × MatrixUser :=
  (py u, ⟨py u, some (py displayname), none, 0, false⟩)

theorem displayName_order_free_two :
    ∃ room room', new.applyAll [memberEvent "@a:x" "Al", memberEvent "@b:x" "Bo"] = .ok room ∧
      new.applyAll [memberEvent "@b:x" "Bo", memberEvent "@a:x" "Al"] = .ok room' ∧
      room'.displayName ⟨py "@me:x", none, none, none⟩ =
        room.displayName ⟨py "@me:x", none, none, none⟩ := by
  obtain ⟨room, hok, -⟩ := applyAll_wellFormed [memberEvent "@a:x" "Al", memberEvent "@b:x" "Bo"]
  obtain ⟨room', hok', -⟩ := applyAll_wellFormed [memberEvent "@b:x" "Bo", memberEvent "@a:x" "Al"]
  have husers : (new.applyAll [memberEvent "@a:x" "Al", memberEvent "@b:x" "Bo"]).map (·.users) =
      .ok [joined "@a:x" "Al", joined "@b:x" "Bo"] := by
    decide +kernel
  have husers' : (new.applyAll [memberEvent "@b:x" "Bo", memberEvent "@a:x" "Al"]).map (·.users) =
      .ok [joined "@b:x" "Bo", joined "@a:x" "Al"] := by
    decide +kernel
  rw [hok] at husers
  rw [hok'] at husers'
  have husers : room.users = _ := Except.ok.inj husers
  have husers' : room'.users = _ := Except.ok.inj husers'
  refine ⟨room, room', hok, hok', displayName_order_free _ _ room room' hok hok' ?_ _⟩
  intro u
  rw [husers, husers', dictGet?_cons, dictGet?_cons, dictGet?_cons,
    dictGet?_cons]
  by_cases ha : (joined "@a:x" "Al").1 = u
  · subst ha
    rfl
  · rw [if_neg ha, if_neg ha]

end MatrixRoom

end Nio.Rooms
