import Whispee.Bytes
import Whispee.Lib.Tasks
import Whispee.Lib.Transition
import Mathlib.Data.List.Dedup
import Mathlib.Data.List.Sort
import Mathlib.Data.String.Basic

/-!
# Starting conversations

`startConversation` of `apps/web/src/lib/session.ts`, one step for each of its awaits, and
`matchingConversation` of `apps/web/src/lib/conversation-view.ts`. Of the MLS client there are the
groups and the names in their trees; what the server answers is arbitrary, and so is what else
happens to the conversations in between.
-/

namespace Whispee.Session.Start

open Transition

/-! ## Who is in a conversation -/

def MEMBER_SEPARATOR : String := "\x00"

structure View where
  key : Bytes
  /-- The names of the other devices in the tree. -/
  peers : List String
  deriving DecidableEq

/-- A set of names, as the text that is compared. -/
def participants (names : List String) : String :=
  MEMBER_SEPARATOR.intercalate (names.dedup.insertionSort (· ≤ ·))

variable (accountId : String)

def View.others (v : View) : List String := v.peers.filter (· ≠ accountId)

def matchingConversation (views : List View) (handles : List String) : Option View :=
  views.find? fun v => participants (v.others accountId) = participants handles

/-- Two lists of the same people. -/
def SamePeople (names names' : List String) : Prop := ∀ name, name ∈ names ↔ name ∈ names'

instance : Decidable (SamePeople names names') :=
  decidable_of_iff (names ⊆ names' ∧ names' ⊆ names)
    ⟨fun h _ => ⟨@h.1 _, @h.2 _⟩, fun h => ⟨fun _ => (h _).1, fun _ => (h _).2⟩⟩

/-! ## Calls -/

/-- What a call of the group under construction waits for, for the first device still to invite. -/
inductive Await where
  | claim
  | addMembers (name : String)
  | commit (name : String)
  | welcome
  deriving DecidableEq

inductive Phase where
  | resolvingHandles (named : List String)
  /-- The accounts that are wanted, those still to resolve, and the devices so far. -/
  | resolving (wanted rest devices : List String)
  | building (wanted : List String) (groupId : Bytes) (invited devices : List String)
    (await : Await)
  /-- The conversation is in the list, and the groups there were are being saved. -/
  | persisting (groupId : Bytes) (groupIds : List Bytes)
  deriving DecidableEq

namespace Phase

/-- The set of people, once it has been looked for and until it is in the list. -/
def people : Phase → Option (List String)
  | resolving wanted _ _ => some wanted
  | building wanted _ _ _ _ => some wanted
  | _ => none

/-- The people of a group that is not in the list yet. -/
def underway : Phase → Option (List String)
  | building wanted _ _ _ _ => some wanted
  | _ => none

/-- The group a call has made. -/
def groupId : Phase → Option Bytes
  | building _ groupId _ _ _ => some groupId
  | persisting groupId _ => some groupId
  | _ => none

end Phase

structure Group where
  groupId : Bytes
  peers : List String
  deriving DecidableEq

/-- A group is made, for some people: the conversations that are open, and the people of the
groups that are not in the list yet. -/
structure Creation where
  wanted : List String
  views : List View
  underway : List (List String)
  deriving DecidableEq

structure ResolvedAccount where
  devices : List String
  rejected : Nat

structure World where
  /-- The groups of the MLS client. -/
  groups : List Group
  views : List View
  /-- The group list that is stored, and the ones that are being written. -/
  stored : List Bytes
  saving : List (List Bytes)
  calls : List Phase
  created : List Creation
  /-- The groups of the calls that failed. -/
  abandoned : List Bytes

inductive Action where
  | start (handles : List String)
  /-- The directory answers. -/
  | resolvedHandles (i : Nat) (directory : String → String)
  /-- An account is resolved; if it is the last, the group that is made is drawn. -/
  | resolvedPeer (i : Nat) (peer : ResolvedAccount) (groupId : Bytes)
  /-- A key package is there, with the name in it. -/
  | claimed (i : Nat) (name : String)
  | added (i : Nat)
  | committed (i : Nat)
  | welcomed (i : Nat)
  | persisted (i : Nat)
  /-- What a call waits for is refused, or what it does next throws. -/
  | failed (i : Nat)
  | persist
  | saved (i : Nat)
  /-- Somebody else's group. -/
  | joined (groupId : Bytes) (peers : List String)
  /-- The members of a conversation have changed. -/
  | refreshed (key : Bytes) (peers : List String)
  | dropped (key : Bytes)

namespace World

variable (w : World)

def groupIds : List Bytes := w.groups.map (·.groupId)

def put (i : Nat) (phase : Phase) : World := { w with calls := w.calls.set i phase }

/-- A call returns or throws. -/
def finish (i : Nat) : World := { w with calls := w.calls.eraseIdx i }

/-- The lookup, after the handles have been resolved. -/
def lookup (i : Nat) (accounts : List String) : World :=
  let wanted := accounts.filter (· ≠ accountId)
  -- "no recipient given."
  if wanted = [] then w.finish i
  else
    match matchingConversation accountId w.views wanted with
    | some _ => w.finish i
    | none => w.put i (.resolving wanted wanted [])

/-- One peer is resolved. -/
def peer (i : Nat) (wanted rest devices : List String) (groupId : Bytes) : World :=
  match rest with
  | [] =>
    { w.put i (.building wanted groupId [] devices .claim) with
      groups := w.groups ++ [⟨groupId, []⟩]
      created := w.created ++
        [⟨wanted, w.views, (w.calls.eraseIdx i).filterMap Phase.underway⟩] }
  | rest => w.put i (.resolving wanted rest devices)

/-- `applyPending`: the tree has the new member. -/
def applyPending (groupId : Bytes) (name : String) : World :=
  { w with
    groups := w.groups.map fun g =>
      if g.groupId = groupId then { g with peers := g.peers ++ [name] } else g }

/-- The names in the tree of a group. -/
def peersOf (groupId : Bytes) : List String :=
  ((w.groups.find? (·.groupId = groupId)).map (·.peers)).getD []

/-- The view is put into the list, and the session persisted. -/
def register (i : Nat) (groupId : Bytes) : World :=
  { w.put i (.persisting groupId w.groupIds) with
    views := w.views ++ [⟨groupId, w.peersOf groupId⟩] }

def step : Action → Option World
  | .start handles => some { w with calls := w.calls ++ [.resolvingHandles handles.eraseDups] }
  | .resolvedHandles i directory =>
    match w.calls[i]? with
    | some (.resolvingHandles named) => some (w.lookup accountId i (named.map directory))
    | _ => none
  | .resolvedPeer i peer groupId =>
    match w.calls[i]? with
    | some (.resolving wanted (_ :: rest) devices) =>
      -- unattested devices, or none at all
      if 0 < peer.rejected ∨ peer.devices = [] then some (w.finish i)
      else some (w.peer i wanted rest (devices ++ peer.devices) groupId)
    | _ => none
  | .claimed i name =>
    match w.calls[i]? with
    | some (.building wanted groupId invited devices .claim) =>
      some (w.put i (.building wanted groupId invited devices (.addMembers name)))
    | _ => none
  | .added i =>
    match w.calls[i]? with
    | some (.building wanted groupId invited devices (.addMembers name)) =>
      -- the first commit has nobody to inform
      if invited = [] then
        some ((w.applyPending groupId name).put i
          (.building wanted groupId invited devices .welcome))
      else some (w.put i (.building wanted groupId invited devices (.commit name)))
    | _ => none
  | .committed i =>
    match w.calls[i]? with
    | some (.building wanted groupId invited devices (.commit name)) =>
      some ((w.applyPending groupId name).put i
        (.building wanted groupId invited devices .welcome))
    | _ => none
  | .welcomed i =>
    match w.calls[i]? with
    | some (.building wanted groupId invited (device :: devices) .welcome) =>
      if devices = [] then some (w.register i groupId)
      else some (w.put i (.building wanted groupId (invited ++ [device]) devices .claim))
    | _ => none
  | .persisted i =>
    match w.calls[i]? with
    | some (.persisting _ groupIds) => some { w.finish i with stored := groupIds }
    | _ => none
  | .failed i =>
    w.calls[i]?.map fun phase =>
      { w.finish i with abandoned := w.abandoned ++ phase.groupId.toList }
  | .persist => some { w with saving := w.saving ++ [w.groupIds] }
  | .saved i => w.saving[i]?.map fun groupIds =>
      { w with saving := w.saving.eraseIdx i, stored := groupIds }
  | .joined groupId peers =>
    some { w with
      groups := w.groups ++ [⟨groupId, peers⟩]
      views := w.views ++ [⟨groupId, peers⟩] }
  | .refreshed key peers =>
    some { w with views := w.views.map fun v => if v.key = key then { v with peers } else v }
  | .dropped key => some { w with views := w.views.filter (·.key ≠ key) }

/-- A session as it is opened: no call is under way. -/
def Initial (w : World) : Prop := w.calls = [] ∧ w.created = [] ∧ w.abandoned = []

/-! ## One conversation for each set of people -/

/-- No group was made for people who have a conversation, or a group that is to be one; and
nothing is left of a call that failed. -/
structure OneEach (w : World) : Prop where
  open_ : ∀ c ∈ w.created, ∀ v ∈ c.views, ¬ SamePeople (v.others accountId) c.wanted
  underway : ∀ c ∈ w.created, ∀ people ∈ c.underway, ¬ SamePeople people c.wanted
  left : ∀ groupId ∈ w.abandoned,
    groupId ∉ w.groupIds ∧ groupId ∉ w.stored ∧ groupId ∉ w.views.map (·.key)

/-- No call is between its lookup and its group for the people of a conversation. -/
def admits (peers : List String) : Bool :=
  w.calls.all fun
    | .resolving wanted _ _ => ¬ SamePeople (View.others accountId ⟨[], peers⟩) wanted
    | _ => true

/-- As a call makes its group, every other call for the same people has yet to look for a
conversation; as a conversation comes into the list or its members change, no call for its people
is between its lookup and its group; and no call fails once it has made a group. -/
def guard : Action → Bool
  | .resolvedPeer i peer _ =>
    match w.calls[i]? with
    | some (.resolving wanted [_] _) =>
      ¬ (0 < peer.rejected ∨ peer.devices = []) → (w.calls.eraseIdx i).all fun phase =>
        phase.people.all fun people => ¬ SamePeople people wanted
    | _ => true
  | .welcomed i =>
    match w.calls[i]? with
    | some (.building _ groupId _ [_] _) => w.admits accountId (w.peersOf groupId)
    | _ => true
  | .failed i => (w.calls[i]?).all (·.groupId = none)
  | .joined _ peers => w.admits accountId peers
  | .refreshed _ peers => w.admits accountId peers
  | _ => true

end World

section
variable {accountId : String} {views views' : List View} {w w' : World} {phase : Phase} {a : Action}

/-- The text that is compared depends on the set alone. -/
theorem participants_congr (h : SamePeople names names') :
    participants names = participants names' := by
  have hperm : names.dedup.Perm names'.dedup :=
    (List.perm_ext_iff_of_nodup names.nodup_dedup names'.nodup_dedup).2 fun name => by
      rw [List.mem_dedup, List.mem_dedup, h name]
  have hsorted : (names.dedup.insertionSort (· ≤ ·)).Perm (names'.dedup.insertionSort (· ≤ ·)) :=
    (List.perm_insertionSort _ _).trans (hperm.trans (List.perm_insertionSort _ _).symm)
  rw [participants, participants, hsorted.eq_of_pairwise' (List.pairwise_insertionSort _ _)
    (List.pairwise_insertionSort _ _)]

/-- A lookup that finds nothing has missed nothing. -/
theorem not_samePeople_of_matchingConversation
    (h : matchingConversation accountId views wanted = none) :
    ∀ v ∈ views, ¬ SamePeople (v.others accountId) wanted := by
  intro v hv hsame
  exact List.find?_eq_none.1 h v hv (decide_eq_true (participants_congr hsame))

/-- There is no conversation yet for the people whose group is about to be made. -/
def Phase.Clear (accountId : String) (views : List View) : Phase → Prop
  | .resolving wanted _ _ => ∀ v ∈ views, ¬ SamePeople (v.others accountId) wanted
  | _ => True

theorem Phase.Clear.mono (h : phase.Clear accountId views) (hviews : ∀ v ∈ views', v ∈ views) :
    phase.Clear accountId views' := by
  cases phase with
  | resolving wanted rest devices => exact fun v hv => h v (hviews v hv)
  | _ => trivial

theorem Phase.Clear.others (h : phase.Clear accountId views)
    (hviews : ∀ v ∈ views', v ∈ views ∨ v.peers = peers)
    (hadmits : ∀ wanted rest devices, phase = .resolving wanted rest devices →
      ¬ SamePeople (View.others accountId ⟨[], peers⟩) wanted) : phase.Clear accountId views' := by
  cases phase with
  | resolving wanted rest devices =>
    intro v hv
    rcases hviews v hv with hold | hnew
    · exact h v hold
    · rw [View.others, hnew]
      exact hadmits wanted rest devices rfl
  | _ => trivial

namespace World

theorem of_admits (h : w.admits accountId peers) (hphase : phase ∈ w.calls) :
    ∀ wanted rest devices, phase = .resolving wanted rest devices →
      ¬ SamePeople (View.others accountId ⟨[], peers⟩) wanted := by
  rintro wanted rest devices rfl
  exact of_decide_eq_true (List.all_eq_true.1 h _ hphase)

structure Inv (accountId : String) (w : World) : Prop where
  clear : ∀ phase ∈ w.calls, phase.Clear accountId w.views
  oneEach : w.OneEach accountId
  none_left : w.abandoned = []

theorem OneEach.of_eq (h : w.OneEach accountId) (hcreated : w'.created = w.created)
    (habandoned : w'.abandoned = []) : w'.OneEach accountId where
  open_ := hcreated ▸ h.open_
  underway := hcreated ▸ h.underway
  left groupId hid := by
    rw [habandoned] at hid
    cases hid

/-- A step that makes no group and leaves the conversations as they are. -/
theorem Inv.keep (h : w.Inv accountId) (hviews : w'.views = w.views)
    (hcreated : w'.created = w.created) (habandoned : w'.abandoned = w.abandoned)
    (hcalls : ∀ phase ∈ w'.calls, phase ∈ w.calls ∨ phase.Clear accountId w.views) :
    w'.Inv accountId where
  clear phase hphase := by
    rw [hviews]
    rcases hcalls phase hphase with hold | hnew
    · exact h.clear phase hold
    · exact hnew
  oneEach := h.oneEach.of_eq hcreated (habandoned.trans h.none_left)
  none_left := habandoned.trans h.none_left

theorem mem_put {new : Phase} (hphase : phase ∈ (w.put i new).calls)
    (hnew : new.Clear accountId w.views) : phase ∈ w.calls ∨ phase.Clear accountId w.views := by
  rcases List.mem_or_eq_of_mem_set hphase with hold | rfl
  · exact .inl hold
  · exact .inr hnew

theorem Inv.put (h : w.Inv accountId) {new : Phase} (hnew : new.Clear accountId w.views) :
    (w.put i new).Inv accountId :=
  h.keep rfl rfl rfl fun _ hphase => mem_put hphase hnew

theorem Inv.finish (h : w.Inv accountId) : (w.finish i).Inv accountId :=
  h.keep rfl rfl rfl fun _ hphase => .inl (List.mem_of_mem_eraseIdx hphase)

theorem Inv.lookup (h : w.Inv accountId) : (w.lookup accountId i accounts).Inv accountId := by
  unfold World.lookup
  dsimp only
  split
  · exact h.finish
  · split
    · exact h.finish
    next hnone => exact h.put (not_samePeople_of_matchingConversation hnone)

/-- The group is made while nobody has a conversation, or makes one, for its people. -/
theorem Inv.create {groupId : Bytes} (h : w.Inv accountId)
    (hclear : ∀ v ∈ w.views, ¬ SamePeople (v.others accountId) wanted)
    (hguard : ∀ phase ∈ w.calls.eraseIdx i, ∀ people ∈ phase.people, ¬ SamePeople people wanted) :
    (w.peer i wanted [] devices groupId).Inv accountId where
  clear phase hphase := by
    rcases List.mem_or_eq_of_mem_set hphase with hold | rfl
    · exact h.clear phase hold
    · trivial
  oneEach := by
    refine ⟨Tasks.forall_mem_concat h.oneEach.open_ hclear,
      Tasks.forall_mem_concat h.oneEach.underway ?_, fun id hid => ?_⟩
    · intro people hpeople
      obtain ⟨phase, hphase, hunderway⟩ := List.mem_filterMap.1 hpeople
      refine hguard phase hphase people ?_
      cases phase <;> first | exact hunderway | cases hunderway
    · have habandoned : (w.peer i wanted [] devices groupId).abandoned = [] := h.none_left
      rw [habandoned] at hid
      cases hid
  none_left := h.none_left

/-- A conversation comes into the list, or changes its members. -/
theorem Inv.enter (h : w.Inv accountId) (hadmits : w.admits accountId peers)
    (hviews : ∀ v ∈ w'.views, v ∈ w.views ∨ v.peers = peers)
    (hcalls : ∀ phase ∈ w'.calls, phase ∈ w.calls ∨ phase.Clear accountId w'.views)
    (hcreated : w'.created = w.created) (habandoned : w'.abandoned = w.abandoned) :
    w'.Inv accountId where
  clear phase hphase := by
    rcases hcalls phase hphase with hold | hnew
    · exact (h.clear phase hold).others hviews (of_admits hadmits hold)
    · exact hnew
  oneEach := h.oneEach.of_eq hcreated (habandoned.trans h.none_left)
  none_left := habandoned.trans h.none_left

theorem Inv.step (h : w.Inv accountId) (hguard : w.guard accountId a)
    (hs : w.step accountId a = some w') : w'.Inv accountId := by
  cases a with
  | start handles =>
    cases hs
    refine h.keep rfl rfl rfl fun phase hphase => ?_
    rcases List.mem_append.1 hphase with hold | hnew
    · exact .inl hold
    · obtain rfl := List.mem_singleton.1 hnew
      exact .inr trivial
  | resolvedHandles i directory =>
    unfold World.step at hs
    dsimp only at hs
    split at hs <;> cases hs
    exact h.lookup
  | resolvedPeer i answer groupId =>
    unfold World.step at hs
    dsimp only at hs
    split at hs
    next wanted _ rest devices hphase =>
      have hclear := h.clear _ (List.mem_of_getElem? hphase)
      split at hs <;> cases hs
      next => exact h.finish
      next haccepted =>
        cases rest with
        | nil =>
          unfold World.guard at hguard
          dsimp only at hguard
          rw [hphase] at hguard
          have hfree := of_decide_eq_true hguard haccepted
          refine h.create hclear fun phase hmem people hpeople => ?_
          have hall := List.all_eq_true.1 hfree phase hmem
          rw [hpeople] at hall
          exact of_decide_eq_true hall
        | cons peer rest => exact h.put hclear
    next => cases hs
  | claimed | committed =>
    unfold World.step at hs
    dsimp only at hs
    split at hs <;> cases hs
    exact h.keep rfl rfl rfl fun _ hphase => mem_put hphase trivial
  | added i =>
    unfold World.step at hs
    dsimp only at hs
    split at hs
    next =>
      split at hs <;> cases hs <;>
      exact h.keep rfl rfl rfl fun _ hphase => mem_put hphase trivial
    next => cases hs
  | welcomed i =>
    unfold World.step at hs
    dsimp only at hs
    split at hs
    next wanted groupId invited device devices hphase =>
      split at hs <;> cases hs
      next hlast =>
        subst hlast
        unfold World.guard at hguard
        dsimp only at hguard
        rw [hphase] at hguard
        refine h.enter hguard (fun v hv => ?_) (fun phase hmem => ?_) rfl rfl
        · rcases List.mem_append.1 hv with hold | hnew
          · exact .inl hold
          · obtain rfl := List.mem_singleton.1 hnew
            exact .inr rfl
        · rcases List.mem_or_eq_of_mem_set hmem with hold | rfl
          · exact .inl hold
          · exact .inr trivial
      next => exact h.put trivial
    next => cases hs
  | persisted i =>
    unfold World.step at hs
    dsimp only at hs
    split at hs <;> cases hs
    exact h.keep rfl rfl rfl fun _ hphase => .inl (List.mem_of_mem_eraseIdx hphase)
  | failed i =>
    obtain ⟨phase, hphase, rfl⟩ := Option.map_eq_some_iff.1 hs
    unfold World.guard at hguard
    dsimp only at hguard
    rw [hphase, Option.all_some] at hguard
    have hnone : phase.groupId = none := of_decide_eq_true hguard
    refine h.keep rfl rfl ?_ fun _ hmem => .inl (List.mem_of_mem_eraseIdx hmem)
    rw [hnone, Option.toList_none, List.append_nil]
  | persist =>
    cases hs
    exact h.keep rfl rfl rfl fun _ hphase => .inl hphase
  | saved i =>
    obtain ⟨groupIds, _, rfl⟩ := Option.map_eq_some_iff.1 hs
    exact h.keep rfl rfl rfl fun _ hphase => .inl hphase
  | joined groupId peers =>
    cases hs
    refine h.enter hguard (fun v hv => ?_) (fun _ hphase => .inl hphase) rfl rfl
    rcases List.mem_append.1 hv with hold | hnew
    · exact .inl hold
    · obtain rfl := List.mem_singleton.1 hnew
      exact .inr rfl
  | refreshed key peers =>
    cases hs
    refine h.enter hguard (fun v hv => ?_) (fun _ hphase => .inl hphase) rfl rfl
    obtain ⟨old, hold, rfl⟩ := List.mem_map.1 hv
    split
    · exact .inr rfl
    · exact .inl hold
  | dropped key =>
    cases hs
    refine ⟨fun phase hphase => (h.clear phase hphase).mono fun v hv => ?_,
      h.oneEach.of_eq rfl h.none_left, h.none_left⟩
    exact List.mem_of_mem_filter hv

theorem Initial.inv (h : w.Initial) : w.Inv accountId := by
  obtain ⟨hcalls, hcreated, habandoned⟩ := h
  refine ⟨?_, ⟨?_, ?_, ?_⟩, habandoned⟩
  · rw [hcalls]
    exact nofun
  · rw [hcreated]
    exact nofun
  · rw [hcreated]
    exact nofun
  · rw [habandoned]
    exact nofun

/-- In every run whose calls for the same people keep out of each other's way, and do not fail once
they have made a group. -/
theorem oneEach_of_guarded {s t : World} (start : s.Initial)
    (h : Reach (World.step accountId) (fun w a => w.guard accountId a) s t) : t.OneEach accountId :=
  (h.invariant start.inv fun inv hg hs => inv.step hg hs : t.Inv accountId).oneEach

end World

end

/-! ## Runs -/

def opened : World := ⟨[], [], [], [], [], [], []⟩

theorem opened_initial : opened.Initial := ⟨rfl, rfl, rfl⟩

def bobsDevices : ResolvedAccount := ⟨["phone", "tablet"], 0⟩

/-- A conversation with both devices of an account is started, and asked for again. -/
def startTwice : List Action :=
  [.start ["bob", "bob"], .resolvedHandles 0 id, .resolvedPeer 0 bobsDevices [1], .claimed 0 "bob",
    .added 0, .persist, .welcomed 0, .claimed 0 "bob", .added 0, .committed 0, .saved 0, .welcomed 0,
    .start ["bob"], .resolvedHandles 1 id, .persisted 0, .start ["carol"], .resolvedHandles 0 id,
    .failed 0]

theorem oneEach_of_guarded_startTwice : ∃ t : World, opened.Initial ∧
    Reach (World.step "alice") (fun w a => w.guard "alice" a) opened t ∧
    t.views = [⟨[1], ["bob", "bob"]⟩] ∧ t.created.length = 1 ∧ t.OneEach "alice" := by
  have evaluated : ((run (fun w a => if World.guard "alice" w a then w.step "alice" a else none)
      opened startTwice).map fun t => (t.views, t.created.length)) =
      some ([⟨[1], ["bob", "bob"]⟩], 1) := by
    decide +kernel
  obtain ⟨t, hrun, ht⟩ := Option.map_eq_some_iff.1 evaluated
  obtain ⟨hviews, hcreated⟩ := Prod.mk.inj ht
  have reach := reach_of_run_guarded hrun
  exact ⟨t, opened_initial, reach, hviews, hcreated, World.oneEach_of_guarded opened_initial reach⟩

/-- The row of a contact is clicked twice, and the second call fails at its first key package. -/
def doubleClick : List Action :=
  [.start ["bob"], .start ["bob"], .resolvedHandles 0 id, .resolvedHandles 1 id,
    .resolvedPeer 0 bobsDevices [1], .resolvedPeer 1 bobsDevices [2], .failed 1, .persist, .saved 0]

/-- Two groups are made for one set of people, and the group of the call that failed stays. -/
theorem double_click_makes_two : ∃ t : World, opened.Initial ∧
    run (World.step "alice") opened doubleClick = some t ∧ ¬ t.OneEach "alice" ∧
    (∃ c ∈ t.created, ∃ people ∈ c.underway, SamePeople people c.wanted) ∧
    ∃ groupId ∈ t.abandoned, groupId ∈ t.groupIds ∧ groupId ∈ t.stored := by
  have evaluated : ((run (World.step "alice") opened doubleClick).map fun t =>
      (t.created, t.abandoned, t.groupIds, t.stored)) =
      some ([⟨["bob"], [], []⟩, ⟨["bob"], [], [["bob"]]⟩], [[2]], [[1], [2]], [[1], [2]]) := by
    decide +kernel
  obtain ⟨t, hrun, ht⟩ := Option.map_eq_some_iff.1 evaluated
  obtain ⟨hcreated, habandoned, hgroups, hstored⟩ :
      t.created = _ ∧ t.abandoned = _ ∧ t.groupIds = _ ∧ t.stored = _ := by
    simpa only [Prod.mk.injEq] using ht
  have hleft : ∃ groupId ∈ t.abandoned, groupId ∈ t.groupIds ∧ groupId ∈ t.stored := by
    refine ⟨[2], ?_, ?_, ?_⟩
    · rw [habandoned]
      decide
    · rw [hgroups]
      decide
    · rw [hstored]
      decide
  refine ⟨t, opened_initial, hrun, fun h => ?_, ?_, hleft⟩
  · obtain ⟨groupId, hfailed, hin, _⟩ := hleft
    exact (h.left groupId hfailed).1 hin
  · refine ⟨⟨["bob"], [], [["bob"]]⟩, ?_, ["bob"], ?_, fun _ => Iff.rfl⟩
    · rw [hcreated]
      decide
    · decide

end Whispee.Session.Start
