import Whispee.Account.Resolve
import Whispee.Group.Policing

/-!
# Removing an account from a conversation

`removeAccount` and `publishAndApply` of `apps/web/src/lib/session.ts`, with what every request and
the store answer left open. It walks the devices the view has cached for the account, not the tree.
-/

namespace Whispee.Session.RemoveAccount

open Whispee.Account Whispee.Group

/-- What becomes of a commit posted to the mailbox. -/
inductive Post where
  | stored (seq : Nat)
  /-- Stored, and the answer never arrives. -/
  | lost
  | refused

/-- What the requests of a call come to, each by the place of its device in the list. -/
structure Answers where
  postEnvelope : Nat → Post
  removeGroupMembers : Nat → Bool
  save : Bool

structure ConversationView where
  accounts : List ResolvedAccount
  /-- The envelopes not to be read back. -/
  mine : List Nat

structure World where
  view : ConversationView
  /-- The client's side of the group. -/
  conversation : Conversation
  /-- The commits everyone else is going to apply. -/
  mailbox : List StagedCommit
  /-- The devices the server serves the mailbox to. -/
  distribution : List String

inductive RemoveError where
  /-- `@handle is not in this conversation.` -/
  | absent (handle : String)
  | crypto (e : CryptoError)
  | request
  | storage

section
variable (mls : Mls) (answers : Answers)

/-- Publishes a commit **then** applies it. -/
def publishAndApply (i : Nat) (w : World) (commit : StagedCommit) :
    World × Except RemoveError Unit :=
  match answers.postEnvelope i with
  | .stored seq =>
    ({ w with
        view.mine := w.view.mine ++ [seq]
        conversation := w.conversation.applyPending mls
        mailbox := w.mailbox ++ [commit] }, .ok ())
  | .lost => ({ w with mailbox := w.mailbox ++ [commit] }, .error .request)
  | .refused => (w, .error .request)

/-- A turn of the loop of `removeAccount`. -/
def removeDevice (i : Nat) (device : AttestedDevice) (w : World) :
    World × Except RemoveError Unit :=
  match w.conversation.remove mls device.mlsKey with
  | .error e => (w, .error (.crypto e))
  | .ok (commit, conversation) =>
    match publishAndApply mls answers i { w with conversation } commit with
    | (w, .error e) => (w, .error e)
    | (w, .ok ()) =>
      if answers.removeGroupMembers i then
        ({ w with distribution := w.distribution.filter (· ≠ device.id) }, .ok ())
      else (w, .error .request)

def removeDevices : Nat → List AttestedDevice → World → World × Except RemoveError Unit
  | _, [], w => (w, .ok ())
  | i, device :: devices, w =>
    match removeDevice mls answers i device w with
    | (w, .error e) => (w, .error e)
    | (w, .ok ()) => removeDevices (i + 1) devices w

/-- `refreshView` and `announce`, whose failure is swallowed, are left out. -/
def removeAccount (handle : String) (w : World) : World × Except RemoveError Unit :=
  match w.view.accounts.find? (·.handle = handle) with
  | none => (w, .error (.absent handle))
  | some account =>
    match removeDevices mls answers 0 account.devices w with
    | (w, .error e) => (w, .error e)
    | (w, .ok ()) =>
      ({ w with view.accounts := w.view.accounts.filter (·.handle ≠ handle) },
        if answers.save then .ok () else .error .storage)

end

/-! ## What is asked of a call -/

/-- Calls, one after the other, up to one that resolves. -/
inductive Completes (mls : Mls) (handle : String) : World → Prop where
  | resolves {w : World} {answers : Answers} :
    (removeAccount mls answers handle w).2 = .ok () → Completes mls handle w
  | again {w : World} {answers : Answers} :
    Completes mls handle (removeAccount mls answers handle w).1 → Completes mls handle w

/-- The account is out of the tree, or none of its devices is out of it for anyone, or the call can
be repeated to completion. -/
def Whole (mls : Mls) (handle : String) (w : World) (after : World × Except RemoveError Unit) :
    Prop :=
  match after.2 with
  | .ok () => ∀ m ∈ after.1.conversation.members, handleOf m.credential ≠ handle
  | .error _ =>
    (after.1.conversation.members = w.conversation.members ∧ after.1.mailbox = w.mailbox) ∨
      Completes mls handle after.1

/-- The call has nothing to remove, or cannot begin to. -/
def Idle (mls : Mls) (handle : String) (w : World) : Prop :=
  ∀ account, w.view.accounts.find? (·.handle = handle) = some account →
    match account.devices with
    | [] => ∀ m ∈ w.conversation.members, handleOf m.credential ≠ handle
    | device :: _ => ∀ prepared, w.conversation.remove mls device.mlsKey ≠ .ok prepared

/-- The library prepares no commit while one is pending. -/
def RefusesWhilePending (mls : Mls) : Prop :=
  ∀ {conversation : Conversation} {own : List Proposal} {staged : StagedCommit},
    conversation.pendingCommit.isSome = true → mls.commit conversation own ≠ .ok staged

section
variable {mls : Mls} {handle : String} {w : World}

/-- A call that cannot move never completes. -/
theorem not_completes_of_stuck
    (stuck : ∀ answers, ∃ e, removeAccount mls answers handle w = (w, .error e)) :
    ¬ Completes mls handle w := by
  intro h
  induction h with
  | @resolves w answers h =>
    obtain ⟨e, he⟩ := stuck answers
    rw [he] at h
    cases h
  | @again w answers _ ih =>
    obtain ⟨e, he⟩ := stuck answers
    rw [he] at ih
    exact ih stuck

theorem remove_eq_ok (h : conversation.remove mls key = .ok (staged, prepared)) :
    ∃ m, conversation.members.find? (·.signatureKey = key) = some m ∧
      mls.commit conversation [.remove m.index] = .ok staged ∧
      prepared = { conversation with pendingCommit := some staged } := by
  unfold Conversation.remove at h
  split at h
  · rename_i m hm
    unfold Conversation.prepare at h
    split at h
    · cases h
      exact ⟨m, hm, ‹_›, rfl⟩
    · cases h
  · cases h

theorem remove_of_pending (refuses : RefusesWhilePending mls) {conversation : Conversation}
    (key : Bytes) (h : conversation.pendingCommit.isSome = true) :
    ∃ e, conversation.remove mls key = .error e := by
  unfold Conversation.remove
  split
  · unfold Conversation.prepare
    split
    · exact absurd ‹_› (refuses h)
    · exact ⟨_, rfl⟩
  · exact ⟨_, rfl⟩

/-- Once the answer to the first commit is lost, no call gets past it. -/
theorem stuck_of_pending (refuses : RefusesWhilePending mls)
    (haccount : w.view.accounts.find? (·.handle = handle) = some account)
    {device : AttestedDevice} (hdevices : account.devices = device :: devices)
    (hpending : w.conversation.pendingCommit.isSome = true) (answers : Answers) :
    ∃ e, removeAccount mls answers handle w = (w, .error e) := by
  obtain ⟨e, he⟩ := remove_of_pending refuses device.mlsKey hpending
  refine ⟨.crypto e, ?_⟩
  rw [removeAccount, haccount]
  dsimp only
  rw [hdevices, removeDevices, removeDevice, he]

/-- Every answer arrives, but to the post of the first commit. -/
def firstLost : Answers := ⟨fun _ => .lost, fun _ => true, true⟩

def allArrive : Answers := ⟨.stored, fun _ => true, true⟩

theorem removeAccount_eq (haccount : w.view.accounts.find? (·.handle = handle) = some account) :
    removeAccount mls answers handle w =
      match removeDevices mls answers 0 account.devices w with
      | (w, .error e) => (w, .error e)
      | (w, .ok ()) =>
        ({ w with view.accounts := w.view.accounts.filter (·.handle ≠ handle) },
          if answers.save then .ok () else .error .storage) := by
  rw [removeAccount, haccount]

theorem removeAccount_firstLost
    (haccount : w.view.accounts.find? (·.handle = handle) = some account)
    {device : AttestedDevice} (hdevices : account.devices = device :: devices)
    (hprepared : w.conversation.remove mls device.mlsKey = .ok (staged, prepared)) :
    removeAccount mls firstLost handle w =
      ({ w with conversation := prepared, mailbox := w.mailbox ++ [staged] }, .error .request) := by
  rw [removeAccount_eq haccount, hdevices, removeDevices, removeDevice, hprepared]
  rfl

/-- Removing an account is whole, whatever its requests come to, if and only if it removes
nothing. -/
theorem removeAccount_whole_iff (refuses : RefusesWhilePending mls) :
    (∀ answers, Whole mls handle w (removeAccount mls answers handle w)) ↔ Idle mls handle w := by
  constructor
  · intro whole account haccount
    split
    · rename_i hdevices
      have h := whole allArrive
      rw [removeAccount_eq haccount, hdevices] at h
      exact h
    · rename_i device devices hdevices
      rintro ⟨staged, prepared⟩ hprepared
      obtain ⟨m, -, -, rfl⟩ := remove_eq_ok hprepared
      have h := whole firstLost
      rw [removeAccount_firstLost haccount hdevices hprepared] at h
      rcases h with ⟨-, hmailbox⟩ | hcompletes
      · exact List.cons_ne_nil _ _ (List.append_right_eq_self.1 hmailbox)
      · refine not_completes_of_stuck (fun answers => ?_) hcompletes
        refine stuck_of_pending refuses ?_ hdevices rfl answers
        exact haccount
  · intro idle answers
    cases haccount : w.view.accounts.find? (·.handle = handle) with
    | none =>
      rw [removeAccount, haccount]
      exact .inl ⟨rfl, rfl⟩
    | some account =>
      have h := idle account haccount
      rw [removeAccount_eq haccount]
      split at h
      · rename_i hdevices
        rw [hdevices, removeDevices]
        cases hsave : answers.save with
        | true => exact h
        | false => exact .inl ⟨rfl, rfl⟩
      · rename_i device devices hdevices
        rw [hdevices, removeDevices, removeDevice]
        cases hprepared : w.conversation.remove mls device.mlsKey with
        | error e => exact .inl ⟨rfl, rfl⟩
        | ok prepared => exact absurd hprepared (h prepared)

/-! ## What a call that resolves leaves -/

/-- What the library documents of the removals it commits. -/
structure CommitsRemovals (mls : Mls) : Prop where
  carries : mls.commit conversation own = .ok staged → proposal ∈ own →
    ⟨proposal, .member conversation.ownIndex⟩ ∈ staged.proposals
  /-- The update path keeps the credential and the signature key of the committer. -/
  path : mls.commit conversation own = .ok staged → m ∈ conversation.members →
    m.index = conversation.ownIndex → staged.path.getD m.toLeaf = m.toLeaf
  merges : mls.MergesLeaves

/-- No proposal is stored, and a signature key is that of one member. -/
structure Settled (conversation : Conversation) : Prop where
  pending : conversation.pending = []
  keys : (conversation.members.map (·.signatureKey)).Nodup

/-- A removal that carries no stored proposal. -/
structure Removes (conversation : Conversation) (staged : StagedCommit) (index : Nat) : Prop where
  removed : ∀ i, i ∈ staged.removed ↔ i = index
  brought : staged.brought = []
  renewed : ∀ m ∈ conversation.members, staged.renewed m = m.toLeaf

theorem removes_of_commit (commits : CommitsRemovals mls) {conversation : Conversation}
    (hpending : conversation.pending = [])
    (h : mls.commit conversation [.remove index] = .ok staged) :
    Removes conversation staged index := by
  have hproposals : ∀ q ∈ staged.proposals, q.proposal = .remove index := fun q hq => by
    rcases mls.own_or_pending h hq with ⟨hown, -⟩ | hstored
    · exact List.mem_singleton.1 hown
    · rw [hpending] at hstored
      cases hstored
  refine ⟨fun i => ⟨fun hi => ?_, fun hi => ?_⟩, ?_, fun m hm => ?_⟩
  · obtain ⟨⟨_, sender⟩, hmem, rfl⟩ := List.mem_map.1 hi
    exact Proposal.remove.inj (hproposals _ (StagedCommit.mem_removeProposals.1 hmem))
  · exact List.mem_map.2 ⟨(i, _), StagedCommit.mem_removeProposals.2
      (hi ▸ commits.carries h List.mem_cons_self), rfl⟩
  · have hadds : staged.addProposals = [] := List.eq_nil_iff_forall_not_mem.2 fun leaf hleaf => by
      obtain ⟨sender, hmem⟩ := StagedCommit.mem_addProposals.1 hleaf
      cases hproposals _ hmem
    have hmember : staged.committer ≠ .newMemberCommit := by
      rw [mls.commit_committer h]
      exact Sender.noConfusion
    rw [StagedCommit.brought, hadds, if_neg hmember, List.append_nil]
  · unfold StagedCommit.renewed
    rw [mls.commit_committer h]
    split
    · rename_i hown
      exact commits.path h hm (Sender.member.inj hown).symm
    · dsimp only
      rw [List.findSome?_eq_none_iff.2, Option.getD_none]
      rintro ⟨proposal, sender⟩ hq
      have hproposal : proposal = .remove index := hproposals _ hq
      rw [hproposal]

theorem leaves_of_remove (commits : CommitsRemovals mls) {conversation : Conversation}
    (settled : Settled conversation)
    (h : conversation.remove mls key = .ok (staged, prepared)) :
    ((prepared.applyPending mls).members.map (·.toLeaf)).Perm
      ((conversation.members.map (·.toLeaf)).filter (·.signatureKey ≠ key)) := by
  obtain ⟨target, hfind, hcommit, rfl⟩ := remove_eq_ok h
  have htarget := List.mem_of_find?_eq_some hfind
  have hkey : target.signatureKey = key := by
    have hfound := List.find?_some hfind
    exact of_decide_eq_true hfound
  have removes := removes_of_commit commits settled.pending hcommit
  have hkept : ∀ m ∈ conversation.members,
      decide (m.index ∉ staged.removed) = decide (m.signatureKey ≠ key) := fun m hm => by
    refine decide_eq_decide.2 (not_congr ((removes.removed _).trans ?_))
    refine ⟨fun hindex => ?_, fun hsame => ?_⟩
    · rw [PublicGroup.eq_of_index hm htarget hindex, hkey]
    · rw [List.inj_on_of_nodup_map settled.keys hm htarget (hsame.trans hkey.symm)]
  have hleaves : ((mls.merge conversation.toPublicGroup staged).members.map (·.toLeaf)).Perm
      ((staged.kept conversation.toPublicGroup).map staged.renewed ++ staged.brought) :=
    commits.merges (mls.commit_valid hcommit)
  rw [removes.brought, List.append_nil] at hleaves
  refine hleaves.trans (.of_eq ?_)
  rw [StagedCommit.kept, List.filter_congr hkept, List.filter_map]
  exact List.map_congr_left fun m hm => removes.renewed m (List.mem_of_mem_filter hm)

theorem settled_of_remove (commits : CommitsRemovals mls) {conversation : Conversation}
    (settled : Settled conversation)
    (h : conversation.remove mls key = .ok (staged, prepared)) :
    Settled (prepared.applyPending mls) := by
  have hleaves := leaves_of_remove commits settled h
  obtain ⟨target, hfind, hcommit, rfl⟩ := remove_eq_ok h
  refine ⟨rfl, ?_⟩
  have hkeys := hleaves.map (·.signatureKey)
  have hbefore : (conversation.members.map (·.toLeaf)).map (·.signatureKey) =
      conversation.members.map (·.signatureKey) := List.map_map
  rw [List.map_map] at hkeys
  refine hkeys.nodup_iff.2 ((List.filter_sublist.map _).nodup ?_)
  rw [hbefore]
  exact settled.keys

theorem removeDevice_eq_ok {device : AttestedDevice} {w w' : World}
    (h : removeDevice mls answers i device w = (w', .ok ())) :
    ∃ staged prepared, w.conversation.remove mls device.mlsKey = .ok (staged, prepared) ∧
      w'.conversation = prepared.applyPending mls ∧ w'.view.accounts = w.view.accounts := by
  unfold removeDevice at h
  split at h
  · cases h
  · rename_i staged prepared hremove
    refine ⟨staged, prepared, hremove, ?_⟩
    unfold publishAndApply at h
    cases hpost : answers.postEnvelope i with
    | stored seq =>
      rw [hpost] at h
      dsimp only at h
      split at h <;> cases h
      exact ⟨rfl, rfl⟩
    | lost =>
      rw [hpost] at h
      cases h
    | refused =>
      rw [hpost] at h
      cases h

theorem leaves_of_removeDevices (commits : CommitsRemovals mls) {devices : List AttestedDevice}
    {w w' : World} (settled : Settled w.conversation)
    (h : removeDevices mls answers i devices w = (w', .ok ())) :
    (w'.conversation.members.map (·.toLeaf)).Perm
      ((w.conversation.members.map (·.toLeaf)).filter
        fun leaf => leaf.signatureKey ∉ devices.map (·.mlsKey)) := by
  induction devices generalizing i w with
  | nil =>
    cases h
    rw [List.filter_eq_self.2 fun leaf _ => by simp]
  | cons device devices ih =>
    rw [removeDevices] at h
    split at h
    · cases h
    · rename_i u hdevice
      obtain ⟨staged, prepared, hremove, hu, -⟩ := removeDevice_eq_ok hdevice
      have hleaves := leaves_of_remove commits settled hremove
      rw [← hu] at hleaves
      have hrest := ih (hu ▸ settled_of_remove commits settled hremove) h
      refine (hrest.trans (hleaves.filter _)).trans (.of_eq ?_)
      rw [List.filter_filter]
      refine List.filter_congr fun leaf _ => ?_
      rw [← Bool.decide_and, decide_eq_decide, List.map_cons, List.mem_cons, not_or, and_comm]

/-- A call that resolves leaves the leaves of the account whose keys the view has not cached. -/
theorem carried_iff_of_resolves (commits : CommitsRemovals mls) (settled : Settled w.conversation)
    (haccount : w.view.accounts.find? (·.handle = handle) = some account)
    (h : (removeAccount mls answers handle w).2 = .ok ()) :
    (∃ m ∈ (removeAccount mls answers handle w).1.conversation.members,
      handleOf m.credential = handle) ↔
    ∃ m ∈ w.conversation.members, handleOf m.credential = handle ∧
      ∀ device ∈ account.devices, device.mlsKey ≠ m.signatureKey := by
  rw [removeAccount_eq haccount] at h ⊢
  cases hdevices : removeDevices mls answers 0 account.devices w with
  | mk w' result =>
    cases result with
    | error e =>
      rw [hdevices] at h
      cases h
    | ok _ =>
      have hleaves := leaves_of_removeDevices commits settled hdevices
      have hmem : ∀ leaf, (∃ m ∈ w'.conversation.members, m.toLeaf = leaf) ↔
          (∃ m ∈ w.conversation.members, m.toLeaf = leaf) ∧
            leaf.signatureKey ∉ account.devices.map (·.mlsKey) := fun leaf => by
        have hiff := hleaves.mem_iff (a := leaf)
        rwa [List.mem_map, List.mem_filter, List.mem_map, decide_eq_true_eq] at hiff
      dsimp only
      constructor
      · rintro ⟨m', hm', hhandle⟩
        obtain ⟨⟨m, hm, hleaf⟩, hkey⟩ := (hmem m'.toLeaf).1 ⟨m', hm', rfl⟩
        refine ⟨m, hm, ?_, fun device hdevice hsame => hkey ?_⟩
        · rw [hleaf, hhandle]
        · exact List.mem_map.2 ⟨device, hdevice, hsame.trans (congrArg Leaf.signatureKey hleaf)⟩
      · rintro ⟨m, hm, hhandle, hother⟩
        obtain ⟨m', hm', hleaf⟩ := (hmem m.toLeaf).2 ⟨⟨m, hm, rfl⟩, fun hkey => by
          obtain ⟨device, hdevice, hsame⟩ := List.mem_map.1 hkey
          exact hother device hdevice hsame⟩
        exact ⟨m', hm', by rw [hleaf, hhandle]⟩

end

/-! ## A device the view has not cached -/

/-- `rfc9420`, with nothing committed while a commit is pending. -/
def openMls : Mls where
  commit conversation own :=
    if conversation.pendingCommit.isSome then .error "a commit is pending"
    else rfc9420.commit conversation own
  merge := rfc9420.merge
  commit_valid h := by
    split at h
    · cases h
    · exact rfc9420.commit_valid h
  commit_committer h := by
    split at h
    · cases h
    · exact rfc9420.commit_committer h
  own_or_pending h hq := by
    split at h
    · cases h
    · exact rfc9420.own_or_pending h hq
  merge_extensions := rfc9420.merge_extensions
  merge_of_kept := rfc9420.merge_of_kept
  merge_of_brought := rfc9420.merge_of_brought
  kept_or_brought := rfc9420.kept_or_brought

theorem openMls_refuses : RefusesWhilePending openMls := by
  intro conversation own staged hpending h
  unfold openMls at h
  dsimp only at h
  rw [if_pos hpending] at h
  cases h

/-- Bob's phone, as attested. -/
def phone : AttestedDevice :=
  ⟨"phone", [], (device "bob" 2).signatureKey, [], none, none, none⟩

/-- Bob has two devices in the tree, and the view has cached the first. -/
def halfCached : World where
  view := ⟨[⟨"bob", [], "", [phone], none, none, [], [], []⟩], []⟩
  conversation :=
    { members := [⟨device "alice" 1, 0⟩, ⟨device "bob" 2, 1⟩, ⟨device "bob" 3, 2⟩]
      extensions := []
      nodup := by decide
      ownIndex := 0
      pending := []
      pendingCommit := none }
  mailbox := []
  distribution := ["browser", "phone", "laptop"]

theorem removeAccount_whole_iff_halfCached :
    ¬ ∀ answers, Whole openMls "bob" halfCached
      (removeAccount openMls answers "bob" halfCached) := by
  rw [removeAccount_whole_iff openMls_refuses]
  intro idle
  exact idle _ rfl _ rfl

/-- Every request succeeds, the call resolves, and the second device is still there. -/
theorem laptop_stays :
    (removeAccount openMls allArrive "bob" halfCached).2 = .ok () ∧
      ∃ m ∈ (removeAccount openMls allArrive "bob" halfCached).1.conversation.members,
        handleOf m.credential = "bob" := by
  refine ⟨rfl, ⟨device "bob" 3, 2⟩, ?_, ?_⟩
  · decide +kernel
  · decide +kernel

end Whispee.Session.RemoveAccount
