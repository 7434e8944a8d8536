import Whispee.Group.Rfc9420

/-!
# The commits of honest clients

What `apps/web/src/lib/session.ts` commits in an administered group, against the policy of the
members that receive it. A client applies its commit without asking the policy, so a commit the
others refuse leaves it alone on its epoch. `posted_accepted_iff` says which are accepted; a member
without a role who adds its own second device is refused (`own_device_refused`).
-/

namespace Whispee.Group

open Fallible

/-! ## The client -/

/-- A device of an account, in a conversation it is a member of. -/
structure Client extends Conversation where
  accountId : String
  signatureKey : Bytes
  /-- Its own leaf carries its account. -/
  own : ∃ m ∈ members, m.index = ownIndex ∧ m.toLeaf = ⟨credentialOf accountId, signatureKey⟩

/-- What a session asks of the library in a conversation. -/
inductive Operation where
  /-- A device of a new member, or a missing device of an account already there. -/
  | addDevice (keyPackage : Leaf)
  /-- The eviction of a device whose revocation has been verified. -/
  | evict (key : Bytes)
  /-- A device of an account that is removed. -/
  | removeMember (key : Bytes)
  | setRoles (admin : String) (moderators : List String)
  | setLifetime (lifetime : Lifetime)
  | commitPending

namespace Client

/-- The name of a peer, as `peerFingerprints` reports it. -/
def peerName : Credential → String
  | .basic identity => fromUtf8Lossy identity
  | .other _ _ => "<non-basic credential>"

def peers (client : Client) : List Member :=
  client.members.filter (·.signatureKey ≠ client.signatureKey)

/-- `resolvePeers`: the accounts of the conversation, the client's own apart. -/
def accounts (client : Client) : List String :=
  (client.peers.map (peerName ·.credential)).eraseDups.filter (· ≠ client.accountId)

section
variable (verified : String → List Bytes)

/-- The context of `absorb`: the verified revocations of every account of the conversation. -/
def context (client : Client) : Context := ⟨client.accounts.flatMap verified⟩

/-- The members `reconcileMembers` evicts: those with a verified revocation, the client's own
account included. -/
def toEvict (client : Client) : List Bytes :=
  (client.peers.map (·.signatureKey)).filter
    (· ∈ (client.accounts ++ [client.accountId]).flatMap verified)

/-- The commit a client posts, if it posts one, and its side of the group with it pending. -/
def post (mls : Mls) (client : Client) : Operation → Option (StagedCommit × Conversation)
  | .addDevice keyPackage => (client.invite mls keyPackage).toOption
  | .evict key =>
    if key ∈ client.toEvict verified then (client.remove mls key).toOption else none
  | .removeMember key => (client.remove mls key).toOption
  | .setRoles admin moderators => (client.toConversation.setRoles mls admin moderators).toOption
  | .setLifetime lifetime => (client.toConversation.setLifetime mls lifetime).toOption
  | .commitPending => (client.toConversation.commitPending mls).toOption

end

end Client

/-! ## What the roles cover -/

/-- The rank of the committer covers a proposal. -/
def QueuedProposal.Covered (q : QueuedProposal) (group : PublicGroup) (roster : Roster)
    (committer : String) (context : Context) : Prop :=
  match q.proposal with
  | .add _ => roster.canModerate committer
  | .remove index => ∃ m ∈ group.members, m.index = index ∧
      roster.PermitsRemoval committer context
        ⟨handleOf m.credential, m.signatureKey, q.sender = .member index⟩
  | .groupContextExtensions extensions => ∃ newRoster newLifetime lifetime,
      contextExtensions newRoster newLifetime = .ok extensions ∧ group.lifetime = .ok lifetime ∧
        (newRoster ≠ some roster → roster.isAdmin committer) ∧
        (newLifetime ≠ lifetime → roster.canModerate committer)
  | .update _ | .other _ => True

/-- The rank of the client covers what it does. -/
def Operation.Covered (client : Client) (roster : Roster) (context : Context) : Operation → Prop
  | .addDevice _ => roster.canModerate client.accountId
  | .evict key | .removeMember key => key ∈ context.revoked ∨
      roster.canModerate client.accountId ∧ ∀ m ∈ client.members.find? (·.signatureKey = key),
        roster.isModerator (handleOf m.credential) → roster.isAdmin client.accountId
  | .setRoles admin moderators =>
      Roster.new admin moderators ≠ .ok roster → roster.isAdmin client.accountId
  | .setLifetime lifetime => ∃ current, client.lifetime = .ok current ∧
      (some lifetime ≠ current → roster.canModerate client.accountId)
  | .commitPending => True

section
variable {mls : Mls} {group : PublicGroup} {commit : StagedCommit} {roster : Roster}
  {context : Context} {client : Client}

/-- The policy looks at each proposal by itself, and at the admin's place. -/
theorem permits_iff (valid : commit.Valid) :
    group.Permits roster committer commit context ↔
      (∀ q ∈ commit.proposals, q.Covered group roster committer context) ∧
      ∃ m ∈ group.members, m.index ∉ commit.removed ∧ handleOf m.credential = roster.admin := by
  constructor
  · intro permits
    refine ⟨fun ⟨proposal, sender⟩ hq => ?_, permits.admin⟩
    cases proposal with
    | add leaf => exact permits.adds (StagedCommit.mem_addProposals.2 ⟨sender, hq⟩)
    | remove index => exact permits.removals (StagedCommit.mem_removeProposals.2 hq)
    | groupContextExtensions extensions =>
      rcases valid.contexts _ hq with h | h
      · cases h
      · exact permits.context h.symm
    | update | other => trivial
  · rintro ⟨covered, admin⟩
    refine ⟨fun h => covered _ (StagedCommit.mem_removeProposals.1 h), fun h => ?_, fun h => ?_,
      admin⟩
    · obtain ⟨sender, hq⟩ := StagedCommit.mem_addProposals.1 h
      exact covered _ hq
    · obtain ⟨⟨proposal, sender⟩, hq, h⟩ := StagedCommit.mem_of_proposed h
      cases proposal <;> cases h
      exact covered _ hq

theorem Conversation.prepare_eq_ok {conversation prepared : Conversation}
    (h : conversation.prepare mls own = .ok (commit, prepared)) :
    mls.commit conversation own = .ok commit ∧
      prepared = { conversation with pendingCommit := some commit } := by
  unfold prepare at h
  split at h
  · rename_i hc
    cases h
    exact ⟨hc, rfl⟩
  · cases h

theorem covered_remove_iff {m : Member}
    (hm : client.members.find? (·.signatureKey = key) = some m) (stays : client.ownIndex ≠ m.index) :
    QueuedProposal.Covered ⟨.remove m.index, .member client.ownIndex⟩ client.toPublicGroup roster
      client.accountId context ↔ (Operation.removeMember key).Covered client roster context := by
  have mem := List.mem_of_find?_eq_some hm
  have keyed : m.signatureKey = key := by simpa using List.find?_some hm
  have notSelf : decide (Sender.member client.ownIndex = .member m.index) = false :=
    decide_eq_false fun h => stays (Sender.member.inj h)
  simp only [QueuedProposal.Covered, Operation.Covered, notSelf, Roster.PermitsRemoval, hm,
    Option.mem_some_iff, forall_eq', Context.isRevoked_iff, Bool.false_eq_true, false_or]
  constructor
  · rintro ⟨m', hm', hi, permitted⟩
    cases client.eq_of_index hm' mem hi
    exact keyed ▸ permitted
  · intro permitted
    exact ⟨m, mem, rfl, keyed.symm ▸ permitted⟩

theorem covered_context_iff (built : contextExtensions newRoster newLifetime = .ok extensions) :
    QueuedProposal.Covered ⟨.groupContextExtensions extensions, sender⟩ group roster committer
      context ↔ ∃ lifetime, group.lifetime = .ok lifetime ∧
        (newRoster ≠ some roster → roster.isAdmin committer) ∧
        (newLifetime ≠ lifetime → roster.canModerate committer) := by
  obtain ⟨hr, hl⟩ := contextExtensions_read built
  constructor
  · rintro ⟨_, _, lifetime, built', h⟩
    obtain ⟨hr', hl'⟩ := contextExtensions_read built'
    cases hr.symm.trans hr'
    cases hl.symm.trans hl'
    exact ⟨lifetime, h⟩
  · rintro ⟨lifetime, h⟩
    exact ⟨_, _, lifetime, built, h⟩

/-- What a commit carries for a client's removal is covered exactly if the removal is. -/
theorem Client.remove_eq_ok {prepared : Conversation} (roster : Roster) (context : Context)
    (h : client.remove mls key = .ok (commit, prepared)) :
    ∃ own, mls.commit client.toConversation own = .ok commit ∧
      prepared = { client.toConversation with pendingCommit := some commit } ∧
      ∀ p ∈ own, ⟨p, .member client.ownIndex⟩ ∈ commit.proposals →
        (QueuedProposal.Covered ⟨p, .member client.ownIndex⟩ client.toPublicGroup roster
          client.accountId context ↔ (Operation.removeMember key).Covered client roster context) := by
  unfold Conversation.remove at h
  split at h
  · rename_i m hm
    obtain ⟨hc, hp⟩ := Conversation.prepare_eq_ok h
    refine ⟨_, hc, hp, ?_⟩
    rw [List.forall_mem_singleton]
    intro proposed
    have removed : m.index ∈ commit.removed :=
      List.mem_map.2 ⟨_, StagedCommit.mem_removeProposals.2 proposed, rfl⟩
    have stays : client.ownIndex ≠ m.index := fun same =>
      (mls.commit_valid hc).stays _ removed (same ▸ mls.commit_committer hc)
    exact covered_remove_iff hm stays
  · cases h

/-- What a commit carries of a client's own is covered exactly if what the client does is. -/
theorem Client.post_eq_some {prepared : Conversation} (context : Context)
    (administered : client.roster = .ok (some roster))
    (posted : client.post verified mls op = some (commit, prepared)) :
    ∃ own, mls.commit client.toConversation own = .ok commit ∧
      prepared = { client.toConversation with pendingCommit := some commit } ∧
      ∀ p ∈ own, ⟨p, .member client.ownIndex⟩ ∈ commit.proposals →
        (QueuedProposal.Covered ⟨p, .member client.ownIndex⟩ client.toPublicGroup roster
          client.accountId context ↔ op.Covered client roster context) := by
  cases op with
  | addDevice keyPackage =>
    obtain ⟨hc, hp⟩ := Conversation.prepare_eq_ok (toOption_eq_some posted)
    exact ⟨_, hc, hp, List.forall_mem_singleton.2 fun _ => Iff.rfl⟩
  | evict key =>
    simp only [Client.post] at posted
    split at posted
    · exact client.remove_eq_ok roster context (toOption_eq_some posted)
    · cases posted
  | removeMember key => exact client.remove_eq_ok roster context (toOption_eq_some posted)
  | setRoles admin moderators =>
    obtain ⟨newRoster, hr, h⟩ := bind_eq_ok_iff.1 (toOption_eq_some posted)
    obtain ⟨lifetime, hl, h⟩ := bind_eq_ok_iff.1 h
    obtain ⟨extensions, built, h⟩ := bind_eq_ok_iff.1 h
    obtain ⟨hc, hp⟩ := Conversation.prepare_eq_ok h
    refine ⟨_, hc, hp, List.forall_mem_singleton.2 fun _ => ?_⟩
    rw [covered_context_iff built]
    simp only [Operation.Covered, hr, hl, Except.ok.injEq, ne_eq, Option.some.injEq,
      exists_eq_left', not_true_eq_false, false_implies, and_true]
  | setLifetime lifetime =>
    obtain ⟨current, hr, h⟩ := bind_eq_ok_iff.1 (toOption_eq_some posted)
    obtain ⟨extensions, built, h⟩ := bind_eq_ok_iff.1 h
    obtain ⟨hc, hp⟩ := Conversation.prepare_eq_ok h
    cases hr.symm.trans administered
    refine ⟨_, hc, hp, List.forall_mem_singleton.2 fun _ => ?_⟩
    rw [covered_context_iff built]
    simp only [Operation.Covered, ne_eq, not_true_eq_false, false_implies, true_and]
  | commitPending =>
    obtain ⟨hc, hp⟩ := Conversation.prepare_eq_ok (toOption_eq_some posted)
    exact ⟨[], hc, hp, fun _ h => absurd h List.not_mem_nil⟩

/-- A member at the same epoch, with the same verified revocations, accepts the commit of an honest
client exactly if the client's rank covers what it does and the stored proposals it picks up, and a
device of the admin stays. What it does needs no rank where stored proposals stand for it. -/
theorem posted_accepted_iff {client member : Client} {prepared : Conversation}
    (same : member.toPublicGroup = client.toPublicGroup)
    (administered : client.roster = .ok (some roster))
    (posted : client.post verified mls op = some (commit, prepared)) :
    member.authorizeCommit client.accountId commit (member.context verified) = .ok () ↔
      ((∃ q ∈ commit.proposals, q ∉ client.pending) →
        op.Covered client roster (member.context verified)) ∧
      (∀ q ∈ commit.proposals, q ∈ client.pending →
        q.Covered client.toPublicGroup roster client.accountId (member.context verified)) ∧
      ∃ m ∈ client.members, m.index ∉ commit.removed ∧ handleOf m.credential = roster.admin := by
  obtain ⟨own, hc, -, covered⟩ := client.post_eq_some (member.context verified) administered posted
  rw [same, PublicGroup.authorizeCommit_eq_ok_iff administered, permits_iff (mls.commit_valid hc)]
  constructor
  · rintro ⟨all, admin⟩
    refine ⟨?_, fun q hq _ => all q hq, admin⟩
    rintro ⟨⟨proposal, sender⟩, hq, new⟩
    obtain ⟨hp, rfl⟩ := (mls.own_or_pending hc hq).resolve_right new
    exact (covered _ hp hq).1 (all _ hq)
  · rintro ⟨ours, picked, admin⟩
    refine ⟨fun ⟨proposal, sender⟩ hq => ?_, admin⟩
    by_cases pending : ⟨proposal, sender⟩ ∈ client.pending
    · exact picked _ hq pending
    · obtain ⟨hp, rfl⟩ := (mls.own_or_pending hc hq).resolve_right pending
      exact (covered _ hp hq).2 (ours ⟨_, hq, pending⟩)

theorem Client.credential_of_post {prepared : Conversation}
    (administered : client.roster = .ok (some roster))
    (posted : client.post verified mls op = some (commit, prepared)) :
    commit.credential client.toPublicGroup = some (credentialOf client.accountId) := by
  obtain ⟨own, hc, -, -⟩ := client.post_eq_some ⟨[]⟩ administered posted
  obtain ⟨m, hm, hi, leaf⟩ := client.own
  have found : ∃ m', client.members.find? (·.index = client.ownIndex) = some m' :=
    Option.isSome_iff_exists.1 (List.find?_isSome.2 ⟨m, hm, decide_eq_true hi⟩)
  obtain ⟨m', hm'⟩ := found
  have same : m' = m := client.eq_of_index (List.mem_of_find?_eq_some hm') hm
    ((by simpa using List.find?_some hm' : m'.index = client.ownIndex).trans hi.symm)
  unfold StagedCommit.credential
  rw [mls.commit_committer hc]
  simp only [hm', Option.map_some, same, leaf]

/-- A member that accepts the commit ends in the group its author does. -/
theorem process_posted {client member : Client} {prepared : Conversation}
    (same : member.toPublicGroup = client.toPublicGroup)
    (administered : client.roster = .ok (some roster))
    (posted : client.post verified mls op = some (commit, prepared))
    (accepted : member.authorizeCommit client.accountId commit context = .ok ()) :
    ∃ after, Conversation.process mls member.toConversation
        ⟨credentialOf client.accountId, .stagedCommit commit⟩ context =
          .ok (.groupChanged, after) ∧
      after.toPublicGroup = (prepared.applyPending mls).toPublicGroup := by
  obtain ⟨own, -, rfl, -⟩ := client.post_eq_some ⟨[]⟩ administered posted
  refine ⟨_, Conversation.process_stagedCommit_iff.2 ⟨?_, rfl, rfl⟩, ?_⟩
  · rwa [handleOf_credentialOf]
  · simp only [Conversation.applyPending, Conversation.mergeCommit, same]

end

/-- Alice founds a group and invites bob: her side of it. -/
def invited : Except CryptoError Conversation := do
  let founded ← Conversation.createAdministered (device "alice" 1) "alice"
  let (_, inviting) ← founded.invite rfc9420 (device "bob" 2)
  .ok (inviting.applyPending rfc9420)

def aliceAndBob (ownIndex : Nat) : Conversation where
  members := [⟨device "alice" 1, 0⟩, ⟨device "bob" 2, 1⟩]
  extensions := [.requiredCapabilities [ROSTER_EXTENSION, LIFETIME_EXTENSION] [] [],
    .unknown ROSTER_EXTENSION [0, 5, 97, 108, 105, 99, 101, 0, 0],
    .unknown LIFETIME_EXTENSION [0, 9, 58, 128]]
  nodup := by decide
  ownIndex
  pending := []
  pendingCommit := none

def alice : Client :=
  { aliceAndBob 0 with
    accountId := "alice"
    signatureKey := [1]
    own := ⟨_, List.mem_cons_self, rfl, rfl⟩ }

def bob : Client :=
  { aliceAndBob 1 with
    accountId := "bob"
    signatureKey := [2]
    own := ⟨_, List.mem_cons_of_mem _ List.mem_cons_self, rfl, rfl⟩ }

theorem posted_accepted_iff_alice : ∃ commit prepared,
    alice.post (fun _ => []) rfc9420 (.addDevice (device "bob" 4)) = some (commit, prepared) ∧
    bob.authorizeCommit alice.accountId commit (bob.context fun _ => []) = .ok () := by
  have posted : ∃ commit prepared,
      alice.post (fun _ => []) rfc9420 (.addDevice (device "bob" 4)) = some (commit, prepared) ∧
      commit.removed = [] := ⟨_, _, rfl, rfl⟩
  obtain ⟨commit, prepared, posted, removed⟩ := posted
  have administered : alice.roster =
      .ok (some ⟨"alice", [], by decide, List.not_mem_nil⟩) := rfl
  refine ⟨commit, prepared, posted, (posted_accepted_iff rfl administered posted).2
    ⟨fun _ => rfl, fun _ _ h => absurd h List.not_mem_nil, ⟨device "alice" 1, 0⟩, List.mem_cons_self, ?_,
      handleOf_credentialOf _⟩⟩
  rw [removed]
  exact List.not_mem_nil

/-- Bob, who has no role, adds his second device: he ends in a group of three, and alice refuses his
commit. -/
theorem own_device_refused : invited = .ok alice.toConversation ∧
    bob.toPublicGroup = alice.toPublicGroup ∧ ∃ commit prepared,
    bob.post (fun _ => []) rfc9420 (.addDevice (device "bob" 4)) = some (commit, prepared) ∧
    (prepared.applyPending rfc9420).members.map (·.signatureKey) = [[1], [2], [4]] ∧
    alice.authorizeCommit bob.accountId commit (alice.context fun _ => []) =
      .error (.policyViolation "adding a member requires a role") :=
  ⟨rfl, rfl, _, _, rfl, rfl, rfl⟩

end Whispee.Group
