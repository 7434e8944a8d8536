import Whispee.Group.Roles
import Mathlib.Data.List.Nodup

/-!
# Conversations

`conversation.rs` of `crates/crypto-core`: what an administered group carries in its group context,
what a device does to its groups, and how a received commit is reduced to what the policy rules on.
The MLS library is a parameter (`Mls`), with what RFC 9420 says of it. `authorizeCommit_eq_ok_iff`
is the specification of the policy every later result goes through.
-/

namespace Whispee.Group

open Fallible

/-! ## The data of the library -/

inductive Credential where
  | basic (identity : Bytes)
  | other (type : Nat) (content : Bytes)
  deriving DecidableEq, Repr

/-- What the code reads of a leaf node. -/
structure Leaf where
  credential : Credential
  signatureKey : Bytes
  deriving DecidableEq, Repr

structure Member extends Leaf where
  index : Nat
  deriving DecidableEq, Repr

inductive Extension where
  | requiredCapabilities (extensions proposals credentials : List Nat)
  /-- An extension the library does not interpret. -/
  | unknown (type : Nat) (data : Bytes)
  | other (type : Nat) (content : Bytes)
  deriving DecidableEq, Repr

inductive Proposal where
  /-- The leaf of the key package added. -/
  | add (leaf : Leaf)
  | update (leaf : Leaf)
  | remove (removed : Nat)
  | groupContextExtensions (extensions : List Extension)
  /-- The proposals that change neither the tree nor the group context. -/
  | other (type : Nat)
  deriving DecidableEq, Repr

/-- The extensions a proposal installs. -/
def Proposal.extensions : Proposal → Option (List Extension)
  | .groupContextExtensions extensions => some extensions
  | _ => none

inductive Sender where
  | member (index : Nat)
  | external (index : Nat)
  | newMemberProposal
  | newMemberCommit
  deriving DecidableEq, Repr

structure QueuedProposal where
  proposal : Proposal
  sender : Sender
  deriving DecidableEq, Repr

/-- A commit MLS has validated and not merged. -/
structure StagedCommit where
  committer : Sender
  /-- The proposals it carries and those it refers to. -/
  proposals : List QueuedProposal
  /-- The leaf of its update path. -/
  path : Option Leaf
  deriving DecidableEq, Repr

namespace StagedCommit

/-- The leaves removed, with who proposed it. -/
def removeProposals (commit : StagedCommit) : List (Nat × Sender) :=
  commit.proposals.filterMap fun
    | ⟨.remove index, sender⟩ => some (index, sender)
    | _ => none

def addProposals (commit : StagedCommit) : List Leaf :=
  commit.proposals.filterMap fun
    | ⟨.add leaf, _⟩ => some leaf
    | _ => none

def removed (commit : StagedCommit) : List Nat := commit.removeProposals.map (·.1)

/-- The group context extensions of the first proposal that has some. -/
def proposed (commit : StagedCommit) : Option (List Extension) :=
  commit.proposals.findSome? (·.proposal.extensions)

section
variable {commit : StagedCommit}

theorem mem_removeProposals :
    (index, sender) ∈ commit.removeProposals ↔ ⟨.remove index, sender⟩ ∈ commit.proposals := by
  simp only [removeProposals, List.mem_filterMap]
  constructor
  · rintro ⟨⟨proposal, sender⟩, h, hq⟩
    cases proposal <;> cases hq
    exact h
  · exact fun h => ⟨_, h, rfl⟩

theorem mem_addProposals :
    leaf ∈ commit.addProposals ↔ ∃ sender, ⟨.add leaf, sender⟩ ∈ commit.proposals := by
  simp only [addProposals, List.mem_filterMap]
  constructor
  · rintro ⟨⟨proposal, sender⟩, h, hq⟩
    cases proposal <;> cases hq
    exact ⟨_, h⟩
  · exact fun ⟨sender, h⟩ => ⟨_, h, rfl⟩

theorem mem_of_proposed (h : commit.proposed = some extensions) :
    ∃ q ∈ commit.proposals, q.proposal.extensions = some extensions :=
  List.exists_of_findSome?_eq_some h

end

end StagedCommit

/-! ## The group context -/

def rosterExtension : Option Roster → Except CryptoError (List (Nat × Bytes))
  | some roster => do .ok [(ROSTER_EXTENSION, ← roster.encode)]
  | none => .ok []

def lifetimeExtension : Option Lifetime → List (Nat × Bytes)
  | some lifetime => [(LIFETIME_EXTENSION, lifetime.encode)]
  | none => []

/-- The group context extensions, built from every policy the group carries. -/
def contextExtensions (roster : Option Roster) (lifetime : Option Lifetime) :
    Except CryptoError (List Extension) := do
  let extensions := (← rosterExtension roster) ++ lifetimeExtension lifetime
  .ok (.requiredCapabilities (extensions.map (·.1)) [] [] ::
    extensions.map fun (type, data) => .unknown type data)

/-- `Extensions::unknown`. -/
def unknown (extensions : List Extension) (type : Nat) : Option Bytes :=
  extensions.findSome? fun
    | .unknown t data => if t = type then some data else none
    | _ => none

def rosterOf (extensions : List Extension) : Except CryptoError (Option Roster) :=
  match unknown extensions ROSTER_EXTENSION with
  | some raw => (Roster.decode raw).map some
  | none => .ok none

def lifetimeOf (extensions : List Extension) : Except CryptoError (Option Lifetime) :=
  match unknown extensions LIFETIME_EXTENSION with
  | some raw => (Lifetime.decode raw).map some
  | none => .ok none

/-- Both policies are read back from the extensions built for them. -/
theorem contextExtensions_read (h : contextExtensions roster lifetime = .ok extensions) :
    rosterOf extensions = .ok roster ∧ lifetimeOf extensions = .ok lifetime := by
  obtain ⟨rosters, hr, h⟩ := bind_eq_ok_iff.1 h
  cases roster with
  | none =>
    cases hr
    cases h
    cases lifetime with
    | none => exact ⟨rfl, rfl⟩
    | some lifetime => exact ⟨rfl, congrArg (Except.map some) lifetime.decode_encode⟩
  | some roster =>
    obtain ⟨raw, hraw, hr⟩ := bind_eq_ok_iff.1 hr
    cases hr
    cases h
    have decoded := congrArg (Except.map some) (Roster.decode_encode hraw)
    cases lifetime with
    | none => exact ⟨decoded, rfl⟩
    | some lifetime => exact ⟨decoded, congrArg (Except.map some) lifetime.decode_encode⟩

/-- Handle carried by an MLS credential; the empty string belongs to no roster. -/
def handleOf : Credential → String
  | .basic identity => fromUtf8Lossy identity
  | .other _ _ => ""

/-- The credential of an identity of this name. -/
def credentialOf (name : String) : Credential := .basic (asBytes name)

@[simp] theorem handleOf_credentialOf (name : String) : handleOf (credentialOf name) = name :=
  fromUtf8Lossy_asBytes name

/-! ## The policy on a received commit -/

/-- What the code reads of a group: its members and the extensions of its context. -/
structure PublicGroup where
  members : List Member
  extensions : List Extension
  /-- A leaf index designates one member. -/
  nodup : (members.map (·.index)).Nodup
  deriving DecidableEq

namespace PublicGroup

def roster (group : PublicGroup) : Except CryptoError (Option Roster) := rosterOf group.extensions

def lifetime (group : PublicGroup) : Except CryptoError (Option Lifetime) :=
  lifetimeOf group.extensions

theorem eq_of_index {group : PublicGroup} (hm : m ∈ group.members) (hm' : m' ∈ group.members)
    (h : m.index = m'.index) : m = m' :=
  List.inj_on_of_nodup_map group.nodup hm hm' h

/-- The removal of a leaf, described from the tree before the commit. -/
def removal (group : PublicGroup) (index : Nat) (sender : Sender) : Except CryptoError Removal :=
  match group.members.find? (·.index = index) with
  | some m => .ok ⟨handleOf m.credential, m.signatureKey, sender = .member index⟩
  | none => .error (.policyViolation "removal of an unknown member")

def removals (group : PublicGroup) (commit : StagedCommit) : Except CryptoError (List Removal) :=
  commit.removeProposals.mapM fun (index, sender) => group.removal index sender

/-- Handles of the members a commit does not remove. -/
def remaining (group : PublicGroup) (commit : StagedCommit) : List String :=
  (group.members.filter (·.index ∉ commit.removed)).map (handleOf ·.credential)

/-- Whether a commit changes the roster, and whether it changes the lifetime. -/
def changes (group : PublicGroup) (roster : Roster) (commit : StagedCommit) :
    Except CryptoError (Bool × Bool) :=
  match commit.proposed with
  | none => .ok (false, false)
  | some extensions => do
    let newRoster ← rosterOf extensions
    let newLifetime ← lifetimeOf extensions
    let expected ← contextExtensions newRoster newLifetime
    if extensions ≠ expected then
      .error (.policyViolation "group context extensions this client would not have produced")
    else do
      let lifetime ← group.lifetime
      .ok (newRoster ≠ some roster, newLifetime ≠ lifetime)

/-- Translates an MLS commit into a summary for the policy, then rules on it. -/
def authorizeCommit (group : PublicGroup) (committer : String) (commit : StagedCommit)
    (context : Context) : Except CryptoError Unit := do
  match ← group.roster with
  | none => .ok ()
  | some roster =>
    let removals ← group.removals commit
    let (changesRoster, changesLifetime) ← group.changes roster commit
    authorize (some roster)
      { committer
        removals
        adds := commit.addProposals.length
        changesRoster
        changesLifetime
        remaining := group.remaining commit }
      context

/-! ### Its specification -/

/-- Everything the policy asks of a received commit in a group with a roster. -/
structure Permits (group : PublicGroup) (roster : Roster) (committer : String)
    (commit : StagedCommit) (context : Context) : Prop where
  removals : (index, sender) ∈ commit.removeProposals → ∃ m ∈ group.members, m.index = index ∧
    roster.PermitsRemoval committer context
      ⟨handleOf m.credential, m.signatureKey, sender = .member index⟩
  adds : leaf ∈ commit.addProposals → roster.canModerate committer
  context : ∀ {extensions}, commit.proposed = some extensions → ∃ newRoster newLifetime lifetime,
    contextExtensions newRoster newLifetime = .ok extensions ∧ group.lifetime = .ok lifetime ∧
      (newRoster ≠ some roster → roster.isAdmin committer) ∧
      (newLifetime ≠ lifetime → roster.canModerate committer)
  admin : ∃ m ∈ group.members, m.index ∉ commit.removed ∧ handleOf m.credential = roster.admin

section
variable {group : PublicGroup} {commit : StagedCommit} {context : Context} {roster : Roster}

theorem removal_eq_ok_iff {r : Removal} : group.removal index sender = .ok r ↔
    ∃ m ∈ group.members, m.index = index ∧
      ⟨handleOf m.credential, m.signatureKey, sender = .member index⟩ = r := by
  unfold PublicGroup.removal
  constructor
  · split
    · rename_i m hm
      intro h
      exact ⟨m, List.mem_of_find?_eq_some hm, by simpa using List.find?_some hm, Except.ok.inj h⟩
    · intro h
      cases h
  · rintro ⟨m, hm, rfl, rfl⟩
    obtain ⟨m', hm'⟩ : ∃ m', group.members.find? (·.index = m.index) = some m' :=
      Option.isSome_iff_exists.1 (List.find?_isSome.2 ⟨m, hm, decide_eq_true rfl⟩)
    have same : m' = m :=
      group.eq_of_index (List.mem_of_find?_eq_some hm') hm (by simpa using List.find?_some hm')
    rw [hm', same]

theorem exists_removals_iff {P : Removal → Prop} :
    (∃ removals, group.removals commit = .ok removals ∧ ∀ removal ∈ removals, P removal) ↔
      ∀ index sender, (index, sender) ∈ commit.removeProposals → ∃ m ∈ group.members,
        m.index = index ∧ P ⟨handleOf m.credential, m.signatureKey, sender = .member index⟩ := by
  rw [PublicGroup.removals, exists_mapM_eq_ok_iff, Prod.forall]
  refine forall₃_congr fun index sender _ => ?_
  simp only [removal_eq_ok_iff]
  constructor
  · rintro ⟨_, ⟨m, hm, hi, rfl⟩, h⟩
    exact ⟨m, hm, hi, h⟩
  · rintro ⟨m, hm, hi, h⟩
    exact ⟨_, ⟨m, hm, hi, rfl⟩, h⟩

theorem exists_changes_iff {admin moderator : Prop} :
    (∃ changes, group.changes roster commit = .ok changes ∧
      (changes.1 → admin) ∧ (changes.2 → moderator)) ↔
      ∀ extensions, commit.proposed = some extensions → ∃ newRoster newLifetime lifetime,
        contextExtensions newRoster newLifetime = .ok extensions ∧ group.lifetime = .ok lifetime ∧
          (newRoster ≠ some roster → admin) ∧ (newLifetime ≠ lifetime → moderator) := by
  unfold PublicGroup.changes
  cases commit.proposed with
  | none => simp
  | some extensions =>
    simp only [Option.some.injEq, forall_eq', bind_eq_ok_iff]
    constructor
    · rintro ⟨changes, ⟨newRoster, hr, newLifetime, hl, expected, he, h⟩, admin, moderator⟩
      split at h
      · cases h
      · rename_i equal
        obtain ⟨lifetime, hlifetime, h⟩ := bind_eq_ok_iff.1 h
        cases h
        refine ⟨newRoster, newLifetime, lifetime, ?_, hlifetime, fun h => admin ?_,
          fun h => moderator ?_⟩
        · rw [he, Decidable.not_not.1 equal]
        · exact decide_eq_true h
        · exact decide_eq_true h
    · rintro ⟨newRoster, newLifetime, lifetime, he, hlifetime, admin, moderator⟩
      obtain ⟨hr, hl⟩ := contextExtensions_read he
      refine ⟨(newRoster ≠ some roster, newLifetime ≠ lifetime),
        ⟨newRoster, hr, newLifetime, hl, extensions, he, ?_⟩, ?_⟩
      · rw [if_neg (not_not_intro rfl)]
        exact bind_eq_ok_iff.2 ⟨lifetime, hlifetime, rfl⟩
      · exact ⟨fun h => admin (of_decide_eq_true h), fun h => moderator (of_decide_eq_true h)⟩

theorem remaining_iff : handle ∈ group.remaining commit ↔
    ∃ m ∈ group.members, m.index ∉ commit.removed ∧ handleOf m.credential = handle := by
  simp only [remaining, List.mem_map, List.mem_filter, decide_eq_true_eq, and_assoc]

/-- On a group with a roster, a member accepts a commit exactly if the policy permits it. -/
theorem authorizeCommit_eq_ok_iff (h : group.roster = .ok (some roster)) :
    group.authorizeCommit committer commit context = .ok () ↔
      group.Permits roster committer commit context := by
  have unfolded : group.authorizeCommit committer commit context = .ok () ↔
      ∃ removals, group.removals commit = .ok removals ∧
        ∃ changes, group.changes roster commit = .ok changes ∧
          roster.Permits ⟨committer, removals, commit.addProposals.length, changes.1, changes.2,
            group.remaining commit⟩ context := by
    simp only [authorizeCommit, h, bind_eq_ok_iff, Except.ok.injEq, exists_eq_left',
      authorize_eq_ok_iff]
  rw [unfolded]
  constructor
  · rintro ⟨removals, hr, changes, hc, permits⟩
    refine ⟨exists_removals_iff.1 ⟨removals, hr, permits.removals⟩ _ _, fun hl => ?_,
      exists_changes_iff.1 ⟨changes, hc, permits.roles, permits.lifetime⟩ _,
      remaining_iff.1 permits.admin⟩
    exact permits.adds (List.length_pos_of_mem hl)
  · intro permits
    obtain ⟨removals, hr, removed⟩ := exists_removals_iff.2 fun _ _ => permits.removals
    obtain ⟨changes, hc, roles, lifetime⟩ := exists_changes_iff.2 fun _ => permits.context
    refine ⟨removals, hr, changes, hc, roles, lifetime, fun hl => ?_, removed,
      remaining_iff.2 permits.admin⟩
    obtain ⟨leaf, hleaf⟩ := List.exists_mem_of_length_pos hl
    exact permits.adds hleaf

end

end PublicGroup

/-! ## The library -/

namespace StagedCommit

/-- The leaf of a member after the commit, if it stays: the update path renews the committer's, and
an update the leaf of the member it comes from. -/
def renewed (commit : StagedCommit) (m : Member) : Leaf :=
  if commit.committer = .member m.index then commit.path.getD m.toLeaf
  else
    let update := commit.proposals.findSome? fun
      | ⟨.update leaf, sender⟩ => if sender = .member m.index then some leaf else none
      | _ => none
    update.getD m.toLeaf

/-- The leaves it brings in: those it adds, and that of a newcomer who commits from outside. -/
def brought (commit : StagedCommit) : List Leaf :=
  commit.addProposals ++ if commit.committer = .newMemberCommit then commit.path.toList else []

/-- The credential MLS authenticates a commit by. -/
def credential (commit : StagedCommit) (group : PublicGroup) : Option Credential :=
  match commit.committer with
  | .member index => (group.members.find? (·.index = index)).map (·.credential)
  | .newMemberCommit => commit.path.map (·.credential)
  | .external _ | .newMemberProposal => none

/-- What MLS has checked of a staged commit. -/
structure Valid (commit : StagedCommit) : Prop where
  /-- One set of group context extensions at most. -/
  contexts : ∀ q ∈ commit.proposals,
    q.proposal.extensions = none ∨ q.proposal.extensions = commit.proposed
  /-- Nobody removes themselves in a commit. -/
  stays : ∀ index ∈ commit.removed, commit.committer ≠ .member index

end StagedCommit

/-- A device's side of a group: the group, and what the library keeps beside it. -/
structure Conversation extends PublicGroup where
  /-- The device's own leaf. -/
  ownIndex : Nat
  /-- Proposals received, kept until a commit picks them up. -/
  pending : List QueuedProposal
  pendingCommit : Option StagedCommit
  deriving DecidableEq

/-- The MLS library, as far as the code uses it, and what RFC 9420 says of it. -/
structure Mls where
  /-- Builds a commit of some proposals of the device, and of stored ones. -/
  commit : Conversation → List Proposal → Except String StagedCommit
  /-- Moves a group to the epoch after a commit. -/
  merge : PublicGroup → StagedCommit → PublicGroup
  commit_valid : commit conversation own = .ok staged → staged.Valid
  commit_committer : commit conversation own = .ok staged →
    staged.committer = .member conversation.ownIndex
  own_or_pending : commit conversation own = .ok staged → q ∈ staged.proposals →
    q.proposal ∈ own ∧ q.sender = .member conversation.ownIndex ∨ q ∈ conversation.pending
  merge_extensions : staged.Valid →
    (merge group staged).extensions = staged.proposed.getD group.extensions
  merge_of_kept : staged.Valid → m ∈ group.members → m.index ∉ staged.removed →
    ∃ m' ∈ (merge group staged).members, m'.index = m.index ∧ m'.toLeaf = staged.renewed m
  merge_of_brought : staged.Valid → leaf ∈ staged.brought →
    ∃ m' ∈ (merge group staged).members, m'.toLeaf = leaf
  kept_or_brought : staged.Valid → m' ∈ (merge group staged).members →
    (∃ m ∈ group.members, m.index ∉ staged.removed ∧ m'.toLeaf = staged.renewed m) ∨
      m'.toLeaf ∈ staged.brought

/-! ## What a device does -/

namespace Conversation

/-- The creator's leaf alone, and the policies every conversation starts with. -/
def createWith (identity : Leaf) (roster : Option Roster) : Except CryptoError Conversation := do
  let extensions ← contextExtensions roster (some ⟨DEFAULT_SECONDS⟩)
  .ok
    { members := [⟨identity, 0⟩]
      extensions
      nodup := List.nodup_singleton _
      ownIndex := 0
      pending := []
      pendingCommit := none }

/-- Creates an administered group. -/
def createAdministered (identity : Leaf) (admin : String) : Except CryptoError Conversation := do
  createWith identity (some (← Roster.new admin []))

section
variable (mls : Mls) (conversation : Conversation)

/-- A commit ready to publish, which stays pending. -/
def prepare (own : List Proposal) : Except CryptoError (StagedCommit × Conversation) :=
  match mls.commit conversation own with
  | .ok staged => .ok (staged, { conversation with pendingCommit := some staged })
  | .error e => .error (.mls e)

/-- Sets how long messages live here. -/
def setLifetime (lifetime : Lifetime) : Except CryptoError (StagedCommit × Conversation) := do
  let roster ← conversation.roster
  let extensions ← contextExtensions roster (some lifetime)
  conversation.prepare mls [.groupContextExtensions extensions]

/-- Replaces the roster: admin and moderators. -/
def setRoles (admin : String) (moderators : List String) :
    Except CryptoError (StagedCommit × Conversation) := do
  let roster ← Roster.new admin moderators
  let lifetime ← conversation.lifetime
  let extensions ← contextExtensions (some roster) lifetime
  conversation.prepare mls [.groupContextExtensions extensions]

/-- Adds the device of a key package. -/
def invite (keyPackage : Leaf) : Except CryptoError (StagedCommit × Conversation) :=
  conversation.prepare mls [.add keyPackage]

/-- Removes the device with this signature key. -/
def remove (mlsKey : Bytes) : Except CryptoError (StagedCommit × Conversation) :=
  match conversation.members.find? (·.signatureKey = mlsKey) with
  | some m => conversation.prepare mls [.remove m.index]
  | none => .error .unknownMember

/-- Commits the proposals received and queued. -/
def commitPending : Except CryptoError (StagedCommit × Conversation) :=
  conversation.prepare mls []

def mergeCommit (commit : StagedCommit) : Conversation :=
  { mls.merge conversation.toPublicGroup commit with
    ownIndex := conversation.ownIndex
    pending := []
    pendingCommit := none }

/-- Applies the commit prepared, once it has been published. -/
def applyPending : Conversation :=
  match conversation.pendingCommit with
  | some commit => conversation.mergeCommit mls commit
  | none => conversation

end

/-! ### Receiving -/

inductive ProcessedContent where
  | application (plaintext : Bytes)
  | stagedCommit (commit : StagedCommit)
  | proposal (proposal : QueuedProposal)
  | externalJoinProposal

/-- A message MLS has validated. -/
structure ProcessedMessage where
  credential : Credential
  content : ProcessedContent

inductive Incoming where
  | application (sender : Option String) (plaintext : Bytes)
  | groupChanged
  | proposal
  deriving DecidableEq, Repr

/-- Processes an incoming message. -/
def process (mls : Mls) (conversation : Conversation) (message : ProcessedMessage)
    (context : Context) : Except CryptoError (Incoming × Conversation) :=
  let sender := match message.credential with
    | .basic identity => some (fromUtf8Lossy identity)
    | .other _ _ => none
  match message.content with
  | .application plaintext => .ok (.application sender plaintext, conversation)
  | .stagedCommit commit => do
    -- The policy applies between cryptographic validation, which has just succeeded, and
    -- application, which is irreversible.
    conversation.authorizeCommit (sender.getD "") commit context
    .ok (.groupChanged, conversation.mergeCommit mls commit)
  | .proposal proposal =>
    .ok (.proposal, { conversation with pending := conversation.pending ++ [proposal] })
  | .externalJoinProposal => .ok (.proposal, conversation)

/-- A received commit goes through exactly if the policy accepts it. -/
theorem process_stagedCommit_iff {mls : Mls} {conversation after : Conversation} :
    process mls conversation ⟨credential, .stagedCommit commit⟩ context = .ok (incoming, after) ↔
      conversation.authorizeCommit (handleOf credential) commit context = .ok () ∧
        incoming = .groupChanged ∧ after = conversation.mergeCommit mls commit := by
  have same : (match credential with
      | .basic identity => some (fromUtf8Lossy identity)
      | .other _ _ => none).getD "" = handleOf credential := by
    cases credential <;> rfl
  simp only [process, same, bind_eq_ok_iff, Except.ok.injEq, Prod.mk.injEq]
  constructor
  · rintro ⟨_, accepted, rfl, rfl⟩
    exact ⟨accepted, rfl, rfl⟩
  · rintro ⟨accepted, rfl, rfl⟩
    exact ⟨(), accepted, rfl, rfl⟩

end Conversation

end Whispee.Group
