import Whispee.Group.Admin

/-!
# What the policy sees of a commit

`authorize_commit` reads the proposals of a commit, and the extensions they install; the update path
and the updates, and a newcomer who commits from outside, change the tree as well. `policed_iff` says
of which accepted commits the policy has seen everything that it rules on, `roleHolders_kept_iff` in
which a role holder's devices were removed as the table of `roles.rs` has it. The two read the line of
the table on the admin differently, who may have several devices: in `policed_iff` it says that the
admin remains, and a device of the admin is removed as a member is; in `roleHolders_kept_iff` it
protects each of them, as `has_role` says of a role holder.
-/

namespace Whispee.Group

open Fallible

namespace StagedCommit

/-- The handle its committer carried before it; a newcomer carried none. -/
def held (commit : StagedCommit) (group : PublicGroup) : Option String :=
  match commit.committer with
  | .member index => (group.members.find? (·.index = index)).map (handleOf ·.credential)
  | _ => none

/-- The members it does not remove. -/
def kept (commit : StagedCommit) (group : PublicGroup) : List Member :=
  group.members.filter (·.index ∉ commit.removed)

/-- The handles of those members, by the leaves the commit gives them. -/
def renewedHandles (commit : StagedCommit) (group : PublicGroup) : List String :=
  (commit.kept group).map fun m => handleOf (commit.renewed m).credential

def addedHandles (commit : StagedCommit) : List String :=
  commit.addProposals.map fun leaf => handleOf leaf.credential

def broughtHandles (commit : StagedCommit) : List String :=
  commit.brought.map fun leaf => handleOf leaf.credential

end StagedCommit

namespace PublicGroup

/-- The handles over the leaves, as often as they occur. -/
def handles (group : PublicGroup) : List String :=
  group.members.map fun m => handleOf m.credential

/-- Who took part in a commit held the role the table requires of the removal of a leaf, or it is one
of the two exceptions. A leaf of the admin, who remains, counts as a member's. -/
def PermittedRemoval (group : PublicGroup) (roster : Roster) (commit : StagedCommit)
    (context : Context) (m : Member) (sender : Sender) : Prop :=
  sender = .member m.index ∨ m.signatureKey ∈ context.revoked ∨
    ∃ handle ∈ commit.held group, roster.canModerate handle ∧
      (roster.isModerator (handleOf m.credential) → roster.isAdmin handle)

/-- Whatever a commit has changed, its committer held the role for before it. -/
structure Policed (group after : PublicGroup) (roster : Roster) (commit : StagedCommit)
    (context : Context) : Prop where
  roles : after.roster ≠ group.roster → ∃ handle ∈ commit.held group, roster.isAdmin handle
  lifetime : after.lifetime ≠ group.lifetime →
    ∃ handle ∈ commit.held group, roster.canModerate handle
  /-- No other extension changes by itself. -/
  extensions : after.extensions ≠ group.extensions →
    after.roster ≠ group.roster ∨ after.lifetime ≠ group.lifetime
  /-- The handles change only by the additions and removals that were ruled on. -/
  handles : ¬ after.handles.Perm group.handles →
    after.handles.Perm (group.remaining commit ++ commit.addedHandles) ∧
      (commit.addProposals ≠ [] → ∃ handle ∈ commit.held group, roster.canModerate handle) ∧
      ∀ index sender, (index, sender) ∈ commit.removeProposals →
        ∃ m ∈ group.members, m.index = index ∧ group.PermittedRemoval roster commit context m sender

/-- A commit that installs other extensions than those in force is a member's, and changes the roster
or the lifetime with them; and one that changes the handles is a member's, and its path and its
updates leave those of the members it keeps as they were. -/
structure Seen (group : PublicGroup) (commit : StagedCommit) : Prop where
  extensions : ∀ {extensions}, commit.proposed = some extensions → extensions ≠ group.extensions →
    commit.held group ≠ none ∧
      (rosterOf extensions ≠ group.roster ∨ lifetimeOf extensions ≠ group.lifetime)
  handles : (commit.renewedHandles group ++ commit.broughtHandles).Perm group.handles ∨
    commit.held group ≠ none ∧ (commit.renewedHandles group).Perm (group.remaining commit)

end PublicGroup

/-- After a commit the tree has the leaves it keeps, renewed, and those it brings in, each as often
as that. -/
def Mls.MergesLeaves (mls : Mls) : Prop :=
  ∀ {group : PublicGroup} {staged : StagedCommit}, staged.Valid →
    ((mls.merge group staged).members.map (·.toLeaf)).Perm
      ((staged.kept group).map staged.renewed ++ staged.brought)

section
variable {mls : Mls} {group : PublicGroup} {commit : StagedCommit} {roster : Roster}
  {context : Context} {credential : Credential}

namespace StagedCommit

/-- MLS authenticates a member by the credential of its leaf. -/
theorem held_eq (h : commit.credential group = some credential) (member : commit.held group ≠ none) :
    commit.held group = some (handleOf credential) := by
  unfold held StagedCommit.credential at *
  cases hc : commit.committer with
  | member index =>
    rw [hc] at h
    dsimp only at h ⊢
    obtain ⟨m, hm, rfl⟩ := Option.map_eq_some_iff.1 h
    rw [hm, Option.map_some]
  | _ =>
    rw [hc] at member
    exact absurd rfl member

/-- A newcomer's own leaf is among those the commit brings. -/
theorem brought_of_outside (h : commit.credential group = some credential)
    (outside : commit.held group = none) :
    ∃ leaf, commit.brought = commit.addProposals ++ [leaf] := by
  unfold held StagedCommit.credential at *
  cases hc : commit.committer with
  | member index =>
    rw [hc] at h outside
    dsimp only at h outside
    obtain ⟨m, hm, _⟩ := Option.map_eq_some_iff.1 h
    rw [hm] at outside
    cases outside
  | newMemberCommit =>
    rw [hc] at h
    obtain ⟨leaf, hleaf, _⟩ := Option.map_eq_some_iff.1 h
    exact ⟨leaf, by rw [brought, if_pos hc, hleaf, Option.toList_some]⟩
  | _ =>
    rw [hc] at h
    cases h

theorem brought_of_member (member : commit.held group ≠ none) :
    commit.brought = commit.addProposals := by
  have notOutside : commit.committer ≠ .newMemberCommit := by
    intro hc
    unfold held at member
    rw [hc] at member
    exact member rfl
  rw [brought, if_neg notOutside, List.append_nil]

end StagedCommit

namespace PublicGroup

theorem handles_merge (hmls : mls.MergesLeaves) (valid : commit.Valid) :
    (mls.merge group commit).handles.Perm (commit.renewedHandles group ++ commit.broughtHandles) := by
  have merged := (@hmls group commit valid).map fun leaf : Leaf => handleOf leaf.credential
  rw [List.map_append, List.map_map, List.map_map] at merged
  exact merged

/-- An accepted commit takes its role from the leaf its committer had. -/
theorem permits_held (administered : group.roster = .ok (some roster))
    (authentic : commit.credential group = some credential)
    (accepted : group.authorizeCommit (handleOf credential) commit context = .ok ())
    (member : commit.held group ≠ none) :
    ∃ handle ∈ commit.held group, group.Permits roster handle commit context :=
  ⟨handleOf credential, StagedCommit.held_eq authentic member,
    (authorizeCommit_eq_ok_iff administered).1 accepted⟩

theorem permittedRemoval_of {removal : Nat × Sender} {handle : String}
    (permits : group.Permits roster handle commit context) (held : handle ∈ commit.held group)
    (h : removal ∈ commit.removeProposals) : ∃ m ∈ group.members, m.index = removal.1 ∧
      group.PermittedRemoval roster commit context m removal.2 := by
  obtain ⟨m, hm, hindex, permitted⟩ := permits.removals h
  refine ⟨m, hm, hindex, ?_⟩
  rcases permitted with requested | revoked | ruled
  · exact .inl (hindex ▸ of_decide_eq_true requested)
  · exact .inr (.inl (Context.isRevoked_iff.1 revoked))
  · exact .inr (.inr ⟨handle, held, ruled⟩)

end PublicGroup

theorem policed_of_seen (hmls : mls.MergesLeaves) (administered : group.roster = .ok (some roster))
    (valid : commit.Valid) (authentic : commit.credential group = some credential)
    (accepted : group.authorizeCommit (handleOf credential) commit context = .ok ())
    (seen : group.Seen commit) :
    group.Policed (mls.merge group commit) roster commit context := by
  have after : (mls.merge group commit).extensions = commit.proposed.getD group.extensions :=
    mls.merge_extensions valid
  -- extensions other than those in force are a member's, who was ruled on
  have ruled : ∀ extensions, commit.proposed = some extensions → extensions ≠ group.extensions →
      ∃ handle ∈ commit.held group, group.Permits roster handle commit context :=
    fun extensions hp changed =>
      group.permits_held administered authentic accepted (seen.extensions hp changed).1
  refine ⟨fun changed => ?_, fun changed => ?_, fun changed => ?_, fun changed => ?_⟩
  · unfold PublicGroup.roster at changed administered
    rw [after] at changed
    cases hp : commit.proposed with
    | none => exact absurd (by rw [hp]; rfl) changed
    | some extensions =>
      rw [hp, Option.getD_some] at changed
      obtain ⟨handle, held, permits⟩ := ruled extensions hp fun same => changed (by rw [same])
      obtain ⟨newRoster, newLifetime, lifetime, built, _, admin, _⟩ := permits.context hp
      refine ⟨handle, held, admin fun same => changed ?_⟩
      rw [(contextExtensions_read built).1, administered, same]
  · unfold PublicGroup.lifetime at changed
    rw [after] at changed
    cases hp : commit.proposed with
    | none => exact absurd (by rw [hp]; rfl) changed
    | some extensions =>
      rw [hp, Option.getD_some] at changed
      obtain ⟨handle, held, permits⟩ := ruled extensions hp fun same => changed (by rw [same])
      obtain ⟨newRoster, newLifetime, lifetime, built, sitting, _, moderator⟩ := permits.context hp
      refine ⟨handle, held, moderator fun same => changed ?_⟩
      exact (contextExtensions_read built).2.trans (same ▸ sitting.symm)
  · rw [after] at changed
    unfold PublicGroup.roster PublicGroup.lifetime
    rw [after]
    cases hp : commit.proposed with
    | none => exact absurd (by rw [hp]; rfl) changed
    | some extensions =>
      rw [hp, Option.getD_some] at changed
      exact (seen.extensions hp changed).2
  · have merged : (mls.merge group commit).handles.Perm _ := PublicGroup.handles_merge hmls valid
    rcases seen.handles with same | ⟨member, renewed⟩
    · exact absurd (merged.trans same) changed
    · obtain ⟨handle, held, permits⟩ := group.permits_held administered authentic accepted member
      refine ⟨?_, fun added => ?_, fun index sender removed =>
        PublicGroup.permittedRemoval_of permits held removed⟩
      · rw [StagedCommit.broughtHandles, StagedCommit.brought_of_member member] at merged
        exact merged.trans (renewed.append_right _)
      · obtain ⟨leaf, hleaf⟩ := List.exists_mem_of_ne_nil _ added
        exact ⟨handle, held, permits.adds hleaf⟩

theorem seen_of_policed (hmls : mls.MergesLeaves) (valid : commit.Valid)
    (authentic : commit.credential group = some credential)
    (policed : group.Policed (mls.merge group commit) roster commit context) :
    group.Seen commit := by
  have after : (mls.merge group commit).extensions = commit.proposed.getD group.extensions :=
    mls.merge_extensions valid
  have merged : (mls.merge group commit).handles.Perm _ := PublicGroup.handles_merge hmls valid
  refine ⟨fun {extensions} hp changed => ?_, ?_⟩
  · rw [hp, Option.getD_some] at after
    have changed' := policed.extensions (after ▸ changed)
    have member : commit.held group ≠ none := by
      rcases changed' with roster | lifetime
      · obtain ⟨handle, held, _⟩ := policed.roles roster
        exact fun none_ => by rw [none_] at held; cases held
      · obtain ⟨handle, held, _⟩ := policed.lifetime lifetime
        exact fun none_ => by rw [none_] at held; cases held
    unfold PublicGroup.roster PublicGroup.lifetime at changed'
    rw [after] at changed'
    exact ⟨member, changed'⟩
  · by_cases same : (mls.merge group commit).handles.Perm group.handles
    · exact .inl (merged.symm.trans same)
    · have accounted := merged.symm.trans (policed.handles same).1
      have member : commit.held group ≠ none := by
        intro outside
        obtain ⟨leaf, brought⟩ := StagedCommit.brought_of_outside authentic outside
        have lengths := accounted.length_eq
        unfold StagedCommit.broughtHandles StagedCommit.addedHandles StagedCommit.renewedHandles
          PublicGroup.remaining at lengths
        rw [brought] at lengths
        simp only [List.length_append, List.length_map, List.length_singleton] at lengths
        unfold StagedCommit.kept at lengths
        omega
      refine .inr ⟨member, ?_⟩
      rw [StagedCommit.broughtHandles, StagedCommit.brought_of_member member] at accounted
      exact (List.perm_append_right_iff _).1 accounted

/-- Of every accepted commit: what it has changed was ruled on exactly if the policy has seen it. -/
theorem policed_iff (hmls : mls.MergesLeaves) (administered : group.roster = .ok (some roster))
    (valid : commit.Valid) (authentic : commit.credential group = some credential)
    (accepted : group.authorizeCommit (handleOf credential) commit context = .ok ()) :
    group.Policed (mls.merge group commit) roster commit context ↔ group.Seen commit :=
  ⟨seen_of_policed hmls valid authentic,
    policed_of_seen hmls administered valid authentic accepted⟩

/-- The leaves of the members come first, then those that were added. -/
theorem toLeaf_addLeaves {members : List Member} {leaves : List Leaf} :
    (leaves.foldl addLeaf members).map (·.toLeaf) = members.map (·.toLeaf) ++ leaves := by
  induction leaves generalizing members with
  | nil => exact (List.append_nil _).symm
  | cons leaf leaves ih =>
    rw [List.foldl_cons, ih, addLeaf, List.map_append, List.map_singleton, List.append_assoc,
      List.singleton_append]

theorem rfc9420_mergesLeaves : rfc9420.MergesLeaves := by
  intro group staged _
  unfold rfc9420
  dsimp only
  rw [toLeaf_addLeaves, List.map_map]
  exact .refl _

end

theorem policed_iff_moderatorAdds : ∃ group commit roster,
    moderatorAdds (device "carol" 3) = .ok (group, [⟨commit, ⟨[]⟩⟩]) ∧
      group.roster = .ok (some roster) ∧
      (group.Policed (rfc9420.merge group commit) roster commit ⟨[]⟩ ↔ group.Seen commit) := by
  have done : ∃ group commit roster credential,
      moderatorAdds (device "carol" 3) = .ok (group, [⟨commit, ⟨[]⟩⟩]) ∧
        group.roster = .ok (some roster) ∧ decide commit.Valid = true ∧
        commit.credential group = some credential ∧
        group.authorizeCommit (handleOf credential) commit ⟨[]⟩ = .ok () :=
    ⟨_, _, _, _, rfl, rfl, rfl, rfl, rfl⟩
  obtain ⟨group, commit, roster, credential, added, administered, valid, authentic, accepted⟩ := done
  exact ⟨group, commit, roster, added, administered, policed_iff rfc9420_mergesLeaves administered
    (of_decide_eq_true valid) authentic accepted⟩

/-- Alice founds a group and invites carol, who gets no role. -/
def joined : Except CryptoError PublicGroup := do
  let founded ← Conversation.createAdministered (device "alice" 1) "alice"
  let (_, inviting) ← founded.invite rfc9420 (device "carol" 3)
  .ok (inviting.applyPending rfc9420).toPublicGroup

/-- Carol commits nothing, with a path whose leaf says she is dave. -/
def renames : StagedCommit := ⟨.member 1, [], some (device "dave" 3)⟩

/-- The handles change, and nobody has asked for a role. -/
theorem path_renames_unseen : ∃ group roster, joined = .ok group ∧
    group.roster = .ok (some roster) ∧ renames.Valid ∧
    renames.credential group = some (credentialOf "carol") ∧
    group.authorizeCommit "carol" renames ⟨[]⟩ = .ok () ∧
    group.handles = ["alice", "carol"] ∧
    (rfc9420.merge group renames).handles = ["alice", "dave"] ∧
    roster.canModerate "carol" = false ∧
    ¬ group.Policed (rfc9420.merge group renames) roster renames ⟨[]⟩ := by
  have done : ∃ group roster, joined = .ok group ∧ group.roster = .ok (some roster) ∧
      renames.credential group = some (credentialOf "carol") ∧
      group.authorizeCommit "carol" renames ⟨[]⟩ = .ok () ∧
      group.handles = ["alice", "carol"] ∧
      (rfc9420.merge group renames).handles = ["alice", "dave"] ∧
      roster.canModerate "carol" = false ∧
      group.remaining renames ++ renames.addedHandles = ["alice", "carol"] :=
    ⟨_, _, rfl, rfl, rfl, rfl, rfl, rfl, rfl, rfl⟩
  obtain ⟨group, roster, h, administered, authentic, accepted, before, after, noRole, remains⟩ := done
  refine ⟨group, roster, h, administered, by decide, authentic, accepted, before, after, noRole,
    fun policed => ?_⟩
  have changed : ¬ (rfc9420.merge group renames).handles.Perm group.handles := by
    rw [after, before]
    decide
  have accounted := (policed.handles changed).1
  rw [after, remains] at accounted
  revert accounted
  decide

/-! ## The devices of those who hold a role

Every one of them is protected here, those of the admin like those of a moderator.
-/

section
variable {group : PublicGroup} {commit : StagedCommit} {roster : Roster} {context : Context}

/-- The admin commits the removal, the device asked for it, or its revocation is verified. -/
def PublicGroup.Rightful (roster : Roster) (committer : String) (commit : StagedCommit)
    (context : Context) (m : Member) : Prop :=
  roster.isAdmin committer ∨ (m.index, .member m.index) ∈ commit.removeProposals ∨
    m.signatureKey ∈ context.revoked

/-- Of every commit the policy accepts: the devices of the admin and of the moderators are removed as
they may be exactly if those of the admin are. -/
theorem roleHolders_kept_iff (administered : group.roster = .ok (some roster))
    (accepted : group.authorizeCommit committer commit context = .ok ()) :
    (∀ m ∈ group.members, m.index ∈ commit.removed → roster.canModerate (handleOf m.credential) →
        PublicGroup.Rightful roster committer commit context m) ↔
      ∀ m ∈ group.members, m.index ∈ commit.removed → handleOf m.credential = roster.admin →
        PublicGroup.Rightful roster committer commit context m := by
  have permits := (PublicGroup.authorizeCommit_eq_ok_iff administered).1 accepted
  constructor
  · intro h m hm removed admin
    refine h m hm removed ?_
    rw [Roster.canModerate, Roster.isAdmin_iff.2 admin.symm, Bool.true_or]
  · intro h m hm removed holds
    rcases Bool.or_eq_true_iff.1 holds with admin | moderator
    · exact h m hm removed (Roster.isAdmin_iff.1 admin).symm
    · obtain ⟨⟨index, sender⟩, hr, hindex⟩ := List.mem_map.1 removed
      obtain ⟨m', hm', hindex', permitted⟩ := permits.removals hr
      obtain rfl : m' = m := group.eq_of_index hm' hm (hindex'.trans hindex)
      rcases permitted with requested | revoked | ⟨_, ruled⟩
      · obtain rfl : sender = .member index := of_decide_eq_true requested
        exact .inr (.inl (hindex' ▸ hr))
      · exact .inr (.inr (Context.isRevoked_iff.1 revoked))
      · exact .inl (ruled moderator)

end

/-- Alice founds a group, adds her phone, invites bob and appoints him moderator; then the member
with this index removes a device. -/
def removes (ownIndex : Nat) (key : UInt8) : Except CryptoError (PublicGroup × StagedCommit) := do
  let founded ← Conversation.createAdministered (device "alice" 1) "alice"
  let (_, pairing) ← founded.invite rfc9420 (device "alice" 4)
  let (_, inviting) ← (pairing.applyPending rfc9420).invite rfc9420 (device "bob" 2)
  let (_, appointing) ← (inviting.applyPending rfc9420).setRoles rfc9420 "alice" ["bob"]
  let member := { appointing.applyPending rfc9420 with ownIndex }
  let (commit, _) ← member.remove rfc9420 [key]
  .ok (member.toPublicGroup, commit)

theorem roleHolders_kept_iff_adminRemoves : ∃ group commit roster,
    removes 0 4 = .ok (group, commit) ∧ group.roster = .ok (some roster) ∧ commit.removed = [1] ∧
    ((∀ m ∈ group.members, m.index ∈ commit.removed → roster.canModerate (handleOf m.credential) →
        PublicGroup.Rightful roster "alice" commit ⟨[]⟩ m) ↔
      ∀ m ∈ group.members, m.index ∈ commit.removed → handleOf m.credential = roster.admin →
        PublicGroup.Rightful roster "alice" commit ⟨[]⟩ m) := by
  have done : ∃ group commit roster, removes 0 4 = .ok (group, commit) ∧
      group.roster = .ok (some roster) ∧ commit.removed = [1] ∧
      group.authorizeCommit "alice" commit ⟨[]⟩ = .ok () := ⟨_, _, _, rfl, rfl, rfl, rfl⟩
  obtain ⟨group, commit, roster, h, administered, removed, accepted⟩ := done
  exact ⟨group, commit, roster, h, administered, removed,
    roleHolders_kept_iff administered accepted⟩

/-- The policy lets bob, a moderator, remove the phone of alice, the admin. -/
theorem moderator_removes_admin_device : ∃ group commit roster,
    removes 2 4 = .ok (group, commit) ∧ group.roster = .ok (some roster) ∧
    group.authorizeCommit "bob" commit ⟨[]⟩ = .ok () ∧ roster.isModerator "bob" = true ∧
    (⟨device "alice" 4, 1⟩ : Member) ∈ group.members ∧ 1 ∈ commit.removed ∧
    handleOf (device "alice" 4).credential = roster.admin ∧
    ¬ PublicGroup.Rightful roster "bob" commit ⟨[]⟩ ⟨device "alice" 4, 1⟩ := by
  have done : ∃ group commit roster, removes 2 4 = .ok (group, commit) ∧
      group.roster = .ok (some roster) ∧ group.authorizeCommit "bob" commit ⟨[]⟩ = .ok () ∧
      roster.isModerator "bob" = true ∧ roster.isAdmin "bob" = false ∧ roster.admin = "alice" ∧
      group.members[1]? = some ⟨device "alice" 4, 1⟩ ∧
      commit.removeProposals = [(1, .member 2)] := ⟨_, _, _, rfl, rfl, rfl, rfl, rfl, rfl, rfl, rfl⟩
  obtain ⟨group, commit, roster, h, administered, accepted, moderator, notAdmin, admin, phone,
    removal⟩ := done
  refine ⟨group, commit, roster, h, administered, accepted, moderator, List.mem_of_getElem? phone,
    ?_, ?_, ?_⟩
  · rw [StagedCommit.removed, removal]
    exact List.mem_singleton_self 1
  · rw [admin]
    exact handleOf_credentialOf "alice"
  · rintro (byAdmin | asked | revoked)
    · rw [notAdmin] at byAdmin
      cases byAdmin
    · rw [removal] at asked
      cases List.mem_singleton.1 asked
    · cases revoked

end Whispee.Group
