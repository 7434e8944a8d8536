import Whispee.Group.Rfc9420
import Whispee.Lib.Transition

/-!
# The admin's place

Runs of commits accepted by the policy of an administered group. The policy reads the tree and the
roster from before a commit: a hand-over to an account that is not there passes
(`handOver_to_absent`), and so does a key package that carries the admin's handle
(`moderator_adds_admin`). `admin_present_of_seats` and `admin_keys_subset` say what commits keep the
admin in place, and their power theirs.
-/

namespace Whispee.Group

open Fallible
open Transition (Reach run)

/-- A commit a member receives, and what it has verified when it does. -/
structure Received where
  commit : StagedCommit
  context : Context

/-- The account some group context extensions name as admin. -/
def adminOf (extensions : List Extension) : Option String :=
  match rosterOf extensions with
  | .ok (some roster) => some roster.admin
  | _ => none

namespace PublicGroup

/-- The group after a commit that a member accepts; it is the same for all who accept it. -/
def step (mls : Mls) (group : PublicGroup) (received : Received) : Option PublicGroup := do
  let credential ← received.commit.credential group
  match group.authorizeCommit (handleOf credential) received.commit received.context with
  | .ok () => some (mls.merge group received.commit)
  | .error _ => none

section
variable {mls : Mls} {group after : PublicGroup} {received : Received}

theorem step_eq_some_iff : group.step mls received = some after ↔
    ∃ credential, received.commit.credential group = some credential ∧
      group.authorizeCommit (handleOf credential) received.commit received.context = .ok () ∧
      mls.merge group received.commit = after := by
  simp only [step, bind, Option.bind_eq_some_iff]
  refine exists_congr fun credential => and_congr_right fun _ => ?_
  split <;> simp_all

/-- What a device processes is a step of the group. -/
theorem step_of_process {conversation after : Conversation}
    (authentic : commit.credential conversation.toPublicGroup = some credential)
    (h : Conversation.process mls conversation ⟨credential, .stagedCommit commit⟩ context =
      .ok (incoming, after)) :
    conversation.toPublicGroup.step mls ⟨commit, context⟩ = some after.toPublicGroup := by
  obtain ⟨accepted, -, rfl⟩ := Conversation.process_stagedCommit_iff.1 h
  exact step_eq_some_iff.2 ⟨credential, authentic, accepted, rfl⟩

end

/-! ## An admin who is there -/

/-- The account the roster names as admin. -/
def admin (group : PublicGroup) : Option String := adminOf group.extensions

/-- The account has a device among the members. -/
def Present (group : PublicGroup) (handle : String) : Prop :=
  ∃ m ∈ group.members, handleOf m.credential = handle
  deriving Decidable

end PublicGroup

namespace StagedCommit

/-- The account the roster names as admin after the commit. -/
def admin (commit : StagedCommit) (group : PublicGroup) : Option String :=
  adminOf (commit.proposed.getD group.extensions)

/-- The account has a device that the commit does not remove. -/
def Keeps (commit : StagedCommit) (group : PublicGroup) (handle : String) : Prop :=
  ∃ m ∈ group.members, m.index ∉ commit.removed ∧ handleOf m.credential = handle
  deriving Decidable

/-- The commit brings in a device of the account. -/
def Brings (commit : StagedCommit) (handle : String) : Prop :=
  ∃ leaf ∈ commit.brought, handleOf leaf.credential = handle
  deriving Decidable

/-- The commit hands the group to nobody who is not there, and renames no last device of the
admin. -/
structure Seats (commit : StagedCommit) (group : PublicGroup) : Prop where
  named : ∀ handle ∈ commit.admin group,
    group.admin = some handle ∨ commit.Keeps group handle ∨ commit.Brings handle
  renewed : ∀ handle ∈ commit.admin group, commit.Keeps group handle →
    (∃ m ∈ group.members, m.index ∉ commit.removed ∧
      handleOf (commit.renewed m).credential = handle) ∨ commit.Brings handle

instance : Decidable (Seats commit group) :=
  decidable_of_iff (_ ∧ _) ⟨fun ⟨named, renewed⟩ => ⟨named, renewed⟩, fun seats =>
    ⟨seats.named, seats.renewed⟩⟩

end StagedCommit

section
variable {mls : Mls} {group after : PublicGroup} {commit : StagedCommit}

theorem adminOf_eq_some_iff : adminOf extensions = some handle ↔
    ∃ roster, rosterOf extensions = .ok (some roster) ∧ roster.admin = handle := by
  unfold adminOf
  split <;> simp_all

theorem StagedCommit.Brings.present (h : commit.Brings handle) (valid : commit.Valid) :
    (mls.merge group commit).Present handle := by
  obtain ⟨leaf, hl, handle⟩ := h
  obtain ⟨m, hm, same⟩ := mls.merge_of_brought valid hl
  exact ⟨m, hm, by rw [same]; exact handle⟩

/-- What the policy does for the admin of before the commit. -/
theorem PublicGroup.keeps_of_authorizeCommit (h : group.admin = some handle)
    (accepted : group.authorizeCommit committer commit context = .ok ()) :
    commit.Keeps group handle := by
  obtain ⟨roster, hr, rfl⟩ := adminOf_eq_some_iff.1 h
  exact ((PublicGroup.authorizeCommit_eq_ok_iff hr).1 accepted).admin

theorem PublicGroup.present_step {received : Received} (valid : received.commit.Valid)
    (seats : received.commit.Seats group) (h : group.step mls received = some after)
    (administered : after.admin = some handle) : after.Present handle := by
  obtain ⟨credential, -, accepted, rfl⟩ := PublicGroup.step_eq_some_iff.1 h
  rw [PublicGroup.admin, mls.merge_extensions valid] at administered
  have kept_or_brings : received.commit.Keeps group handle ∨ received.commit.Brings handle := by
    rcases seats.named handle administered with sitting | h
    · exact .inl (PublicGroup.keeps_of_authorizeCommit sitting accepted)
    · exact h
  rcases kept_or_brings with kept | brings
  · rcases seats.renewed handle administered kept with ⟨m, hm, kept, renewed⟩ | brings
    · obtain ⟨m', hm', -, same⟩ := mls.merge_of_kept valid hm kept
      exact ⟨m', hm', by rw [same]; exact renewed⟩
    · exact brings.present valid
  · exact brings.present valid

theorem Conversation.createAdministered_eq_ok {founded : Conversation}
    (h : createAdministered identity admin = .ok founded) :
    founded.members = [⟨identity, 0⟩] ∧
      ∃ roster, founded.roster = .ok (some roster) ∧ roster.admin = admin := by
  obtain ⟨initial, hi, h⟩ := bind_eq_ok_iff.1 h
  obtain ⟨extensions, he, h⟩ := bind_eq_ok_iff.1 h
  cases h
  refine ⟨rfl, initial, (contextExtensions_read he).1, ?_⟩
  unfold Roster.new at hi
  split at hi
  · cases hi
  · cases hi
    rfl

/-- From an administered group founded by its admin, as long as every commit seats the admin, the
account the roster names has a device in the group. -/
theorem admin_present_of_seats {founded : Conversation}
    (created : Conversation.createAdministered ⟨credentialOf name, key⟩ name = .ok founded)
    (h : Reach (PublicGroup.step mls) (fun group received =>
      received.commit.Valid ∧ received.commit.Seats group) founded.toPublicGroup group)
    (administered : group.admin = some handle) : group.Present handle := by
  cases h with
  | refl =>
    obtain ⟨members, initial, hi, rfl⟩ := Conversation.createAdministered_eq_ok created
    obtain ⟨roster, hr, rfl⟩ := adminOf_eq_some_iff.1 administered
    cases hi.symm.trans hr
    exact ⟨⟨⟨credentialOf initial.admin, key⟩, 0⟩, by rw [members]; exact List.mem_singleton_self _,
      handleOf_credentialOf _⟩
  | tail _ guard step => exact PublicGroup.present_step guard.1 guard.2 step administered

end

/-- Alice founds a group, invites bob, and hands it over to the heir: the group at the start, and
the two commits. -/
def handOver (heir : String) : Except CryptoError (Conversation × List Received) := do
  let founded ← Conversation.createAdministered (device "alice" 1) "alice"
  let (invitation, inviting) ← founded.invite rfc9420 (device "bob" 2)
  let (change, _) ← (inviting.applyPending rfc9420).setRoles rfc9420 heir []
  .ok (founded, [⟨invitation, ⟨[]⟩⟩, ⟨change, ⟨[]⟩⟩])

theorem admin_present_of_seats_handOver : ∃ founded group,
    Conversation.createAdministered (device "alice" 1) "alice" = .ok founded ∧
    Reach (PublicGroup.step rfc9420) (fun group received =>
      received.commit.Valid ∧ received.commit.Seats group) founded.toPublicGroup group ∧
    group.admin = some "bob" ∧ group.Present "bob" := by
  have done : ∃ founded commits group, handOver "bob" = .ok (founded, commits) ∧
      Conversation.createAdministered (device "alice" 1) "alice" = .ok founded ∧
      run (fun group received => if received.commit.Valid ∧ received.commit.Seats group then
        group.step rfc9420 received else none) founded.toPublicGroup commits = some group ∧
      group.admin = some "bob" :=
    ⟨_, _, _, rfl, rfl, rfl, rfl⟩
  obtain ⟨founded, commits, group, -, created, h, administered⟩ := done
  have reached := Transition.reach_of_run_guarded h
  exact ⟨founded, group, created, reached, administered,
    admin_present_of_seats created reached administered⟩

/-- The policy accepts a hand-over to an account that has no device in the group. -/
theorem handOver_to_absent : ∃ founded commits group,
    handOver "carol" = .ok (founded, commits) ∧
    Reach (PublicGroup.step rfc9420) (fun _ received => received.commit.Valid)
      founded.toPublicGroup group ∧
    group.admin = some "carol" ∧ ¬ group.Present "carol" := by
  have done : ∃ founded commits group, handOver "carol" = .ok (founded, commits) ∧
      run (fun group received => if received.commit.Valid then
        group.step rfc9420 received else none) founded.toPublicGroup commits = some group ∧
      group.admin = some "carol" ∧ decide (group.Present "carol") = false :=
    ⟨_, _, _, rfl, rfl, rfl, rfl⟩
  obtain ⟨founded, commits, group, handed, h, administered, absent⟩ := done
  exact ⟨founded, commits, group, handed, Transition.reach_of_run_guarded h, administered,
    of_decide_eq_false absent⟩

/-! ## The admin's power -/

/-- The keys of the devices that carry a handle. -/
def PublicGroup.keysOf (group : PublicGroup) (handle : String) : List Bytes :=
  (group.members.filter (handleOf ·.credential = handle)).map (·.signatureKey)

namespace StagedCommit

/-- Every leaf a commit carries: of its additions, of its updates, and of its path. -/
def leaves (commit : StagedCommit) : List Leaf :=
  commit.proposals.filterMap (fun
    | ⟨.add leaf, _⟩ | ⟨.update leaf, _⟩ => some leaf
    | _ => none) ++ commit.path.toList

/-- The commit was made by a device that carries the handle. -/
def MadeBy (commit : StagedCommit) (group : PublicGroup) (handle : String) : Prop :=
  ∃ m ∈ group.members, handleOf m.credential = handle ∧ (commit.committer = .member m.index ∨
    commit.committer = .newMemberCommit ∧ ∃ leaf ∈ commit.path, leaf.signatureKey = m.signatureKey)
  deriving Decidable

/-- A leaf of the commit carries the handle under a key that did not carry it. -/
def Usurps (commit : StagedCommit) (group : PublicGroup) (handle : String) : Prop :=
  ∃ leaf ∈ commit.leaves, handleOf leaf.credential = handle ∧
    leaf.signatureKey ∉ group.keysOf handle
  deriving Decidable

end StagedCommit

section
variable {mls : Mls} {group after : PublicGroup} {commit : StagedCommit} {m : Member} {leaf : Leaf}
  {roster : Roster}

theorem PublicGroup.mem_keysOf : key ∈ group.keysOf handle ↔
    ∃ m ∈ group.members, handleOf m.credential = handle ∧ m.signatureKey = key := by
  simp only [keysOf, List.mem_map, List.mem_filter, decide_eq_true_eq, and_assoc]

namespace StagedCommit

theorem mem_leaves_of_brought (h : leaf ∈ commit.brought) : leaf ∈ commit.leaves := by
  rcases List.mem_append.1 h with h | h
  · obtain ⟨sender, hq⟩ := mem_addProposals.1 h
    exact List.mem_append_left _ (List.mem_filterMap.2 ⟨_, hq, rfl⟩)
  · split at h
    · exact List.mem_append_right _ h
    · exact absurd h List.not_mem_nil

theorem renewed_eq_or_mem : commit.renewed m = m.toLeaf ∨ commit.renewed m ∈ commit.leaves := by
  unfold renewed
  split
  · cases hp : commit.path with
    | none => exact .inl rfl
    | some leaf => exact .inr (List.mem_append_right _ (by rw [hp]; exact List.mem_singleton_self _))
  · dsimp only
    generalize hu : List.findSome? _ commit.proposals = update
    cases update with
    | none => exact .inl rfl
    | some leaf =>
      obtain ⟨⟨proposal, sender⟩, hq, h⟩ := List.exists_of_findSome?_eq_some hu
      refine .inr (List.mem_append_left _ (List.mem_filterMap.2 ⟨_, hq, ?_⟩))
      cases proposal with
      | update _ =>
        dsimp only at h
        split at h
        · exact h
        · cases h
      | _ => cases h

/-- Who is not the admin does not commit under the admin's handle. -/
theorem handle_ne_of_not_madeBy {credential : Credential}
    (notMade : ¬ commit.MadeBy group handle) (honest : ¬ commit.Usurps group handle)
    (h : commit.credential group = some credential) :
    handleOf credential ≠ handle := by
  intro carried
  unfold StagedCommit.credential at h
  split at h
  · rename_i index hc
    obtain ⟨m, hm, rfl⟩ := Option.map_eq_some_iff.1 h
    have hi : m.index = index := by simpa using List.find?_some hm
    exact notMade ⟨m, List.mem_of_find?_eq_some hm, carried, .inl (hi ▸ hc)⟩
  · rename_i hc
    obtain ⟨leaf, hp, rfl⟩ := Option.map_eq_some_iff.1 h
    have mem : leaf ∈ commit.leaves :=
      List.mem_append_right _ (by rw [hp]; exact List.mem_singleton_self _)
    have key : leaf.signatureKey ∈ group.keysOf handle :=
      Classical.not_not.1 fun new => honest ⟨leaf, mem, carried, new⟩
    obtain ⟨m, hm, hh, hk⟩ := PublicGroup.mem_keysOf.1 key
    exact notMade ⟨m, hm, hh, .inr ⟨hc, leaf, hp, hk.symm⟩⟩
  all_goals cases h

end StagedCommit

namespace PublicGroup

/-- The policy keeps the roster as it is when the admin does not commit. -/
theorem roster_of_authorizeCommit (administered : group.roster = .ok (some roster))
    (accepted : group.authorizeCommit committer commit context = .ok ())
    (other : committer ≠ roster.admin) :
    rosterOf (commit.proposed.getD group.extensions) = .ok (some roster) := by
  cases hp : commit.proposed with
  | none => exact administered
  | some extensions =>
    obtain ⟨newRoster, newLifetime, _, built, -, admin, -⟩ :=
      ((authorizeCommit_eq_ok_iff administered).1 accepted).context hp
    have same : newRoster = some roster := Classical.not_not.1 fun changed =>
      other (Roster.isAdmin_iff.1 (admin changed)).symm
    exact same ▸ (contextExtensions_read built).1

theorem keysOf_merge (valid : commit.Valid) (honest : ¬ commit.Usurps group handle)
    (h : key ∈ (mls.merge group commit).keysOf handle) : key ∈ group.keysOf handle := by
  obtain ⟨m', hm', carried, rfl⟩ := mem_keysOf.1 h
  have fromCommit : m'.toLeaf ∈ commit.leaves → m'.signatureKey ∈ group.keysOf handle := fun mem =>
    Classical.not_not.1 fun new => honest ⟨m'.toLeaf, mem, carried, new⟩
  rcases mls.kept_or_brought valid hm' with ⟨m, hm, -, same⟩ | brought
  · rcases commit.renewed_eq_or_mem (m := m) with renewed | renewed
    · rw [renewed] at same
      exact mem_keysOf.2 ⟨m, hm, by rw [← same]; exact carried, by rw [← same]⟩
    · exact fromCommit (same ▸ renewed)
  · exact fromCommit (StagedCommit.mem_leaves_of_brought brought)

end PublicGroup

/-- In every run of accepted commits, none of them made by a device of the admin and none carrying
the admin's handle under another key, the roster stays and no device gains the admin's handle. -/
theorem admin_keys_subset {start : PublicGroup} (administered : start.roster = .ok (some roster))
    (h : Reach (PublicGroup.step mls) (fun group received => received.commit.Valid ∧
      ¬ received.commit.MadeBy group roster.admin ∧
      ¬ received.commit.Usurps group roster.admin) start group) :
    group.roster = .ok (some roster) ∧
      group.keysOf roster.admin ⊆ start.keysOf roster.admin := by
  induction h with
  | refl => exact ⟨administered, List.Subset.refl _⟩
  | tail _ guard step ih =>
    obtain ⟨valid, notMade, honest⟩ := guard
    obtain ⟨credential, hc, accepted, rfl⟩ := PublicGroup.step_eq_some_iff.1 step
    have other := StagedCommit.handle_ne_of_not_madeBy notMade honest hc
    constructor
    · exact (congrArg rosterOf (mls.merge_extensions valid)).trans
        (PublicGroup.roster_of_authorizeCommit ih.1 accepted other)
    · exact fun key hk => ih.2 (PublicGroup.keysOf_merge valid honest hk)

end

/-- Alice founds a group, invites bob and appoints him moderator: bob's side of it. -/
def moderated : Except CryptoError Conversation := do
  let founded ← Conversation.createAdministered (device "alice" 1) "alice"
  let (_, inviting) ← founded.invite rfc9420 (device "bob" 2)
  let (_, appointing) ← (inviting.applyPending rfc9420).setRoles rfc9420 "alice" ["bob"]
  .ok { appointing.applyPending rfc9420 with ownIndex := 1 }

/-- Bob adds a device: the group before, and the commit. -/
def moderatorAdds (keyPackage : Leaf) : Except CryptoError (PublicGroup × List Received) := do
  let bob ← moderated
  let (commit, _) ← bob.invite rfc9420 keyPackage
  .ok (bob.toPublicGroup, [⟨commit, ⟨[]⟩⟩])

theorem admin_keys_subset_moderatorAdds : ∃ start commits group roster,
    moderatorAdds (device "carol" 3) = .ok (start, commits) ∧
    start.roster = .ok (some roster) ∧
    Reach (PublicGroup.step rfc9420) (fun group received => received.commit.Valid ∧
      ¬ received.commit.MadeBy group roster.admin ∧
      ¬ received.commit.Usurps group roster.admin) start group ∧
    group.Present "carol" ∧ group.keysOf roster.admin ⊆ start.keysOf roster.admin := by
  have done : ∃ start commits group roster,
      moderatorAdds (device "carol" 3) = .ok (start, commits) ∧
      start.roster = .ok (some roster) ∧
      run (fun group received => if received.commit.Valid ∧
          ¬ received.commit.MadeBy group roster.admin ∧
          ¬ received.commit.Usurps group roster.admin then
        group.step rfc9420 received else none) start commits = some group ∧
      decide (group.Present "carol") = true :=
    ⟨_, _, _, _, rfl, rfl, rfl, rfl⟩
  obtain ⟨start, commits, group, roster, added, administered, h, present⟩ := done
  have reached := Transition.reach_of_run_guarded h
  exact ⟨start, commits, group, roster, added, administered, reached, of_decide_eq_true present,
    (admin_keys_subset administered reached).2⟩

/-- The policy accepts, from a moderator, a key package that carries the admin's handle. -/
theorem moderator_adds_admin : ∃ start commits group roster,
    moderatorAdds (device "alice" 9) = .ok (start, commits) ∧
    start.roster = .ok (some roster) ∧
    Reach (PublicGroup.step rfc9420) (fun group received => received.commit.Valid ∧
      ¬ received.commit.MadeBy group roster.admin) start group ∧
    start.keysOf roster.admin = [[1]] ∧ group.keysOf roster.admin = [[1], [9]] := by
  have done : ∃ start commits group roster,
      moderatorAdds (device "alice" 9) = .ok (start, commits) ∧
      start.roster = .ok (some roster) ∧
      run (fun group received => if received.commit.Valid ∧
          ¬ received.commit.MadeBy group roster.admin then
        group.step rfc9420 received else none) start commits = some group ∧
      start.keysOf roster.admin = [[1]] ∧ group.keysOf roster.admin = [[1], [9]] :=
    ⟨_, _, _, _, rfl, rfl, rfl, rfl, rfl⟩
  obtain ⟨start, commits, group, roster, added, administered, h, keys⟩ := done
  exact ⟨start, commits, group, roster, added, administered,
    Transition.reach_of_run_guarded h, keys⟩

end Whispee.Group
