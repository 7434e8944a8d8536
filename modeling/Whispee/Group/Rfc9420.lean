import Whispee.Group.Conversation
import Mathlib.Data.List.Perm.Subperm

/-!
# A library

An MLS library (`rfc9420`) with what RFC 9420 says a commit does to the tree and the group context:
removed leaves are blanked, renewed leaves replaced in place, and new ones put in the leftmost free
places. A commit takes up every stored proposal.
-/

namespace Whispee.Group

/-- The leftmost leaf index that is free. -/
def freshIndex (used : List Nat) : Nat :=
  ((List.range (used.length + 1)).find? (· ∉ used)).getD 0

theorem freshIndex_notMem (used : List Nat) : freshIndex used ∉ used := by
  unfold freshIndex
  cases h : (List.range (used.length + 1)).find? (· ∉ used) with
  | some index => simpa using List.find?_some h
  | none =>
    -- there would be more numbers below the length than the list holds
    have subset : List.range (used.length + 1) ⊆ used := fun n hn => by
      simpa using List.find?_eq_none.1 h n hn
    have short := (List.subperm_of_subset List.nodup_range subset).length_le
    rw [List.length_range] at short
    exact absurd short (Nat.not_succ_le_self _)

def addLeaf (members : List Member) (leaf : Leaf) : List Member :=
  members ++ [⟨leaf, freshIndex (members.map (·.index))⟩]

section
variable {members : List Member} {leaves : List Leaf}

theorem nodup_addLeaf (h : (members.map (·.index)).Nodup) :
    ((addLeaf members leaf).map (·.index)).Nodup := by
  rw [addLeaf, List.map_append, List.map_singleton]
  exact h.append (List.nodup_singleton _) (List.disjoint_singleton.2 (freshIndex_notMem _))

theorem nodup_addLeaves (h : (members.map (·.index)).Nodup) :
    ((leaves.foldl addLeaf members).map (·.index)).Nodup := by
  induction leaves generalizing members with
  | nil => exact h
  | cons leaf leaves ih => exact ih (nodup_addLeaf h)

theorem mem_addLeaves_of_mem (h : m ∈ members) : m ∈ leaves.foldl addLeaf members := by
  induction leaves generalizing members with
  | nil => exact h
  | cons leaf leaves ih => exact ih (List.mem_append_left _ h)

theorem exists_mem_addLeaves (h : leaf ∈ leaves) :
    ∃ m ∈ leaves.foldl addLeaf members, m.toLeaf = leaf := by
  induction leaves generalizing members with
  | nil => exact absurd h List.not_mem_nil
  | cons first leaves ih =>
    rcases List.mem_cons.1 h with rfl | h
    · have added : ⟨leaf, freshIndex (members.map (·.index))⟩ ∈
          leaves.foldl addLeaf (addLeaf members leaf) :=
        mem_addLeaves_of_mem (List.mem_append_right _ (List.mem_singleton_self _))
      exact ⟨_, added, rfl⟩
    · exact ih h

theorem mem_addLeaves (h : m ∈ leaves.foldl addLeaf members) : m ∈ members ∨ m.toLeaf ∈ leaves := by
  induction leaves generalizing members with
  | nil => exact .inl h
  | cons leaf leaves ih =>
    rcases ih h with h | h
    · rcases List.mem_append.1 h with h | h
      · exact .inl h
      · rw [List.mem_singleton.1 h]
        exact .inr List.mem_cons_self
    · exact .inr (List.mem_cons_of_mem _ h)

end

instance (commit : StagedCommit) : Decidable commit.Valid :=
  decidable_of_iff (_ ∧ _) ⟨fun ⟨contexts, stays⟩ => ⟨contexts, stays⟩,
    fun valid => ⟨valid.contexts, valid.stays⟩⟩

def commitAll (conversation : Conversation) (own : List Proposal) : StagedCommit where
  committer := .member conversation.ownIndex
  proposals := own.map (⟨·, .member conversation.ownIndex⟩) ++ conversation.pending
  path := (conversation.members.find? (·.index = conversation.ownIndex)).map (·.toLeaf)

/-- A library that commits everything it has stored, and fills the free leaves from the left. -/
def rfc9420 : Mls where
  commit conversation own :=
    if (commitAll conversation own).Valid then .ok (commitAll conversation own)
    else .error "invalid commit"
  merge group staged :=
    let kept := group.members.filter (·.index ∉ staged.removed)
    { members := staged.brought.foldl addLeaf (kept.map fun m => ⟨staged.renewed m, m.index⟩)
      extensions := staged.proposed.getD group.extensions
      nodup := by
        apply nodup_addLeaves
        rw [List.map_map]
        exact (List.filter_sublist.map _).nodup group.nodup }
  commit_valid h := by
    split at h
    · cases h
      assumption
    · cases h
  commit_committer h := by
    split at h
    · cases h
      rfl
    · cases h
  own_or_pending h hq := by
    split at h
    · cases h
      rcases List.mem_append.1 hq with hq | hq
      · obtain ⟨proposal, hp, rfl⟩ := List.mem_map.1 hq
        exact .inl ⟨hp, rfl⟩
      · exact .inr hq
    · cases h
  merge_extensions _ := rfl
  merge_of_kept _ hm kept :=
    ⟨_, mem_addLeaves_of_mem (List.mem_map_of_mem (List.mem_filter.2 ⟨hm, decide_eq_true kept⟩)),
      rfl, rfl⟩
  merge_of_brought _ h := exists_mem_addLeaves h
  kept_or_brought _ h := by
    rcases mem_addLeaves h with h | h
    · obtain ⟨m, hm, rfl⟩ := List.mem_map.1 h
      obtain ⟨hm, kept⟩ := List.mem_filter.1 hm
      exact .inl ⟨m, hm, of_decide_eq_true kept, rfl⟩
    · exact .inr h

/-- The device of this name with this key. -/
def device (name : String) (key : UInt8) : Leaf := ⟨credentialOf name, [key]⟩

end Whispee.Group
