import Whispee.Server.Gateway
import Mathlib.Algebra.Order.BigOperators.Group.List
import Mathlib.Algebra.Order.Group.Nat
import Mathlib.Algebra.Ring.Nat
import Mathlib.Data.List.Dedup

/-!
# Catching up once

How often `resume` of `crates/server/src/gateway.rs` turns to a group. It tells the cursors apart by
the text of their group, and the groups by the bytes the text decodes to: two texts of one group are
two catch-ups (`once_iff`).
-/

namespace Whispee.Server.Gateway

open Transition

/-- The catch-up a step makes: the group, and how much of it is announced. -/
def catchUp (s : State) : Action → List (Bytes × Nat)
  | .advance =>
    match s.phase with
    | .querying _ _ _ cursor groupId => [(groupId, (s.missed groupId cursor.seq).length)]
    | _ => []
  | _ => []

section
variable (members : List Bytes) (cursors : List Cursor)

/-- The catch-ups of a run. -/
def catchUps : State → List Action → List (Bytes × Nat)
  | _, [] => []
  | s, a :: actions =>
    catchUp s a ++
      match step members cursors s a with
      | some t => catchUps t actions
      | none => []

end

/-- Each group is one of the device's and is caught up at most once, so that no more is announced
than the page cap allows for so many groups. -/
structure Once (members : List Bytes) (caughtUp : List (Bytes × Nat)) : Prop where
  nodup : (caughtUp.map (·.1)).Nodup
  known : ∀ row ∈ caughtUp, row.1 ∈ members
  bounded : (caughtUp.map (·.2)).sum ≤ members.dedup.length * MAX_RESUME_PER_GROUP

/-! ## The loop -/

/-- The groups the loop of `resume` turns to. -/
def resumed (groups : List Bytes) : List String → List Cursor → List Bytes
  | _, [] => []
  | seen, cursor :: left =>
    if seen.contains cursor.groupId then resumed groups seen left
    else
      match fromHex cursor.groupId with
      | none => resumed groups (cursor.groupId :: seen) left
      | some groupId =>
        if groups.contains groupId then
          groupId :: resumed groups (cursor.groupId :: seen) left
        else resumed groups (cursor.groupId :: seen) left

/-- The groups a session has yet to catch up. -/
def Phase.upcoming (members : List Bytes) (cursors : List Cursor) : Phase → List Bytes
  | .identified => resumed members [] (cursors.take MAX_CURSORS)
  | .subscribing groups _ => resumed groups [] (cursors.take MAX_CURSORS)
  | .resuming groups seen left => resumed groups seen left
  | .querying groups seen left _ groupId => groupId :: resumed groups seen left
  | .pumping => []

section
variable {members groups : List Bytes} {cursors left : List Cursor} {seen : List String}
  {s t : State}

theorem mem_resumed (h : groupId ∈ resumed groups seen left) :
    groupId ∈ groups ∧ ∃ cursor ∈ left, cursor.groupId ∉ seen ∧
      fromHex cursor.groupId = some groupId := by
  induction left generalizing seen with
  | nil => cases h
  | cons first left ih =>
    have hlater : ∀ {seen' : List String}, seen ⊆ seen' → groupId ∈ resumed groups seen' left →
        groupId ∈ groups ∧ ∃ cursor ∈ first :: left, cursor.groupId ∉ seen ∧
          fromHex cursor.groupId = some groupId := by
      intro seen' hseen h
      obtain ⟨hgroup, cursor, hmem, hnew, hname⟩ := ih h
      exact ⟨hgroup, cursor, List.mem_cons_of_mem _ hmem, fun hold => hnew (hseen hold), hname⟩
    unfold resumed at h
    split at h
    · exact hlater (List.Subset.refl _) h
    · rename_i hfirst
      split at h
      · exact hlater (List.subset_cons_self ..) h
      · rename_i g hname
        split at h
        · rename_i hgroup
          rcases List.mem_cons.1 h with rfl | h
          · refine ⟨List.contains_iff_mem.1 hgroup, first, List.mem_cons_self, ?_, hname⟩
            exact fun hold => hfirst (List.contains_iff_mem.2 hold)
          · exact hlater (List.subset_cons_self ..) h
        · exact hlater (List.subset_cons_self ..) h

theorem resumed_cons (hnew : first.groupId ∉ seen) (hname : fromHex first.groupId = some groupId)
    (hgroup : groupId ∈ groups) : resumed groups seen (first :: left) =
      groupId :: resumed groups (first.groupId :: seen) left := by
  rw [resumed, if_neg fun h => hnew (List.contains_iff_mem.1 h), hname]
  exact if_pos (List.contains_iff_mem.2 hgroup)

/-- Turning to the next cursor drops no group. -/
theorem resumed_sublist (groups : List Bytes) (seen : List String) (first : Cursor)
    (left : List Cursor) : ∃ seen', (seen' = seen ∨ seen' = first.groupId :: seen) ∧
    (resumed groups seen' left).Sublist (resumed groups seen (first :: left)) := by
  have hcases : resumed groups seen (first :: left) = resumed groups seen left ∨
      resumed groups seen (first :: left) = resumed groups (first.groupId :: seen) left ∨
      ∃ groupId, resumed groups seen (first :: left) =
        groupId :: resumed groups (first.groupId :: seen) left := by
    rw [resumed]
    split
    · exact .inl rfl
    · split
      · exact .inr (.inl rfl)
      · split
        · exact .inr (.inr ⟨_, rfl⟩)
        · exact .inr (.inl rfl)
  rcases hcases with h | h | ⟨groupId, h⟩
  · exact ⟨seen, .inl rfl, h ▸ .refl _⟩
  · exact ⟨_, .inr rfl, h ▸ .refl _⟩
  · exact ⟨_, .inr rfl, h ▸ List.sublist_cons_self ..⟩

theorem mem_resumed_of_mem (hgroup : groupId ∈ groups) (hmem : cursor ∈ left)
    (hnew : cursor.groupId ∉ seen) (hname : fromHex cursor.groupId = some groupId) :
    groupId ∈ resumed groups seen left := by
  induction left generalizing seen with
  | nil => cases hmem
  | cons first left ih =>
    by_cases hsame : cursor.groupId = first.groupId
    · rw [hsame] at hnew hname
      rw [resumed_cons hnew hname hgroup]
      exact List.mem_cons_self
    · have hleft : cursor ∈ left := by
        refine (List.mem_cons.1 hmem).resolve_left ?_
        rintro rfl
        exact hsame rfl
      obtain ⟨seen', hseen, hsublist⟩ := resumed_sublist groups seen first left
      refine hsublist.subset (ih hleft ?_)
      rcases hseen with rfl | rfl
      · exact hnew
      · exact List.not_mem_cons_of_ne_of_not_mem hsame hnew

/-- Among the cursors, a group goes by one text. -/
def Canonical (members : List Bytes) (cursors : List Cursor) : Prop :=
  ∀ a ∈ cursors, ∀ b ∈ cursors, ∀ groupId ∈ members,
    fromHex a.groupId = some groupId → fromHex b.groupId = some groupId → a.groupId = b.groupId

theorem nodup_resumed (h : Canonical groups left) : (resumed groups seen left).Nodup := by
  induction left generalizing seen with
  | nil => exact List.nodup_nil
  | cons first left ih =>
    have hleft : Canonical groups left := fun a ha b hb =>
      h a (List.mem_cons_of_mem _ ha) b (List.mem_cons_of_mem _ hb)
    unfold resumed
    split
    · exact ih hleft
    · split
      · exact ih hleft
      · rename_i groupId hname
        split
        · refine List.nodup_cons.2 ⟨fun hmem => ?_, ih hleft⟩
          obtain ⟨hgroup, cursor, hcursor, hnew, hname'⟩ := mem_resumed hmem
          refine hnew (List.mem_cons.2 (.inl ?_))
          exact h cursor (List.mem_cons_of_mem _ hcursor) first List.mem_cons_self groupId hgroup
            hname' hname
        · exact ih hleft

theorem not_nodup_resumed (hgroup : groupId ∈ groups) (ha : a ∈ left) (hb : b ∈ left)
    (hne : a.groupId ≠ b.groupId) (hanew : a.groupId ∉ seen) (hbnew : b.groupId ∉ seen)
    (haname : fromHex a.groupId = some groupId) (hbname : fromHex b.groupId = some groupId) :
    ¬ (resumed groups seen left).Nodup := by
  induction left generalizing seen a b with
  | nil => cases ha
  | cons first left ih =>
    -- Whichever of the two comes first is caught up, and the other one after it.
    have hfirst : ∀ {other : Cursor}, other ∈ first :: left → first.groupId ≠ other.groupId →
        first.groupId ∉ seen → other.groupId ∉ seen →
        fromHex first.groupId = some groupId → fromHex other.groupId = some groupId →
        ¬ (resumed groups seen (first :: left)).Nodup := by
      intro other hmem hne hnew hother hname hname'
      have hleft : other ∈ left := by
        refine (List.mem_cons.1 hmem).resolve_left ?_
        rintro rfl
        exact hne rfl
      rw [resumed_cons hnew hname hgroup, List.nodup_cons]
      exact fun h => h.1 (mem_resumed_of_mem hgroup hleft
        (List.not_mem_cons_of_ne_of_not_mem hne.symm hother) hname')
    by_cases hafirst : first.groupId = a.groupId
    · exact hfirst hb (hafirst ▸ hne) (hafirst ▸ hanew) hbnew (hafirst ▸ haname) hbname
    · by_cases hbfirst : first.groupId = b.groupId
      · exact hfirst ha (hbfirst ▸ hne.symm) (hbfirst ▸ hbnew) hanew (hbfirst ▸ hbname) haname
      · obtain ⟨seen', hseen, hsublist⟩ := resumed_sublist groups seen first left
        have hleft : ∀ {cursor : Cursor}, cursor ∈ first :: left →
            first.groupId ≠ cursor.groupId → cursor ∈ left := by
          intro cursor hmem hne
          refine (List.mem_cons.1 hmem).resolve_left ?_
          rintro rfl
          exact hne rfl
        have hunseen : ∀ {cursor : Cursor}, cursor.groupId ∉ seen →
            first.groupId ≠ cursor.groupId → cursor.groupId ∉ seen' := by
          intro cursor hnew hne
          rcases hseen with rfl | rfl
          · exact hnew
          · exact List.not_mem_cons_of_ne_of_not_mem hne.symm hnew
        exact fun hnodup => ih (hleft ha hafirst) (hleft hb hbfirst) hne (hunseen hanew hafirst)
          (hunseen hbnew hbfirst) haname hbname (hnodup.sublist hsublist)

theorem resumed_of_seen (hseen : seen.contains cursor.groupId = true) :
    resumed groups seen (cursor :: left) = resumed groups seen left := by
  rw [resumed, if_pos hseen]

theorem resumed_of_none (hseen : ¬ seen.contains cursor.groupId = true)
    (hname : fromHex cursor.groupId = none) :
    resumed groups seen (cursor :: left) = resumed groups (cursor.groupId :: seen) left := by
  rw [resumed, if_neg hseen, hname]

theorem resumed_of_some (hseen : ¬ seen.contains cursor.groupId = true)
    (hname : fromHex cursor.groupId = some groupId) :
    resumed groups seen (cursor :: left) =
      if groups.contains groupId then groupId :: resumed groups (cursor.groupId :: seen) left
      else resumed groups (cursor.groupId :: seen) left := by
  rw [resumed, if_neg hseen, hname]

/-! ## The runs -/

theorem upcoming_of_advance (hstep : s.advance members cursors = some t) :
    (catchUp s .advance).map (·.1) ++ t.phase.upcoming members cursors =
      s.phase.upcoming members cursors := by
  unfold State.advance at hstep
  unfold catchUp
  split at hstep <;> rename_i hphase <;> rw [hphase]
  · cases hstep
    rfl
  · cases hstep
    rfl
  · cases hstep
    rfl
  · split at hstep
    · rename_i hseen
      cases hstep
      exact (resumed_of_seen hseen).symm
    · rename_i hseen
      dsimp only at hstep
      split at hstep
      · rename_i hname
        cases hstep
        exact (resumed_of_none hseen hname).symm
      · rename_i hname
        refine Eq.trans ?_ (resumed_of_some hseen hname).symm
        split at hstep
        · cases hstep
          exact (if_pos ‹_›).symm
        · cases hstep
          exact (if_neg ‹_›).symm
  · cases hstep
    rfl
  · cases hstep
    rfl
  · cases hstep

/-- Only the opening sequence turns from one phase to the next. -/
theorem phase_of_step {a : Action} (hne : a ≠ .advance)
    (hstep : step members cursors s a = some t) : t.phase = s.phase := by
  cases a with
  | post | signal =>
    cases hstep
    rfl
  | publish i =>
    obtain ⟨_, -, rfl⟩ := Option.map_eq_some_iff.1 hstep
    rfl
  | advance => exact absurd rfl hne
  | take i =>
    obtain ⟨-, _, _, _, _, _, -, rfl⟩ := take_eq_some hstep
    rfl
  | claim groupId =>
    unfold step at hstep
    dsimp only at hstep
    split at hstep
    · cases hstep
      split
      · unfold State.subscribe
        split <;> rfl
      · rfl
    · cases hstep
  | revalidate =>
    unfold step at hstep
    dsimp only at hstep
    split at hstep
    · cases hstep
      rfl
    · cases hstep

theorem catchUp_of_step {a : Action} (hstep : step members cursors s a = some t) :
    (catchUp s a).map (·.1) ++ t.phase.upcoming members cursors =
      s.phase.upcoming members cursors := by
  by_cases hadvance : a = .advance
  · subst hadvance
    exact upcoming_of_advance hstep
  · rw [phase_of_step hadvance hstep]
    cases a with
    | advance => exact absurd rfl hadvance
    | post | publish | signal | take | claim | revalidate => rfl

theorem catchUp_of_stuck {a : Action} (hstep : step members cursors s a = none) :
    catchUp s a = [] := by
  cases a with
  | advance =>
    by_cases hphase : s.phase = .pumping
    · rw [catchUp, hphase]
    · have hsome := isSome_advance members cursors hphase
      rw [show s.advance members cursors = none from hstep] at hsome
      cases hsome
  | post | publish | signal | take | claim | revalidate => rfl

variable (members cursors s) in
theorem catchUps_prefix (actions : List Action) :
    (catchUps members cursors s actions).map (·.1) <+: s.phase.upcoming members cursors := by
  induction actions generalizing s with
  | nil => exact List.nil_prefix
  | cons a actions ih =>
    rw [catchUps, List.map_append]
    cases hstep : step members cursors s a with
    | none =>
      rw [catchUp_of_stuck hstep]
      exact List.nil_prefix
    | some t =>
      rw [← catchUp_of_step hstep]
      exact (List.prefix_append_right_inj _).2 (ih t)

variable (members cursors s) in
/-- Some run catches up whatever the session has yet to catch up. -/
theorem exists_catchUps : ∃ actions,
    (catchUps members cursors s actions).map (·.1) = s.phase.upcoming members cursors := by
  induction hn : s.phase.steps members cursors using Nat.strongRecOn generalizing s with
  | ind n ih =>
    by_cases hphase : s.phase = .pumping
    · exact ⟨[], by rw [hphase]; rfl⟩
    · obtain ⟨t, ht⟩ := Option.isSome_iff_exists.1 (isSome_advance members cursors hphase)
      obtain ⟨actions, hactions⟩ := ih _ (hn ▸ steps_advance ht) t rfl
      have hstep : step members cursors s .advance = some t := ht
      refine ⟨.advance :: actions, ?_⟩
      rw [catchUps, hstep, List.map_append, hactions, catchUp_of_step hstep]

theorem le_of_mem_catchUps {actions : List Action}
    (h : row ∈ catchUps members cursors s actions) : row.2 ≤ MAX_RESUME_PER_GROUP := by
  induction actions generalizing s with
  | nil => cases h
  | cons a actions ih =>
    rw [catchUps] at h
    rcases List.mem_append.1 h with h | h
    · unfold catchUp at h
      split at h
      · split at h
        · rw [List.mem_singleton.1 h]
          exact List.length_take_le ..
        · cases h
      · cases h
    · split at h
      · exact ih h
      · cases h

theorem mem_of_mem_upcoming (h : groupId ∈ Phase.upcoming members cursors .identified) :
    groupId ∈ members :=
  (mem_resumed h).1

/-- What a session asks of the database for one `identify`, when each of the groups goes by one
text. -/
theorem once_of_canonical (h : Canonical members (cursors.take MAX_CURSORS))
    (hphase : s.phase = .identified) (actions : List Action) :
    Once members (catchUps members cursors s actions) := by
  have hbegins := catchUps_prefix members cursors s actions
  rw [hphase] at hbegins
  have hnodup : ((catchUps members cursors s actions).map (·.1)).Nodup :=
    (nodup_resumed h).sublist hbegins.sublist
  have hknown : ∀ row ∈ catchUps members cursors s actions, row.1 ∈ members := fun row hrow =>
    mem_of_mem_upcoming (hbegins.subset (List.mem_map_of_mem hrow))
  refine ⟨hnodup, hknown, ?_⟩
  have hsubset : (catchUps members cursors s actions).map (·.1) ⊆ members.dedup := fun g hg => by
    obtain ⟨row, hrow, rfl⟩ := List.mem_map.1 hg
    exact List.mem_dedup.2 (hknown row hrow)
  have hlength := (List.subperm_of_subset hnodup hsubset).length_le
  have hsum : ((catchUps members cursors s actions).map (·.2)).sum ≤
      ((catchUps members cursors s actions).map (·.2)).length • MAX_RESUME_PER_GROUP :=
    List.sum_le_card_nsmul _ _ fun n hn => by
      obtain ⟨row, hrow, rfl⟩ := List.mem_map.1 hn
      exact le_of_mem_catchUps hrow
  rw [List.length_map] at hlength hsum
  exact hsum.trans (Nat.mul_le_mul_right _ hlength)

end

/-- Whatever the cursors of an `identify`, each group is caught up at most once if and only if no
two of those that are read name one of the device's groups by different texts. -/
theorem once_iff (members : List Bytes) (cursors : List Cursor) (before : List (Bytes × Int))
    (nextSeq : Bytes → Int) :
    (∀ actions, Once members (catchUps members cursors (start before nextSeq) actions)) ↔
      Canonical members (cursors.take MAX_CURSORS) := by
  constructor
  · intro honce a ha b hb groupId hgroup haname hbname
    by_contra hne
    obtain ⟨actions, hactions⟩ := exists_catchUps members cursors (start before nextSeq)
    have hnodup := (honce actions).nodup
    rw [hactions] at hnodup
    exact not_nodup_resumed hgroup ha hb hne List.not_mem_nil List.not_mem_nil haname hbname hnodup
  · intro hcanonical actions
    exact once_of_canonical hcanonical rfl actions

/-- One group, in lower case and in upper case. -/
def twoTexts : List Cursor := [⟨"ab", 0⟩, ⟨"AB", 0⟩]

/-- The group is caught up twice. -/
theorem caught_up_twice :
    ¬ ∀ actions, Once [[0xAB]] (catchUps [[0xAB]] twoTexts (start [] fun _ => 0) actions) := by
  intro honce
  have hnodup := (honce (List.replicate 7 .advance)).nodup
  revert hnodup
  decide +kernel

end Whispee.Server.Gateway
