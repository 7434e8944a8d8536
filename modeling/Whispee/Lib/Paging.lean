import Mathlib.Data.List.Sort

/-!
# Paging by key

Rows that are asked for a page at a time, each page being what follows the last key of the page
before, in order and up to a limit. A page that is full is followed by what follows its last row
(`following_eq_append`), and one that is not is the last (`page_eq_of_short`).
-/

namespace Paging

variable {α : Type u} {κ : Type v} [LinearOrder κ] (key : α → κ) (limit : Nat)

/-- The rows after a key, in order. -/
def following (rows : List α) (after : κ) : List α :=
  (rows.filter (after < key ·)).insertionSort (key · ≤ key ·)

def page (rows : List α) (after : κ) : List α := (following key rows after).take limit

variable {key limit} {rows : List α} {after : κ}

theorem perm_following (key : α → κ) (rows : List α) (after : κ) :
    (following key rows after).Perm (rows.filter (after < key ·)) :=
  List.perm_insertionSort ..

theorem mem_following : x ∈ following key rows after ↔ x ∈ rows ∧ after < key x := by
  rw [following, List.mem_insertionSort, List.mem_filter, decide_eq_true_iff]

theorem pairwise_following (h : (rows.map key).Nodup) :
    (following key rows after).Pairwise (key · < key ·) := by
  have hle : (following key rows after).Pairwise (key · ≤ key ·) :=
    List.pairwise_insertionSort (key · ≤ key ·) _
  have hne : ((following key rows after).map key).Nodup :=
    ((perm_following key rows after).map key).nodup_iff.2 (h.sublist (List.filter_sublist.map key))
  exact (hle.and (List.pairwise_map.1 hne)).imp fun h => lt_of_le_of_ne h.1 h.2

/-- What follows a row of those that follow is what comes behind it among them. -/
theorem following_of_split (h : (rows.map key).Nodup)
    (hsplit : following key rows after = front ++ last :: back) :
    following key rows (key last) = back := by
  have hpairwise : (following key rows after).Pairwise (key · < key ·) := pairwise_following h
  rw [hsplit, List.pairwise_append, List.pairwise_cons] at hpairwise
  obtain ⟨-, ⟨hback, hsorted⟩, hfront⟩ := hpairwise
  have hlast : after < key last := by
    have hmem : last ∈ following key rows after := by
      rw [hsplit]
      exact List.mem_append_right _ (List.mem_cons_self ..)
    exact (mem_following.1 hmem).2
  have hsame : (following key rows (key last)).Perm back := by
    refine (List.perm_ext_iff_of_nodup ?_ ?_).2 fun x => ?_
    · exact (pairwise_following h).imp fun hlt heq => absurd (heq ▸ hlt) (lt_irrefl _)
    · exact hsorted.imp fun hlt heq => absurd (heq ▸ hlt) (lt_irrefl _)
    · have hmem : x ∈ rows ∧ after < key x ↔ x ∈ front ∨ x = last ∨ x ∈ back := by
        rw [← mem_following, hsplit, List.mem_append, List.mem_cons]
      rw [mem_following]
      constructor
      · rintro ⟨hx, hlt⟩
        rcases hmem.1 ⟨hx, hlast.trans hlt⟩ with hx | rfl | hx
        · exact absurd (hfront x hx last (List.mem_cons_self ..)) hlt.not_gt
        · exact absurd hlt (lt_irrefl _)
        · exact hx
      · intro hx
        exact ⟨(hmem.2 (.inr (.inr hx))).1, hback x hx⟩
  exact hsame.eq_of_pairwise (fun x y _ _ hxy hyx => absurd hyx hxy.not_gt)
    (pairwise_following h) hsorted

theorem page_sublist : (page key limit rows after).Sublist (following key rows after) :=
  List.take_sublist ..

theorem page_eq_of_short (h : (page key limit rows after).length < limit) :
    page key limit rows after = following key rows after := by
  rw [page, List.length_take] at h
  rw [page, List.take_of_length_le (by omega)]

theorem following_eq_append (h : (rows.map key).Nodup)
    (hlast : (page key limit rows after).getLast? = some last) :
    following key rows after = page key limit rows after ++ following key rows (key last) := by
  obtain ⟨front, hfront⟩ := List.getLast?_eq_some_iff.1 hlast
  have hsplit : following key rows after =
      front ++ last :: (following key rows after).drop limit := by
    rw [List.append_cons, ← hfront, page, List.take_append_drop]
  rw [following_of_split h hsplit, page, List.take_append_drop]

/-- With every page there is less to follow. -/
theorem length_following_lt (h : (rows.map key).Nodup)
    (hlast : (page key limit rows after).getLast? = some last) :
    (following key rows (key last)).length < (following key rows after).length := by
  rw [following_eq_append h hlast, List.length_append]
  have hne : page key limit rows after ≠ [] := by
    intro hnil
    rw [hnil] at hlast
    cases hlast
  have := List.length_pos_iff.2 hne
  omega

end Paging
