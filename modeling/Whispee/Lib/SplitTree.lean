import Whispee.Lib.HashTree

/-!
# Trees over a list of leaves

A split rule says where a list of leaves is cut in two. `SplitRule.ofList` is the tree it builds,
`indexPath` the path to one leaf and `prefixPath` the path to the last subtree of a prefix. The
rule is *stable*: a longer list with the same left part is cut at the same place, so the tree of a
prefix is the part of the whole tree up to the prefix (`SplitRule.upTo_ofList`).
-/

namespace HashTree

/-- Where a list of `n ≥ 2` leaves is cut. -/
structure SplitRule where
  split : Nat → Nat
  pos : 2 ≤ n → 0 < split n
  lt : 2 ≤ n → split n < n
  /-- A list that keeps more than the left part is cut at the same place. -/
  stable : 2 ≤ n → split n < m → m ≤ n → split m = split n

namespace SplitRule

section
variable (R : SplitRule) (d : α)

/-- The tree over a list of leaves; `d` stands for the root of the empty list. -/
def ofList (leaves : List α) : HashTree α :=
  if 2 ≤ leaves.length then
    .node (ofList (leaves.take (R.split leaves.length)))
      (ofList (leaves.drop (R.split leaves.length)))
  else
    .leaf (leaves.headD d)
termination_by leaves.length
decreasing_by
  all_goals
    have := R.pos ‹_›
    have := R.lt ‹_›
    simp; omega

/-- The path to the leaf at index `i` of a list of `n` leaves. -/
def indexPath (i n : Nat) : List Bool :=
  if 2 ≤ n then
    if i < R.split n then false :: indexPath i (R.split n)
    else true :: indexPath (i - R.split n) (n - R.split n)
  else
    []
termination_by n
decreasing_by
  · exact R.lt ‹_›
  · have := R.pos ‹_›; omega

/-- The path to the subtree that ends the first `m` of `n` leaves. -/
def prefixPath (m n : Nat) : List Bool :=
  if 0 < m ∧ m < n then
    if m ≤ R.split n then false :: prefixPath m (R.split n)
    else true :: prefixPath (m - R.split n) (n - R.split n)
  else
    []
termination_by n
decreasing_by
  · have := R.lt (n := n) (by omega); omega
  · have := R.pos (n := n) (by omega); omega

end

variable {R : SplitRule} {d : α} {leaves : List α}

theorem indexPath_short (h : ¬2 ≤ n) : R.indexPath i n = [] := by rw [indexPath, if_neg h]

theorem indexPath_left (h : 2 ≤ n) (hi : i < R.split n) :
    R.indexPath i n = false :: R.indexPath i (R.split n) := by
  rw [indexPath, if_pos h, if_pos hi]

theorem indexPath_right (h : 2 ≤ n) (hi : ¬i < R.split n) :
    R.indexPath i n = true :: R.indexPath (i - R.split n) (n - R.split n) := by
  rw [indexPath, if_pos h, if_neg hi]

theorem prefixPath_whole (h : n ≤ m) : R.prefixPath m n = [] := by
  rw [prefixPath, if_neg (by omega)]

theorem prefixPath_left (hm : 0 < m) (h : m < n) (hs : m ≤ R.split n) :
    R.prefixPath m n = false :: R.prefixPath m (R.split n) := by
  rw [prefixPath, if_pos ⟨hm, h⟩, if_pos hs]

theorem prefixPath_right (hm : 0 < m) (h : m < n) (hs : ¬m ≤ R.split n) :
    R.prefixPath m n = true :: R.prefixPath (m - R.split n) (n - R.split n) := by
  rw [prefixPath, if_pos ⟨hm, h⟩, if_neg hs]

theorem ofList_node (h : 2 ≤ leaves.length) :
    R.ofList d leaves = .node (R.ofList d (leaves.take (R.split leaves.length)))
      (R.ofList d (leaves.drop (R.split leaves.length))) := by
  rw [ofList, if_pos h]

theorem ofList_leaf (h : ¬2 ≤ leaves.length) : R.ofList d leaves = .leaf (leaves.headD d) := by
  rw [ofList, if_neg h]

theorem take_split_length (h : 2 ≤ leaves.length) :
    (leaves.take (R.split leaves.length)).length = R.split leaves.length := by
  have := R.lt h
  simp; omega

/-- Halving a list at the split of its length. -/
theorem split_induction {motive : List α → Prop}
    (short : ∀ leaves : List α, ¬2 ≤ leaves.length → motive leaves)
    (cut : ∀ leaves : List α, 2 ≤ leaves.length →
      motive (leaves.take (R.split leaves.length)) →
      motive (leaves.drop (R.split leaves.length)) → motive leaves)
    (leaves : List α) : motive leaves := by
  by_cases h : 2 ≤ leaves.length
  · exact cut leaves h (split_induction short cut _) (split_induction short cut _)
  · exact short leaves h
termination_by leaves.length
decreasing_by
  all_goals
    have := R.pos h
    have := R.lt h
    simp; omega

/-- The path to an index ends at the leaf of that index. -/
theorem subtree_indexPath (hi : i < leaves.length) :
    (R.ofList d leaves).subtree (R.indexPath i leaves.length) = some (.leaf leaves[i]) := by
  induction leaves using R.split_induction generalizing i with
  | short leaves h =>
    rw [ofList_leaf h, indexPath_short h, HashTree.subtree_nil]
    match leaves, i, hi with
    | [_], 0, _ => rfl
    | _ :: _ :: _, _, _ => simp at h
  | cut leaves h ihl ihr =>
    have hlen := take_split_length (R := R) h
    rw [ofList_node h]
    by_cases hs : i < R.split leaves.length
    · rw [indexPath_left h hs]
      have := ihl (i := i) (by omega)
      simpa [hlen, HashTree.subtree] using this
    · rw [indexPath_right h hs]
      have := ihr (i := i - R.split leaves.length) (by simp; omega)
      simpa [HashTree.subtree, show R.split leaves.length + (i - R.split leaves.length) = i by omega]
        using this

/-- **Append only.** The tree of a prefix is the part of the whole tree up to that prefix. -/
theorem upTo_ofList (hm : 0 < m) (hle : m ≤ leaves.length) :
    (R.ofList d leaves).upTo (R.prefixPath m leaves.length) = R.ofList d (leaves.take m) := by
  induction leaves using R.split_induction generalizing m with
  | short leaves h =>
    rw [prefixPath_whole (by omega), HashTree.upTo_nil, List.take_of_length_le (by omega)]
  | cut leaves h ihl ihr =>
    have hlen := take_split_length (R := R) h
    by_cases heq : m = leaves.length
    · rw [prefixPath_whole (by omega), HashTree.upTo_nil, List.take_of_length_le (by omega)]
    rw [ofList_node h]
    by_cases hs : m ≤ R.split leaves.length
    · have := ihl hm (by omega)
      rw [hlen, List.take_take, Nat.min_eq_left hs] at this
      rw [prefixPath_left hm (by omega) hs, HashTree.upTo, this]
    · -- the prefix keeps the whole left part, so it is cut at the same place
      have hstable := R.stable h (Nat.lt_of_not_le hs) hle
      have hpos := R.pos h
      have := ihr (m := m - R.split leaves.length) (by omega) (by simp; omega)
      rw [List.length_drop] at this
      have hm' : (leaves.take m).length = m := by simp; omega
      rw [prefixPath_right hm (by omega) hs, HashTree.upTo, this,
        ofList_node (by omega : 2 ≤ (leaves.take m).length), hm', hstable, List.take_take, Nat.min_eq_left (by omega), List.drop_take]

theorem subtree_prefixPath (hm : 0 < m) (hle : m ≤ leaves.length) :
    ∃ u, (R.ofList d leaves).subtree (R.prefixPath m leaves.length) = some u := by
  induction leaves using R.split_induction generalizing m with
  | short leaves h => exact ⟨_, by rw [prefixPath_whole (by omega), HashTree.subtree_nil]⟩
  | cut leaves h ihl ihr =>
    have hlen := take_split_length (R := R) h
    by_cases heq : m = leaves.length
    · exact ⟨_, by rw [prefixPath_whole (by omega), HashTree.subtree_nil]⟩
    rw [ofList_node h]
    by_cases hs : m ≤ R.split leaves.length
    · obtain ⟨u, hu⟩ := ihl hm (by omega)
      exact ⟨u, by rw [prefixPath_left hm (by omega) hs, HashTree.subtree, ← hu, hlen]⟩
    · obtain ⟨u, hu⟩ := ihr (m := m - R.split leaves.length) (by omega) (by simp; omega)
      exact ⟨u, by
        rw [prefixPath_right hm (by omega) hs, HashTree.subtree, ← hu, List.length_drop]⟩

theorem shape_ofList {leaves leaves' : List α} (h : leaves.length = leaves'.length) :
    (R.ofList d leaves).shape = (R.ofList d leaves').shape := by
  induction leaves using R.split_induction generalizing leaves' with
  | short leaves hs => rw [ofList_leaf hs, ofList_leaf (h ▸ hs)]; rfl
  | cut leaves hs ihl ihr =>
    have hl := @ihl (leaves'.take (R.split leaves.length)) (by simp [h])
    have hr := @ihr (leaves'.drop (R.split leaves.length)) (by simp [h])
    rw [ofList_node hs, ofList_node (h ▸ hs : 2 ≤ leaves'.length), ← h, HashTree.shape, HashTree.shape,
      hl, hr]

theorem ofList_injective {leaves leaves' : List α} (hlen : leaves.length = leaves'.length)
    (h : R.ofList d leaves = R.ofList d leaves') : leaves = leaves' := by
  induction leaves using R.split_induction generalizing leaves' with
  | short leaves hs =>
    rw [ofList_leaf hs, ofList_leaf (hlen ▸ hs)] at h
    match leaves, leaves', hlen with
    | [], [], _ => rfl
    | [_], [_], _ => cases h; rfl
    | _ :: _ :: _, _, _ => simp at hs
  | cut leaves hs ihl ihr =>
    rw [ofList_node hs, ofList_node (hlen ▸ hs : 2 ≤ leaves'.length), ← hlen] at h
    obtain ⟨hl, hr⟩ := HashTree.node.inj h
    rw [← List.take_append_drop (R.split leaves.length) leaves, ihl (by simp [hlen]) hl,
      ihr (by simp [hlen]) hr, List.take_append_drop]

/-- The root commits to the leaves, once their number is known. -/
theorem eq_of_hash_ofList_eq (hf : Function.Injective2 f) {leaves leaves' : List α}
    (hlen : leaves.length = leaves'.length)
    (h : (R.ofList d leaves).hash f = (R.ofList d leaves').hash f) : leaves = leaves' :=
  ofList_injective hlen (HashTree.eq_of_shape_of_hash_eq hf (shape_ofList hlen) h)

end SplitRule
end HashTree
