import Whispee.Lib.SplitTree
import Whispee.Transparency.Log

/-!
# The log as a hash tree, and inclusion proofs

`splitPoint` is a stable split rule, so the root of the log is the hash of the tree that rule
builds (`root_eq_hash`). An inclusion proof is the audit path of an index in that tree and
`verifyInclusion` is the climb along it, which gives completeness and soundness in one statement.
-/

namespace Whispee.Transparency
open HashTree (SplitRule climb)

/-- **Append only.** A list that keeps more than the left part is cut at the same place. -/
theorem splitPoint_stable (hlt : splitPoint n < m) (hle : m ≤ n) :
    splitPoint m = splitPoint n := by
  obtain ⟨a, ha⟩ := splitPoint_eq_pow n
  obtain ⟨b, hb⟩ := splitPoint_eq_pow m
  have hpos := splitPoint_pos n
  have hm : splitPoint m < m := splitPoint_lt (by omega)
  have hm' := le_two_mul_splitPoint m
  have hn' := le_two_mul_splitPoint n
  have hab : a < b + 1 := (Nat.pow_lt_pow_iff_right (a := 2) (by omega)).mp (by
    rw [Nat.pow_succ]; omega)
  have hba : b < a + 1 := (Nat.pow_lt_pow_iff_right (a := 2) (by omega)).mp (by
    rw [Nat.pow_succ]; omega)
  rw [ha, hb, show b = a by omega]

/-- The split rule of RFC 6962. -/
def splitRule : SplitRule where
  split := splitPoint
  pos _ := splitPoint_pos _
  lt := splitPoint_lt
  stable _ := splitPoint_stable

@[simp] theorem splitRule_split : splitRule.split n = splitPoint n := rfl

section
variable (S : Sha256 Hash)

/-- The tree over the leaves; the empty log stands for `SHA256("")`. -/
def tree (leaves : List Hash) : HashTree Hash := splitRule.ofList (S.digest []) leaves

end

variable {S : Sha256 Hash} {leaves : List Hash}

theorem root_of_two_le (h : 2 ≤ leaves.length) :
    root S leaves = nodeHash S (root S (leaves.take (splitPoint leaves.length)))
      (root S (leaves.drop (splitPoint leaves.length))) := by
  match leaves, h with
  | a :: b :: rest, _ => rw [root]

theorem tree_of_two_le (h : 2 ≤ leaves.length) :
    tree S leaves = .node (tree S (leaves.take (splitPoint leaves.length)))
      (tree S (leaves.drop (splitPoint leaves.length))) :=
  SplitRule.ofList_node h

/-- The root the code computes is the root of the tree. -/
theorem root_eq_hash : root S leaves = (tree S leaves).hash (nodeHash S) := by
  induction leaves using splitRule.split_induction with
  | short leaves h =>
    rw [tree, SplitRule.ofList_leaf h]
    match leaves, h with
    | [], _ => simp [root, HashTree.hash]
    | [a], _ => simp [root, HashTree.hash]
    | _ :: _ :: _, h => simp at h
  | cut leaves h ihl ihr =>
    rw [root_of_two_le h, tree_of_two_le h, HashTree.hash]
    exact congr (congrArg _ ihl) ihr

/-- The descent pushes the path to the index, read from the top down. -/
theorem descend_eq : descend index size directions = directions ++ splitRule.indexPath index size := by
  fun_induction descend index size directions with
  | case1 index size directions h split hlt ih =>
    rw [ih, SplitRule.indexPath_left (R := splitRule) h hlt]
    simp [split]
  | case2 index size directions h split hlt ih =>
    rw [ih, SplitRule.indexPath_right (R := splitRule) h hlt]
    simp [split]
  | case3 index size directions h =>
    rw [SplitRule.indexPath_short (by omega), List.append_nil]

/-- The prover emits the audit path of the index. -/
theorem inclusionProof_eq (hi : index < leaves.length) :
    inclusionProof S leaves index =
      .ok ((tree S leaves).auditPath (nodeHash S) (splitRule.indexPath index leaves.length)) := by
  induction leaves using splitRule.split_induction generalizing index with
  | short leaves h =>
    have hlen : leaves.length = 1 := by omega
    rw [inclusionProof, if_neg (by omega), if_pos hlen, SplitRule.indexPath_short h,
      HashTree.auditPath_nil]
  | cut leaves h ihl ihr =>
    have hlen := SplitRule.take_split_length (R := splitRule) h
    rw [splitRule_split] at hlen ihl ihr
    rw [inclusionProof, if_neg (by omega), if_neg (by omega), tree_of_two_le h]
    by_cases hs : index < splitPoint leaves.length
    · rw [if_pos hs, SplitRule.indexPath_left (R := splitRule) h hs, splitRule_split, ihl (by omega), hlen, root_eq_hash]
      rfl
    · rw [if_neg hs, SplitRule.indexPath_right (R := splitRule) h hs, splitRule_split,
        ihr (by simp; omega), List.length_drop, root_eq_hash]
      rfl

variable [DecidableEq Hash]

/-- The verifier accepts exactly the paths of the right length that climb to the root. -/
theorem verifyInclusion_eq_ok_iff (hi : index < size) :
    verifyInclusion S leaf index size proof expectedRoot = .ok () ↔
      proof.length = (splitRule.indexPath index size).length ∧
        climb (nodeHash S) leaf (proof.zip (splitRule.indexPath index size).reverse) =
          expectedRoot := by
  rw [verifyInclusion, if_neg (by omega), descend_eq, List.nil_append]
  by_cases hl : (splitRule.indexPath index size).length = proof.length
  · rw [if_neg (not_not.mpr hl)]
    simp only [hl, true_and, climb]
    constructor
    · intro h
      split at h
      · cases h
      · exact not_not.mp ‹_›
    · intro h
      exact if_neg (not_not.mpr h)
  · simp [hl, Ne.symm hl]

/-- The proof the server builds is accepted for the leaf at its index. -/
theorem verifyInclusion_of_inclusionProof (hleaf : leaves[index]? = some leaf)
    (h : inclusionProof S leaves index = .ok proof) :
    verifyInclusion S leaf index leaves.length proof (root S leaves) = .ok () := by
  obtain ⟨hi, rfl⟩ := List.getElem?_eq_some_iff.1 hleaf
  have hsub := SplitRule.subtree_indexPath (R := splitRule) (d := S.digest []) hi
  rw [inclusionProof_eq hi] at h
  cases h
  rw [verifyInclusion_eq_ok_iff hi, root_eq_hash]
  exact ⟨HashTree.auditPath_length hsub, HashTree.climb_auditPath hsub⟩

/-- **Inclusion, completeness and soundness.** Against the root of the log the verifier accepts a
leaf hash and a path exactly when they are the leaf at the index and its inclusion proof. -/
theorem verifyInclusion_root_iff (hnode : Function.Injective2 (nodeHash S)) (leaves : List Hash)
    (hi : index < leaves.length) (leaf : Hash) (proof : List Hash) :
    verifyInclusion S leaf index leaves.length proof (root S leaves) = .ok () ↔
      leaf = leaves[index] ∧ inclusionProof S leaves index = .ok proof := by
  have hsub := SplitRule.subtree_indexPath (R := splitRule) (d := S.digest []) hi
  constructor
  · rw [verifyInclusion_eq_ok_iff hi, inclusionProof_eq hi, root_eq_hash]
    rintro ⟨hl, hclimb⟩
    obtain ⟨rfl, rfl⟩ := (HashTree.climb_eq_hash_iff hnode hsub hl).mp hclimb
    exact ⟨rfl, rfl⟩
  · rintro ⟨rfl, hproof⟩
    exact verifyInclusion_of_inclusionProof (List.getElem?_eq_getElem hi) hproof

/-! ## A digest without collisions -/

/-- The bytes themselves as their digest, fed back with a marker before each byte and another at
the end: no two nodes share their bytes. -/
def markedDigest : Sha256 (List UInt8) where
  digest := id
  bytes hash := hash.flatMap (fun byte => [1, byte]) ++ [0]

theorem markedDigest_bytes_append {a b x y : List UInt8}
    (h : markedDigest.bytes a ++ x = markedDigest.bytes b ++ y) : a = b ∧ x = y := by
  induction a generalizing b with
  | nil =>
    cases b with
    | nil => simpa [markedDigest] using h
    | cons => simp [markedDigest] at h
  | cons byte a ih =>
    cases b with
    | nil => simp [markedDigest] at h
    | cons byte' b =>
      obtain ⟨rfl, hrest⟩ : byte = byte' ∧
          markedDigest.bytes a ++ x = markedDigest.bytes b ++ y := by
        simpa [markedDigest] using h
      obtain ⟨rfl, rfl⟩ := ih hrest
      exact ⟨rfl, rfl⟩

theorem markedDigest_node_injective : Function.Injective2 (nodeHash markedDigest) := by
  intro a a' b b' h
  obtain ⟨rfl, hbytes⟩ := markedDigest_bytes_append (List.cons.inj h).2
  exact ⟨rfl, (markedDigest_bytes_append (x := []) (y := []) (by simpa using hbytes)).1⟩

/-- A log of two leaves, neither of them a node hash. -/
def twoLeaves : List (List UInt8) := [[5], [7]]

theorem verifyInclusion_root_iff_twoLeaves :
    verifyInclusion markedDigest [7] 1 2 [[5]] (root markedDigest twoLeaves) = .ok () ↔
      [7] = twoLeaves.get ⟨1, by decide⟩ ∧ inclusionProof markedDigest twoLeaves 1 = .ok [[5]] :=
  verifyInclusion_root_iff markedDigest_node_injective twoLeaves (by decide) [7] [[5]]

end Whispee.Transparency
