import Mathlib

/-!
# The transparency log

The Merkle tree of `crates/transparency`: roots, inclusion and consistency proofs, and the two
verifiers every client runs on what the server serves. `Hash` and its digest are parameters, since
SHA-256 comes from the `sha2` crate; indices and sizes are `usize` values that come from slice
lengths, so natural numbers lose nothing.
-/

namespace Whispee.Transparency

/-- What the log uses of the `sha2` crate: a digest, and the bytes of a digest as they are fed
back into the hasher. -/
structure Sha256 (Hash : Type u) where
  digest : List UInt8 → Hash
  bytes : Hash → List UInt8

inductive LogError where
  /-- The requested index is beyond the size of the tree. -/
  | outOfRange
  /-- The proof does not rebuild the announced root. -/
  | badProof
  /-- The two sizes cannot be related: `from` must be non-zero and at most `to`. -/
  | badRange
  /-- The head signature does not verify. -/
  | badSignature
  deriving DecidableEq, Repr

def LEAF_PREFIX : UInt8 := 0x00
def NODE_PREFIX : UInt8 := 0x01

/-- `while k * 2 < n { k *= 2 }`. -/
def splitPoint.loop (n k : Nat) (hk : 0 < k) : Nat :=
  if k * 2 < n then loop n (k * 2) (by omega) else k
termination_by n - k

/-- The largest power of two strictly below `n`. -/
def splitPoint (n : Nat) : Nat := splitPoint.loop n 1 Nat.one_pos

theorem splitPoint.loop_spec (n k : Nat) (hk : 0 < k) :
    (∃ a, loop n k hk = k * 2 ^ a) ∧ n ≤ 2 * loop n k hk ∧ (k < n → loop n k hk < n) := by
  fun_induction loop n k hk with
  | case1 k hk h ih =>
    obtain ⟨⟨a, ha⟩, hle, hlt⟩ := ih
    exact ⟨⟨a + 1, by rw [ha, Nat.pow_succ']; ac_rfl⟩, hle, fun _ => hlt h⟩
  | case2 k hk h => exact ⟨⟨0, by simp⟩, by omega, id⟩

theorem splitPoint_eq_pow (n : Nat) : ∃ a, splitPoint n = 2 ^ a := by
  obtain ⟨a, h⟩ := (splitPoint.loop_spec n 1 Nat.one_pos).1
  exact ⟨a, by simpa [splitPoint] using h⟩

theorem splitPoint_pos (n : Nat) : 0 < splitPoint n := by
  obtain ⟨a, h⟩ := splitPoint_eq_pow n
  exact h ▸ Nat.two_pow_pos a

theorem splitPoint_lt (h : 2 ≤ n) : splitPoint n < n :=
  (splitPoint.loop_spec n 1 Nat.one_pos).2.2 h

theorem le_two_mul_splitPoint (n : Nat) : n ≤ 2 * splitPoint n :=
  (splitPoint.loop_spec n 1 Nat.one_pos).2.1

section
variable (S : Sha256 Hash)

/-- Leaf hash: `SHA256(0x00 ‖ contents)`. -/
def leafHash (contents : List UInt8) : Hash := S.digest (LEAF_PREFIX :: contents)

/-- Internal node hash: `SHA256(0x01 ‖ left ‖ right)`. -/
def nodeHash (left right : Hash) : Hash :=
  S.digest (NODE_PREFIX :: (S.bytes left ++ S.bytes right))

/-- Root of the tree over `leaves`. -/
def root (leaves : List Hash) : Hash :=
  match leaves with
  | [] => S.digest []
  | [leaf] => leaf
  | a :: b :: rest =>
    let split := splitPoint (a :: b :: rest).length
    nodeHash S (root ((a :: b :: rest).take split)) (root ((a :: b :: rest).drop split))
termination_by leaves.length
decreasing_by
  all_goals
    have := splitPoint_pos (a :: b :: rest).length
    have := splitPoint_lt (n := (a :: b :: rest).length) (by simp)
    simp only [List.length_take, List.length_drop]
    omega

/-- The audit path of a leaf, bottom-up. -/
def inclusionProof (leaves : List Hash) (index : Nat) : Except LogError (List Hash) :=
  if index ≥ leaves.length then
    .error .outOfRange
  else if leaves.length = 1 then
    .ok []
  else
    let split := splitPoint leaves.length
    if index < split then do
      let p ← inclusionProof (leaves.take split) index
      return p ++ [root S (leaves.drop split)]
    else do
      let p ← inclusionProof (leaves.drop split) (index - split)
      return p ++ [root S (leaves.take split)]
termination_by leaves.length
decreasing_by
  all_goals
    have := splitPoint_pos leaves.length
    have := splitPoint_lt (n := leaves.length) (by omega)
    simp only [List.length_take, List.length_drop]
    omega

/-- The descent of `verify_inclusion`: at each level, is the leaf in the right half? The flags
are pushed in the order they are met, from the top down. -/
def descend (index size : Nat) (directions : List Bool) : List Bool :=
  if size > 1 then
    let split := splitPoint size
    if index < split then descend index split (directions ++ [false])
    else descend (index - split) (size - split) (directions ++ [true])
  else
    directions
termination_by size
decreasing_by
  · exact splitPoint_lt (by omega)
  · have := splitPoint_pos size; omega

variable [DecidableEq Hash]

def verifyInclusion (leaf : Hash) (index size : Nat) (proof : List Hash) (expectedRoot : Hash) :
    Except LogError Unit :=
  if index ≥ size then
    .error .outOfRange
  else
    let directions := descend index size []
    if directions.length ≠ proof.length then
      .error .badProof
    else
      -- climb back up: the deepest sibling goes with the deepest decision
      let hash := (proof.zip directions.reverse).foldl (fun hash (sibling, fromRight) =>
        if fromRight then nodeHash S sibling hash else nodeHash S hash sibling) leaf
      if hash ≠ expectedRoot then .error .badProof else .ok ()

omit [DecidableEq Hash] in
/-- Core of the consistency proof. `complete` means that the subtree covering the first `from`
leaves is a node the verifier already knows. The recursion never ends on an empty or too long
prefix, which the caller rules out. -/
def subtreeProof (leaves : List Hash) (fromSize : Nat) (complete : Bool)
    (h : 0 < fromSize ∧ fromSize ≤ leaves.length) : List Hash :=
  if fromSize = leaves.length then
    if complete then [] else [root S leaves]
  else
    let split := splitPoint leaves.length
    if hs : fromSize ≤ split then
      subtreeProof (leaves.take split) fromSize complete (by simp; omega) ++
        [root S (leaves.drop split)]
    else
      subtreeProof (leaves.drop split) (fromSize - split) false (by simp; omega) ++
        [root S (leaves.take split)]
termination_by leaves.length
decreasing_by
  all_goals
    have := splitPoint_pos leaves.length
    have := splitPoint_lt (n := leaves.length) (by omega)
    simp only [List.length_take, List.length_drop]
    omega

omit [DecidableEq Hash] in
/-- Proof that the tree over `leaves` extends the one over its first `from` leaves. -/
def consistencyProof (leaves : List Hash) (fromSize : Nat) : Except LogError (List Hash) :=
  if h : fromSize = 0 ∨ fromSize > leaves.length then
    .error .badRange
  else if fromSize = leaves.length then
    .ok []
  else
    .ok (subtreeProof S leaves fromSize true (by omega))

/-- `while fnode & 1 == 1 { fnode >>= 1; snode >>= 1 }`. -/
def shiftWhileOdd (fnode snode : Nat) : Nat × Nat :=
  if fnode &&& 1 = 1 then shiftWhileOdd (fnode >>> 1) (snode >>> 1) else (fnode, snode)
termination_by fnode
decreasing_by
  have := Nat.and_one_is_mod fnode
  rw [Nat.shiftRight_eq_div_pow]
  omega

/-- `while fnode != 0 && fnode & 1 == 0 { fnode >>= 1; snode >>= 1 }`. -/
def shiftWhileEven (fnode snode : Nat) : Nat × Nat :=
  if fnode ≠ 0 ∧ fnode &&& 1 = 0 then shiftWhileEven (fnode >>> 1) (snode >>> 1)
  else (fnode, snode)
termination_by fnode
decreasing_by
  rw [Nat.shiftRight_eq_div_pow]
  omega

omit [DecidableEq Hash] in
/-- The loop of `verify_consistency` over the siblings left, with both running hashes. -/
def consistencyLoop : List Hash → (fnode snode : Nat) → (old new : Hash) →
    Except LogError (Nat × Hash × Hash)
  | [], _, snode, old, new => .ok (snode, old, new)
  | sibling :: rest, fnode, snode, old, new =>
    if snode = 0 then
      .error .badProof
    else if fnode &&& 1 = 1 ∨ fnode = snode then
      let (fnode, snode) := shiftWhileEven fnode snode
      consistencyLoop rest (fnode >>> 1) (snode >>> 1) (nodeHash S sibling old)
        (nodeHash S sibling new)
    else
      consistencyLoop rest (fnode >>> 1) (snode >>> 1) old (nodeHash S new sibling)

def verifyConsistency (fromSize : Nat) (oldRoot : Hash) (toSize : Nat) (newRoot : Hash)
    (proof : List Hash) : Except LogError Unit :=
  if fromSize = 0 ∨ fromSize > toSize then
    .error .badRange
  else if fromSize = toSize then
    if proof.isEmpty ∧ oldRoot = newRoot then .ok () else .error .badProof
  else do
    let (fnode, snode) := shiftWhileOdd (fromSize - 1) (toSize - 1)
    -- `fnode == 0` means the old tree is a complete subtree, whose root is not in the proof
    let (seed, rest) ← if fnode = 0 then pure (oldRoot, proof) else
      match proof with
      | [] => .error .badProof
      | first :: rest => pure (first, rest)
    let (snode, old, new) ← consistencyLoop S rest fnode snode seed seed
    if snode ≠ 0 ∨ old ≠ oldRoot ∨ new ≠ newRoot then .error .badProof else .ok ()

end

end Whispee.Transparency
