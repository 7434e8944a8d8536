import Whispee.Transparency.Inclusion

/-!
# Consistency proofs

The prover recurses on split points from the root down; the verifier shifts the indices of the two
last leaves from the bottom up. Both meet the same path: `turns_eq_prefixPath` says that the
turns the verifier takes are the path to the last subtree of the prefix, read upwards. What is left
is the climb along that path, taken once with every sibling for the new root and once with the left
siblings alone for the old one.
-/

namespace Whispee.Transparency
open HashTree (SplitRule climb)

/-! ## The walk of the verifier -/

theorem and_one_eq_one_iff : n &&& 1 = 1 ↔ n % 2 = 1 := by rw [Nat.and_one_is_mod]

theorem shiftRight_one_eq : n >>> 1 = n / 2 := by rw [Nat.shiftRight_eq_div_pow, Nat.pow_one]

theorem shiftWhileOdd_odd (h : f % 2 = 1) : shiftWhileOdd f s = shiftWhileOdd (f / 2) (s / 2) := by
  rw [shiftWhileOdd, if_pos (and_one_eq_one_iff.mpr h), shiftRight_one_eq, shiftRight_one_eq]

theorem shiftWhileOdd_even (h : f % 2 = 0) : shiftWhileOdd f s = (f, s) := by
  rw [shiftWhileOdd, if_neg (by rw [and_one_eq_one_iff]; omega)]

theorem shiftWhileEven_even (h : f % 2 = 0) (h0 : f ≠ 0) :
    shiftWhileEven f s = shiftWhileEven (f / 2) (s / 2) := by
  rw [shiftWhileEven, if_pos ⟨h0, by rw [Nat.and_one_is_mod, h]⟩, shiftRight_one_eq,
    shiftRight_one_eq]

theorem shiftWhileEven_odd (h : f % 2 = 1) : shiftWhileEven f s = (f, s) := by
  rw [shiftWhileEven, if_neg (by rw [Nat.and_one_is_mod]; omega)]

theorem shiftWhileEven_snd_le : (shiftWhileEven f s).2 ≤ s := by
  fun_induction shiftWhileEven f s with
  | case1 f s _ ih => exact Nat.le_trans ih (by rw [shiftRight_one_eq]; omega)
  | case2 => exact Nat.le_refl _

/-- The turns of `consistencyLoop`, deepest first: `true` where the sibling is on the left. -/
def walkDirs (f s : Nat) : List Bool :=
  if s = 0 then
    []
  else if f % 2 = 1 ∨ f = s then
    true :: walkDirs ((shiftWhileEven f s).1 / 2) ((shiftWhileEven f s).2 / 2)
  else
    false :: walkDirs (f / 2) (s / 2)
termination_by s
decreasing_by
  · have := shiftWhileEven_snd_le (f := f) (s := s); omega
  · omega

theorem walkDirs_zero : walkDirs f 0 = [] := by rw [walkDirs, if_pos rfl]

theorem walkDirs_odd (hs : s ≠ 0) (h : f % 2 = 1) :
    walkDirs f s = true :: walkDirs (f / 2) (s / 2) := by
  rw [walkDirs, if_neg hs, if_pos (.inl h), shiftWhileEven_odd h]

theorem walkDirs_even (hs : s ≠ 0) (h : f % 2 = 0) (hne : f ≠ s) :
    walkDirs f s = false :: walkDirs (f / 2) (s / 2) := by
  rw [walkDirs, if_neg hs, if_neg (by omega)]

theorem walkDirs_self (hs : s ≠ 0) :
    walkDirs s s =
      true :: walkDirs ((shiftWhileEven s s).1 / 2) ((shiftWhileEven s s).2 / 2) := by
  rw [walkDirs, if_neg hs, if_pos (.inr rfl)]

/-- The loop keeps going exactly while there are turns left, and both running hashes are climbs
along them: the new one takes every sibling, the old one those on the left. -/
theorem consistencyLoop_eq_ok_iff {S : Sha256 Hash} {old new old' new' : Hash} :
    consistencyLoop S rest f s old new = .ok (0, old', new') ↔
      rest.length = (walkDirs f s).length ∧
        new' = climb (nodeHash S) new (rest.zip (walkDirs f s)) ∧
        old' = climb (nodeHash S) old ((rest.zip (walkDirs f s)).filter (·.2)) := by
  induction rest generalizing f s old new with
  | nil =>
    rw [consistencyLoop]
    by_cases hs : s = 0
    · subst hs
      simp only [walkDirs_zero, Except.ok.injEq, Prod.mk.injEq]
      simp [eq_comm, and_comm]
    · have : (walkDirs f s).length ≠ 0 := by rw [walkDirs, if_neg hs]; split <;> simp
      simp [hs, Ne.symm this]
  | cons sibling rest ih =>
    rw [consistencyLoop]
    by_cases hs : s = 0
    · subst hs; simp [walkDirs_zero]
    rw [if_neg hs, walkDirs, if_neg hs]
    by_cases hleft : f % 2 = 1 ∨ f = s
    · rw [if_pos (by rwa [and_one_eq_one_iff]), if_pos hleft]
      simp only [shiftRight_one_eq, ih]
      simp
    · rw [if_neg (by rwa [and_one_eq_one_iff]), if_neg hleft]
      simp only [shiftRight_one_eq, ih]
      simp

/-! ## The walk is the path of the prefix -/

theorem shiftWhileEven_pow (c : Nat) : shiftWhileEven (2 ^ c) (2 ^ c) = (1, 1) := by
  induction c with
  | zero => exact shiftWhileEven_odd rfl
  | succ c ih =>
    have h : 2 ^ (c + 1) = 2 * 2 ^ c := Nat.pow_succ'
    have := Nat.two_pow_pos c
    rw [shiftWhileEven_even (by omega) (by omega), show 2 ^ (c + 1) / 2 = 2 ^ c by omega, ih]

/-- A bit above all others rides along while the lower ones are skipped. -/
theorem shiftWhileEven_add_pow (h0 : f ≠ 0) (hf : f < 2 ^ c) (hs : s < 2 ^ c) (hle : f ≤ s) :
    ∃ c' f' s', shiftWhileEven f s = (f', s') ∧
      shiftWhileEven (f + 2 ^ c) (s + 2 ^ c) = (f' + 2 ^ c', s' + 2 ^ c') ∧
      f' ≤ s' ∧ f' < 2 ^ c' ∧ s' < 2 ^ c' ∧ f' % 2 = 1 ∧ s' ≤ s := by
  induction c generalizing f s with
  | zero => omega
  | succ c ih =>
    have hc : 2 ^ (c + 1) = 2 * 2 ^ c := Nat.pow_succ'
    by_cases hodd : f % 2 = 1
    · exact ⟨c + 1, f, s, shiftWhileEven_odd hodd, shiftWhileEven_odd (by omega), hle, hf, hs,
        hodd, Nat.le_refl s⟩
    · obtain ⟨c', f', s', h1, h2, hle', hf', hs', hodd', hs''⟩ :=
        ih (f := f / 2) (s := s / 2) (by omega) (by omega) (by omega) (by omega)
      refine ⟨c', f', s', ?_, ?_, hle', hf', hs', hodd', by omega⟩
      · rw [shiftWhileEven_even (by omega) h0, h1]
      · rw [shiftWhileEven_even (by omega) (by omega), ← h2]
        congr 1 <;> omega

/-- The new tree has one level more than the old: the last turn is to the right of a left half. -/
theorem walkDirs_add_pow_right (hf : f < 2 ^ c) (hs : s < 2 ^ c) :
    walkDirs f (s + 2 ^ c) = walkDirs f (2 ^ c - 1) ++ [false] := by
  induction c generalizing f s with
  | zero =>
    obtain rfl : f = 0 := by omega
    obtain rfl : s = 0 := by omega
    rw [walkDirs_even (by omega) rfl (by omega)]
    simp [walkDirs_zero]
  | succ c ih =>
    have hc : 2 ^ (c + 1) = 2 * 2 ^ c := Nat.pow_succ'
    have := Nat.two_pow_pos c
    have hdiv : (s + 2 ^ (c + 1)) / 2 = s / 2 + 2 ^ c := by omega
    have hdiv' : (2 ^ (c + 1) - 1) / 2 = 2 ^ c - 1 := by omega
    have ih := ih (f := f / 2) (s := s / 2) (by omega) (by omega)
    by_cases hodd : f % 2 = 1
    · rw [walkDirs_odd (by omega) hodd, walkDirs_odd (by omega) hodd, hdiv, hdiv', ih]
      rfl
    · rw [walkDirs_even (f := f) (s := s + 2 ^ (c + 1)) (by omega) (by omega) (by omega),
        walkDirs_even (f := f) (s := 2 ^ (c + 1) - 1) (by omega) (by omega) (by omega), hdiv,
        hdiv', ih]
      rfl

/-- Both trees share their left half: the last turn is to the left of a right half. -/
theorem walkDirs_add_pow_both (hle : f ≤ s) (hs : s < 2 ^ c) :
    walkDirs (f + 2 ^ c) (s + 2 ^ c) = walkDirs f s ++ [true] := by
  induction s using Nat.strongRecOn generalizing f c with
  | ind s ih =>
    by_cases h0 : s = 0
    · obtain rfl : f = 0 := by omega
      subst h0
      rw [Nat.zero_add, walkDirs_self (Nat.ne_of_gt (Nat.two_pow_pos c)), shiftWhileEven_pow]
      simp [walkDirs_zero]
    · match c with
      | 0 => omega
      | c + 1 =>
        have hc : 2 ^ (c + 1) = 2 * 2 ^ c := Nat.pow_succ'
        have hdiv : ∀ n, (n + 2 ^ (c + 1)) / 2 = n / 2 + 2 ^ c := fun n => by omega
        by_cases hodd : f % 2 = 1
        · rw [walkDirs_odd (by omega) (by omega), walkDirs_odd h0 hodd, hdiv, hdiv,
            ih (s / 2) (by omega) (by omega) (by omega)]
          rfl
        · by_cases heq : f = s
          · -- the turn where both indices agree also skips the levels common to both trees
            subst heq
            obtain ⟨c', f', s', h1, h2, hle', hf', hs', hodd', hs''⟩ :=
              shiftWhileEven_add_pow h0 hs hs hle
            match c' with
            | 0 => omega
            | c' + 1 =>
              have hc' : 2 ^ (c' + 1) = 2 * 2 ^ c' := Nat.pow_succ'
              rw [walkDirs_self (by omega), walkDirs_self h0, h1, h2,
                show (f' + 2 ^ (c' + 1)) / 2 = f' / 2 + 2 ^ c' by omega,
                show (s' + 2 ^ (c' + 1)) / 2 = s' / 2 + 2 ^ c' by omega,
                ih (s' / 2) (by omega) (by omega) (by omega)]
              rfl
          · rw [walkDirs_even (by omega) (by omega) (by omega),
              walkDirs_even h0 (by omega) heq, hdiv, hdiv,
              ih (s / 2) (by omega) (by omega) (by omega)]
            rfl

/-- The turns left once the levels common to both trees are skipped. -/
def turns (f s : Nat) : List Bool :=
  walkDirs (shiftWhileOdd f s).1 (shiftWhileOdd f s).2

theorem turns_odd (h : f % 2 = 1) : turns f s = turns (f / 2) (s / 2) := by
  rw [turns, shiftWhileOdd_odd h, turns]

theorem turns_even (h : f % 2 = 0) : turns f s = walkDirs f s := by
  rw [turns, shiftWhileOdd_even h]

theorem turns_add_pow_right (hf : f < 2 ^ c) (hs : s < 2 ^ c) :
    turns f (s + 2 ^ c) = turns f (2 ^ c - 1) ++ [false] := by
  induction c generalizing f s with
  | zero =>
    rw [turns_even (by omega), turns_even (by omega), walkDirs_add_pow_right hf hs]
  | succ c ih =>
    have hc : 2 ^ (c + 1) = 2 * 2 ^ c := Nat.pow_succ'
    by_cases hodd : f % 2 = 1
    · rw [turns_odd hodd, turns_odd hodd,
        show (s + 2 ^ (c + 1)) / 2 = s / 2 + 2 ^ c by omega,
        show (2 ^ (c + 1) - 1) / 2 = 2 ^ c - 1 by omega, ih (by omega) (by omega)]
    · rw [turns_even (by omega), turns_even (by omega), walkDirs_add_pow_right hf hs]

theorem turns_add_pow_both (hlt : f < s) (hs : s < 2 ^ c) :
    turns (f + 2 ^ c) (s + 2 ^ c) = turns f s ++ [true] := by
  induction c generalizing f s with
  | zero => omega
  | succ c ih =>
    have hc : 2 ^ (c + 1) = 2 * 2 ^ c := Nat.pow_succ'
    by_cases hodd : f % 2 = 1
    · rw [turns_odd (by omega), turns_odd hodd,
        show (f + 2 ^ (c + 1)) / 2 = f / 2 + 2 ^ c by omega,
        show (s + 2 ^ (c + 1)) / 2 = s / 2 + 2 ^ c by omega, ih (by omega) (by omega)]
    · rw [turns_even (by omega), turns_even (by omega),
        walkDirs_add_pow_both (Nat.le_of_lt hlt) hs]

theorem shiftWhileOdd_ones_self (c : Nat) : shiftWhileOdd (2 ^ c - 1) (2 ^ c - 1) = (0, 0) := by
  induction c with
  | zero => exact shiftWhileOdd_even rfl
  | succ c ih =>
    have hc : 2 ^ (c + 1) = 2 * 2 ^ c := Nat.pow_succ'
    have := Nat.two_pow_pos c
    rw [shiftWhileOdd_odd (by omega), show (2 ^ (c + 1) - 1) / 2 = 2 ^ c - 1 by omega, ih]

theorem turns_ones (c : Nat) : turns (2 ^ c - 1) (2 ^ c - 1) = [] := by
  rw [turns, shiftWhileOdd_ones_self, walkDirs_zero]

/-- **The walk is the path.** From the bottom up the verifier takes the turns that lead to the
last subtree of the prefix. The second case is the one a recursion on split points ends in: the
whole of a perfect tree. -/
theorem turns_eq_prefixPath (hm : 0 < m) (h : m < n ∨ m = n ∧ ∃ a, n = 2 ^ a) :
    turns (m - 1) (n - 1) = (splitRule.prefixPath m n).reverse := by
  induction n using Nat.strongRecOn generalizing m with
  | ind n ih =>
    rcases h with hlt | ⟨rfl, a, rfl⟩
    · have hsplit := splitPoint_lt (n := n) (by omega)
      have hle := le_two_mul_splitPoint n
      obtain ⟨c, hc⟩ := splitPoint_eq_pow n
      by_cases hs : m ≤ splitPoint n
      · have ih := ih _ hsplit hm (by
          rcases Nat.lt_or_eq_of_le hs with h | h
          · exact .inl h
          · exact .inr ⟨h, c, hc⟩)
        rw [SplitRule.prefixPath_left hm hlt hs, splitRule_split, List.reverse_cons, ← ih, hc,
          ← turns_add_pow_right (s := n - 1 - 2 ^ c) (by omega) (by omega)]
        congr 1; omega
      · have hpos := splitPoint_pos n
        have ih := @ih (n - splitPoint n) (by omega) (m - splitPoint n) (by omega)
          (.inl (by omega))
        rw [SplitRule.prefixPath_right hm hlt hs, splitRule_split, List.reverse_cons, ← ih, hc,
          ← turns_add_pow_both (c := c) (by omega) (by omega)]
        congr 1 <;> omega
    · rw [SplitRule.prefixPath_whole (Nat.le_refl _), turns_ones, List.reverse_nil]

theorem shiftWhileOdd_fst (f s s' : Nat) : (shiftWhileOdd f s).1 = (shiftWhileOdd f s').1 := by
  induction f using Nat.strongRecOn generalizing s s' with
  | ind f ih =>
    by_cases hodd : f % 2 = 1
    · rw [shiftWhileOdd_odd hodd, shiftWhileOdd_odd hodd]
      exact ih _ (by omega) _ _
    · rw [shiftWhileOdd_even (by omega), shiftWhileOdd_even (by omega)]

theorem shiftWhileOdd_add_pow_ne_zero (hf : f + 1 < 2 ^ c) : (shiftWhileOdd (f + 2 ^ c) s).1 ≠ 0 := by
  induction c generalizing f s with
  | zero => omega
  | succ c ih =>
    have hc : 2 ^ (c + 1) = 2 * 2 ^ c := Nat.pow_succ'
    by_cases hodd : f % 2 = 1
    · rw [shiftWhileOdd_odd (by omega), show (f + 2 ^ (c + 1)) / 2 = f / 2 + 2 ^ c by omega]
      exact ih (by omega)
    · rw [shiftWhileOdd_even (by omega)]
      show f + 2 ^ (c + 1) ≠ 0
      omega

/-- The verifier takes the old root as its seed exactly when the path never turns right. -/
theorem shiftWhileOdd_eq_zero_iff (hm : 0 < m) (h : m < n ∨ m = n ∧ ∃ a, n = 2 ^ a) (s : Nat) :
    (shiftWhileOdd (m - 1) s).1 = 0 ↔ true ∉ splitRule.prefixPath m n := by
  induction n using Nat.strongRecOn generalizing m s with
  | ind n ih =>
    rcases h with hlt | ⟨rfl, a, rfl⟩
    · have hsplit := splitPoint_lt (n := n) (by omega)
      have hle := le_two_mul_splitPoint n
      obtain ⟨c, hc⟩ := splitPoint_eq_pow n
      by_cases hs : m ≤ splitPoint n
      · have ih := ih _ hsplit hm (by
          rcases Nat.lt_or_eq_of_le hs with h | h
          · exact .inl h
          · exact .inr ⟨h, c, hc⟩) s
        simp [SplitRule.prefixPath_left (R := splitRule) hm hlt hs, ih]
      · have := shiftWhileOdd_add_pow_ne_zero (f := m - 1 - 2 ^ c) (c := c) (s := s) (by omega)
        rw [show m - 1 - 2 ^ c + 2 ^ c = m - 1 by omega] at this
        simp [SplitRule.prefixPath_right (R := splitRule) hm hlt hs, this]
    · rw [SplitRule.prefixPath_whole (Nat.le_refl _), shiftWhileOdd_fst _ s (2 ^ a - 1), shiftWhileOdd_ones_self]
      simp

/-! ## The prover -/

variable {S : Sha256 Hash} {leaves : List Hash}

/-- The prover sends the siblings of the last subtree of the prefix, and before them the root of
that subtree unless the verifier knows it. -/
theorem subtreeProof_eq {u : HashTree Hash} (h : 0 < m ∧ m ≤ leaves.length)
    (hu : (tree S leaves).subtree (splitRule.prefixPath m leaves.length) = some u) :
    subtreeProof S leaves m complete h =
      (if complete ∧ true ∉ splitRule.prefixPath m leaves.length then [] else [u.hash (nodeHash S)])
        ++ (tree S leaves).auditPath (nodeHash S) (splitRule.prefixPath m leaves.length) := by
  induction leaves using splitRule.split_induction generalizing m complete with
  | short leaves hs =>
    rw [SplitRule.prefixPath_whole (by omega), HashTree.subtree_nil] at hu
    cases hu
    rw [SplitRule.prefixPath_whole (by omega), subtreeProof, if_pos (by omega), HashTree.auditPath_nil, root_eq_hash]
    simp
  | cut leaves hs ihl ihr =>
    have hlen := SplitRule.take_split_length (R := splitRule) hs
    rw [splitRule_split] at hlen ihl ihr
    by_cases heq : m = leaves.length
    · rw [SplitRule.prefixPath_whole (by omega), HashTree.subtree_nil] at hu
      cases hu
      rw [SplitRule.prefixPath_whole (by omega), subtreeProof, if_pos heq, HashTree.auditPath_nil, root_eq_hash]
      simp
    rw [tree_of_two_le hs] at hu ⊢
    rw [subtreeProof, if_neg heq]
    by_cases hm : m ≤ splitPoint leaves.length
    · have hpath := SplitRule.prefixPath_left (R := splitRule) h.1 (by omega) hm
      rw [splitRule_split] at hpath
      rw [hpath, HashTree.subtree] at hu
      rw [dif_pos hm, @ihl m complete ⟨h.1, by omega⟩ (by rwa [hlen]), hlen, hpath,
        root_eq_hash, HashTree.auditPath]
      simp
    · have hpath := SplitRule.prefixPath_right (R := splitRule) h.1 (by omega) hm
      rw [splitRule_split] at hpath
      rw [hpath, HashTree.subtree] at hu
      rw [dif_neg hm, @ihr (m - splitPoint leaves.length) false ⟨by omega, by simp; omega⟩
        (by rwa [List.length_drop]), List.length_drop, hpath, root_eq_hash, HashTree.auditPath]
      simp

/-! ## Completeness and soundness -/

/-- What the verifier computes between the range checks and the comparison of the roots: from the
seed, both climbs along the path of the prefix. -/
theorem consistencyLoop_turns_iff {old new old' new' : Hash} (hm : 0 < m) (hlt : m < n) :
    consistencyLoop S rest (shiftWhileOdd (m - 1) (n - 1)).1 (shiftWhileOdd (m - 1) (n - 1)).2
        old new = .ok (0, old', new') ↔
      rest.length = (splitRule.prefixPath m n).length ∧
        new' = climb (nodeHash S) new (rest.zip (splitRule.prefixPath m n).reverse) ∧
        old' = climb (nodeHash S) old
          ((rest.zip (splitRule.prefixPath m n).reverse).filter (·.2)) := by
  rw [consistencyLoop_eq_ok_iff, ← turns, turns_eq_prefixPath hm (.inl hlt), List.length_reverse]

variable [DecidableEq Hash]

/-- The comparison that ends the verifier, for a given seed and siblings. -/
theorem consistencyLoop_accept_iff {oldRoot newRoot seed : Hash} (hm : 0 < m) (hlt : m < n) :
    (do
      let (snode, old, new) ← consistencyLoop S rest (shiftWhileOdd (m - 1) (n - 1)).1
        (shiftWhileOdd (m - 1) (n - 1)).2 seed seed
      if snode ≠ 0 ∨ old ≠ oldRoot ∨ new ≠ newRoot then .error LogError.badProof else .ok ()) =
        Except.ok () ↔
      rest.length = (splitRule.prefixPath m n).length ∧
        climb (nodeHash S) seed (rest.zip (splitRule.prefixPath m n).reverse) = newRoot ∧
        climb (nodeHash S) seed ((rest.zip (splitRule.prefixPath m n).reverse).filter (·.2)) =
          oldRoot := by
  rw [eq_comm (b := newRoot), eq_comm (b := oldRoot), ← consistencyLoop_turns_iff hm hlt]
  cases consistencyLoop S rest (shiftWhileOdd (m - 1) (n - 1)).1
    (shiftWhileOdd (m - 1) (n - 1)).2 seed seed with
  | error e => simp [bind, Except.bind]
  | ok r =>
    obtain ⟨snode, old, new⟩ := r
    simp [bind, Except.bind]

/-- The verifier, in terms of the path of the prefix: it takes its seed from the proof unless the
path never turns right, in which case the old root is the seed. -/
theorem verifyConsistency_eq_ok_iff (hm : 0 < m) (hlt : m < n) :
    verifyConsistency S m oldRoot n newRoot proof = .ok () ↔
      ∃ seed rest,
        (if true ∈ splitRule.prefixPath m n then proof = seed :: rest
          else seed = oldRoot ∧ rest = proof) ∧
        rest.length = (splitRule.prefixPath m n).length ∧
        climb (nodeHash S) seed (rest.zip (splitRule.prefixPath m n).reverse) = newRoot ∧
        climb (nodeHash S) seed ((rest.zip (splitRule.prefixPath m n).reverse).filter (·.2)) =
          oldRoot := by
  have hzero := shiftWhileOdd_eq_zero_iff hm (.inl hlt) (n - 1)
  rw [verifyConsistency, if_neg (by omega), if_neg (by omega)]
  by_cases hturn : true ∈ splitRule.prefixPath m n
  · have hf : (shiftWhileOdd (m - 1) (n - 1)).1 ≠ 0 := by rwa [ne_eq, hzero, not_not]
    cases proof with
    | nil => simp [hf, hturn, bind, Except.bind]
    | cons first rest =>
      simp only [hf, hturn, if_true, if_false, pure_bind, List.cons.injEq]
      rw [consistencyLoop_accept_iff hm hlt]
      constructor
      · exact fun h => ⟨first, rest, ⟨rfl, rfl⟩, h⟩
      · rintro ⟨_, _, ⟨rfl, rfl⟩, h⟩
        exact h
  · have hf : (shiftWhileOdd (m - 1) (n - 1)).1 = 0 := hzero.mpr hturn
    simp only [if_pos hf, if_neg hturn, pure_bind]
    rw [consistencyLoop_accept_iff hm hlt]
    constructor
    · exact fun h => ⟨oldRoot, proof, ⟨rfl, rfl⟩, h⟩
    · rintro ⟨_, _, ⟨rfl, rfl⟩, h⟩
      exact h

/-- The proof the server builds for a prefix is accepted. -/
theorem verifyConsistency_of_consistencyProof (h : consistencyProof S leaves m = .ok proof) :
    verifyConsistency S m (root S (leaves.take m)) leaves.length (root S leaves) proof =
      .ok () := by
  rw [consistencyProof] at h
  split at h
  · cases h
  rename_i range
  obtain ⟨hm, hle⟩ : 0 < m ∧ m ≤ leaves.length := by omega
  by_cases heq : m = leaves.length
  · rw [if_pos heq] at h
    cases h
    rw [verifyConsistency, if_neg (by omega), if_pos heq, List.take_of_length_le (by omega)]
    simp
  · rw [if_neg heq] at h
    cases h
    obtain ⟨u, hu⟩ : ∃ u, (tree S leaves).subtree (splitRule.prefixPath m leaves.length) = some u :=
      SplitRule.subtree_prefixPath hm hle
    have hold : root S (leaves.take m) =
        ((tree S leaves).upTo (splitRule.prefixPath m leaves.length)).hash (nodeHash S) := by
      rw [root_eq_hash, tree, tree, SplitRule.upTo_ofList hm hle]
    rw [verifyConsistency_eq_ok_iff hm (by omega), subtreeProof_eq ⟨hm, hle⟩ hu, hold,
      root_eq_hash]
    refine ⟨u.hash (nodeHash S), _, ?_, HashTree.auditPath_length hu, HashTree.climb_auditPath hu,
      HashTree.climb_auditPath_left hu⟩
    by_cases hturn : true ∈ splitRule.prefixPath m leaves.length
    · simp [hturn]
    · simp [hturn, HashTree.upTo_of_not_mem hu hturn]

omit [DecidableEq Hash] in
/-- There is a proof for every prefix with a leaf. -/
theorem exists_consistencyProof (leaves : List Hash) (hm : 0 < m) (hle : m ≤ leaves.length) :
    ∃ proof, consistencyProof S leaves m = .ok proof := by
  rw [consistencyProof, dif_neg (by omega)]
  split
  · exact ⟨_, rfl⟩
  · exact ⟨_, rfl⟩

/-- **Consistency, completeness.** The proof the server builds for a prefix is accepted. -/
theorem verifyConsistency_consistencyProof (leaves : List Hash) (hm : 0 < m)
    (hle : m ≤ leaves.length) :
    ∃ proof, consistencyProof S leaves m = .ok proof ∧
      verifyConsistency S m (root S (leaves.take m)) leaves.length (root S leaves) proof =
        .ok () := by
  obtain ⟨proof, h⟩ := exists_consistencyProof (S := S) leaves hm hle
  exact ⟨proof, h, verifyConsistency_of_consistencyProof h⟩

theorem verifyConsistency_consistencyProof_twoLeaves :
    ∃ proof, consistencyProof markedDigest twoLeaves 1 = .ok proof ∧
      verifyConsistency markedDigest 1 (root markedDigest (twoLeaves.take 1)) 2
        (root markedDigest twoLeaves) proof = .ok () :=
  verifyConsistency_consistencyProof twoLeaves (by decide) (by decide)

/-- Two logs the verifier relates agree on the leaves of the older one. -/
theorem take_of_verifyConsistency (hnode : Function.Injective2 (nodeHash S)) {old new : List Hash}
    (hold : 0 < old.length) (hle : old.length ≤ new.length)
    (h : verifyConsistency S old.length (root S old) new.length (root S new) proof = .ok ()) :
    old = new.take old.length := by
  by_cases heq : old.length = new.length
  · rw [verifyConsistency, if_neg (by omega), if_pos heq] at h
    split at h
    · rename_i hroots
      rw [root_eq_hash, root_eq_hash] at hroots
      rw [heq, List.take_length]
      exact SplitRule.eq_of_hash_ofList_eq hnode heq hroots.2
    · cases h
  · obtain ⟨seed, rest, -, hlen, hnew, holdRoot⟩ :=
      (verifyConsistency_eq_ok_iff hold (by omega)).mp h
    obtain ⟨u, hu⟩ := SplitRule.subtree_prefixPath (R := splitRule) (d := S.digest []) hold hle
    -- the climb to the new root pins the seed and every sibling to the tree of the new log
    rw [root_eq_hash] at hnew
    obtain ⟨rfl, rfl⟩ := (HashTree.climb_eq_hash_iff hnode hu hlen).mp hnew
    -- so the climb to the old root is the one over the first leaves of the new log
    have hprefix := HashTree.climb_auditPath_left (f := nodeHash S) hu
    rw [SplitRule.upTo_ofList hold hle] at hprefix
    rw [root_eq_hash] at holdRoot
    exact SplitRule.eq_of_hash_ofList_eq hnode (by simp [hle]) (holdRoot.symm.trans hprefix)

/-- **Consistency, soundness.** Whatever the proof, two logs the verifier relates agree on the
leaves of the older one. -/
theorem eq_take_of_verifyConsistency (hnode : Function.Injective2 (nodeHash S))
    (old new : List Hash) (hold : 0 < old.length) (hle : old.length ≤ new.length)
    (proof : List Hash)
    (h : verifyConsistency S old.length (root S old) new.length (root S new) proof = .ok ()) :
    old = new.take old.length := by
  exact take_of_verifyConsistency hnode hold hle h

theorem eq_take_of_verifyConsistency_twoLeaves :
    verifyConsistency markedDigest 1 (root markedDigest [[5]]) 2 (root markedDigest twoLeaves)
      [[7]] = .ok () ∧ [[5]] = twoLeaves.take 1 := by
  have h : verifyConsistency markedDigest 1 (root markedDigest [[5]]) 2
      (root markedDigest twoLeaves) [[7]] = .ok () := by
    simp [verifyConsistency, shiftWhileOdd, consistencyLoop, root, splitPoint, splitPoint.loop,
      twoLeaves, bind, Except.bind, pure, Except.pure]
  exact ⟨h, eq_take_of_verifyConsistency markedDigest_node_injective [[5]] twoLeaves (by decide)
    (by decide) [[7]] h⟩

end Whispee.Transparency
