import Whispee.Transparency.Inclusion

/-!
# The verifier on a `usize` of `w` bits

`split_point` and `verify_inclusion` as they run: sizes come from the server, through JavaScript,
and doubling wraps. Loops take fuel; `none` is a loop that the fuel was not enough for. What is
returned says whether anything wrapped on the way.
-/

namespace Whispee.Transparency

/-- `while k * 2 < n { k *= 2 }`. The condition and the body double the same `k`. -/
def splitPointWrapping (w n : Nat) : (fuel k : Nat) → (wrapped : Bool) → Option (Nat × Bool)
  | 0, _, _ => none
  | fuel + 1, k, wrapped =>
    let wrapped := wrapped || decide (2 ^ w ≤ k * 2)
    if k * 2 % 2 ^ w < n then splitPointWrapping w n fuel (k * 2 % 2 ^ w) wrapped
    else some (k, wrapped)

/-- The descent of `verify_inclusion`. -/
def descendWrapping (w : Nat) :
    (fuel index size : Nat) → List Bool → (wrapped : Bool) → Option (List Bool × Bool)
  | 0, _, _, _, _ => none
  | fuel + 1, index, size, directions, wrapped =>
    if size > 1 then do
      let (split, wrapped) ← splitPointWrapping w size fuel 1 wrapped
      if index < split then descendWrapping w fuel index split (directions ++ [false]) wrapped
      else descendWrapping w fuel (index - split) (size - split) (directions ++ [true]) wrapped
    else some (directions, wrapped)

section
variable (S : Sha256 Hash) [DecidableEq Hash]

def verifyInclusionWrapping (w fuel : Nat) (leaf : Hash) (index size : Nat) (proof : List Hash)
    (expectedRoot : Hash) : Option (Except LogError Unit × Bool) :=
  if index ≥ size then some (.error .outOfRange, false)
  else do
    let (directions, wrapped) ← descendWrapping w fuel index size [] false
    if directions.length ≠ proof.length then some (.error .badProof, wrapped)
    else
      let hash := (proof.zip directions.reverse).foldl (fun hash (sibling, fromRight) =>
        if fromRight then nodeHash S sibling hash else nodeHash S hash sibling) leaf
      if hash ≠ expectedRoot then some (.error .badProof, wrapped) else some (.ok (), wrapped)

end

/-! ## Where no doubling wraps -/

theorem splitPointWrapping_eq (hn : n ≤ 2 ^ (w - 1)) (hw : 0 < w) (hk : 0 < k)
    (hfits : k * 2 < 2 ^ w) (hfuel : n ≤ k * 2 ^ (fuel + 1)) (wrapped : Bool) :
    splitPointWrapping w n (fuel + 1) k wrapped = some (splitPoint.loop n k hk, wrapped) := by
  induction fuel generalizing k with
  | zero =>
    rw [splitPointWrapping, splitPoint.loop, decide_eq_false (Nat.not_le_of_lt hfits),
      Bool.or_false, Nat.mod_eq_of_lt hfits, if_neg (by omega), if_neg (by omega)]
  | succ fuel ih =>
    rw [splitPointWrapping, splitPoint.loop, decide_eq_false (Nat.not_le_of_lt hfits),
      Bool.or_false, Nat.mod_eq_of_lt hfits]
    split
    · rename_i hlt
      have hpow : 2 ^ w = 2 * 2 ^ (w - 1) := by
        rw [← Nat.pow_succ', Nat.succ_eq_add_one, Nat.sub_add_cancel hw]
      have hfuel' : n ≤ k * 2 * 2 ^ (fuel + 1) := by
        rwa [Nat.mul_assoc, ← Nat.pow_succ']
      exact ih (Nat.mul_pos hk Nat.two_pos) (by omega) hfuel'
    · rfl

theorem descendWrapping_eq (hw : 2 ≤ w) (hsize : size ≤ 2 ^ (w - 1)) (hfuel : w + size ≤ fuel)
    (directions : List Bool) (wrapped : Bool) :
    descendWrapping w fuel index size directions wrapped =
      some (descend index size directions, wrapped) := by
  induction fuel generalizing index size directions with
  | zero => omega
  | succ fuel ih =>
    rw [descendWrapping, descend]
    split
    · rename_i hlong
      have hsplit : splitPointWrapping w size fuel 1 wrapped = some (splitPoint size, wrapped) := by
        obtain ⟨fuel, rfl⟩ : ∃ f, fuel = f + 1 := ⟨fuel - 1, by omega⟩
        have hle : 2 ^ (w - 1) ≤ 2 ^ (fuel + 1) := Nat.pow_le_pow_right Nat.two_pos (by omega)
        have hone : 1 * 2 < 2 ^ w := by
          calc 1 * 2 < 2 ^ 2 := by decide
            _ ≤ 2 ^ w := Nat.pow_le_pow_right Nat.two_pos hw
        exact splitPointWrapping_eq hsize (by omega) Nat.one_pos hone (by omega) wrapped
      have hlt := splitPoint_lt hlong
      have hpos := splitPoint_pos size
      rw [hsplit]
      dsimp only [Option.bind_eq_bind, Option.bind_some]
      split
      · exact ih (by omega) (by omega) _
      · exact ih (by omega) (by omega) _
    · rfl

/-! ## Where one does -/

/-- The doublings of one are all below `n`, and so is the zero they wrap to. -/
theorem splitPointWrapping_eq_none (hn : 2 ^ (w - 1) < n) (hw : 0 < w)
    (hk : k = 0 ∨ ∃ a < w, k = 2 ^ a) (fuel : Nat) (wrapped : Bool) :
    splitPointWrapping w n fuel k wrapped = none := by
  induction fuel generalizing k wrapped with
  | zero => rfl
  | succ fuel ih =>
    have hzero : 0 < n := Nat.zero_lt_of_lt hn
    rw [splitPointWrapping]
    rcases hk with rfl | ⟨a, ha, rfl⟩
    · rw [Nat.zero_mul, Nat.zero_mod, if_pos hzero]
      exact ih (.inl rfl) _
    · rw [← Nat.pow_succ]
      rcases Nat.lt_or_eq_of_le (Nat.succ_le_of_lt ha) with hlt | heq
      · have hle : 2 ^ (a + 1) ≤ 2 ^ (w - 1) := Nat.pow_le_pow_right Nat.two_pos (by omega)
        rw [Nat.mod_eq_of_lt (Nat.pow_lt_pow_right (by decide) hlt),
          if_pos (Nat.lt_of_le_of_lt hle hn)]
        exact ih (.inr ⟨a + 1, hlt, rfl⟩) _
      · subst heq
        rw [Nat.succ_eq_add_one, Nat.mod_self, if_pos hzero]
        exact ih (.inl rfl) _

theorem splitPointWrapping_one (hw : 2 ≤ w) (hn : 2 ^ (w - 1) < n) (fuel : Nat) (wrapped : Bool) :
    splitPointWrapping w n fuel 1 wrapped = none :=
  splitPointWrapping_eq_none hn (by omega) (.inr ⟨0, by omega, rfl⟩) fuel wrapped

theorem descendWrapping_eq_none (hw : 2 ≤ w) (hsize : 2 ^ (w - 1) < size) (fuel : Nat)
    (directions : List Bool) (wrapped : Bool) :
    descendWrapping w fuel index size directions wrapped = none := by
  cases fuel with
  | zero => rfl
  | succ fuel =>
    have hone : 1 ≤ 2 ^ (w - 1) := Nat.one_le_two_pow
    rw [descendWrapping, if_pos (by omega), splitPointWrapping_one hw hsize]
    rfl

section
variable {S : Sha256 Hash} [DecidableEq Hash] {leaf expectedRoot : Hash} {proof : List Hash}

theorem verifyInclusionWrapping_of_descend
    (hdescend : descendWrapping w fuel index size [] false = some (descend index size [], false)) :
    verifyInclusionWrapping S w fuel leaf index size proof expectedRoot =
      some (verifyInclusion S leaf index size proof expectedRoot, false) := by
  rw [verifyInclusionWrapping, verifyInclusion, hdescend]
  split
  · rfl
  · dsimp only [Option.bind_eq_bind, Option.bind_some]
    split
    · rfl
    · split <;> rfl

/-- `split_point` and `verify_inclusion` return, and nothing wraps, exactly where the size is at
most half of what a `usize` holds or does not let the leaf in. They return what they do on sizes
without a bound; on the other sizes they do not return at all. -/
theorem verifyInclusion_returns_iff (hw : 2 ≤ w) :
    ((∃ fuel k, splitPointWrapping w size fuel 1 false = some (k, false)) ↔ size ≤ 2 ^ (w - 1)) ∧
    ((∃ fuel result, verifyInclusionWrapping S w fuel leaf index size proof expectedRoot =
        some (result, false)) ↔ size ≤ index ∨ size ≤ 2 ^ (w - 1)) ∧
    (size ≤ index ∨ size ≤ 2 ^ (w - 1) → ∃ fuel,
      verifyInclusionWrapping S w fuel leaf index size proof expectedRoot =
        some (verifyInclusion S leaf index size proof expectedRoot, false)) ∧
    (¬(size ≤ index ∨ size ≤ 2 ^ (w - 1)) → ∀ fuel,
      verifyInclusionWrapping S w fuel leaf index size proof expectedRoot = none) := by
  have hone : 1 * 2 < 2 ^ w := by
    calc 1 * 2 < 2 ^ 2 := by decide
      _ ≤ 2 ^ w := Nat.pow_le_pow_right Nat.two_pos hw
  have returns : size ≤ index ∨ size ≤ 2 ^ (w - 1) → ∃ fuel,
      verifyInclusionWrapping S w fuel leaf index size proof expectedRoot =
        some (verifyInclusion S leaf index size proof expectedRoot, false) := by
    rintro (hout | hsize)
    · exact ⟨0, by rw [verifyInclusionWrapping, verifyInclusion, if_pos hout, if_pos hout]⟩
    · exact ⟨w + size, verifyInclusionWrapping_of_descend
        (descendWrapping_eq hw hsize (Nat.le_refl _) [] false)⟩
  have hangs : ¬(size ≤ index ∨ size ≤ 2 ^ (w - 1)) → ∀ fuel,
      verifyInclusionWrapping S w fuel leaf index size proof expectedRoot = none := by
    intro hnot fuel
    obtain ⟨hin, hlarge⟩ := not_or.1 hnot
    rw [verifyInclusionWrapping, if_neg hin,
      descendWrapping_eq_none hw (Nat.lt_of_not_le hlarge)]
    rfl
  refine ⟨⟨?_, fun hsize => ?_⟩, ⟨?_, fun h => ?_⟩, returns, hangs⟩
  · rintro ⟨fuel, k, hreturn⟩
    by_contra hlarge
    rw [splitPointWrapping_one hw (Nat.lt_of_not_le hlarge)] at hreturn
    cases hreturn
  · have hfuel : size ≤ 1 * 2 ^ (w + 1) := by
      have hle : 2 ^ (w - 1) ≤ 2 ^ (w + 1) := Nat.pow_le_pow_right Nat.two_pos (by omega)
      omega
    exact ⟨w + 1, _, splitPointWrapping_eq hsize (by omega) Nat.one_pos hone hfuel false⟩
  · rintro ⟨fuel, result, hreturn⟩
    by_contra hnot
    rw [hangs hnot fuel] at hreturn
    cases hreturn
  · obtain ⟨fuel, hreturn⟩ := returns h
    exact ⟨fuel, _, hreturn⟩

end

/-- Two leaves, on the 32 bits of WebAssembly. -/
theorem verifyInclusion_returns_iff_twoLeaves : ∃ fuel,
    verifyInclusionWrapping markedDigest 32 fuel [7] 1 2 [[5]] (root markedDigest twoLeaves) =
      some (verifyInclusion markedDigest [7] 1 2 [[5]] (root markedDigest twoLeaves), false) :=
  (verifyInclusion_returns_iff (by decide)).2.2.1 (.inr (by decide))

/-- 2^31 + 1 leaves, on 32 bits. -/
theorem verifyInclusion_hangs :
    ¬∀ w ∈ [32, 64], ∀ index size, index < 2 ^ w → size < 2 ^ w →
      ∀ (leaf expectedRoot : List UInt8) proof, ∃ fuel result,
        verifyInclusionWrapping markedDigest w fuel leaf index size proof expectedRoot =
          some (result, false) := by
  intro h
  obtain ⟨fuel, result, hreturn⟩ :=
    h 32 List.mem_cons_self 0 (2 ^ 31 + 1) (by decide) (by decide) [7] [7] []
  rw [verifyInclusionWrapping, if_neg (by decide),
    descendWrapping_eq_none (by decide) (Nat.lt_succ_self (2 ^ 31))] at hreturn
  cases hreturn

end Whispee.Transparency
