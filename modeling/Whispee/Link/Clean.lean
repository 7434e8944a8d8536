import Mathlib.Data.List.Induction
import Mathlib.Data.Nat.Find
import Whispee.Link.Metadata

/-!
# Cleaned labels

What `clean` of `apps/desktop/src/link.rs` makes of a text: its words, one space between two of
them. A line break is white space and a control character at once, and the loop asks about control
characters first, so that words with nothing but line breaks between them become one
(`cleaned_iff`).
-/

namespace Whispee.Link

/-- Neither removed nor collapsed. -/
def kept (c : Char) : Bool := !strip c && !isWhitespace c

/-- The white space that reaches the second test of the loop. -/
def blank (c : Char) : Bool := isWhitespace c && !strip c

/-- The words of a text, without the characters to remove. -/
def words (s : Str) : List Str :=
  ((s.filter fun c => isWhitespace c || !strip c).splitOnP isWhitespace).filter (!·.isEmpty)

/-- The text on one line. -/
def label (s : Str) : Str := [' '].intercalate (words s)

/-- At most `limit` characters, and an ellipsis for the others. -/
def bounded (limit : Nat) (s : Str) : Str :=
  if limit < s.length then s.take limit ++ ['…'] else s

/-- What is asked of a label. -/
structure Cleaned (raw : Str) (limit : Nat) (out : Str) : Prop where
  plain : ∀ c ∈ out, strip c = false ∧ isControl c = false
  spaced : out = bounded limit (label (decodeEntities raw))
  leading : ∀ c, out.head? = some c → isWhitespace c = false
  trailing : ∀ c, out.getLast? = some c → isWhitespace c = false
  short : out.length ≤ limit ∨ ∃ text : Str, text.length ≤ limit ∧ out = text ++ ['…']

/-- White space of `s` between two characters that are kept. -/
structure Gap (s before gap after : Str) : Prop where
  split : s = before ++ gap ++ after
  left : ∃ c, before.getLast? = some c ∧ kept c = true
  inside : ∀ c ∈ gap, kept c = false
  right : ∃ c, after.head? = some c ∧ kept c = true
  white : gap.any isWhitespace = true

/-- Each gap that the first `limit` characters of the label come to has white space that is not a
control character. -/
def Separated (limit : Nat) (s : Str) : Prop :=
  ∀ before gap after, Gap s before gap after →
    gap.any blank = true ∨ limit ≤ (label before).length

/-! ## The loop, for any notion of white space -/

/-- The loop of `clean` with `space` for its second test: what it adds to a text it has `started`,
a space `pending`. -/
def joined (space : Char → Bool) : Bool → Bool → Str → Str
  | _, _, [] => []
  | started, pending, c :: s =>
    if kept c then (if pending then [' ', c] else [c]) ++ joined space true false s
    else joined space started (pending || (started && space c)) s

section
variable {space : Char → Bool}

theorem joined_cons_of_kept (h : kept c = true) :
    joined space started pending (c :: s) =
      (if pending then [' ', c] else [c]) ++ joined space true false s := by
  simp [joined, h]

theorem joined_cons_of_not_kept (h : kept c = false) :
    joined space started pending (c :: s) =
      joined space started (pending || (started && space c)) s := by
  simp [joined, h]

theorem collapse_eq (out : Str) (spaced : Bool) (s : Str) :
    collapse out spaced s = out ++ joined blank (!out.isEmpty) spaced s := by
  induction s generalizing out spaced with
  | nil => simp [collapse, joined]
  | cons c s ih =>
    rw [collapse]
    split
    · next h =>
      rw [ih, joined_cons_of_not_kept (by simp [kept, h])]
      simp [blank, h]
    · next h =>
      split
      · next hw =>
        rw [ih, joined_cons_of_not_kept (by simp [kept, hw])]
        simp [blank, h, hw]
      · next hw =>
        have hne : (!(out ++ if spaced then [' ', c] else [c]).isEmpty) = true := by
          cases spaced <;> simp
        rw [ih, joined_cons_of_kept (by simp [kept, h, hw]), hne, List.append_assoc]

theorem joined_lead (gap s : Str) (h : ∀ c ∈ gap, kept c = false) :
    joined space false false (gap ++ s) = joined space false false s := by
  induction gap with
  | nil => rfl
  | cons c gap ih =>
    rw [List.cons_append, joined_cons_of_not_kept (h c (by simp))]
    simpa using ih fun d hd => h d (by simp [hd])

theorem joined_gap (gap s : Str) (pending : Bool) (h : ∀ c ∈ gap, kept c = false) :
    joined space true pending (gap ++ s) = joined space true (pending || gap.any space) s := by
  induction gap generalizing pending with
  | nil => simp
  | cons c gap ih =>
    rw [List.cons_append, joined_cons_of_not_kept (h c (by simp)),
      ih _ fun d hd => h d (by simp [hd])]
    simp [Bool.or_assoc]

/-- After a character that is kept, the loop starts anew. -/
theorem joined_append (before s : Str) (h : ∃ c, before.getLast? = some c ∧ kept c = true) :
    joined space started pending (before ++ s) =
      joined space started pending before ++ joined space true false s := by
  obtain ⟨c, hlast, hc⟩ := h
  obtain ⟨u, rfl⟩ := List.getLast?_eq_some_iff.mp hlast
  clear hlast
  induction u generalizing started pending with
  | nil => simp [joined, hc]
  | cons d u ih =>
    simp only [List.cons_append]
    cases hd : kept d with
    | true => rw [joined_cons_of_kept hd, joined_cons_of_kept hd, ih, List.append_assoc]
    | false => rw [joined_cons_of_not_kept hd, joined_cons_of_not_kept hd, ih]

/-- A word ends in what is kept, and what follows it is not kept. -/
theorem exists_tail (s : Str) :
    ∃ before gap, s = before ++ gap ∧ (∀ c ∈ gap, kept c = false) ∧
      (before = [] ∨ ∃ c, before.getLast? = some c ∧ kept c = true) := by
  induction s using List.reverseRec with
  | nil => exact ⟨[], [], by simp⟩
  | append_singleton s c ih =>
    obtain ⟨before, gap, rfl, hgap, hbefore⟩ := ih
    cases hc : kept c with
    | true => exact ⟨before ++ gap ++ [c], [], by simp, by simp, .inr ⟨c, by simp, hc⟩⟩
    | false =>
      refine ⟨before, gap ++ [c], by simp, fun d hd => ?_, hbefore⟩
      rcases List.mem_append.mp hd with hd | hd
      · exact hgap d hd
      · simpa [List.mem_singleton.mp hd] using hc

theorem joined_mem (h : c ∈ joined space started pending s) : c = ' ' ∨ kept c = true := by
  induction s generalizing started pending with
  | nil => simp [joined] at h
  | cons d s ih =>
    cases hd : kept d with
    | true =>
      rw [joined_cons_of_kept hd] at h
      rcases List.mem_append.mp h with h | h
      · cases pending <;> simp at h
        · exact .inr (h ▸ hd)
        · rcases h with h | h
          · exact .inl h
          · exact .inr (h ▸ hd)
      · exact ih h
    | false => exact ih (joined_cons_of_not_kept hd ▸ h)

theorem joined_eq_nil {space' : Char → Bool} (h : joined space false false s = []) :
    joined space' false false s = [] := by
  induction s with
  | nil => rfl
  | cons c s ih =>
    cases hc : kept c with
    | true =>
      rw [joined_cons_of_kept hc] at h
      simp at h
    | false =>
      rw [joined_cons_of_not_kept hc] at h ⊢
      simpa using ih (by simpa using h)

theorem joined_head (h : (joined space false false s).head? = some c) : kept c = true := by
  induction s with
  | nil => simp [joined] at h
  | cons d s ih =>
    cases hd : kept d with
    | true =>
      rw [joined_cons_of_kept hd] at h
      simp at h
      exact h ▸ hd
    | false =>
      rw [joined_cons_of_not_kept hd] at h
      exact ih (by simpa using h)

theorem joined_getLast (h : (joined space started pending s).getLast? = some c) :
    kept c = true := by
  induction s generalizing started pending with
  | nil => simp [joined] at h
  | cons d s ih =>
    cases hd : kept d with
    | true =>
      rw [joined_cons_of_kept hd, List.getLast?_append] at h
      cases hlast : (joined space true false s).getLast? with
      | some e =>
        have he : e = c := by simpa [hlast] using h
        exact ih (he ▸ hlast)
      | none =>
        cases pending <;> simp [hlast] at h <;> exact h ▸ hd
    | false => exact ih (joined_cons_of_not_kept hd ▸ h)

end

/-! ## The words -/

theorem intercalate_cons (a : α) (w : List α) (ws : List (List α)) :
    [a].intercalate (w :: ws) = w ++ ws.flatMap (a :: ·) := by
  induction ws generalizing w with
  | nil => simp
  | cons v ws ih => simp [List.intercalate_cons_cons, ih]

/-- The words left of a text of which a part `w` of a word is read. -/
def rest (pending : Bool) : List Str → Str
  | [] => []
  | w :: ws =>
    (if pending && !w.isEmpty then [' '] else []) ++ w ++
      (ws.filter (!·.isEmpty)).flatMap (' ' :: ·)

theorem joined_filter (started pending : Bool) (s : Str) :
    joined isWhitespace started pending (s.filter fun c => isWhitespace c || !strip c) =
      joined isWhitespace started pending s := by
  induction s generalizing started pending with
  | nil => rfl
  | cons c s ih =>
    cases hc : kept c with
    | true =>
      have hf : (isWhitespace c || !strip c) = true := by
        simp only [kept, Bool.and_eq_true] at hc
        simp [hc.1]
      simp only [List.filter_cons, hf, if_true]
      rw [joined_cons_of_kept hc, joined_cons_of_kept hc, ih]
    | false =>
      rw [joined_cons_of_not_kept hc]
      cases hw : isWhitespace c with
      | true =>
        simp only [List.filter_cons, hw, Bool.true_or, if_true]
        rw [joined_cons_of_not_kept hc, hw, ih]
      | false =>
        have hs : strip c = true := by simpa [kept, hw] using hc
        simp only [List.filter_cons, hw, hs]
        simpa using ih started pending

theorem splitOnP_whitespace (h : isWhitespace c = true) (s : Str) :
    (c :: s).splitOnP isWhitespace = [] :: s.splitOnP isWhitespace := by
  rw [List.splitOnP_cons_eq_if_modifyHead, if_pos h]

theorem splitOnP_other (h : isWhitespace c = false) (hws : s.splitOnP isWhitespace = w :: ws) :
    (c :: s).splitOnP isWhitespace = (c :: w) :: ws := by
  rw [List.splitOnP_cons_eq_if_modifyHead, if_neg (by simp [h]), hws, List.modifyHead_cons]

/-- Of a text without characters to remove, what is not white space is kept. -/
theorem kept_eq (h : (isWhitespace c || !strip c) = true) : kept c = !isWhitespace c := by
  cases hw : isWhitespace c <;> simp_all [kept]

theorem joined_started (s : Str) (pending : Bool)
    (h : ∀ c ∈ s, (isWhitespace c || !strip c) = true) :
    joined isWhitespace true pending s = rest pending (s.splitOnP isWhitespace) := by
  induction s generalizing pending with
  | nil => simp [joined, rest]
  | cons c s ih =>
    have ih := fun pending => ih pending fun d hd => h d (by simp [hd])
    have hc := kept_eq (h c (by simp))
    obtain ⟨w, ws, hws⟩ := List.exists_cons_of_ne_nil (List.splitOnP_ne_nil isWhitespace s)
    cases hw : isWhitespace c with
    | true =>
      rw [joined_cons_of_not_kept (by simp [hc, hw]), ih, splitOnP_whitespace hw, hws]
      cases w <;> simp [rest, hw]
    | false =>
      rw [joined_cons_of_kept (by simp [hc, hw]), ih, splitOnP_other hw hws, hws]
      cases pending <;> simp [rest]

theorem joined_eq (s : Str) (h : ∀ c ∈ s, (isWhitespace c || !strip c) = true) :
    joined isWhitespace false false s =
      [' '].intercalate ((s.splitOnP isWhitespace).filter (!·.isEmpty)) := by
  induction s with
  | nil => simp [joined]
  | cons c s ih =>
    have hs := fun d hd => h d (List.mem_cons_of_mem c hd)
    have hc := kept_eq (h c (by simp))
    cases hw : isWhitespace c with
    | true =>
      rw [joined_cons_of_not_kept (by simp [hc, hw]), splitOnP_whitespace hw]
      simpa using ih hs
    | false =>
      obtain ⟨w, ws, hws⟩ := List.exists_cons_of_ne_nil (List.splitOnP_ne_nil isWhitespace s)
      rw [joined_cons_of_kept (by simp [hc, hw]), joined_started s false hs,
        splitOnP_other hw hws, hws, List.filter_cons_of_pos (by simp), intercalate_cons]
      simp [rest]

theorem label_eq (s : Str) : label s = joined isWhitespace false false s := by
  rw [← joined_filter, joined_eq _ fun c hc => (List.mem_filter.mp hc).2]
  rfl

/-! ## Gaps -/

/-- Up to a kept character, with white space before it or without. -/
theorem joined_through {space : Char → Bool} (before gap s : Str)
    (hb : ∃ c, before.getLast? = some c ∧ kept c = true) (hgap : ∀ c ∈ gap, kept c = false)
    (hc : kept c = true) :
    joined space false false (before ++ gap ++ c :: s) =
      joined space false false before ++
        ((if gap.any space then [' ', c] else [c]) ++ joined space true false s) := by
  rw [List.append_assoc, joined_append before _ hb, joined_gap gap _ false hgap,
    joined_cons_of_kept hc, Bool.false_or]

theorem joined_of_not_kept {space : Char → Bool} (before gap : Str)
    (hb : ∃ c, before.getLast? = some c ∧ kept c = true) (hgap : ∀ c ∈ gap, kept c = false) :
    joined space false false (before ++ gap) = joined space false false before := by
  have h : joined space true false (gap ++ []) = joined space true (false || gap.any space) [] :=
    joined_gap gap [] false hgap
  rw [List.append_nil] at h
  rw [joined_append before _ hb, h]
  simp [joined]

theorem Gap.append (h : Gap s before gap after) (t : Str) :
    Gap (s ++ t) before gap (after ++ t) where
  split := by rw [h.split, List.append_assoc]
  left := h.left
  inside := h.inside
  right := by
    obtain ⟨c, hc, hk⟩ := h.right
    exact ⟨c, by rw [List.head?_append, hc]; rfl, hk⟩
  white := h.white

/-- What a gap ends before is no part of it. -/
theorem Gap.length_lt (h : Gap s before gap after) : before.length < s.length := by
  obtain ⟨c, hc, -⟩ := h.right
  obtain ⟨t, rfl⟩ := List.head?_eq_some_iff.mp hc
  rw [h.split]
  simp

theorem blank_any_of_not {gap : Str} (h : gap.any isWhitespace ≠ true) :
    gap.any blank = gap.any isWhitespace := by
  have hb : gap.any blank ≠ true := fun hb => h <| by
    obtain ⟨c, hc, hw⟩ := List.any_eq_true.mp hb
    exact List.any_eq_true.mpr ⟨c, hc, by simp only [blank, Bool.and_eq_true] at hw; exact hw.1⟩
  rw [Bool.eq_false_iff.mpr h, Bool.eq_false_iff.mpr hb]

/-- The two notions of white space give one label where every gap has white space of both. -/
theorem joined_agree (s : Str)
    (h : ∀ before gap after, Gap s before gap after → gap.any blank = true) :
    joined blank false false s = joined isWhitespace false false s := by
  induction s using List.reverseRec with
  | nil => rfl
  | append_singleton s c ih =>
    have ih := ih fun before gap after hg => h before gap _ (hg.append [c])
    obtain ⟨before, gap, rfl, hgap, hb⟩ := exists_tail s
    cases hc : kept c with
    | false =>
      have hgap' : ∀ d ∈ gap ++ [c], kept d = false := fun d hd => by
        rcases List.mem_append.mp hd with hd | hd
        · exact hgap d hd
        · exact List.mem_singleton.mp hd ▸ hc
      rcases hb with rfl | hb
      · have hlead : ∀ space, joined space false false (gap ++ [c]) = [] := fun space => by
          simpa [joined] using joined_lead (gap ++ [c]) [] hgap'
        rw [List.nil_append, hlead, hlead]
      · rw [joined_of_not_kept before gap hb hgap, joined_of_not_kept before gap hb hgap] at ih
        rw [List.append_assoc, joined_of_not_kept before _ hb hgap',
          joined_of_not_kept before _ hb hgap', ih]
    | true =>
      rcases hb with rfl | hb
      · rw [List.nil_append, joined_lead gap _ hgap, joined_lead gap _ hgap,
          joined_cons_of_kept hc, joined_cons_of_kept hc]
        rfl
      · rw [joined_of_not_kept before gap hb hgap, joined_of_not_kept before gap hb hgap] at ih
        have hany : gap.any blank = gap.any isWhitespace := by
          by_cases hw : gap.any isWhitespace = true
          · rw [hw, h before gap [c] ⟨rfl, hb, hgap, ⟨c, rfl, hc⟩, hw⟩]
          · exact blank_any_of_not hw
        rw [joined_through before gap [] hb hgap hc, joined_through before gap [] hb hgap hc, ih,
          hany]
        rfl

/-- The first gap without white space of the second kind, if there is one. -/
theorem exists_first (s : Str)
    (h : ¬ ∀ before gap after, Gap s before gap after → gap.any blank = true) :
    ∃ before gap after, Gap s before gap after ∧ gap.any blank ≠ true ∧
      ∀ before' gap' after', Gap s before' gap' after' → gap'.any blank ≠ true →
        before.length ≤ before'.length := by
  have hex : ∃ n, ∃ before gap after, Gap s before gap after ∧ gap.any blank ≠ true ∧
      before.length = n := by
    push Not at h
    obtain ⟨before, gap, after, hg, hb⟩ := h
    exact ⟨_, before, gap, after, hg, hb, rfl⟩
  classical
  obtain ⟨before, gap, after, hg, hb, hlen⟩ := Nat.find_spec hex
  refine ⟨before, gap, after, hg, hb, fun before' gap' after' hg' hb' => ?_⟩
  rw [hlen]
  exact Nat.find_min' hex ⟨before', gap', after', hg', hb', rfl⟩

theorem label_length_mono (h₁ : Gap s before gap after) (h₂ : Gap s before' gap' after')
    (hlen : before.length ≤ before'.length) : (label before).length ≤ (label before').length := by
  have hp₁ : before <+: s := ⟨gap ++ after, by rw [h₁.split, List.append_assoc]⟩
  have hp₂ : before' <+: s := ⟨gap' ++ after', by rw [h₂.split, List.append_assoc]⟩
  obtain ⟨t, rfl⟩ := List.prefix_of_prefix_length_le hp₁ hp₂ hlen
  rw [label_eq, label_eq, joined_append before t h₁.left, List.length_append]
  omega

/-! ## The bound -/

theorem bounded_getElem? (hi : i < limit) : (bounded limit s)[i]? = s[i]? := by
  unfold bounded
  split
  · rw [List.getElem?_append_left (by simp; omega), List.getElem?_take_of_lt hi]
  · rfl

/-- Two texts that part at some place have one bounded form when the bound comes before it. -/
theorem bounded_eq_iff (h : c ≠ d) :
    bounded limit (s ++ c :: t) = bounded limit (s ++ d :: u) ↔ limit ≤ s.length := by
  constructor
  · intro heq
    by_contra hlt
    have hi : s.length < limit := by omega
    have hget := congrArg (·[s.length]?) heq
    simp only [bounded_getElem? hi] at hget
    simp at hget
    exact h hget
  · intro hle
    rw [bounded, bounded, if_pos (by simp; omega), if_pos (by simp; omega),
      List.take_append_of_le_length hle, List.take_append_of_le_length hle]

theorem clean_eq (raw : Str) (limit : Nat) :
    clean raw limit =
      let out := joined blank false false (decodeEntities raw)
      if out.isEmpty then none else some (bounded limit out) := by
  simp only [clean, collapse_eq, List.isEmpty_nil, Bool.not_true, List.nil_append, bounded]
  split
  · rfl
  · split <;> rfl

/-- The bounded label is the bounded text of the loop, up to gaps past the bound. -/
theorem bounded_joined_iff (limit : Nat) (s : Str) :
    bounded limit (joined blank false false s) = bounded limit (label s) ↔ Separated limit s := by
  by_cases hall : ∀ before gap after, Gap s before gap after → gap.any blank = true
  · have hagree := joined_agree s hall
    rw [hagree, label_eq]
    exact iff_of_true rfl fun before gap after hg => .inl (hall before gap after hg)
  · obtain ⟨before, gap, after, hg, hblank, hfirst⟩ := exists_first s hall
    obtain ⟨c, hhead, hc⟩ := hg.right
    obtain ⟨t, rfl⟩ := List.head?_eq_some_iff.mp hhead
    have hspace : c ≠ ' ' := by
      rintro rfl
      exact absurd hc (by decide)
    -- every gap before the first one is as the label has it
    have hbefore : joined blank false false before = label before := by
      rw [label_eq]
      refine joined_agree before fun before' gap' after' hg' => ?_
      by_contra hb'
      have hg'' := hg'.append (gap ++ c :: t)
      rw [← List.append_assoc, ← hg.split] at hg''
      exact absurd (hfirst _ _ _ hg'' hb') (by have := hg'.length_lt; omega)
    have hloop : joined blank false false s = label before ++ c :: joined blank true false t := by
      rw [hg.split, joined_through before gap t hg.left hg.inside hc, hbefore, if_neg hblank]
      rfl
    have hlabel : label s = label before ++ ' ' :: c :: joined isWhitespace true false t := by
      rw [label_eq, hg.split, joined_through before gap t hg.left hg.inside hc, ← label_eq,
        if_pos hg.white]
      rfl
    rw [hloop, hlabel, bounded_eq_iff hspace]
    constructor
    · intro hle before' gap' after' hg'
      by_cases hb' : gap'.any blank = true
      · exact .inl hb'
      · exact .inr (hle.trans (label_length_mono hg hg' (hfirst _ _ _ hg' hb')))
    · intro hsep
      exact (hsep _ _ _ hg).resolve_left hblank

/-! ## The label -/

theorem isWhitespace_of_kept (h : kept c = true) : isWhitespace c = false := by
  simp only [kept, Bool.and_eq_true, Bool.not_eq_true'] at h
  exact h.2

theorem kept_plain (h : kept c = true) : strip c = false ∧ isControl c = false := by
  simp only [kept, Bool.and_eq_true, Bool.not_eq_true'] at h
  refine ⟨h.1, ?_⟩
  by_contra hctrl
  have hs := h.1
  simp only [strip, Bool.or_eq_false_iff, Bool.and_eq_false_iff] at hs
  rcases hs.2 with hs | hs
  · exact hctrl hs
  · have htab : c = '\t' := by simpa using hs
    subst htab
    exact absurd h.2 (by decide)

theorem bounded_mem (h : c ∈ bounded limit s) : c ∈ s ∨ c = '…' := by
  unfold bounded at h
  split at h
  · rcases List.mem_append.mp h with h | h
    · exact .inl (List.mem_of_mem_take h)
    · exact .inr (List.mem_singleton.mp h)
  · exact .inl h

theorem bounded_head (hlimit : 0 < limit) : (bounded limit s).head? = s.head? := by
  rw [List.head?_eq_getElem?, List.head?_eq_getElem?, bounded_getElem? hlimit]

/-- All that is asked of a label but the spaces between its words. -/
theorem cleaned_of_spaced
    (hout : out = bounded limit (joined blank false false (decodeEntities raw)))
    (hspaced : out = bounded limit (label (decodeEntities raw))) : Cleaned raw limit out where
  plain c hc := by
    rcases bounded_mem (hout ▸ hc) with h | rfl
    · rcases joined_mem h with rfl | h
      · decide
      · exact kept_plain h
    · decide
  spaced := hspaced
  leading c hc := by
    rcases Nat.eq_zero_or_pos limit with rfl | hlimit
    · rw [hout, bounded] at hc
      split at hc
      · simp at hc
        exact hc ▸ by decide
      · exact isWhitespace_of_kept (joined_head hc)
    · rw [hout, bounded_head hlimit] at hc
      exact isWhitespace_of_kept (joined_head hc)
  trailing c hc := by
    rw [hout, bounded] at hc
    split at hc
    · simp at hc
      exact hc ▸ by decide
    · exact isWhitespace_of_kept (joined_getLast hc)
  short := by
    rw [hout, bounded]
    split
    · exact .inr ⟨_, by simp, rfl⟩
    · exact .inl (by omega)

/-- `clean` gives what is asked of a label for exactly the texts whose gaps have, up to the bound,
white space that is no control character. -/
theorem cleaned_iff (raw : Str) (limit : Nat) :
    (∀ out, clean raw limit = some out → Cleaned raw limit out) ↔
      Separated limit (decodeEntities raw) := by
  rw [← bounded_joined_iff, clean_eq]
  dsimp only
  constructor
  · intro h
    split at h
    · next hempty =>
      have hnil := List.isEmpty_iff.mp hempty
      rw [hnil, label_eq, joined_eq_nil hnil]
    · exact (h _ rfl).spaced
  · intro heq out hout
    split at hout
    · cases hout
    · exact cleaned_of_spaced (Option.some.inj hout).symm ((Option.some.inj hout).symm.trans heq)

/-- Two words on two lines are glued. -/
theorem glued :
    ¬ ∀ raw limit out, clean raw limit = some out → Cleaned raw limit out := by
  intro h
  have hout : clean "a\nb".toList 200 = some "ab".toList := by decide
  exact absurd (h _ _ _ hout).spaced (by decide)

end Whispee.Link
