import Mathlib.Data.Set.Function

/-!
# Delimited encodings

An encoding is delimited if nothing that follows it can be taken for a part of it: from what it
gives and more, both can be told. Delimited encodings are injective, and one after the other they
still are; they come from a fixed length, from a last letter that does not occur before, or from a
length that is written in front.
-/

namespace Delimited

variable {α : Type u} {β : Type v} {γ : Type w}

def On (s : Set α) (enc : α → List β) : Prop :=
  ∀ ⦃a⦄, a ∈ s → ∀ ⦃a'⦄, a' ∈ s → ∀ ⦃rest rest'⦄, enc a ++ rest = enc a' ++ rest' →
    a = a' ∧ rest = rest'

namespace On

variable {s : Set α} {t : Set γ} {enc : α → List β}

theorem of_length (hinj : Set.InjOn enc s) (hlength : ∀ a ∈ s, (enc a).length = n) : On s enc := by
  intro a ha a' ha' rest rest' heq
  obtain ⟨henc, hrest⟩ := List.append_inj heq ((hlength a ha).trans (hlength a' ha').symm)
  exact ⟨hinj ha ha' henc, hrest⟩

theorem comp {f : γ → α} (h : On s enc) (hmaps : Set.MapsTo f t s) (hinj : Set.InjOn f t) :
    On t (enc ∘ f) := by
  intro c hc c' hc' rest rest' heq
  obtain ⟨hf, hrest⟩ := h (hmaps hc) (hmaps hc') heq
  exact ⟨hinj hc hc' hf, hrest⟩

/-- A word without the letter that ends it. -/
theorem terminated (x : β) : On {l | x ∉ l} (· ++ [x]) := by
  intro l hl l' hl' rest rest' heq
  dsimp only at heq
  rw [List.append_assoc, List.append_assoc, List.append_eq_append_iff] at heq
  rcases heq with ⟨m, rfl, hm⟩ | ⟨m, rfl, hm⟩
  · cases m with
    | nil => exact ⟨(List.append_nil l).symm, (List.cons.inj hm).2⟩
    | cons y m =>
      obtain ⟨rfl, _⟩ := List.cons.inj hm
      exact absurd (List.mem_append_right l (.head m)) hl'
  · cases m with
    | nil => exact ⟨List.append_nil l', (List.cons.inj hm).2.symm⟩
    | cons y m =>
      obtain ⟨rfl, _⟩ := List.cons.inj hm
      exact absurd (List.mem_append_right l' (.head m)) hl

theorem of_terminated {x : β} (hl : x ∉ l) (hl' : x ∉ l')
    (h : l ++ x :: rest = l' ++ x :: rest') : l = l' ∧ rest = rest' :=
  terminated x hl hl' (by rw [List.append_assoc, List.append_assoc]; exact h)

/-- A word with its length before it. -/
theorem prefixed {lengths : Set Nat} {len : Nat → List β} (h : On lengths len) :
    On {l : List β | l.length ∈ lengths} fun l => len l.length ++ l := by
  intro l hl l' hl' rest rest' heq
  dsimp only at heq
  rw [List.append_assoc, List.append_assoc] at heq
  obtain ⟨hlength, htail⟩ := h hl hl' heq
  exact List.append_inj htail hlength

/-- As many words, one after the other. -/
theorem flatMap (h : On s enc) {words words' : List α} (hlength : words.length = words'.length)
    (hwords : ∀ a ∈ words, a ∈ s) (hwords' : ∀ a ∈ words', a ∈ s)
    (heq : words.flatMap enc ++ rest = words'.flatMap enc ++ rest') :
    words = words' ∧ rest = rest' := by
  induction words generalizing words' with
  | nil =>
    obtain rfl := List.length_eq_zero_iff.1 hlength.symm
    exact ⟨rfl, heq⟩
  | cons a words ih =>
    cases words' with
    | nil => cases hlength
    | cons a' words' =>
      rw [List.flatMap_cons, List.flatMap_cons, List.append_assoc, List.append_assoc] at heq
      obtain ⟨rfl, htail⟩ := h (hwords a (.head _)) (hwords' a' (.head _)) heq
      obtain ⟨rfl, hrest⟩ := ih (Nat.succ.inj hlength) (fun b hb => hwords b (.tail _ hb))
        (fun b hb => hwords' b (.tail _ hb)) htail
      exact ⟨rfl, hrest⟩

end On

/-- Two words that begin alike: one is the beginning of the other. -/
theorem comparable_of_append_eq {l l' : List β} (h : l ++ rest = l' ++ rest') : l <+: l' ∨ l' <+: l :=
  List.prefix_or_prefix_of_prefix (List.prefix_append l rest) (h ▸ List.prefix_append l' rest')

end Delimited
