import Mathlib.Order.Defs.LinearOrder
import Mathlib.Data.Set.Function
import Mathlib.Data.List.Induction

/-!
# The last writer wins

Decisions carry a stamp from a linear order. `latest` is the decision of a history that stands: the
one with the greatest stamp, and the first of those where two share it. Histories are joined by
`later` (`latest_append`); where stamps tell decisions apart, only the set of the decisions heard
counts, not their order nor how often each was heard (`latest_congr`).
-/

namespace LastWriter

variable {δ : Type u} {τ : Type v} [LinearOrder τ] (stamp : δ → τ)

/-- What stands of two decisions. The one already held stands unless the other is later. -/
def later : Option δ → Option δ → Option δ
  | none, d => d
  | some held, none => some held
  | some held, some d => if stamp held < stamp d then some d else some held

/-- The decision of a history that stands. -/
def latest : List δ → Option δ
  | [] => none
  | d :: history => later stamp (some d) (latest history)

/-- No two decisions of a history share a stamp. -/
def Distinct (history : List δ) : Prop := Set.InjOn stamp {d | d ∈ history}

variable {stamp}

@[simp] theorem later_none (a : Option δ) : later stamp a none = a := by
  cases a <;> rfl

@[simp] theorem none_later (a : Option δ) : later stamp none a = a := rfl

theorem later_eq_left (h : stamp d ≤ stamp held) :
    later stamp (some held) (some d) = some held := if_neg (not_lt_of_ge h)

theorem later_eq_right (h : stamp held < stamp d) :
    later stamp (some held) (some d) = some d := if_pos h

theorem later_assoc (a b c : Option δ) :
    later stamp (later stamp a b) c = later stamp a (later stamp b c) := by
  rcases a with _ | a
  · rfl
  rcases b with _ | b
  · rfl
  rcases c with _ | c
  · rw [later_none, later_none]
  rcases lt_or_ge (stamp a) (stamp b) with hab | hba
  · rw [later_eq_right hab]
    rcases lt_or_ge (stamp b) (stamp c) with hbc | hcb
    · rw [later_eq_right hbc, later_eq_right (hab.trans hbc)]
    · rw [later_eq_left hcb, later_eq_right hab]
  · rw [later_eq_left hba]
    rcases lt_or_ge (stamp b) (stamp c) with hbc | hcb
    · rw [later_eq_right hbc]
    · rw [later_eq_left hcb, later_eq_left hba, later_eq_left (hcb.trans hba)]

theorem latest_append (history history' : List δ) :
    latest stamp (history ++ history') = later stamp (latest stamp history) (latest stamp history') := by
  induction history with
  | nil => rfl
  | cons d history ih => rw [List.cons_append, latest, latest, ih, later_assoc]

theorem latest_eq_none_iff : latest stamp history = none ↔ history = [] := by
  cases history with
  | nil => exact iff_of_true rfl rfl
  | cons d history =>
    refine iff_of_false ?_ (List.cons_ne_nil _ _)
    rw [latest]
    cases latest stamp history with
    | none => exact Option.some_ne_none _
    | some e =>
      rw [later]
      split <;> exact Option.some_ne_none _

/-- The decision that stands was made, and none is later. -/
theorem mem_latest (h : latest stamp history = some d) :
    d ∈ history ∧ ∀ e ∈ history, stamp e ≤ stamp d := by
  induction history generalizing d with
  | nil => cases h
  | cons first history ih =>
    rw [latest] at h
    cases hrest : latest stamp history with
    | none =>
      rw [hrest] at h
      cases h
      rw [latest_eq_none_iff.1 hrest]
      refine ⟨List.mem_cons_self, fun e he => ?_⟩
      rw [List.mem_singleton.1 he]
    | some e =>
      obtain ⟨he, hmax⟩ := ih hrest
      rw [hrest] at h
      rcases lt_or_ge (stamp first) (stamp e) with hlt | hge
      · cases (later_eq_right hlt).symm.trans h
        refine ⟨List.mem_cons_of_mem _ he, fun e' he' => ?_⟩
        rcases List.mem_cons.1 he' with rfl | he'
        · exact hlt.le
        · exact hmax e' he'
      · cases (later_eq_left hge).symm.trans h
        refine ⟨List.mem_cons_self, fun e' he' => ?_⟩
        rcases List.mem_cons.1 he' with rfl | he'
        · exact le_refl _
        · exact (hmax e' he').trans hge

/-- Where stamps tell decisions apart, the one that stands is the one with the greatest stamp. -/
theorem latest_eq_some_iff (distinct : Distinct stamp history) :
    latest stamp history = some d ↔ d ∈ history ∧ ∀ e ∈ history, stamp e ≤ stamp d := by
  refine ⟨mem_latest, fun ⟨hd, hmax⟩ => ?_⟩
  cases hlatest : latest stamp history with
  | none =>
    rw [latest_eq_none_iff.1 hlatest] at hd
    cases hd
  | some e =>
    obtain ⟨he, hmax'⟩ := mem_latest hlatest
    rw [distinct he hd (le_antisymm (hmax e he) (hmax' d hd))]

/-- Two that have heard the same decisions hold the same one. -/
theorem latest_congr (distinct : Distinct stamp history)
    (same : ∀ d, d ∈ history ↔ d ∈ history') : latest stamp history = latest stamp history' := by
  have distinct' : Distinct stamp history' := fun d hd e he =>
    distinct ((same d).2 hd) ((same e).2 he)
  cases hlatest : latest stamp history with
  | none =>
    have nothing : ∀ d, d ∉ history' := fun d hd => by
      have hd := (same d).2 hd
      rw [latest_eq_none_iff.1 hlatest] at hd
      cases hd
    exact (latest_eq_none_iff.2 (List.eq_nil_iff_forall_not_mem.2 nothing)).symm
  | some d =>
    obtain ⟨hd, hmax⟩ := mem_latest hlatest
    exact ((latest_eq_some_iff distinct').2 ⟨(same d).1 hd, fun e he => hmax e ((same e).2 he)⟩).symm

/-- A decision later than all those heard stands at once. -/
theorem latest_concat (h : ∀ e ∈ history, stamp e < stamp d) :
    latest stamp (history ++ [d]) = some d := by
  rw [latest_append]
  cases hlatest : latest stamp history with
  | none => rfl
  | some e => exact later_eq_right (h e (mem_latest hlatest).1)

omit [LinearOrder τ] in
theorem Distinct.of_subset (h : Distinct stamp history') (sub : ∀ d ∈ history, d ∈ history') :
    Distinct stamp history :=
  Set.InjOn.mono sub h

omit [LinearOrder τ] in
theorem Distinct.concat (h : Distinct stamp history) (fresh : ∀ e ∈ history, stamp e ≠ stamp d) :
    Distinct stamp (history ++ [d]) := by
  intro e he e' he' heq
  rcases List.mem_append.1 he with he | he
  · rcases List.mem_append.1 he' with he' | he'
    · exact h he he' heq
    · rw [List.mem_singleton.1 he'] at heq
      exact absurd heq (fresh e he)
  · rw [List.mem_singleton.1 he] at heq ⊢
    rcases List.mem_append.1 he' with he' | he'
    · exact absurd heq.symm (fresh e' he')
    · exact (List.mem_singleton.1 he').symm

/-! ## A register that forgets

`keep` tells which decisions leave a record. A decision that leaves none erases the one that is
held, and with it the stamp an older decision would be compared with. -/

section
variable (stamp) (keep : δ → Bool)

/-- What is held once `d` is heard: nothing that is not later than what is held counts. -/
def hear : Option δ → δ → Option δ
  | some held, d => if stamp d ≤ stamp held then some held else if keep d then some d else none
  | none, d => if keep d then some d else none

/-- `d` leaves a record, and nothing heard after it is later. -/
def Stands (history : List δ) (d : δ) : Prop :=
  keep d ∧ ∃ before after, history = before ++ d :: after ∧ ∀ e ∈ after, stamp e ≤ stamp d

end

variable {keep : δ → Bool}

theorem hear_eq (held : Option δ) (d : δ) : hear stamp keep held d =
    if held.any (fun e => decide (stamp d ≤ stamp e)) then held
    else if keep d then some d else none := by
  cases held with
  | none => rfl
  | some e => simp only [hear, Option.any_some, decide_eq_true_eq]

theorem Stands.mem (h : Stands stamp keep history d) : d ∈ history := by
  obtain ⟨_, before, after, rfl, _⟩ := h
  exact List.mem_append_right _ List.mem_cons_self

theorem stands_concat_iff : Stands stamp keep (history ++ [e]) d ↔
    Stands stamp keep history d ∧ stamp e ≤ stamp d ∨ d = e ∧ keep e := by
  constructor
  · rintro ⟨hkeep, before, after, heq, hafter⟩
    rcases List.eq_nil_or_concat after with rfl | ⟨after, last, rfl⟩
    · obtain ⟨_, hlast⟩ := List.append_inj' heq rfl
      cases hlast
      exact .inr ⟨rfl, hkeep⟩
    · rw [List.concat_eq_append, ← List.cons_append, ← List.append_assoc] at heq
      obtain ⟨rfl, hlast⟩ := List.append_inj' heq rfl
      cases hlast
      rw [List.concat_eq_append] at hafter
      exact .inl ⟨⟨hkeep, before, after, rfl, fun e he => hafter e (List.mem_append_left _ he)⟩,
        hafter _ (List.mem_append_right _ List.mem_cons_self)⟩
  · rintro (⟨⟨hkeep, before, after, rfl, hafter⟩, hle⟩ | ⟨rfl, hkeep⟩)
    · refine ⟨hkeep, before, after ++ [e], by rw [List.append_assoc]; rfl, fun e' he' => ?_⟩
      rcases List.mem_append.1 he' with he' | he'
      · exact hafter e' he'
      · rwa [List.mem_singleton.1 he']
    · exact ⟨hkeep, history, [], rfl, nofun⟩

/-- What is held is the greatest of the decisions that stand. -/
def Holds (stamp : δ → τ) (keep : δ → Bool) (history : List δ) : Option δ → Prop
  | none => ∀ d, ¬Stands stamp keep history d
  | some m => Stands stamp keep history m ∧ ∀ d, Stands stamp keep history d → stamp d ≤ stamp m

theorem Holds.hear (h : Holds stamp keep history held) (e : δ) :
    Holds stamp keep (history ++ [e]) (hear stamp keep held e) := by
  cases held with
  | none =>
    by_cases hkeep : keep e
    · rw [LastWriter.hear, if_pos hkeep]
      refine ⟨stands_concat_iff.2 (.inr ⟨rfl, hkeep⟩), fun d hd => ?_⟩
      rcases stands_concat_iff.1 hd with ⟨hd, _⟩ | ⟨rfl, _⟩
      · exact absurd hd (h d)
      · exact le_refl _
    · rw [LastWriter.hear, if_neg hkeep]
      intro d hd
      rcases stands_concat_iff.1 hd with ⟨hd, _⟩ | ⟨_, hkeep'⟩
      · exact h d hd
      · exact hkeep hkeep'
  | some m =>
    obtain ⟨hm, hmax⟩ := h
    rcases le_or_gt (stamp e) (stamp m) with hle | hlt
    · rw [LastWriter.hear, if_pos hle]
      refine ⟨stands_concat_iff.2 (.inl ⟨hm, hle⟩), fun d hd => ?_⟩
      rcases stands_concat_iff.1 hd with ⟨hd, _⟩ | ⟨rfl, _⟩
      · exact hmax d hd
      · exact hle
    · rw [LastWriter.hear, if_neg (not_le_of_gt hlt)]
      by_cases hkeep : keep e
      · rw [if_pos hkeep]
        refine ⟨stands_concat_iff.2 (.inr ⟨rfl, hkeep⟩), fun d hd => ?_⟩
        rcases stands_concat_iff.1 hd with ⟨hd, _⟩ | ⟨rfl, _⟩
        · exact ((hmax d hd).trans_lt hlt).le
        · exact le_refl _
      · rw [if_neg hkeep]
        intro d hd
        rcases stands_concat_iff.1 hd with ⟨hd, hle⟩ | ⟨_, hkeep'⟩
        · exact absurd (hmax d hd) (not_le_of_gt (hlt.trans_le hle))
        · exact hkeep hkeep'

theorem holds_foldl_hear (stamp : δ → τ) (keep : δ → Bool) (history : List δ) :
    Holds stamp keep history (history.foldl (hear stamp keep) none) := by
  induction history using List.reverseRecOn with
  | nil =>
    rintro d ⟨_, before, after, heq, _⟩
    exact List.append_ne_nil_of_right_ne_nil _ (List.cons_ne_nil d after) heq.symm
  | append_singleton history e ih =>
    rw [List.foldl_append, List.foldl_cons, List.foldl_nil]
    exact ih.hear e

/-- Where every decision leaves a record, the last writer wins. -/
theorem foldl_hear_of_keep (h : ∀ d ∈ history, keep d) :
    history.foldl (hear stamp keep) none = latest stamp history := by
  have hfrom : ∀ held, history.foldl (hear stamp keep) held =
      later stamp held (latest stamp history) := by
    induction history with
    | nil => intro held; rw [latest, later_none]; rfl
    | cons d history ih =>
      rw [List.forall_mem_cons] at h
      intro held
      have hstep : hear stamp keep held d = later stamp held (some d) := by
        cases held with
        | none => exact if_pos h.1
        | some e =>
          rw [hear, if_pos h.1]
          rcases le_or_gt (stamp d) (stamp e) with hle | hlt
          · rw [if_pos hle, later_eq_left hle]
          · rw [if_neg (not_le_of_gt hlt), later_eq_right hlt]
      rw [List.foldl_cons, ih h.2, hstep, later_assoc, latest]
  rw [hfrom none, none_later]

/-- The latest decision is what is held, or the erasure it asked for, exactly where it leaves a
record itself or nothing that leaves one stands. -/
theorem foldl_hear_eq_latest_iff (distinct : Distinct stamp history) :
    history.foldl (hear stamp keep) none = (latest stamp history).filter keep ↔
      (∀ d, latest stamp history = some d → keep d) ∨ ∀ d, ¬Stands stamp keep history d := by
  have held := holds_foldl_hear stamp keep history
  revert held
  generalize history.foldl (hear stamp keep) none = m
  intro held
  have stands : ∀ d, latest stamp history = some d → keep d → Stands stamp keep history d := by
    intro d hd hkeep
    obtain ⟨hmem, hmax⟩ := mem_latest hd
    obtain ⟨before, after, rfl⟩ := List.append_of_mem hmem
    exact ⟨hkeep, before, after, rfl, fun e he =>
      hmax e (List.mem_append_right _ (List.mem_cons_of_mem _ he))⟩
  cases hlatest : latest stamp history with
  | none =>
    cases m with
    | none => exact iff_of_true rfl (.inl nofun)
    | some m => exact absurd (latest_eq_none_iff.1 hlatest ▸ held.1.mem) List.not_mem_nil
  | some d =>
    rw [hlatest] at stands
    by_cases hkeep : keep d
    · refine iff_of_true ?_ (.inl fun e he => Option.some.inj he ▸ hkeep)
      have hd := stands d rfl hkeep
      cases m with
      | none => exact absurd hd (held d)
      | some m =>
        obtain ⟨hmem, hmax⟩ := mem_latest hlatest
        rw [Option.filter_some, if_pos hkeep,
          distinct held.1.mem hmem (le_antisymm (hmax m held.1.mem) (held.2 d hd))]
    · rw [Option.filter_some, if_neg hkeep]
      cases m with
      | none => exact iff_of_true rfl (.inr held)
      | some m =>
        refine iff_of_false nofun ?_
        rintro (h | h)
        · exact hkeep (h d rfl)
        · exact h m held.1

end LastWriter
