import Whispee.Lib.Dictionary
import Whispee.Lib.LastWriter

/-!
# Stamped dictionaries

`apps/web/src/lib/stamped.ts`. A dictionary and its stamps hold what stands of the decisions heard
about each key (`Reflects`), and a patch carries it (`Carries`); `patchOf`, `merge` and `decide` keep
to that, so a device's values depend on the set of decisions it has heard and on nothing else.
-/

namespace Whispee.Preferences

open LastWriter

/-- When each key was last decided. A key stamped and absent from the values was removed. -/
abbrev Stamps (τ : Type v) := Dictionary τ

/-- One key of a patch; `v` is `none` for the removal `null`. -/
structure Entry (τ : Type v) (α : Type u) where
  at_ : τ
  v : Option α

abbrev StampedPatch (τ : Type v) (α : Type u) := Dictionary (Entry τ α)

structure Merged (τ : Type v) (α : Type u) where
  values : Dictionary α
  stamps : Stamps τ
  /-- A value appeared, changed or went away. -/
  changed : Bool
  /-- A stamp moved, whether or not a value did. -/
  stampsMoved : Bool

variable {α : Type u} {τ : Type v} [LinearOrder τ]

/-- One turn of the loop of `merge`. -/
def mergeEntry (stamps : Stamps τ) (next : Merged τ α) (entry : String × Entry τ α) : Merged τ α :=
  if (stamps.get? entry.1).any (entry.2.at_ ≤ ·) then next
  else match entry.2.v with
    | none =>
      { values := next.values.erase entry.1
        stamps := next.stamps.set entry.1 entry.2.at_
        changed := next.changed || next.values.has entry.1
        stampsMoved := true }
    | some v =>
      { values := next.values.set entry.1 v
        stamps := next.stamps.set entry.1 entry.2.at_
        changed := true
        stampsMoved := true }

def merge (values : Dictionary α) (stamps : Stamps τ) (patch : StampedPatch τ α) : Merged τ α :=
  patch.entries.foldl (mergeEntry stamps) ⟨values, stamps, false, false⟩

omit [LinearOrder τ] in
/-- Every key stamped, with its value or as a removal. -/
def patchOf (values : Dictionary α) (stamps : Stamps τ) : StampedPatch τ α :=
  stamps.entries.foldl (fun patch entry => patch.set entry.1 ⟨entry.2, values.get? entry.1⟩) ∅

omit [LinearOrder τ] in
/-- A local decision about one key, `none` for its removal. -/
protected def decide (values : Dictionary α) (stamps : Stamps τ) (key : String) (value : Option α)
    (at_ : τ) : Dictionary α × Stamps τ :=
  (match value with
    | none => values.erase key
    | some v => values.set key v,
   stamps.set key at_)

/-! ## Key by key -/

omit [LinearOrder τ] in
theorem get?_patchOf (values : Dictionary α) (stamps : Stamps τ) (key : String) :
    (patchOf values stamps).get? key =
      (stamps.get? key).map fun at_ => ⟨at_, values.get? key⟩ := by
  have seen := Dictionary.view_foldl (v := Dictionary.get?)
    (t := fun (patch : StampedPatch τ α) (entry : String × τ) =>
      patch.set entry.1 ⟨entry.2, values.get? entry.1⟩)
    (g := fun key _ at_ => some ⟨at_, values.get? key⟩)
    (fun patch _ _ hne => Dictionary.get?_set_of_ne patch _ hne)
    (fun patch _ => Dictionary.get?_set_self patch _ _) stamps ∅ key
  rw [patchOf, seen]
  cases stamps.get? key <;> rfl

/-- What a merge leaves about one key: the entry of the patch if it is later, else what was held. -/
theorem get?_merge (values : Dictionary α) (stamps : Stamps τ) (patch : StampedPatch τ α)
    (key : String) :
    ((merge values stamps patch).values.get? key, (merge values stamps patch).stamps.get? key) =
      (patch.get? key).elim (values.get? key, stamps.get? key) fun entry =>
        if (stamps.get? key).any (entry.at_ ≤ ·) then (values.get? key, stamps.get? key)
        else (entry.v, some entry.at_) := by
  refine Dictionary.view_foldl
    (v := fun (m : Merged τ α) key => (m.values.get? key, m.stamps.get? key))
    (t := mergeEntry stamps)
    (g := fun key held entry =>
      if (stamps.get? key).any (entry.at_ ≤ ·) then held else (entry.v, some entry.at_))
    ?_ ?_ patch ⟨values, stamps, false, false⟩ key
  · intro next entry key hne
    rw [mergeEntry]
    split
    · rfl
    · split
      · simp only [Dictionary.get?_erase, Dictionary.get?_set, if_neg hne]
      · simp only [Dictionary.get?_set, if_neg hne]
  · intro next entry
    rw [mergeEntry]
    split
    · rfl
    · split
      next hv => simp only [Dictionary.get?_erase, Dictionary.get?_set_self, if_true, hv]
      next hv => simp only [Dictionary.get?_set_self, hv]

/-- A merge that reports no change left the values alone. -/
theorem values_merge_of_not_changed {values : Dictionary α} {stamps : Stamps τ}
    {patch : StampedPatch τ α} (h : (merge values stamps patch).changed = false) :
    (merge values stamps patch).values = values := by
  refine List.foldlRecOn (motive := fun m => m.changed = false → m.values = values)
    patch.entries (mergeEntry stamps) (fun _ => rfl) ?_ h
  intro next ih entry _
  rw [mergeEntry]
  split
  · exact ih
  · split
    · intro h
      obtain ⟨unchanged, absent⟩ := Bool.or_eq_false_iff.1 h
      exact (Dictionary.erase_of_not_has absent).trans (ih unchanged)
    · exact Bool.noConfusion

/-! ## What was heard -/

/-- A decision about one key, made on whichever device. -/
structure Decision (τ : Type v) (α : Type u) where
  key : String
  at_ : τ
  value : Option α
  deriving DecidableEq

/-- The decision about a key that stands, of those of a history. -/
def standing (history : List (Decision τ α)) (key : String) : Option (Decision τ α) :=
  latest Decision.at_ (history.filter (·.key = key))

variable {history history' : List (Decision τ α)} {values values' : Dictionary α}
  {stamps stamps' : Stamps τ} {start : Dictionary α}

theorem standing_append (history history' : List (Decision τ α)) (key : String) :
    standing (history ++ history') key =
      later Decision.at_ (standing history key) (standing history' key) := by
  rw [standing, List.filter_append, latest_append]
  rfl

theorem standing_singleton (d : Decision τ α) (key : String) :
    standing [d] key = if d.key = key then some d else none := by
  rw [standing, List.filter_singleton]
  split
  next h =>
    rw [decide_eq_true h]
    rfl
  next h =>
    rw [decide_eq_false h]
    rfl

theorem standing_eq_some_iff (distinct : Distinct Decision.at_ history) :
    standing history key = some d ↔
      d ∈ history ∧ d.key = key ∧ ∀ e ∈ history, e.key = key → e.at_ ≤ d.at_ := by
  rw [standing, latest_eq_some_iff (distinct.of_subset fun d => List.mem_of_mem_filter)]
  simp only [List.mem_filter, decide_eq_true_eq, and_imp, and_assoc]

theorem standing_congr (distinct : Distinct Decision.at_ history)
    (same : ∀ d, d ∈ history ↔ d ∈ history') (key : String) :
    standing history key = standing history' key := by
  refine latest_congr (distinct.of_subset fun d => List.mem_of_mem_filter) fun d => ?_
  simp only [List.mem_filter, same]

/-- The value and the stamp that say which decision stands, and `start` where none was made. -/
def told (start : Option α) (stands : Option (Decision τ α)) : Option α × Option τ :=
  (stands.elim start Decision.value, stands.map Decision.at_)

/-- Values and stamps say what stands of a history. A key never decided keeps the value it had at
the start. -/
def Reflects (start : Dictionary α) (history : List (Decision τ α)) (values : Dictionary α)
    (stamps : Stamps τ) : Prop :=
  ∀ key, (values.get? key, stamps.get? key) = told (start.get? key) (standing history key)

/-- Every key holds the value its latest decision gave it, and a key never decided keeps the value it
had at the start. -/
structure Holds (start : Dictionary α) (made : List (Decision τ α)) (values : Dictionary α) :
    Prop where
  latest : ∀ d ∈ made, (∀ e ∈ made, e.key = d.key → e.at_ ≤ d.at_) → values.get? d.key = d.value
  untouched : ∀ key, (∀ d ∈ made, d.key ≠ key) → values.get? key = start.get? key

/-- A patch says what stands of a history. -/
def Carries (history : List (Decision τ α)) (patch : StampedPatch τ α) : Prop :=
  ∀ key, patch.get? key = (standing history key).map fun d => ⟨d.at_, d.value⟩

namespace Reflects

theorem nil : Reflects start ([] : List (Decision τ α)) start ∅ := fun _ => rfl

theorem get?_values (h : Reflects start history values stamps) (key : String) :
    values.get? key = (standing history key).elim (start.get? key) Decision.value :=
  congrArg Prod.fst (h key)

theorem get?_stamps (h : Reflects start history values stamps) (key : String) :
    stamps.get? key = (standing history key).map Decision.at_ := congrArg Prod.snd (h key)

protected theorem patchOf (h : Reflects start history values stamps) :
    Carries history (patchOf values stamps) := by
  intro key
  rw [get?_patchOf, h.get?_values, h.get?_stamps]
  cases standing history key <;> rfl

protected theorem merge (h : Reflects start history values stamps) (carries : Carries history' patch) :
    Reflects start (history ++ history') (merge values stamps patch).values
      (merge values stamps patch).stamps := by
  intro key
  rw [get?_merge, h key, h.get?_stamps, carries key, standing_append]
  rcases standing history key with _ | held
  · cases standing history' key <;> rfl
  rcases standing history' key with _ | d
  · rfl
  rcases lt_or_ge held.at_ d.at_ with hlt | hge
  · rw [later_eq_right hlt]
    exact if_neg (not_le_of_gt hlt ∘ of_decide_eq_true)
  · rw [later_eq_left hge]
    exact if_pos (decide_eq_true hge)

/-- A decision made later than all that was heard about its key. -/
protected theorem decide (h : Reflects start history values stamps)
    (later : ∀ e ∈ history, e.key = key → e.at_ < at_) :
    Reflects start (history ++ [⟨key, at_, value⟩])
      (Preferences.decide values stamps key value at_).1
      (Preferences.decide values stamps key value at_).2 := by
  intro k
  rw [standing_append, standing_singleton]
  rcases eq_or_ne k key with rfl | hne
  · have stands : LastWriter.later Decision.at_ (standing history k) (some ⟨k, at_, value⟩) =
        some ⟨k, at_, value⟩ := by
      cases hheld : standing history k with
      | none => rfl
      | some held =>
        obtain ⟨hmem, hkey⟩ := List.mem_filter.1 (mem_latest hheld).1
        exact later_eq_right (later held hmem (of_decide_eq_true hkey))
    rw [if_pos rfl, stands]
    cases value with
    | none =>
      simp only [Preferences.decide, Dictionary.get?_erase, Dictionary.get?_set_self, if_true, told,
        Option.elim_some, Option.map_some]
    | some v =>
      simp only [Preferences.decide, Dictionary.get?_set_self, told, Option.elim_some, Option.map_some]
  · rw [if_neg hne.symm, later_none, ← h k]
    cases value with
    | none => simp only [Preferences.decide, Dictionary.get?_erase, Dictionary.get?_set, if_neg hne]
    | some v => simp only [Preferences.decide, Dictionary.get?_set, if_neg hne]

/-- Two that have heard the same decisions hold the same values. -/
theorem values_eq (h : Reflects start history values stamps)
    (h' : Reflects start history' values' stamps') (distinct : Distinct Decision.at_ history)
    (same : ∀ d, d ∈ history ↔ d ∈ history') (key : String) :
    values.get? key = values'.get? key := by
  rw [h.get?_values, h'.get?_values, standing_congr distinct same]

/-- Values that reflect all the decisions made hold the latest about each key. -/
theorem holds (h : Reflects start history values stamps) (distinct : Distinct Decision.at_ made)
    (sound : history ⊆ made) (complete : made ⊆ history) : Holds start made values where
  latest d hd greatest := by
    rw [h.get?_values, (standing_eq_some_iff (distinct.of_subset sound)).2
      ⟨complete hd, rfl, fun e he => greatest e (sound he)⟩]
    rfl
  untouched key hnot := by
    have nothing : history.filter (·.key = key) = [] :=
      List.filter_eq_nil_iff.2 fun d hd => by simpa using hnot d (sound hd)
    rw [h.get?_values, standing, nothing]
    rfl

end Reflects

end Whispee.Preferences
