import Whispee.Preferences.Gossip

/-!
# What a device has heard

A device's preferences say what stands of the decisions it has heard (`Device.Knows`), and a snapshot
says so too (`SyncedPreferences.Tells`). Announcing, absorbing and deciding keep to that.
-/

namespace Whispee.Preferences

open LastWriter

/-! ## One device -/

/-- The scalars a history leaves: the pair of the latest decision about either. -/
def History.scalarsAt (h : History) : Nat :=
  (latest ScalarsDecision.at_ h.scalars).elim 0 ScalarsDecision.at_

def History.disclose (h : History) (start : Bool) : Bool :=
  (latest ScalarsDecision.at_ h.scalars).elim start ScalarsDecision.disclose

def History.vault (h : History) (start : Bool) : Bool :=
  (latest ScalarsDecision.at_ h.scalars).elim start ScalarsDecision.vault

/-- What a device holds in its dictionaries says what stands of the decisions it has heard, and
`start` where there are none. -/
structure Device.KnowsMaps (start : Device) (h : History) (d : Device) : Prop where
  flags : Reflects start.conversations h.flags d.conversations (d.prefStamps.flags.getD ∅)
  petnames : Reflects start.petnames h.petnames d.petnames (d.prefStamps.petnames.getD ∅)
  blocked : Reflects (blockedRecord start.blocked) h.blocked (blockedRecord d.blocked)
    (d.prefStamps.blocked.getD ∅)

/-- The vault is apart: it follows a decision only once its key is imported. -/
structure Device.Knows (start : Device) (h : History) (d : Device) : Prop
    extends Device.KnowsMaps start h d where
  scalarsAt : d.prefStamps.scalars.getD 0 = h.scalarsAt
  disclose : d.disclose = h.disclose start.disclose

structure SyncedPreferences.Tells (start : Device) (h : History) (p : SyncedPreferences Nat) :
    Prop where
  flags : Carries h.flags p.flags
  petnames : Carries h.petnames p.petnames
  blocked : Carries h.blocked p.blocked
  scalarsAt : p.scalars.at_ = h.scalarsAt
  disclose : p.scalars.disclose = h.disclose start.disclose

variable {start d : Device} {h h' : History} {p : SyncedPreferences Nat}

theorem get?_blockedRecord : (Device.blockedRecord blocked).get? key =
    if key ∈ blocked then some () else none := Dictionary.get?_ofEntries_units

/-- The array of the keys of a record of blocked accounts stands for that record. -/
theorem get?_blockedRecord_keys (held : Dictionary Unit) (key : String) :
    (Device.blockedRecord held.keys).get? key = held.get? key := by
  rw [get?_blockedRecord]
  split
  next hmem =>
    obtain ⟨⟨⟩, hget⟩ := Option.isSome_iff_exists.1 (Dictionary.mem_keys_iff.1 hmem)
    exact hget.symm
  next hnot =>
    exact (Option.not_isSome_iff_eq_none.1 (hnot ∘ Dictionary.mem_keys_iff.2)).symm

theorem Reflects.congr {start values values' : Dictionary α} {history : List (Decision Nat α)}
    (h : Reflects start history values stamps) (same : ∀ key, values'.get? key = values.get? key) :
    Reflects start history values' stamps := by
  intro key
  rw [same]
  exact h key

theorem clamp_of_le (h : at_ ≤ now) : clamp now at_ = at_ :=
  if_neg (Nat.not_lt_of_le (Nat.le_add_right_of_le h))

theorem Carries.mapStamps {history : List (Decision Nat α)} {patch : StampedPatch Nat α}
    {f : Nat → Nat} (h : Carries history patch) (fixed : ∀ d ∈ history, f d.at_ = d.at_) :
    Carries history (patch.map fun entry => { entry with at_ := f entry.at_ }) := by
  intro key
  rw [Dictionary.get?_map, h key]
  cases hd : standing history key with
  | none => rfl
  | some d => simp only [Option.map_some, fixed d (List.mem_of_mem_filter (mem_latest hd).1)]

theorem values_of_merge {values : Dictionary α} {stamps : Stamps Nat} {patch : StampedPatch Nat α} :
    (if (merge values stamps patch).changed then (merge values stamps patch).values else values) =
      (merge values stamps patch).values := by
  split
  · rfl
  next hnot => exact (values_merge_of_not_changed (Bool.not_eq_true _ ▸ hnot)).symm

namespace History

theorem mem_stamps_append : s ∈ (h ++ h').stamps ↔ s ∈ h.stamps ∨ s ∈ h'.stamps := by
  change s ∈ (History.mk _ _ _ _ _).stamps ↔ _
  simp only [stamps, List.mem_append, List.map_append]
  tauto

theorem mem_stamps_record (hs : s ∈ (Change.record i now d h c).stamps) : s ∈ h.stamps ∨ s = now := by
  cases c <;>
    simp only [Change.record, stamps, List.map_append, List.mem_append, List.map_cons,
      List.map_nil, List.mem_singleton] at hs ⊢ <;> tauto

theorem flag_mem (hd : e ∈ h.flags) : e.at_ ∈ h.stamps :=
  List.mem_append_left _ (List.mem_append_left _ (List.mem_append_left _ (List.mem_map_of_mem hd)))

theorem petname_mem (hd : e ∈ h.petnames) : e.at_ ∈ h.stamps :=
  List.mem_append_left _ (List.mem_append_left _ (List.mem_append_right _ (List.mem_map_of_mem hd)))

theorem blocked_mem (hd : e ∈ h.blocked) : e.at_ ∈ h.stamps :=
  List.mem_append_left _ (List.mem_append_right _ (List.mem_map_of_mem hd))

theorem scalars_mem (hd : e ∈ h.scalars) : e.at_ ∈ h.stamps :=
  List.mem_append_right _ (List.mem_map_of_mem hd)

theorem Within.refl (h : History) : Within h h :=
  ⟨List.Subset.refl _, List.Subset.refl _, List.Subset.refl _, List.Subset.refl _⟩

end History

/-- No two decisions about one preference carry the same stamp. -/
structure History.Distinct (h : History) : Prop where
  flags : LastWriter.Distinct Decision.at_ h.flags
  petnames : LastWriter.Distinct Decision.at_ h.petnames
  blocked : LastWriter.Distinct Decision.at_ h.blocked
  scalars : LastWriter.Distinct ScalarsDecision.at_ h.scalars

theorem History.Within.stamps (h' : History.Within h k) (hs : s ∈ h.stamps) : s ∈ k.stamps := by
  simp only [History.stamps, List.mem_append, List.mem_map, or_assoc] at hs ⊢
  exact hs.imp (fun ⟨e, he, h⟩ => ⟨e, h'.flags he, h⟩) <| .imp
    (fun ⟨e, he, h⟩ => ⟨e, h'.petnames he, h⟩) <| .imp
    (fun ⟨e, he, h⟩ => ⟨e, h'.blocked he, h⟩) fun ⟨e, he, h⟩ => ⟨e, h'.scalars he, h⟩

theorem History.Within.append (hk : History.Within h k) (hk' : History.Within h' k) :
    History.Within (h ++ h') k :=
  ⟨List.append_subset.2 ⟨hk.flags, hk'.flags⟩, List.append_subset.2 ⟨hk.petnames, hk'.petnames⟩,
    List.append_subset.2 ⟨hk.blocked, hk'.blocked⟩, List.append_subset.2 ⟨hk.scalars, hk'.scalars⟩⟩

theorem History.Within.record (hk : History.Within h k) (c : Change) :
    History.Within h (c.record i now d k) := by
  have grows : ∀ {α : Type} {l l' : List α} {e : α}, l ⊆ l' → l ⊆ l' ++ [e] := fun hsub =>
    List.Subset.trans hsub (List.subset_append_left _ _)
  cases c with
  | conversationFlags => exact { hk with flags := grows hk.flags }
  | petname => exact { hk with petnames := grows hk.petnames }
  | blocked => exact { hk with blocked := grows hk.blocked }
  | disclose | disableVault => exact { hk with scalars := grows hk.scalars }
  | signal => exact { hk with }

theorem History.Within.record_record (hk : History.Within h k) (c : Change) :
    History.Within (c.record i now d h) (c.record i now d k) := by
  have grows : ∀ {α : Type} {l l' : List α} {e : α}, l ⊆ l' → l ++ [e] ⊆ l' ++ [e] :=
    fun hsub => List.append_subset.2
      ⟨List.Subset.trans hsub (List.subset_append_left _ _), List.subset_append_right _ _⟩
  cases c with
  | conversationFlags => exact { hk with flags := grows hk.flags }
  | petname => exact { hk with petnames := grows hk.petnames }
  | blocked => exact { hk with blocked := grows hk.blocked }
  | disclose | disableVault => exact { hk with scalars := grows hk.scalars }
  | signal => exact { hk with }

theorem History.Distinct.record (h' : h.Distinct) (fresh : now ∉ h.stamps) (c : Change) :
    (c.record i now d h).Distinct := by
  have other : ∀ {s}, s ∈ h.stamps → s ≠ now := fun hs heq => fresh (heq ▸ hs)
  cases c with
  | conversationFlags =>
    exact { h' with flags := h'.flags.concat fun e he => other (History.flag_mem he) }
  | petname =>
    exact { h' with petnames := h'.petnames.concat fun e he => other (History.petname_mem he) }
  | blocked =>
    exact { h' with blocked := h'.blocked.concat fun e he => other (History.blocked_mem he) }
  | disclose | disableVault =>
    exact { h' with scalars := h'.scalars.concat fun e he => other (History.scalars_mem he) }
  | signal => exact { h' with }

theorem History.Distinct.of_within (h' : History.Distinct k) (within : h.Within k) : h.Distinct where
  flags := h'.flags.of_subset within.flags
  petnames := h'.petnames.of_subset within.petnames
  blocked := h'.blocked.of_subset within.blocked
  scalars := h'.scalars.of_subset within.scalars

theorem History.Within.trans (h₁ : History.Within h h') (h₂ : History.Within h' k) : h.Within k :=
  ⟨List.Subset.trans h₁.flags h₂.flags, List.Subset.trans h₁.petnames h₂.petnames,
    List.Subset.trans h₁.blocked h₂.blocked, List.Subset.trans h₁.scalars h₂.scalars⟩

namespace SyncedPreferences.Tells

/-- A receiver that believes the stamps reads what was announced. -/
theorem mapStamps {f : Nat → Nat} (hp : Tells start h p) (fixed : ∀ s ∈ h.stamps, f s = s)
    (zero : f 0 = 0) :
    Tells start h (p.mapStamps f) where
  flags := hp.flags.mapStamps fun _ hd => fixed _ (History.flag_mem hd)
  petnames := hp.petnames.mapStamps fun _ hd => fixed _ (History.petname_mem hd)
  blocked := hp.blocked.mapStamps fun _ hd => fixed _ (History.blocked_mem hd)
  scalarsAt := by
    change f p.scalars.at_ = h.scalarsAt
    rw [hp.scalarsAt, History.scalarsAt]
    cases hd : latest ScalarsDecision.at_ h.scalars with
    | none => exact zero
    | some s => exact fixed _ (History.scalars_mem (mem_latest hd).1)
  disclose := hp.disclose

end SyncedPreferences.Tells

/-- The stamp of a pair says which decision it is. -/
theorem History.latest_of_scalarsAt {made : History} (distinct : made.Distinct)
    (positive : ∀ s ∈ made.stamps, 0 < s) (within : h.Within made) (within' : h'.Within made)
    (same : h.scalarsAt = h'.scalarsAt) :
    latest ScalarsDecision.at_ h.scalars = latest ScalarsDecision.at_ h'.scalars := by
  have pos {e : ScalarsDecision} (he : e ∈ made.scalars) : 0 < e.at_ := positive _ (scalars_mem he)
  rw [scalarsAt, scalarsAt] at same
  cases hl : latest ScalarsDecision.at_ h.scalars with
  | none =>
    cases hl' : latest ScalarsDecision.at_ h'.scalars with
    | none => rfl
    | some e' =>
      rw [hl, hl'] at same
      exact absurd same (pos (within'.scalars (mem_latest hl').1)).ne
  | some e =>
    have he := within.scalars (mem_latest hl).1
    cases hl' : latest ScalarsDecision.at_ h'.scalars with
    | none =>
      rw [hl, hl'] at same
      exact absurd same (pos he).ne'
    | some e' =>
      rw [hl, hl'] at same
      exact congrArg some (distinct.scalars he (within'.scalars (mem_latest hl').1) same)

theorem Device.KnowsMaps.absorbMaps (hd : KnowsMaps start h d) (hp : p.Tells start h') :
    KnowsMaps start (h ++ h') (d.absorbMaps p).1 where
  flags := (hd.flags.merge hp.flags).congr fun key => congrArg (Dictionary.get? · key) values_of_merge
  petnames :=
    (hd.petnames.merge hp.petnames).congr fun key => congrArg (Dictionary.get? · key) values_of_merge
  blocked := (hd.blocked.merge hp.blocked).congr fun key => by
    change (Device.blockedRecord (if _ then _ else _)).get? key = _
    split
    · exact get?_blockedRecord_keys _ key
    next hnot => rw [values_merge_of_not_changed (Bool.not_eq_true _ ▸ hnot)]

namespace Device.Knows

theorem snapshot (hd : Knows start h d) : d.snapshot.Tells start h where
  flags := hd.flags.patchOf
  petnames := hd.petnames.patchOf
  blocked := hd.blocked.patchOf
  scalarsAt := hd.scalarsAt
  disclose := hd.disclose

theorem absorbSettings (hd : Knows start h d) (signals : SyncedSignals Nat) :
    Knows start h (d.absorbSettings signals).1 := by
  rw [Device.absorbSettings]
  split
  · exact { hd with }
  · exact hd

/-- Of two pairs the device takes the later one. A pair nobody decided about travels with the
stamp 0. -/
theorem latest_of_adopts (hd : Knows start h d) (hp : p.Tells start h')
    (positive : ∀ s ∈ h.stamps, 0 < s) (positive' : ∀ s ∈ h'.stamps, 0 < s) :
    latest ScalarsDecision.at_ (h ++ h').scalars =
      if d.newer p.scalars then latest ScalarsDecision.at_ h'.scalars
      else latest ScalarsDecision.at_ h.scalars := by
  have joined : latest ScalarsDecision.at_ (h ++ h').scalars =
      later ScalarsDecision.at_ (latest ScalarsDecision.at_ h.scalars)
        (latest ScalarsDecision.at_ h'.scalars) := latest_append _ _
  have held := hd.scalarsAt
  have announced := hp.scalarsAt
  rw [joined, Device.newer]
  rw [History.scalarsAt] at held announced
  cases hheld : latest ScalarsDecision.at_ h.scalars with
  | none =>
    rw [hheld] at held
    cases hnew : latest ScalarsDecision.at_ h'.scalars with
    | none => exact (ite_self _).symm
    | some new =>
      rw [hnew] at announced
      have newer : 0 < new.at_ := positive' _ (History.scalars_mem (mem_latest hnew).1)
      refine (if_pos ((Option.all_eq_true _ _).2 fun t ht => ?_)).symm
      rw [ht] at held
      rw [show t = 0 from held, announced]
      exact decide_eq_true newer
  | some e =>
    rw [hheld] at held
    have stamped : d.prefStamps.scalars = some e.at_ := by
      have older : 0 < e.at_ := positive _ (History.scalars_mem (mem_latest hheld).1)
      cases hstamp : d.prefStamps.scalars with
      | none =>
        rw [hstamp] at held
        exact absurd held older.ne
      | some t =>
        rw [hstamp] at held
        exact congrArg some held
    rw [stamped, announced]
    cases hnew : latest ScalarsDecision.at_ h'.scalars with
    | none => exact (if_neg fun hlt => Nat.not_lt_zero e.at_ (of_decide_eq_true hlt)).symm
    | some new =>
      rcases lt_or_ge e.at_ new.at_ with hlt | hge
      · rw [later_eq_right hlt]
        exact (if_pos (decide_eq_true hlt)).symm
      · rw [later_eq_left hge]
        exact (if_neg fun hlt => Nat.not_lt_of_le hge (of_decide_eq_true hlt)).symm

theorem absorbScalars (hd : Knows start h d) (hp : p.Tells start h')
    (positive : ∀ s ∈ h.stamps, 0 < s) (positive' : ∀ s ∈ h'.stamps, 0 < s) :
    (d.absorbScalars p.scalars).1.prefStamps.scalars.getD 0 = (h ++ h').scalarsAt ∧
      (d.absorbScalars p.scalars).1.disclose = (h ++ h').disclose start.disclose := by
  rw [History.scalarsAt, History.disclose, hd.latest_of_adopts hp positive positive',
    Device.absorbScalars]
  split
  · exact ⟨hp.scalarsAt, hp.disclose⟩
  · exact ⟨hd.scalarsAt, hd.disclose⟩

theorem absorbPreferences (hd : Knows start h d) (hp : p.Tells start h')
    (positive : ∀ s ∈ h.stamps, 0 < s) (positive' : ∀ s ∈ h'.stamps, 0 < s) :
    Knows start (h ++ h') (d.absorbPreferences p).1 := by
  obtain ⟨scalarsAt, disclose⟩ := hd.absorbScalars hp positive positive'
  have maps : KnowsMaps start h (d.absorbScalars p.scalars).1 := by
    rw [Device.absorbScalars]
    split
    · exact { hd with }
    · exact hd.toKnowsMaps
  exact { maps.absorbMaps hp with scalarsAt, disclose }

/-- A session opened from what this one has written down. -/
theorem reopen (hd : Knows start h d) : Knows start h (Device.reopen d.composeStored imported) :=
  { hd with }

/-- A session opened from a record with the same preferences. -/
theorem reopen_same {stored : Stored} (hd : Knows start h d) (same : stored.same d.composeStored) :
    Knows start h (Device.reopen stored imported) := by
  simp only [Stored.same, Bool.and_eq_true, decide_eq_true_eq] at same
  obtain ⟨⟨⟨⟨⟨⟨⟨disclose, conversations⟩, petnames⟩, blocked⟩, scalars⟩, flagsAt⟩, petnamesAt⟩,
    blockedAt⟩ := same
  exact
    { flags := by
        change Reflects _ _ stored.conversations (stored.prefStamps.flags.getD ∅)
        rw [conversations, flagsAt]
        exact hd.flags
      petnames := by
        change Reflects _ _ stored.petnames (stored.prefStamps.petnames.getD ∅)
        rw [petnames, petnamesAt]
        exact hd.petnames
      blocked := by
        change Reflects _ _ (Device.blockedRecord stored.blocked) (stored.prefStamps.blocked.getD ∅)
        rw [blocked, blockedAt]
        exact hd.blocked
      scalarsAt := (congrArg (·.getD 0) scalars).trans hd.scalarsAt
      disclose := disclose.trans hd.disclose }

end Device.Knows

/-- The pair is decided as a whole, whatever it was before. -/
theorem Device.KnowsMaps.stampScalars (hd : KnowsMaps start h d) (past : ∀ s ∈ h.stamps, s < now) :
    Knows start (Change.record i now (d.stampScalars now) h (.disclose v)) (d.stampScalars now) := by
  have last : latest ScalarsDecision.at_ (h.scalars ++ [⟨i, now, d.disclose, d.vault⟩]) =
      some ⟨i, now, d.disclose, d.vault⟩ :=
    latest_concat fun e he => past _ (History.scalars_mem he)
  exact { hd with
    scalarsAt := (congrArg (·.elim 0 ScalarsDecision.at_) last).symm
    disclose := (congrArg (·.elim start.disclose ScalarsDecision.disclose) last).symm }

/-- A decision later than all that was heard. -/
theorem Device.Knows.change (hd : Knows start h d) (past : ∀ s ∈ h.stamps, s < now) (c : Change) :
    Knows start (c.record i now (d.change now c) h) (d.change now c) := by
  cases c with
  | conversationFlags groupId flags =>
    refine { hd with flags := (hd.flags.decide fun e he _ => past _ (History.flag_mem he)).congr ?_ }
    intro key
    simp only [Preferences.decide, Device.change, Device.setConversationFlags, Device.stampFlags]
    cases Device.isEmpty flags <;> rfl
  | petname handle cleaned =>
    refine { hd with
      petnames := (hd.petnames.decide fun e he _ => past _ (History.petname_mem he)).congr ?_ }
    intro key
    cases cleaned <;> rfl
  | blocked account value =>
    refine { hd with
      blocked := (hd.blocked.decide fun e he _ => past _ (History.blocked_mem he)).congr ?_ }
    intro key
    cases value with
    | false =>
      change (Device.blockedRecord (d.blocked.filter (· ≠ account))).get? key =
        ((Device.blockedRecord d.blocked).erase account).get? key
      rw [Dictionary.get?_erase, get?_blockedRecord, get?_blockedRecord]
      rcases eq_or_ne key account with rfl | hne
      · simp
      · simp [hne]
    | true =>
      change (Device.blockedRecord (d.blocked.filter (· ≠ account) ++ [account])).get? key =
        ((Device.blockedRecord d.blocked).set account ()).get? key
      rw [Dictionary.get?_set, get?_blockedRecord, get?_blockedRecord]
      rcases eq_or_ne key account with rfl | hne
      · simp
      · simp [hne]
  | disclose value =>
    exact KnowsMaps.stampScalars (d := { d with disclose := value }) { hd with } past
  | disableVault =>
    exact KnowsMaps.stampScalars (d := { d with vault := false }) (v := false) { hd with } past
  | signal setting => exact { hd with }

end Whispee.Preferences
