import Whispee.Preferences.Converge

/-!
# A device that never decided

What a device adopts was decided somewhere. The pair of scalars travels with the stamp 0 when nobody
has decided about it, and loses to any decision; the vault has to be as its pair says when it is
announced. `emitSignals` announces signalling settings without a stamp as decided at that moment: they
lose to a decision only when that was made later.
-/

namespace Whispee.Preferences

open Transition

/-- What the settings say, absent meaning enabled. -/
def SignalSettings.shared (s : SignalSettings) : Bool × Bool × Bool × Bool :=
  (s.readReceipts, s.typingIndicator, s.presence ≠ some false, s.calls ≠ some false)

def SyncedSignals.shared (s : SyncedSignals τ) : Bool × Bool × Bool × Bool :=
  (s.readReceipts, s.typingIndicator, s.presence, s.calls)

/-- Signalling settings without a stamp are announced up to a time, from which on a device decides
about its own. -/
def World.unstampedUntil (since decider : Nat) (w : World) : Action → Bool
  | .emit i => (w.devices i).signalsAt.isSome || w.clock i ≤ since
  | .decide i (.signal _) => i ≠ decider || since ≤ w.clock i
  | _ => true

/-- Once it has decided, the decider is opened again only from a record read after a decision of
its own. -/
def World.remembers (decisions : History → List α) (by_ : α → Nat) (decider : Nat) (w : World) :
    Action → Bool
  | .reopen i _ => i ≠ decider || (decisions w.made).all (by_ · ≠ decider) ||
      (decisions (w.stored i).made).any (by_ · = decider)
  | _ => true

theorem World.remembers_reopen {decisions : History → List α} {by_ : α → Nat} {w : World}
    (h : w.remembers decisions by_ decider (.reopen i imported)) (hi : i = decider) :
    (∃ e ∈ decisions w.made, by_ e = i) → ∃ e ∈ decisions (w.stored i).made, by_ e = i := by
  rintro ⟨e, he, hby⟩
  rcases Bool.or_eq_true_iff.1 h with h | h
  · rcases Bool.or_eq_true_iff.1 h with other | none
    · exact absurd hi (of_decide_eq_true other)
    · exact absurd (hby.trans hi) (of_decide_eq_true (List.all_eq_true.1 none e he))
  · obtain ⟨e, he, hby⟩ := List.any_eq_true.1 h
    exact ⟨e, he, (of_decide_eq_true hby).trans hi.symm⟩

/-- What one device decides was decided by no other. -/
theorem decided_before {by_ : α → Nat} {decisions : List α} (other : j ≠ by_ new) :
    (∃ e ∈ decisions ++ [new], by_ e = j) → ∃ e ∈ decisions, by_ e = j := by
  rintro ⟨e, he, hby⟩
  refine ⟨e, (List.mem_append.1 he).resolve_right fun last => other ?_, hby⟩
  rw [← hby, List.mem_singleton.1 last]

theorem SyncedSignals.shared_mapStamp (f : τ → σ) (s : SyncedSignals τ) :
    (s.mapStamp f).shared = s.shared := rfl

theorem SyncedSignals.at_mapStamp (f : τ → σ) (s : SyncedSignals τ) :
    (s.mapStamp f).at_ = f s.at_ := rfl

theorem shared_reopen (stored : Stored) (imported : Bool) :
    (Device.reopen stored imported).signals.shared = stored.signals.shared := by
  obtain ⟨⟨_, _, _, calls⟩, _⟩ := stored
  rcases calls with _ | _ | _ <;> rfl

theorem shared_absorbed (s : SyncedSignals τ) :
    SignalSettings.shared ⟨s.readReceipts, s.typingIndicator, some s.presence, some s.calls⟩ =
      s.shared := by
  obtain ⟨_, _, presence, calls, _⟩ := s
  cases presence <;> cases calls <;> rfl

theorem clamp_le : clamp now at_ ≤ at_ := by
  rw [clamp]
  split
  · exact Nat.le_of_lt (Nat.lt_of_le_of_lt (Nat.le_add_right _ _) ‹_›)
  · exact Nat.le_refl _

/-! ## The signalling settings -/

/-- The settings are those some device decided. -/
def History.Signalled (h : History) (shared : Bool × Bool × Bool × Bool) : Prop :=
  ∃ e ∈ h.signals, e.signals.shared = shared

/-- Settings stamped after `since` were decided, and so are those of the decider once it has. -/
structure Device.Sourced (since decider : Nat) (made : History) (i : Nat) (d : Device) : Prop where
  signals : ∀ at_ ∈ d.signalsAt, since < at_ → made.Signalled d.signals.shared
  emitting : ∀ s, .emitting s ∈ d.tasks → since < s.at_ → made.Signalled s.shared
  decided : i = decider → (∃ e ∈ made.signals, e.by_ = i) →
    (∃ at_ ∈ d.signalsAt, since ≤ at_) ∧ made.Signalled d.signals.shared

variable {since decider : Nat} {made made' : History} {d : Device}

theorem History.Signalled.grow (h : made.Signalled shared) (grows : made.signals ⊆ made'.signals) :
    made'.Signalled shared :=
  h.imp fun _ => .imp_left (grows ·)

namespace Device.Sourced

/-- A decision made on another device, or about something else. -/
theorem grow (h : Sourced since decider made i d) (grows : made.signals ⊆ made'.signals)
    (others : i = decider → (∃ e ∈ made'.signals, e.by_ = i) → ∃ e ∈ made.signals, e.by_ = i) :
    Sourced since decider made' i d where
  signals at_ hat lt := (h.signals at_ hat lt).grow grows
  emitting s hs lt := (h.emitting s hs lt).grow grows
  decided hi he := (h.decided hi (others hi he)).imp_right (·.grow grows)

theorem tasks (h : Sourced since decider made i d)
    (kept : ∀ s, .emitting s ∈ ts → .emitting s ∈ d.tasks) :
    Sourced since decider made i { d with tasks := ts } :=
  { h with emitting := fun s hs => h.emitting s (kept s hs) }

theorem emit (h : Sourced since decider made i d) (hg : d.signalsAt.isSome ∨ now ≤ since) :
    Sourced since decider made i { d with tasks := d.tasks ++ [.emitting (d.syncedSignals now)] } := by
  refine { h with emitting := fun s hs lt => ?_ }
  rcases List.mem_append.1 hs with hs | hs
  · exact h.emitting s hs lt
  · cases List.mem_singleton.1 hs
    change since < d.signalsAt.getD now at lt
    cases hat : d.signalsAt with
    | none =>
      rw [hat] at hg lt
      exact absurd lt (Nat.not_lt.2 (hg.resolve_left nofun))
    | some at_ =>
      rw [hat] at lt
      exact h.signals at_ hat lt

/-- An announcement is adopted when it is later, and then what it announces was decided. -/
theorem absorbSettings {incoming : SyncedSignals Nat} (h : Sourced since decider made i d)
    (announced : since < incoming.at_ → made.Signalled incoming.shared) :
    Sourced since decider made i (d.absorbSettings incoming).1 := by
  rw [Device.absorbSettings]
  split
  next later =>
    rw [← shared_absorbed] at announced
    refine { h with signals := fun at_ hat lt => ?_, decided := fun hi he => ?_ }
    · cases hat
      exact announced lt
    · obtain ⟨⟨at_, hat, le⟩, _⟩ := h.decided hi he
      have lt : since < incoming.at_ :=
        Nat.lt_of_le_of_lt le (of_decide_eq_true (Option.all_eq_true _ _ |>.1 later at_ hat))
      exact ⟨⟨_, rfl, Nat.le_of_lt lt⟩, announced lt⟩
  · exact h

theorem absorbScalars (h : Sourced since decider made i d) (incoming : Scalars Nat) :
    Sourced since decider made i (d.absorbScalars incoming).1 := by
  rw [Device.absorbScalars]
  split
  · refine { h with emitting := fun s hs => h.emitting s ?_ }
    change _ ∈ (if _ then _ else _) at hs
    split at hs
    · exact (List.mem_append.1 hs).resolve_right fun hs => by cases List.mem_singleton.1 hs
    · exact hs
  · exact h

theorem absorbSignals {s : SyncedSignals Nat} {preferences : Option (SyncedPreferences Nat)}
    (h : Sourced since decider made i d) (announced : since < s.at_ → made.Signalled s.shared) :
    Sourced since decider made i (d.absorbSignals s preferences).1 := by
  cases preferences with
  | none => exact h.absorbSettings announced
  | some p => exact { (h.absorbSettings announced).absorbScalars p.scalars with }

theorem reopen (h : Sourced since decider made i d) :
    Sourced since decider made i (Device.reopen d.composeStored imported) where
  signals at_ hat lt := by
    rw [shared_reopen]
    exact h.signals at_ hat lt
  emitting := nofun
  decided hi he := by
    rw [shared_reopen]
    exact h.decided hi he

end Device.Sourced

/-- A record holds what was decided by the time it was read. -/
structure Record.Sourced (since decider : Nat) (made : History) (i : Nat) (r : Record) : Prop where
  session : ∀ imported, Device.Sourced since decider r.made i (Device.reopen r.stored imported)
  made : r.made.signals ⊆ made.signals

theorem Record.Sourced.grow {r : Record} (h : r.Sourced since decider made i)
    (grows : made.signals ⊆ made'.signals) : r.Sourced since decider made' i :=
  { h with made := List.Subset.trans h.made grows }

structure World.SignalInv (since decider : Nat) (w : World) : Prop where
  devices : ∀ i, Device.Sourced since decider w.made i (w.devices i)
  posted : ∀ a ∈ w.posted, since < a.signals.at_ → w.made.Signalled a.signals.shared
  records : w.RecordsAre (Record.Sourced since decider w.made)

namespace World.SignalInv

variable {w : World} {fits : SyncedPreferences Nat → Bool}

theorem setDevice (hw : SignalInv since decider w) (hd : Device.Sourced since decider w.made i d) :
    SignalInv since decider (w.setDevice i d) where
  devices := (Function.forall_update_iff w.devices
    fun j d => Device.Sourced since decider w.made j d).2 ⟨hd, fun j _ => hw.devices j⟩
  posted := hw.posted
  records := ⟨hw.records.stored, hw.records.saving⟩

theorem learn (hw : SignalInv since decider w) (hd : Device.Sourced since decider w.made i d) :
    SignalInv since decider (w.learn i d h) :=
  have set := hw.setDevice hd
  { set with records := ⟨set.records.stored, set.records.saving⟩ }

theorem persist (hw : SignalInv since decider w) : SignalInv since decider (w.persist i) :=
  { hw with
    records := hw.records.persist ⟨fun _ => (hw.devices i).reopen, List.Subset.refl _⟩ }

/-- More is decided, by which no device is any less what it was. -/
theorem grow (hw : SignalInv since decider w) (grows : w.made.signals ⊆ made.signals)
    (devices : ∀ j, Device.Sourced since decider made j (w.devices j)) :
    SignalInv since decider { w with made := made } where
  devices := devices
  posted a ha lt := (hw.posted a ha lt).grow grows
  records := ⟨fun j => (hw.records.stored j).grow grows,
    fun j r hr => (hw.records.saving j r hr).grow grows⟩

/-- A decision about one of the preferences. -/
theorem decided (hw : SignalInv since decider w) {r : History → History}
    (same : ∀ h, (r h).signals = h.signals) (hd : Device.Sourced since decider w.made i d) :
    SignalInv since decider (w.decided i d r) := by
  have grows : w.made.signals ⊆ (r w.made).signals := fun _ he => same w.made ▸ he
  have learned : SignalInv since decider (w.learn i d (r (w.heard i))) := hw.learn hd
  refine (learned.grow grows fun j => ?_).persist
  exact (learned.devices j).grow grows fun _ he => same w.made ▸ he

theorem decide (hw : SignalInv since decider w) (hg : w.unstampedUntil since decider (.decide i c)) :
    SignalInv since decider (w.decided i ((w.devices i).change (w.clock i) c)
      (c.record i (w.clock i) ((w.devices i).change (w.clock i) c))) := by
  have sourced := hw.devices i
  cases c with
  | conversationFlags | petname | blocked | disclose | disableVault =>
    exact hw.decided (fun _ => rfl) { sourced with }
  | signal setting =>
    have grows {l : List SignalsDecision} {e} : l ⊆ l ++ [e] := List.subset_append_left _ _
    have made {l : List SignalsDecision} {e} : e ∈ l ++ [e] :=
      List.mem_append_right _ (List.mem_singleton_self _)
    refine persist (w := { w.learn i _ _ with made := _ }) ⟨?_, fun a ha lt =>
      (hw.posted a ha lt).grow grows, fun j => (hw.records.stored j).grow grows,
      fun j r hr => (hw.records.saving j r hr).grow grows⟩
    refine (Function.forall_update_iff w.devices fun j d => Device.Sourced since decider _ j d).2
      ⟨⟨fun _ _ _ => ⟨_, made, rfl⟩, fun s hs lt => (sourced.emitting s hs lt).grow grows,
        fun hi _ => ⟨⟨_, rfl, ?_⟩, _, made, rfl⟩⟩, fun j hne => ?_⟩
    · exact of_decide_eq_true ((Bool.or_eq_true_iff.1 hg).resolve_left fun hne =>
        of_decide_eq_true hne hi)
    · exact (hw.devices j).grow grows fun _ => decided_before hne

theorem step (hw : SignalInv since decider w) (hg : w.unstampedUntil since decider a)
    (hr : w.remembers History.signals SignalsDecision.by_ decider a)
    (hs : w.step fits a = some w') : SignalInv since decider w' := by
  cases a with
  | tick i now =>
    obtain ⟨_, hs⟩ := Option.ite_none_right_eq_some.1 hs
    cases hs
    exact { hw with records := ⟨hw.records.stored, hw.records.saving⟩ }
  | decide i c =>
    cases hs
    exact hw.decide hg
  | enableVault i =>
    cases hs
    refine hw.setDevice ((hw.devices i).tasks fun s hs => ?_)
    exact (List.mem_append.1 hs).resolve_right fun hs => by cases List.mem_singleton.1 hs
  | emit i =>
    cases hs
    refine hw.setDevice ((hw.devices i).emit ?_)
    exact (Bool.or_eq_true_iff.1 hg).imp_right of_decide_eq_true
  | resume i j =>
    obtain ⟨task, at_, rfl⟩ := Option.map_eq_some_iff.1 hs
    have rest := (hw.devices i).tasks fun s => List.mem_of_mem_eraseIdx (i := j)
    cases task with
    | applying => exact hw.setDevice { rest with }
    | enabling =>
      have set := (hw.devices i).tasks fun s hs =>
        (List.mem_or_eq_of_mem_set (i := j) (b := .stamping) hs).resolve_right nofun
      exact hw.setDevice { set with }
    | stamping =>
      exact hw.decided (r := (Change.record i (w.clock i) _ · (.disclose _))) (fun _ => rfl)
        { rest with }
    | emitting signals =>
      have set := hw.setDevice rest
      exact { set with
        posted := Tasks.forall_mem_concat hw.posted
          ((hw.devices i).emitting signals (List.mem_of_getElem? at_))
        records := ⟨set.records.stored, set.records.saving⟩ }
  | fail i j =>
    obtain ⟨_, _, _, rfl⟩ := World.step_fail hs
    exact hw.setDevice ((hw.devices i).tasks fun s => List.mem_of_mem_eraseIdx)
  | absorb i n =>
    obtain ⟨a, at_, rfl⟩ := Option.map_eq_some_iff.1 hs
    refine World.absorb_of (hw.learn ((hw.devices i).absorbSignals fun lt => ?_)) fun _ => persist
    rw [a.signals.at_mapStamp] at lt
    rw [a.signals.shared_mapStamp]
    exact hw.posted a (List.mem_of_getElem? at_) (Nat.lt_of_lt_of_le lt clamp_le)
  | persist i =>
    cases hs
    exact hw.persist
  | saved i j =>
    obtain ⟨r, at_, rfl⟩ := Option.map_eq_some_iff.1 hs
    exact { hw with records := hw.records.saved at_ }
  | reopen i imported =>
    cases hs
    have kept := hw.records.stored i
    have opened : Device.Sourced since decider w.made i (Device.reopen (w.stored i).stored imported) :=
      (kept.session imported).grow kept.made (World.remembers_reopen hr)
    exact { hw.setDevice opened with records := hw.records.reopen }

end World.SignalInv

/-! ## The scalars -/

/-- The stamp of the pair of scalars, 0 without one. -/
def Device.scalarsAt (d : Device) : Nat := d.prefStamps.scalars.getD 0

/-- The clamp of the receiver makes no stamp for a pair nobody decided about. -/
theorem pos_of_clamp_pos (h : 0 < clamp now at_) : 0 < at_ := Nat.lt_of_lt_of_le h clamp_le

theorem Device.scalarsAt_absorbSettings (d : Device) (incoming : SyncedSignals Nat) :
    (d.absorbSettings incoming).1.scalarsAt = d.scalarsAt := by
  rw [scalarsAt, prefStamps_absorbSettings, scalarsAt]

theorem Device.scalarsAt_absorbSignals (d : Device) (s : SyncedSignals Nat)
    (p : SyncedPreferences Nat) :
    (d.absorbSignals s (some p)).1.scalarsAt =
      if d.newer p.scalars then p.scalars.at_ else d.scalarsAt := by
  change ((d.absorbSettings s).1.absorbScalars p.scalars).1.scalarsAt = _
  rw [Device.absorbScalars, newer_absorbSettings]
  split
  · rfl
  · exact d.scalarsAt_absorbSettings s

theorem Device.disclose_absorbSignals (d : Device) (s : SyncedSignals Nat)
    (p : SyncedPreferences Nat) :
    (d.absorbSignals s (some p)).1.disclose =
      if d.newer p.scalars then p.scalars.disclose else d.disclose := by
  change ((d.absorbSettings s).1.absorbScalars p.scalars).1.disclose = _
  rw [Device.absorbScalars, newer_absorbSettings]
  split
  · rfl
  · exact d.disclose_absorbSettings s

/-- A stamp is only replaced by a later one. -/
theorem Device.scalarsAt_le_absorbSignals (d : Device) (s : SyncedSignals Nat)
    (preferences : Option (SyncedPreferences Nat)) :
    d.scalarsAt ≤ (d.absorbSignals s preferences).1.scalarsAt := by
  cases preferences with
  | none => exact Nat.le_of_eq (d.scalarsAt_absorbSettings s).symm
  | some p =>
    rw [Device.scalarsAt_absorbSignals, Device.scalarsAt]
    split
    next later =>
      cases hstamp : d.prefStamps.scalars with
      | none => exact Nat.zero_le _
      | some at_ =>
        rw [Device.newer, hstamp] at later
        exact Nat.le_of_lt (of_decide_eq_true later)
    · exact Nat.le_refl _

/-- A device with a stamp names conversations as some device decided, and the decider has a stamp
once it has decided. -/
structure Device.Discloses (decider : Nat) (made : History) (i : Nat) (d : Device) : Prop where
  sourced : 0 < d.scalarsAt → ∃ e ∈ made.scalars, e.disclose = d.disclose
  stamped : i = decider → (∃ e ∈ made.scalars, e.by_ = i) → 0 < d.scalarsAt

namespace Device.Discloses

theorem grow (h : Discloses decider made i d) (grows : made.scalars ⊆ made'.scalars)
    (others : i = decider → (∃ e ∈ made'.scalars, e.by_ = i) → ∃ e ∈ made.scalars, e.by_ = i) :
    Discloses decider made' i d where
  sourced hpos := (h.sourced hpos).imp fun _ => .imp_left (grows ·)
  stamped hi he := h.stamped hi (others hi he)

theorem absorbSignals {s : SyncedSignals Nat} {preferences : Option (SyncedPreferences Nat)}
    (h : Discloses decider made i d)
    (announced : ∀ p ∈ preferences, 0 < p.scalars.at_ →
      ∃ e ∈ made.scalars, e.disclose = p.scalars.disclose) :
    Discloses decider made i (d.absorbSignals s preferences).1 := by
  refine ⟨fun hpos => ?_, fun hi he =>
    Nat.lt_of_lt_of_le (h.stamped hi he) (d.scalarsAt_le_absorbSignals s preferences)⟩
  cases preferences with
  | none =>
    change ∃ e ∈ made.scalars, e.disclose = (d.absorbSettings s).1.disclose
    rw [d.disclose_absorbSettings]
    exact h.sourced (d.scalarsAt_absorbSettings s ▸ hpos)
  | some p =>
    rw [Device.disclose_absorbSignals]
    rw [Device.scalarsAt_absorbSignals] at hpos
    split at hpos
    · rw [if_pos ‹_›]
      exact announced p rfl hpos
    · rw [if_neg ‹_›]
      exact h.sourced hpos

end Device.Discloses

/-- A record holds a pair that was decided by the time it was read. -/
structure Record.Discloses (decider : Nat) (made : History) (i : Nat) (r : Record) : Prop where
  session : ∀ imported, Device.Discloses decider r.made i (Device.reopen r.stored imported)
  made : r.made.scalars ⊆ made.scalars

theorem Record.Discloses.grow {r : Record} (h : r.Discloses decider made i)
    (grows : made.scalars ⊆ made'.scalars) : r.Discloses decider made' i :=
  { h with made := List.Subset.trans h.made grows }

structure World.DiscloseInv (decider : Nat) (w : World) : Prop where
  devices : ∀ i, Device.Discloses decider w.made i (w.devices i)
  posted : ∀ a ∈ w.posted, ∀ p ∈ a.preferences, 0 < p.scalars.at_ →
    ∃ e ∈ w.made.scalars, e.disclose = p.scalars.disclose
  clock : ∀ i, 0 < w.clock i
  records : w.RecordsAre (Record.Discloses decider w.made)

namespace World.DiscloseInv

variable {w : World} {fits : SyncedPreferences Nat → Bool}

theorem setDevice (hw : DiscloseInv decider w) (hd : Device.Discloses decider w.made i d) :
    DiscloseInv decider (w.setDevice i d) :=
  { hw with
    devices := (Function.forall_update_iff w.devices
      fun j d => Device.Discloses decider w.made j d).2 ⟨hd, fun j _ => hw.devices j⟩
    records := ⟨hw.records.stored, hw.records.saving⟩ }

theorem learn (hw : DiscloseInv decider w) (hd : Device.Discloses decider w.made i d) :
    DiscloseInv decider (w.learn i d h) :=
  have set := hw.setDevice hd
  { set with records := ⟨set.records.stored, set.records.saving⟩ }

theorem persist (hw : DiscloseInv decider w) : DiscloseInv decider (w.persist i) :=
  { hw with
    records := hw.records.persist ⟨fun _ => { hw.devices i with }, List.Subset.refl _⟩ }

/-- More is decided, by which no device is any less what it was. -/
theorem grow (hw : DiscloseInv decider w) (grows : w.made.scalars ⊆ made.scalars)
    (devices : ∀ j, Device.Discloses decider made j (w.devices j)) :
    DiscloseInv decider { w with made := made } where
  devices := devices
  posted a ha p hp hpos := (hw.posted a ha p hp hpos).imp fun _ => .imp_left (grows ·)
  clock := hw.clock
  records := ⟨fun j => (hw.records.stored j).grow grows,
    fun j r hr => (hw.records.saving j r hr).grow grows⟩

/-- A decision about anything but the pair. -/
theorem decided (hw : DiscloseInv decider w) {r : History → History}
    (same : ∀ h, (r h).scalars = h.scalars) (hd : Device.Discloses decider w.made i d) :
    DiscloseInv decider (w.decided i d r) := by
  have grows : w.made.scalars ⊆ (r w.made).scalars := fun _ he => same w.made ▸ he
  have learned : DiscloseInv decider (w.learn i d (r (w.heard i))) := hw.learn hd
  refine (learned.grow grows fun j => ?_).persist
  exact (learned.devices j).grow grows fun _ he => same w.made ▸ he

theorem stampScalars (hw : DiscloseInv decider w) (i : Nat) (d : Device) (v : Bool) :
    DiscloseInv decider (w.decided i (d.stampScalars (w.clock i))
      (Change.record i (w.clock i) (d.stampScalars (w.clock i)) · (.disclose v))) := by
  have grows {l : List ScalarsDecision} {e} : l ⊆ l ++ [e] := List.subset_append_left _ _
  refine persist (w := { w.learn i _ _ with made := _ }) ⟨?_, fun a ha p hp hpos =>
    (hw.posted a ha p hp hpos).imp fun _ => .imp_left (grows ·), hw.clock,
    fun j => (hw.records.stored j).grow grows, fun j r hr => (hw.records.saving j r hr).grow grows⟩
  refine (Function.forall_update_iff w.devices fun j d => Device.Discloses decider _ j d).2
    ⟨⟨fun _ => ⟨_, List.mem_append_right _ (List.mem_singleton_self _), rfl⟩,
      fun _ _ => hw.clock i⟩, fun j hne => ?_⟩
  exact (hw.devices j).grow grows fun _ => decided_before hne

theorem step (hw : DiscloseInv decider w)
    (hr : w.remembers History.scalars ScalarsDecision.by_ decider a)
    (hs : w.step fits a = some w') : DiscloseInv decider w' := by
  cases a with
  | tick i now =>
    obtain ⟨le, hs⟩ := Option.ite_none_right_eq_some.1 hs
    cases hs
    exact { hw with
      clock := (Function.forall_update_iff w.clock fun _ t => 0 < t).2
        ⟨Nat.lt_of_lt_of_le (hw.clock i) le, fun j _ => hw.clock j⟩
      records := ⟨hw.records.stored, hw.records.saving⟩ }
  | decide i c =>
    cases hs
    have discloses := hw.devices i
    cases c with
    | conversationFlags | petname | blocked | signal =>
      exact hw.decided (fun _ => rfl) { discloses with }
    | disclose value => exact hw.stampScalars i { w.devices i with disclose := value } value
    | disableVault => exact hw.stampScalars i { w.devices i with vault := false } false
  | enableVault i | emit i =>
    cases hs
    exact hw.setDevice { hw.devices i with }
  | resume i j =>
    obtain ⟨task, at_, rfl⟩ := Option.map_eq_some_iff.1 hs
    have discloses := hw.devices i
    cases task with
    | applying | enabling => exact hw.setDevice { discloses with }
    | stamping =>
      exact hw.stampScalars i { w.devices i with tasks := (w.devices i).tasks.eraseIdx j } _
    | emitting signals =>
      have kept : DiscloseInv decider (w.setDevice i
          { w.devices i with tasks := (w.devices i).tasks.eraseIdx j }) :=
        hw.setDevice { discloses with }
      exact { kept with
        posted := World.forall_posted hw.posted discloses.sourced
        records := ⟨kept.records.stored, kept.records.saving⟩ }
  | fail i j =>
    obtain ⟨_, _, _, rfl⟩ := World.step_fail hs
    exact hw.setDevice { hw.devices i with }
  | absorb i n =>
    obtain ⟨a, at_, rfl⟩ := Option.map_eq_some_iff.1 hs
    refine World.absorb_of (hw.learn ((hw.devices i).absorbSignals ?_)) fun _ => persist
    intro p hp hpos
    obtain ⟨p, hmem, rfl⟩ := Option.map_eq_some_iff.1 hp
    rw [p.disclose_mapStamps]
    exact hw.posted a (List.mem_of_getElem? at_) p hmem (pos_of_clamp_pos (p.at_mapStamps _ ▸ hpos))
  | persist i =>
    cases hs
    exact hw.persist
  | saved i j =>
    obtain ⟨r, at_, rfl⟩ := Option.map_eq_some_iff.1 hs
    exact { hw with records := hw.records.saved at_ }
  | reopen i imported =>
    cases hs
    have kept := hw.records.stored i
    have opened : Device.Discloses decider w.made i
        (Device.reopen (w.stored i).stored imported) :=
      (kept.session imported).grow kept.made (World.remembers_reopen hr)
    exact { hw.setDevice opened with records := hw.records.reopen }

end World.DiscloseInv

/-- What a vault is expected to be was decided by some device, if the pair it belongs to was. -/
def History.Expects (made : History) (at_ : Nat) (expected : Bool) : Prop :=
  0 < at_ → ∃ e ∈ made.scalars, e.vault = expected

theorem History.Expects.grow (h : made.Expects at_ expected) (grows : made.scalars ⊆ made'.scalars) :
    made'.Expects at_ expected :=
  fun hpos => (h hpos).imp fun _ => .imp_left (grows ·)

/-- The vault of a device that holds a stamp is as some device decided, or about to be. -/
def Device.VaultSourced (made : History) (d : Device) : Prop :=
  ∃ expected, made.Expects d.scalarsAt expected ∧ d.VaultIs expected

theorem Device.VaultSourced.grow (h : VaultSourced made d) (grows : made.scalars ⊆ made'.scalars) :
    VaultSourced made' d :=
  h.imp fun _ => .imp_left (·.grow grows)

theorem Device.VaultSourced.absorbSignals {s : SyncedSignals Nat}
    {preferences : Option (SyncedPreferences Nat)} (h : VaultSourced made d)
    (settled : ∀ p ∈ preferences, p.scalars.vault = true ∨ .applying ∉ d.tasks ∨
      d.newer p.scalars = false)
    (hp : ∀ p ∈ preferences, made.Expects p.scalars.at_ p.scalars.vault) :
    VaultSourced made (d.absorbSignals s preferences).1 := by
  obtain ⟨expected, decided, follows⟩ := h
  cases preferences with
  | none => exact ⟨expected, d.scalarsAt_absorbSettings s ▸ decided, follows.absorbSettings s⟩
  | some p =>
    refine ⟨_, fun hpos => ?_, follows.absorbSignals (settled p rfl)⟩
    rw [Device.scalarsAt_absorbSignals] at hpos
    split at hpos
    · rw [if_pos ‹_›]
      exact hp p rfl hpos
    · rw [if_neg ‹_›]
      exact decided hpos

/-- A record read when the vault was settled has it as some device decided. -/
def Record.VaultSourced (made : History) (r : Record) : Prop :=
  r.settled → ∃ expected, made.Expects (r.stored.prefStamps.scalars.getD 0) expected ∧
    r.stored.vaultEnabled = some expected

theorem Record.VaultSourced.grow {r : Record} (h : r.VaultSourced made)
    (grows : made.scalars ⊆ made'.scalars) : r.VaultSourced made' :=
  fun settled => (h settled).imp fun _ => .imp_left (·.grow grows)

structure World.VaultSourceInv (w : World) : Prop where
  devices : ∀ i, Device.VaultSourced w.made (w.devices i)
  posted : ∀ a ∈ w.posted, ∀ p ∈ a.preferences, w.made.Expects p.scalars.at_ p.scalars.vault
  records : w.RecordsAre fun _ => Record.VaultSourced w.made

namespace World.VaultSourceInv

variable {w : World} {fits : SyncedPreferences Nat → Bool}

theorem setDevice (hv : VaultSourceInv w) (hd : Device.VaultSourced w.made d) :
    VaultSourceInv (w.setDevice i d) :=
  { hv with
    devices := (Function.forall_update_iff w.devices fun _ d => Device.VaultSourced w.made d).2
      ⟨hd, fun j _ => hv.devices j⟩
    records := ⟨hv.records.stored, hv.records.saving⟩ }

theorem learn (hv : VaultSourceInv w) (hd : Device.VaultSourced w.made d) :
    VaultSourceInv (w.learn i d h) :=
  have set := hv.setDevice hd
  { set with records := ⟨set.records.stored, set.records.saving⟩ }

theorem persist (hv : VaultSourceInv w) : VaultSourceInv (w.persist i) :=
  { hv with
    records := hv.records.persist fun settled =>
      (hv.devices i).imp fun _ ⟨decided, follows⟩ =>
        ⟨decided, congrArg some (follows.vault settled)⟩ }

theorem grow (hv : VaultSourceInv w) (grows : w.made.scalars ⊆ made.scalars) :
    VaultSourceInv { w with made := made } where
  devices j := (hv.devices j).grow grows
  posted a ha p hp := (hv.posted a ha p hp).grow grows
  records := ⟨fun j => (hv.records.stored j).grow grows,
    fun j r hr => (hv.records.saving j r hr).grow grows⟩

/-- A decision about anything but the pair. -/
theorem decided (hv : VaultSourceInv w) {r : History → History}
    (same : ∀ h, (r h).scalars = h.scalars) (hd : Device.VaultSourced w.made d) :
    VaultSourceInv (w.decided i d r) :=
  have learned : VaultSourceInv (w.learn i d (r (w.heard i))) := hv.learn hd
  (learned.grow fun _ he => same w.made ▸ he).persist

/-- The device moves on with the same pair. -/
theorem keep (hv : VaultSourceInv w) (same : d.scalarsAt = (w.devices i).scalarsAt)
    (kept : ∀ expected, (w.devices i).VaultIs expected → d.VaultIs expected) :
    VaultSourceInv (w.setDevice i d) :=
  hv.setDevice ((hv.devices i).imp fun expected => .imp (fun h => same ▸ h) (kept expected))

theorem stampScalars (hv : VaultSourceInv w) (here : .applying ∈ d.tasks → d.vault = true) :
    VaultSourceInv (w.decided i (d.stampScalars now)
      (Change.record i now (d.stampScalars now) · (.disclose v))) := by
  have grows {l : List ScalarsDecision} {e} : l ⊆ l ++ [e] := List.subset_append_left _ _
  refine persist (w := { w.learn i _ _ with made := _ }) ⟨?_, fun a ha p hp =>
    (hv.posted a ha p hp).grow grows, fun j => (hv.records.stored j).grow grows,
    fun j r hr => (hv.records.saving j r hr).grow grows⟩
  refine (Function.forall_update_iff w.devices fun _ d => Device.VaultSourced _ d).2
    ⟨⟨d.vault, fun _ => ⟨_, List.mem_append_right _ (List.mem_singleton_self _), rfl⟩,
      Device.VaultIs.stampScalars here⟩, fun j _ => (hv.devices j).grow grows⟩

theorem step (hv : VaultSourceInv w) (hsettled : w.settled a) (hs : w.step fits a = some w') :
    VaultSourceInv w' := by
  cases a with
  | tick i now =>
    obtain ⟨_, hs⟩ := Option.ite_none_right_eq_some.1 hs
    cases hs
    exact { hv with records := ⟨hv.records.stored, hv.records.saving⟩ }
  | decide i c =>
    cases hs
    cases c with
    | conversationFlags | petname | blocked | signal =>
      refine hv.decided (fun _ => rfl) ((hv.devices i).imp fun _ => .imp_right fun follows => ?_)
      exact ⟨follows.applying, follows.carriedOut⟩
    | disclose value =>
      exact hv.stampScalars (d := { w.devices i with disclose := value }) (v := value)
        (World.here_of_settled hsettled)
    | disableVault =>
      exact hv.stampScalars (d := { w.devices i with vault := false }) (v := false)
        (absurd · (of_decide_eq_true hsettled))
  | enableVault i =>
    cases hs
    exact hv.keep rfl fun _ h => h.begun (by simp)
  | emit i =>
    cases hs
    exact hv.keep (w := w) rfl fun _ h => h.begun (by simp)
  | resume i j =>
    obtain ⟨task, at_, rfl⟩ := Option.map_eq_some_iff.1 hs
    rw [settled, at_] at hsettled
    cases task with
    | applying => exact hv.keep rfl fun _ h => h.applied at_
    | enabling => exact hv.keep rfl fun _ h => h.enabled at_
    | stamping =>
      have here : .applying ∈ (w.devices i).tasks → (w.devices i).vault = true :=
        World.here_of_settled hsettled
      exact hv.stampScalars fun pending => here (List.mem_of_mem_eraseIdx pending)
    | emitting signals =>
      have kept : VaultSourceInv (w.setDevice i
          { w.devices i with tasks := (w.devices i).tasks.eraseIdx j }) :=
        hv.keep rfl fun _ h => h.ended at_ (by simp) (by simp)
      obtain ⟨expected, decided, follows⟩ := hv.devices i
      refine { kept with
        posted := World.forall_posted hv.posted fun hpos => ?_
        records := ⟨kept.records.stored, kept.records.saving⟩ }
      obtain ⟨e, he, heq⟩ := decided hpos
      exact ⟨e, he, heq.trans (follows.vault hsettled).symm⟩
  | fail i j =>
    obtain ⟨task, at_, stamping, rfl⟩ := World.step_fail hs
    exact hv.keep rfl fun _ h => h.fail at_ stamping hsettled
  | absorb i n =>
    obtain ⟨a, at_, rfl⟩ := Option.map_eq_some_iff.1 hs
    refine World.absorb_of (hv.learn ((hv.devices i).absorbSignals ?_ ?_)) fun _ => persist
    · intro p hp
      obtain ⟨p, hmem, rfl⟩ := Option.map_eq_some_iff.1 hp
      exact World.settled_absorb hsettled at_ p hmem
    · intro p hp hpos
      obtain ⟨p, hmem, rfl⟩ := Option.map_eq_some_iff.1 hp
      rw [p.vault_mapStamps]
      exact hv.posted a (List.mem_of_getElem? at_) p hmem
        (pos_of_clamp_pos (p.at_mapStamps _ ▸ hpos))
  | persist i =>
    cases hs
    exact hv.persist
  | saved i j =>
    obtain ⟨r, at_, rfl⟩ := Option.map_eq_some_iff.1 hs
    exact { hv with records := hv.records.saved at_ }
  | reopen i imported =>
    cases hs
    obtain ⟨settled, key⟩ := World.settled_reopen hsettled
    obtain ⟨expected, decided, flag⟩ := hv.records.stored i settled
    have opened : Device.VaultSourced w.made (Device.reopen (w.stored i).stored imported) :=
      ⟨expected, decided, .reopen flag key⟩
    exact { hv.setDevice (i := i) opened with records := hv.records.reopen }

end World.VaultSourceInv

namespace World.Initial

variable {w : World}

theorem no_saving {P : Nat → Record → Prop} (h : w.Initial) : ∀ i, ∀ r ∈ w.saving i, P i r := by
  intro i r hr
  rw [h.saving] at hr
  cases hr

theorem signalInv (h : w.Initial) : SignalInv since decider w := by
  have devices (i : Nat) : Device.Sourced since decider w.made i (w.devices i) :=
    { signals := fun at_ hat => by rw [(h.undecided i).signalsAt] at hat; cases hat
      emitting := fun s hs => by rw [(h.undecided i).tasks] at hs; cases hs
      decided := fun _ ⟨e, he, _⟩ => by rw [h.made] at he; cases he }
  refine ⟨devices, fun a ha => ?_, fun i => ?_, h.no_saving⟩
  · rw [h.posted] at ha
    cases ha
  · rw [h.stored]
    exact ⟨fun _ => (devices i).reopen, List.Subset.refl _⟩

theorem scalarsAt (h : w.Initial) (i : Nat) : (w.devices i).scalarsAt = 0 := by
  rw [Device.scalarsAt, (h.undecided i).prefStamps]
  rfl

theorem discloseInv (h : w.Initial) : DiscloseInv decider w := by
  have devices (i : Nat) : Device.Discloses decider w.made i (w.devices i) :=
    { sourced := fun hpos => absurd (h.scalarsAt i) (Nat.ne_of_gt hpos)
      stamped := fun _ ⟨e, he, _⟩ => by rw [h.made] at he; cases he }
  refine ⟨devices, fun a ha => ?_, h.clock, fun i => ?_, h.no_saving⟩
  · rw [h.posted] at ha
    cases ha
  · rw [h.stored]
    exact ⟨fun _ => { devices i with }, List.Subset.refl _⟩

theorem vaultSourceInv (h : w.Initial) : VaultSourceInv w := by
  have decided (i : Nat) : w.made.Expects (w.devices i).scalarsAt (w.devices i).vault :=
    fun hpos => absurd (h.scalarsAt i) (Nat.ne_of_gt hpos)
  refine ⟨fun i => ⟨(w.devices i).vault, decided i, ?_⟩, fun a ha => ?_, fun i => ?_, h.no_saving⟩
  · refine ⟨fun pending => ?_, fun _ _ => rfl⟩
    rw [(h.undecided i).tasks] at pending
    cases pending
  · rw [h.posted] at ha
    cases ha
  · rw [h.stored]
    exact fun _ => ⟨(w.devices i).vault, decided i, rfl⟩

end World.Initial

/-- Decided about on one device and never on the other. -/
def OnlyOn (by_ : α → Nat) (made : List α) (A B : Nat) : Prop :=
  (∃ e ∈ made, by_ e = A) ∧ ∀ e ∈ made, by_ e ≠ B

instance (by_ : α → Nat) (made : List α) (A B : Nat) : Decidable (OnlyOn by_ made A B) :=
  inferInstanceAs (Decidable ((∃ e ∈ made, by_ e = A) ∧ ∀ e ∈ made, by_ e ≠ B))

/-- A device that has decided holds what was decided, on itself or on a device other than the one
that never did, unless it is opened again from a record read before its decisions: of the signalling
settings where every announcement of theirs without a stamp came before its decision, and of the
vault where no switch was overtaken. -/
theorem undecided_never_overrides {fits : SyncedPreferences Nat → Bool} {w₀ w : World}
    (initial : w₀.Initial) (A B : Nat) :
    (∀ since, Reach (World.step fits) (fun w a => w.unstampedUntil since A a &&
        w.remembers History.signals SignalsDecision.by_ A a) w₀ w →
      OnlyOn SignalsDecision.by_ w.made.signals A B →
        ∃ e ∈ w.made.signals, e.by_ ≠ B ∧ e.signals.shared = (w.devices A).signals.shared) ∧
      (Reach (World.step fits) (fun w a => w.remembers History.scalars ScalarsDecision.by_ A a) w₀ w →
        OnlyOn ScalarsDecision.by_ w.made.scalars A B →
          ∃ e ∈ w.made.scalars, e.by_ ≠ B ∧ e.disclose = (w.devices A).disclose) ∧
      (Reach (World.step fits) (fun w a => w.settled a &&
          w.remembers History.scalars ScalarsDecision.by_ A a) w₀ w → (w.devices A).vaultSettled →
        OnlyOn ScalarsDecision.by_ w.made.scalars A B →
          ∃ e ∈ w.made.scalars, e.by_ ≠ B ∧ e.vault = (w.devices A).vault) := by
  refine ⟨fun since run ⟨onA, notB⟩ => ?_, fun run ⟨onA, notB⟩ => ?_,
    fun run settled ⟨onA, notB⟩ => ?_⟩
  · have inv : World.SignalInv since A w := run.invariant initial.signalInv fun hw hg hs =>
      have ⟨unstamped, remembered⟩ := Bool.and_eq_true_iff.1 hg
      hw.step unstamped remembered hs
    obtain ⟨_, e, he, hshared⟩ := (inv.devices A).decided rfl onA
    exact ⟨e, he, notB e he, hshared⟩
  · have inv : World.DiscloseInv A w :=
      run.invariant initial.discloseInv fun hw hg hs => hw.step hg hs
    obtain ⟨e, he, hdisclose⟩ := (inv.devices A).sourced ((inv.devices A).stamped rfl onA)
    exact ⟨e, he, notB e he, hdisclose⟩
  · have stamps : World.DiscloseInv A w := run.invariant initial.discloseInv fun hw hg hs =>
      hw.step (Bool.and_eq_true_iff.1 hg).2 hs
    have inv : World.VaultSourceInv w := run.invariant initial.vaultSourceInv fun hw hg hs =>
      hw.step (Bool.and_eq_true_iff.1 hg).1 hs
    obtain ⟨expected, decided, follows⟩ := inv.devices A
    obtain ⟨e, he, hvault⟩ := decided ((stamps.devices A).stamped rfl onA)
    exact ⟨e, he, notB e he, hvault.trans (follows.vault settled).symm⟩

/-! ## Three devices, one of which archives nothing to begin with -/

def defaultDevices : World := newDevices fun i => { fresh with vault := i ≠ 1 }

theorem defaultDevices_initial : defaultDevices.Initial :=
  newDevices_initial fun _ => ⟨rfl, rfl, rfl⟩

/-- The device that never decides announces its defaults before the other decides; that one is
closed and opened once its decisions are written down. -/
def announcedBefore : List Action :=
  [.tick 1 5, .emit 1, .resume 1 0, .tick 0 10, .decide 0 (.signal (.readReceipts false)),
    .decide 0 (.disclose true), .saved 0 1, .reopen 0 true, .absorb 0 0]

theorem undecided_never_overrides_announcedBefore : ∃ w,
    Reach (World.step fun _ => true) (fun w a => w.unstampedUntil 8 0 a && w.settled a &&
        (w.remembers History.signals SignalsDecision.by_ 0 a &&
          w.remembers History.scalars ScalarsDecision.by_ 0 a)) defaultDevices w ∧
    (∃ e ∈ w.made.signals, e.by_ ≠ 1 ∧ e.signals.shared = (w.devices 0).signals.shared) ∧
    (∃ e ∈ w.made.scalars, e.by_ ≠ 1 ∧ e.disclose = (w.devices 0).disclose) ∧
    ∃ e ∈ w.made.scalars, e.by_ ≠ 1 ∧ e.vault = (w.devices 0).vault := by
  have executed : ∃ w, run (fun w a => if w.unstampedUntil 8 0 a && w.settled a &&
          (w.remembers History.signals SignalsDecision.by_ 0 a &&
            w.remembers History.scalars ScalarsDecision.by_ 0 a) then
        w.step (fun _ => true) a else none) defaultDevices announcedBefore = some w ∧
      OnlyOn SignalsDecision.by_ w.made.signals 0 1 ∧
      OnlyOn ScalarsDecision.by_ w.made.scalars 0 1 ∧
      (w.devices 0).vaultSettled := ⟨_, rfl, by decide, by decide, rfl⟩
  obtain ⟨w, h, signals, scalars, settled⟩ := executed
  have reached : Reach (World.step fun _ => true) (fun w a => w.unstampedUntil 8 0 a &&
      w.settled a && (w.remembers History.signals SignalsDecision.by_ 0 a &&
        w.remembers History.scalars ScalarsDecision.by_ 0 a)) defaultDevices w :=
    reach_of_run_guarded h
  obtain ⟨signalled, disclosed, vault⟩ :=
    @undecided_never_overrides (fun _ => true) defaultDevices w defaultDevices_initial 0 1
  refine ⟨w, reached, signalled 8 (reached.mono fun w a hg => ?_) signals,
    disclosed (reached.mono fun w a hg => ?_) scalars,
    vault (reached.mono fun w a hg => ?_) settled scalars⟩ <;>
  · simp only [Bool.and_eq_true] at hg ⊢
    tauto

/-- The defaults are announced after the decision, with the later time of the announcement. -/
def announcedAfter : List Action :=
  [.tick 0 10, .decide 0 (.signal (.readReceipts false)), .tick 1 20, .emit 1, .resume 1 0,
    .tick 0 20, .absorb 0 0]

/-- The vault is announced with the stamp of a pair that was adopted and is not carried out yet. -/
def announcedMeanwhile : List Action :=
  [.tick 0 10, .decide 0 (.disclose true), .tick 2 20, .decide 2 (.disclose true), .emit 2,
    .resume 2 0, .tick 1 20, .absorb 1 0, .emit 1, .resume 1 1, .tick 0 20, .absorb 0 1]

/-- The pair is carried out, but the record of it was read before that; the session opened from it
announces the vault as off. -/
def announcedFromRecord : List Action :=
  [.tick 0 10, .decide 0 (.disclose true), .tick 2 20, .decide 2 (.disclose true), .emit 2,
    .resume 2 0, .tick 1 20, .absorb 1 0, .resume 1 0, .saved 1 0, .reopen 1 true, .emit 1,
    .resume 1 0, .tick 0 20, .absorb 0 1]

/-- Read receipts come back on and the vault goes off, on the device that decided, as the one that
never did has them by default. -/
theorem undecided_overrides : defaultDevices.Initial ∧
    (∃ w, run (World.step fun _ => true) defaultDevices announcedAfter = some w ∧
      OnlyOn SignalsDecision.by_ w.made.signals 0 1 ∧
      (∀ e ∈ w.made.signals, e.signals.readReceipts = false) ∧
      (w.devices 0).signals.readReceipts = true) ∧
    ∀ actions ∈ [announcedMeanwhile, announcedFromRecord],
      ∃ w, run (World.step fun _ => true) defaultDevices actions = some w ∧
        OnlyOn ScalarsDecision.by_ w.made.scalars 0 1 ∧ (∀ e ∈ w.made.scalars, e.vault = true) ∧
        (w.devices 0).vaultSettled ∧ (w.devices 0).vault = false := by
  refine ⟨defaultDevices_initial, ⟨_, rfl, ?_, ?_, rfl⟩, fun actions hmem => ?_⟩
  · decide
  · decide
  · rcases List.mem_cons.1 hmem with rfl | hmem
    · exact ⟨_, rfl, by decide, by decide, rfl, rfl⟩
    · cases List.mem_singleton.1 hmem
      exact ⟨_, rfl, by decide, by decide, rfl, rfl⟩

end Whispee.Preferences
