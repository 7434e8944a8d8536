import Whispee.Preferences.Heard
import Whispee.Preferences.VaultSwitch

/-!
# Preferences converge

Devices that have heard every decision hold the same preferences, whatever the order in which they
heard them and however often. The two scalars share one stamp, so that a decision about one of them
is a decision about the pair; the vault follows the pair once its key is there.
-/

namespace Whispee.Preferences

open Transition LastWriter

variable {start d : Device} {h h' : History} {p : SyncedPreferences Nat}

/-! ## All of them -/

namespace World

/-- Stamps are distinct, and none is ahead of the clock of a device it reaches. -/
def inTime (w : World) : Action → Bool
  | .decide _ (.signal _) => true
  | .decide i _ => w.clock i ∉ w.made.stamps
  | .resume i j =>
    match (w.devices i).tasks[j]? with
    | some .stamping => w.clock i ∉ w.made.stamps
    | _ => true
  | .absorb i n => w.posted[n]?.all fun a => a.heard.stamps.all (· ≤ w.clock i)
  | _ => true

/-- What holds of every device and what it has heard still does once one of them learns more. -/
theorem forall_learn {w : World} {P : History → Device → Prop} (at_ : P h d)
    (other : ∀ j, P (w.heard j) (w.devices j)) (j : Nat) :
    P ((w.learn i d h).heard j) ((w.learn i d h).devices j) := by
  simp only [learn, setDevice]
  rcases eq_or_ne j i with rfl | hne
  · rwa [Function.update_self, Function.update_self]
  · rw [Function.update_of_ne hne, Function.update_of_ne hne]
    exact other j

end World

/-- A record keeps what the device had heard when it was read. -/
structure Record.Keeps (start : Device) (clock : Nat) (made : History) (r : Record) : Prop where
  knows : ∀ imported, Device.Knows start r.heard (Device.reopen r.stored imported)
  past : ∀ s ∈ r.heard.stamps, s ≤ clock
  heard : r.heard.Within made

namespace Record.Keeps

variable {r : Record} {made : History}

theorem record (kept : r.Keeps start clock made) (c : Change) :
    r.Keeps start clock (c.record i now d made) :=
  { kept with heard := kept.heard.record c }

theorem later (kept : r.Keeps start clock made) (le : clock ≤ clock') : r.Keeps start clock' made :=
  { kept with past := fun s hs => (kept.past s hs).trans le }

end Record.Keeps

structure World.Inv (start : Device) (w : World) : Prop where
  knows : ∀ i, Device.Knows start (w.heard i) (w.devices i)
  tells : ∀ a ∈ w.posted, ∀ p ∈ a.preferences, p.Tells start a.heard
  clock : ∀ i, 0 < w.clock i
  past : ∀ i, ∀ s ∈ (w.heard i).stamps, s ≤ w.clock i
  positive : ∀ s ∈ w.made.stamps, 0 < s
  heard : ∀ i, (w.heard i).Within w.made
  sent : ∀ a ∈ w.posted, a.heard.Within w.made
  distinct : w.made.Distinct
  records : w.RecordsAre fun i r => r.Keeps start (w.clock i) w.made

namespace World.Inv

variable {w : World} {fits : SyncedPreferences Nat → Bool}

/-- A device does something that changes none of the preferences it shares. -/
theorem setDevice (hw : Inv start w) (hd : Device.Knows start (w.heard i) d) :
    Inv start (w.setDevice i d) :=
  { hw with
    knows := (Function.forall_update_iff w.devices fun j d => Device.Knows start (w.heard j) d).2
      ⟨hd, fun j _ => hw.knows j⟩
    records := ⟨hw.records.stored, hw.records.saving⟩ }

theorem learn (hw : Inv start w) (hd : Device.Knows start h d) (past : ∀ s ∈ h.stamps, s ≤ w.clock i)
    (within : h.Within w.made) : Inv start (w.learn i d h) where
  knows := World.forall_learn hd hw.knows
  tells := hw.tells
  clock := hw.clock
  past j := by
    change ∀ s ∈ (Function.update w.heard i h j).stamps, s ≤ w.clock j
    rcases eq_or_ne j i with rfl | hne
    · rwa [Function.update_self]
    · rw [Function.update_of_ne hne]
      exact hw.past j
  positive := hw.positive
  heard := World.forall_learn (P := fun h _ => h.Within w.made) within hw.heard
  sent := hw.sent
  distinct := hw.distinct
  records := ⟨hw.records.stored, hw.records.saving⟩

theorem persist (hw : Inv start w) : Inv start (w.persist i) :=
  { hw with
    records := hw.records.persist
      { knows := fun _ => (hw.knows i).reopen, past := hw.past i, heard := hw.heard i } }

theorem saved (hw : Inv start w) (at_ : (w.saving i)[j]? = some r) : Inv start (w.saved i j r) :=
  { hw with records := hw.records.saved at_ }

/-- A device makes a decision with a stamp nobody has used. -/
theorem decided (hw : Inv start w) (c : Change) (fresh : w.clock i ∉ w.made.stamps)
    (hd : Device.Knows start (c.record i (w.clock i) e (w.heard i)) d) :
    Inv start (w.decided i d (c.record i (w.clock i) e)) := by
  refine persist (w := { w.learn i d _ with made := c.record i (w.clock i) e w.made }) ?_
  exact
    { knows := World.forall_learn hd hw.knows
      tells := hw.tells
      clock := hw.clock
      past := fun j => by
        change ∀ s ∈ (Function.update w.heard i _ j).stamps, s ≤ w.clock j
        rcases eq_or_ne j i with rfl | hne
        · rw [Function.update_self]
          exact fun s hs => (History.mem_stamps_record hs).elim (hw.past j s) Nat.le_of_eq
        · rw [Function.update_of_ne hne]
          exact hw.past j
      positive := fun s hs =>
        (History.mem_stamps_record hs).elim (hw.positive s) fun heq => heq ▸ hw.clock i
      heard := World.forall_learn (d := d)
        (P := fun h _ => h.Within (c.record i (w.clock i) e w.made))
        ((hw.heard i).record_record c) fun j => (hw.heard j).record c
      sent := fun a ha => (hw.sent a ha).record c
      distinct := hw.distinct.record fresh c
      records := ⟨fun j => (hw.records.stored j).record c,
        fun j r hr => (hw.records.saving j r hr).record c⟩ }

/-- The signalling settings have a stamp of their own. -/
theorem decidedSignal (hw : Inv start w) (hd : Device.Knows start (w.heard i) d) :
    Inv start (w.decided i d (Change.record i now e · (.signal setting))) := by
  have learned : Inv start (w.learn i d (Change.record i now e (w.heard i) (.signal setting))) :=
    hw.learn { hd with } (hw.past i) { hw.heard i with }
  exact persist
    { learned with
      heard := fun j => { learned.heard j with }
      sent := fun a ha => { hw.sent a ha with }
      distinct := { hw.distinct with }
      records := ⟨fun j => (hw.records.stored j).record (.signal setting),
        fun j r hr => (hw.records.saving j r hr).record (.signal setting)⟩ }

/-- Everything a device has heard came before its clock and before a stamp nobody has used. -/
theorem past_of_fresh (hw : Inv start w) (fresh : w.clock i ∉ w.made.stamps) :
    ∀ s ∈ (w.heard i).stamps, s < w.clock i := fun s hs =>
  Nat.lt_of_le_of_ne (hw.past i s hs) fun heq => fresh (heq ▸ (hw.heard i).stamps hs)

theorem post (hw : Inv start w) (hd : Device.Knows start (w.heard i) d) :
    Inv start { w with
      posted := w.posted ++ [⟨signals, d.syncedPreferences fits, w.heard i⟩] } :=
  { hw with
    tells := World.forall_posted hw.tells hd.snapshot
    sent := Tasks.forall_mem_concat hw.sent (hw.heard i)
    records := ⟨hw.records.stored, hw.records.saving⟩ }

theorem absorb (hw : Inv start w) (ha : a ∈ w.posted) (past : ∀ s ∈ a.heard.stamps, s ≤ w.clock i) :
    Inv start (w.absorb i a) := by
  have positive : ∀ {h : History}, h.Within w.made → ∀ s ∈ h.stamps, 0 < s :=
    fun within s hs => hw.positive s (within.stamps hs)
  refine World.absorb_of ?_ fun _ => persist
  obtain ⟨signals, _ | p, heard⟩ := a
  · exact hw.learn ((hw.knows i).absorbSettings _) (hw.past i) (hw.heard i)
  · have tells := (hw.tells _ ha p rfl).mapStamps (f := clamp (w.clock i))
      (fun s hs => clamp_of_le (past s hs)) (clamp_of_le (Nat.zero_le _))
    refine hw.learn (((hw.knows i).absorbSettings _).absorbPreferences tells
      (positive (hw.heard i)) (positive (hw.sent _ ha))) ?_ ((hw.heard i).append (hw.sent _ ha))
    exact fun s hs => (History.mem_stamps_append.1 hs).elim (hw.past i s) (past s)

/-- The session that is opened knows what the record says, or all that was known where the record
holds the same. -/
theorem reopen (hw : Inv start w) : Inv start (w.reopen i imported) := by
  have kept := hw.records.stored i
  have learned : Inv start (w.learn i (Device.reopen (w.stored i).stored imported)
      (if (w.stored i).stored.same (w.devices i).composeStored then w.heard i
        else (w.stored i).heard)) := by
    split
    next same => exact hw.learn ((hw.knows i).reopen_same same) (hw.past i) (hw.heard i)
    · exact hw.learn (kept.knows imported) kept.past kept.heard
  exact { learned with records := hw.records.reopen }

theorem step (hw : Inv start w) (hg : w.inTime a) (hs : w.step fits a = some w') : Inv start w' := by
  cases a with
  | tick i now =>
    obtain ⟨le, hs⟩ := Option.ite_none_right_eq_some.1 hs
    cases hs
    have later : ∀ j, w.clock j ≤ Function.update w.clock i now j := fun j => by
      rcases eq_or_ne j i with rfl | hne
      · rwa [Function.update_self]
      · rw [Function.update_of_ne hne]
    exact { hw with
      clock := fun j => Nat.lt_of_lt_of_le (hw.clock j) (later j)
      past := fun j s hs => (hw.past j s hs).trans (later j)
      records := ⟨fun j => (hw.records.stored j).later (later j),
        fun j r hr => (hw.records.saving j r hr).later (later j)⟩ }
  | decide i change =>
    cases hs
    cases change with
    | signal setting => exact hw.decidedSignal { hw.knows i with }
    | conversationFlags | petname | blocked | disclose | disableVault =>
      have fresh : w.clock i ∉ w.made.stamps := of_decide_eq_true hg
      exact hw.decided _ fresh ((hw.knows i).change (hw.past_of_fresh fresh) _)
  | enableVault i =>
    cases hs
    exact hw.setDevice { hw.knows i with }
  | emit i =>
    cases hs
    exact hw.setDevice { hw.knows i with }
  | resume i j =>
    obtain ⟨task, at_, rfl⟩ := Option.map_eq_some_iff.1 hs
    cases task with
    | applying => exact hw.setDevice { hw.knows i with }
    | enabling => exact hw.setDevice { hw.knows i with }
    | stamping =>
      have fresh : w.clock i ∉ w.made.stamps := by
        rw [inTime, at_] at hg
        exact of_decide_eq_true hg
      exact hw.decided (.disclose _) fresh
        (Device.KnowsMaps.stampScalars { hw.knows i with } (hw.past_of_fresh fresh))
    | emitting signals =>
      have knows : Device.Knows start (w.heard i)
          { w.devices i with tasks := (w.devices i).tasks.eraseIdx j } := { hw.knows i with }
      exact (hw.setDevice knows).post knows
  | fail i j =>
    obtain ⟨_, _, _, rfl⟩ := World.step_fail hs
    exact hw.setDevice { hw.knows i with }
  | absorb i n =>
    obtain ⟨a, at_, rfl⟩ := Option.map_eq_some_iff.1 hs
    rw [inTime, at_] at hg
    exact hw.absorb (List.mem_of_getElem? at_) fun s hs =>
      of_decide_eq_true (List.all_eq_true.1 hg s hs)
  | persist i =>
    cases hs
    exact hw.persist
  | saved i j =>
    obtain ⟨r, at_, rfl⟩ := Option.map_eq_some_iff.1 hs
    exact hw.saved at_
  | reopen i imported =>
    cases hs
    exact hw.reopen

end World.Inv

/-! ## The vault -/

/-- The vault of every device follows the pair it has heard last, and so do the announcements and
the records that were read when it was settled. -/
structure World.VaultInv (start : Device) (w : World) : Prop where
  follows : ∀ i, Device.VaultIs ((w.heard i).vault start.vault) (w.devices i)
  announced : ∀ a ∈ w.posted, ∀ p ∈ a.preferences, p.scalars.vault = a.heard.vault start.vault
  records : w.RecordsAre fun _ r =>
    r.settled → r.stored.vaultEnabled = some (r.heard.vault start.vault)

namespace World.VaultInv

variable {w : World} {fits : SyncedPreferences Nat → Bool}

theorem setDevice (hv : VaultInv start w) (hd : Device.VaultIs ((w.heard i).vault start.vault) d) :
    VaultInv start (w.setDevice i d) :=
  { hv with
    follows := (Function.forall_update_iff w.devices
      fun j d => Device.VaultIs ((w.heard j).vault start.vault) d).2 ⟨hd, fun j _ => hv.follows j⟩
    records := ⟨hv.records.stored, hv.records.saving⟩ }

theorem learn (hv : VaultInv start w) (hd : Device.VaultIs (h.vault start.vault) d) :
    VaultInv start (w.learn i d h) :=
  { hv with
    follows := World.forall_learn (P := fun h d => Device.VaultIs (h.vault start.vault) d) hd
      hv.follows
    records := ⟨hv.records.stored, hv.records.saving⟩ }

theorem persist (hv : VaultInv start w) : VaultInv start (w.persist i) :=
  { hv with
    records := hv.records.persist fun settled => congrArg some ((hv.follows i).vault settled) }

theorem decided (hv : VaultInv start w) (c : Change)
    (hd : Device.VaultIs ((c.record i now e (w.heard i)).vault start.vault) d) :
    VaultInv start (w.decided i d (c.record i now e)) :=
  have learned := hv.learn hd
  persist
    { learned with
      announced := hv.announced
      records := ⟨hv.records.stored, hv.records.saving⟩ }

/-- What a device decides about the pair, where no key is missing for it. -/
theorem stamped (past : ∀ s ∈ h.stamps, s < now) (here : .applying ∈ d.tasks → d.vault = true) :
    Device.VaultIs
      ((Change.record i now (d.stampScalars now) h (.disclose v)).vault start.vault)
      (d.stampScalars now) := by
  have last : latest ScalarsDecision.at_ (h.scalars ++ [⟨i, now, d.disclose, d.vault⟩]) =
      some ⟨i, now, d.disclose, d.vault⟩ :=
    latest_concat fun e he => past _ (History.scalars_mem he)
  have vault : (Change.record i now (d.stampScalars now) h (.disclose v)).vault start.vault = d.vault :=
    congrArg (·.elim start.vault ScalarsDecision.vault) last
  rw [vault]
  exact Device.VaultIs.stampScalars here

theorem absorb (hv : VaultInv start w) (hw : Inv start w) (ha : a ∈ w.posted)
    (past : ∀ s ∈ a.heard.stamps, s ≤ w.clock i)
    (settled : ∀ p ∈ a.preferences, p.scalars.vault = true ∨ .applying ∉ (w.devices i).tasks ∨
      (w.devices i).newer (p.mapStamps (clamp (w.clock i))).scalars = false) :
    VaultInv start (w.absorb i a) := by
  refine World.absorb_of ?_ fun _ => persist
  obtain ⟨signals, _ | p, heard⟩ := a
  · exact hv.learn ((hv.follows i).absorbSettings _)
  · have tells := (hw.tells _ ha p rfl).mapStamps (f := clamp (w.clock i))
      (fun s hs => clamp_of_le (past s hs)) (clamp_of_le (Nat.zero_le _))
    have joined := (hw.knows i).latest_of_adopts tells
      (fun s hs => hw.positive s ((hw.heard i).stamps hs))
      (fun s hs => hw.positive s ((hw.sent _ ha).stamps hs))
    have vault : (w.heard i ++ heard).vault start.vault =
        if (w.devices i).newer (p.mapStamps (clamp (w.clock i))).scalars
        then (p.mapStamps (clamp (w.clock i))).scalars.vault
        else (w.heard i).vault start.vault := by
      rw [History.vault, joined, p.vault_mapStamps, hv.announced _ ha p rfl]
      split <;> rfl
    refine hv.learn (h := w.heard i ++ heard) ?_
    rw [vault]
    exact (hv.follows i).absorbSignals (settled p rfl)

/-- The record of a settled vault says what the pair it holds says. -/
theorem reopen (hv : VaultInv start w) (hw : Inv start w) (settled : w.settled (.reopen i imported)) :
    VaultInv start (w.reopen i imported) := by
  obtain ⟨settled, key⟩ := World.settled_reopen settled
  have flag := hv.records.stored i settled
  have learned : VaultInv start (w.learn i (Device.reopen (w.stored i).stored imported)
      (if (w.stored i).stored.same (w.devices i).composeStored then w.heard i
        else (w.stored i).heard)) := by
    split
    next same =>
      have kept := hw.records.stored i
      have latest := History.latest_of_scalarsAt hw.distinct hw.positive kept.heard (hw.heard i)
        ((kept.knows imported).scalarsAt.symm.trans ((hw.knows i).reopen_same same).scalarsAt)
      refine hv.learn (Device.VaultIs.reopen (flag.trans (congrArg some ?_)) key)
      rw [History.vault, latest, History.vault]
    · exact hv.learn (Device.VaultIs.reopen flag key)
  exact { learned with records := hv.records.reopen }

theorem step (hv : VaultInv start w) (hw : Inv start w) (hg : w.inTime a) (hsettled : w.settled a)
    (hs : w.step fits a = some w') : VaultInv start w' := by
  cases a with
  | tick i now =>
    obtain ⟨_, hs⟩ := Option.ite_none_right_eq_some.1 hs
    cases hs
    exact { hv with records := ⟨hv.records.stored, hv.records.saving⟩ }
  | decide i c =>
    cases hs
    have follows := hv.follows i
    cases c with
    | conversationFlags | petname | blocked | signal =>
      exact hv.decided _ ⟨follows.applying, follows.carriedOut⟩
    | disclose value =>
      exact hv.decided _ (stamped (d := { w.devices i with disclose := value })
        (hw.past_of_fresh (of_decide_eq_true hg)) (World.here_of_settled hsettled))
    | disableVault =>
      exact hv.decided _ (stamped (d := { w.devices i with vault := false }) (v := false)
        (hw.past_of_fresh (of_decide_eq_true hg)) (absurd · (of_decide_eq_true hsettled)))
  | enableVault i =>
    cases hs
    exact hv.setDevice ((hv.follows i).begun (by simp))
  | emit i =>
    cases hs
    exact hv.setDevice ((hv.follows i).begun (by simp))
  | resume i j =>
    obtain ⟨task, at_, rfl⟩ := Option.map_eq_some_iff.1 hs
    rw [settled, at_] at hsettled
    cases task with
    | applying => exact hv.setDevice ((hv.follows i).applied at_)
    | enabling => exact hv.setDevice ((hv.follows i).enabled at_)
    | stamping =>
      have fresh : w.clock i ∉ w.made.stamps := by
        rw [inTime, at_] at hg
        exact of_decide_eq_true hg
      have here : .applying ∈ (w.devices i).tasks → (w.devices i).vault = true :=
        World.here_of_settled hsettled
      exact hv.decided (.disclose _) (stamped (hw.past_of_fresh fresh) fun pending =>
        here (List.mem_of_mem_eraseIdx pending))
    | emitting signals =>
      have ended := hv.setDevice ((hv.follows i).ended at_ (by simp) (by simp))
      exact { ended with
        announced := World.forall_posted hv.announced ((hv.follows i).vault hsettled)
        records := ⟨hv.records.stored, hv.records.saving⟩ }
  | fail i j =>
    obtain ⟨task, at_, stamping, rfl⟩ := World.step_fail hs
    exact hv.setDevice ((hv.follows i).fail at_ stamping hsettled)
  | absorb i n =>
    obtain ⟨a, at_, rfl⟩ := Option.map_eq_some_iff.1 hs
    rw [inTime, at_] at hg
    exact hv.absorb hw (List.mem_of_getElem? at_)
      (fun s hs => of_decide_eq_true (List.all_eq_true.1 hg s hs)) (World.settled_absorb hsettled at_)
  | persist i =>
    cases hs
    exact hv.persist
  | saved i j =>
    obtain ⟨r, at_, rfl⟩ := Option.map_eq_some_iff.1 hs
    exact { hv with records := hv.records.saved at_ }
  | reopen i imported =>
    cases hs
    exact hv.reopen hw hsettled

end World.VaultInv

/-! ## Convergence -/

/-- One of the two scalars is as the latest decision about the pair left it. -/
structure HoldsScalar (scalar : ScalarsDecision → Bool) (start : Bool)
    (made : List ScalarsDecision) (held : Bool) : Prop where
  latest : ∀ s ∈ made, (∀ e ∈ made, e.at_ ≤ s.at_) → held = scalar s
  untouched : made = [] → held = start

/-- For each conversation, petname and account the latest decision, removals included, and of the
scalars the pair decided last. -/
structure Device.Converged (start : Device) (made : History) (d : Device) : Prop where
  flags : Holds start.conversations made.flags d.conversations
  petnames : Holds start.petnames made.petnames d.petnames
  blocked : Holds (blockedRecord start.blocked) made.blocked (blockedRecord d.blocked)
  disclose : HoldsScalar ScalarsDecision.disclose start.disclose made.scalars d.disclose

structure Device.Agree (d d' : Device) : Prop where
  flags : ∀ groupId, d.conversations.get? groupId = d'.conversations.get? groupId
  petnames : ∀ handle, d.petnames.get? handle = d'.petnames.get? handle
  blocked : ∀ account, account ∈ d.blocked ↔ account ∈ d'.blocked
  disclose : d.disclose = d'.disclose

theorem holdsScalar_of_heard {start : Bool} {heard : List ScalarsDecision} (distinct : Distinct ScalarsDecision.at_ made)
    (sound : heard ⊆ made) (complete : made ⊆ heard) :
    HoldsScalar scalar start made ((latest ScalarsDecision.at_ heard).elim start scalar) where
  latest s hs greatest := by
    rw [(latest_eq_some_iff (distinct.of_subset sound)).2
      ⟨complete hs, fun e he => greatest e (sound he)⟩]
    rfl
  untouched hnil := by
    rw [List.subset_nil.1 (hnil ▸ sound : heard ⊆ [])]
    rfl

theorem mem_blocked_iff {blocked : List String} :
    account ∈ blocked ↔ (Device.blockedRecord blocked).get? account = some () := by
  rw [get?_blockedRecord]
  split
  next h => exact iff_of_true h rfl
  next h => exact iff_of_false h (Option.some_ne_none _).symm

namespace Device.Knows

theorem of_undecided (h : start.Undecided) : Knows start {} start := by
  have stamps := h.prefStamps
  exact
    { flags := by rw [stamps]; exact .nil
      petnames := by rw [stamps]; exact .nil
      blocked := by rw [stamps]; exact .nil
      scalarsAt := by rw [stamps]; rfl
      disclose := rfl }

theorem converged (hd : Knows start h d) (distinct : made.Distinct) (sound : h.Within made)
    (complete : made.Within h) : Converged start made d where
  flags := hd.flags.holds distinct.flags sound.flags complete.flags
  petnames := hd.petnames.holds distinct.petnames sound.petnames complete.petnames
  blocked := hd.blocked.holds distinct.blocked sound.blocked complete.blocked
  disclose := hd.disclose ▸ holdsScalar_of_heard distinct.scalars sound.scalars complete.scalars

theorem agree (hd : Knows start h d) (hd' : Knows start h' d') (distinct : h.Distinct)
    (within : h.Within h') (within' : h'.Within h) : Agree d d' where
  flags := hd.flags.values_eq hd'.flags distinct.flags
    fun _ => ⟨fun he => within.flags he, fun he => within'.flags he⟩
  petnames := hd.petnames.values_eq hd'.petnames distinct.petnames
    fun _ => ⟨fun he => within.petnames he, fun he => within'.petnames he⟩
  blocked account := by
    rw [mem_blocked_iff, mem_blocked_iff, hd.blocked.values_eq hd'.blocked distinct.blocked
      fun _ => ⟨fun he => within.blocked he, fun he => within'.blocked he⟩]
  disclose := by
    rw [hd.disclose, hd'.disclose, History.disclose, History.disclose,
      latest_congr distinct.scalars fun _ => ⟨fun he => within.scalars he, fun he => within'.scalars he⟩]

end Device.Knows

namespace World.Initial

variable {w : World}

theorem inv (h : w.Initial) (same : ∀ i, w.devices i = start) : Inv start w where
  knows i := by
    rw [h.heard, same]
    exact .of_undecided (same i ▸ h.undecided i)
  tells a ha := by
    rw [h.posted] at ha
    cases ha
  clock := h.clock
  past i s hs := by
    rw [h.heard] at hs
    cases hs
  positive s hs := by
    rw [h.made] at hs
    cases hs
  heard i := by
    rw [h.heard, h.made]
    exact .refl _
  sent a ha := by
    rw [h.posted] at ha
    cases ha
  distinct := by
    rw [h.made]
    exact ⟨nofun, nofun, nofun, nofun⟩
  records :=
    { stored := fun i => by
        have knows : Device.Knows start {} (w.devices i) := by
          rw [same]
          exact .of_undecided (same i ▸ h.undecided i)
        rw [h.stored, World.read, h.heard]
        exact ⟨fun _ => knows.reopen, nofun, nofun, nofun, nofun, nofun⟩
      saving := fun i r hr => by
        rw [h.saving] at hr
        cases hr }

theorem vaultInv (h : w.Initial) (same : ∀ i, w.devices i = start) : VaultInv start w where
  follows i := by
    have tasks := (h.undecided i).tasks
    rw [same] at tasks
    rw [h.heard, same]
    exact ⟨fun pending => absurd (tasks ▸ pending) List.not_mem_nil, fun _ _ => rfl⟩
  announced a ha := by
    rw [h.posted] at ha
    cases ha
  records :=
    { stored := fun i _ => by
        rw [h.stored, World.read, h.heard, same]
        rfl
      saving := fun i r hr => by
        rw [h.saving] at hr
        cases hr }

theorem vaultInv_of_settled {fits : SyncedPreferences Nat → Bool} {w₀ : World} (initial : w₀.Initial)
    (same : ∀ i, w₀.devices i = start)
    (run : Reach (World.step fits) (fun w a => w.inTime a && w.settled a) w₀ w) :
    Inv start w ∧ VaultInv start w := by
  induction run with
  | refl => exact ⟨initial.inv same, initial.vaultInv same⟩
  | tail _ hg hs ih =>
    obtain ⟨inTime, settled⟩ := Bool.and_eq_true_iff.1 hg
    exact ⟨ih.1.step inTime hs, ih.2.step ih.1 inTime settled hs⟩

end World.Initial

/-- Devices that have heard every decision, directly or through another device, hold the same
preferences: the latest decision of each key, and the pair of scalars decided last. Of that pair the
vault does so where no switch of the vault was overtaken. -/
theorem converged_of_heard {fits : SyncedPreferences Nat → Bool} {start : Device} {w₀ w : World}
    {account : Set Nat} (initial : w₀.Initial) (same : ∀ i, w₀.devices i = start)
    (run : Reach (World.step fits) (fun w a => w.inTime a) w₀ w)
    (heard : ∀ i ∈ account, w.made.Within (w.heard i)) :
    (∀ i ∈ account, Device.Converged start w.made (w.devices i)) ∧
      (∀ i ∈ account, ∀ j ∈ account, (w.devices i).Agree (w.devices j)) ∧
      (Reach (World.step fits) (fun w a => w.inTime a && w.settled a) w₀ w →
        ∀ i ∈ account, (w.devices i).vaultSettled →
          HoldsScalar ScalarsDecision.vault start.vault w.made.scalars (w.devices i).vault) := by
  have inv : World.Inv start w := run.invariant (initial.inv same) fun hw hg hs => hw.step hg hs
  refine ⟨fun i hi => ?_, fun i hi j hj => ?_, fun run i hi settled => ?_⟩
  · exact (inv.knows i).converged inv.distinct (inv.heard i) (heard i hi)
  · exact (inv.knows i).agree (inv.knows j) (inv.distinct.of_within (inv.heard i))
      ((inv.heard i).trans (heard j hj)) ((inv.heard j).trans (heard i hi))
  · have follows := (initial.vaultInv_of_settled same run).2.follows i
    rw [follows.vault settled]
    exact holdsScalar_of_heard inv.distinct.scalars (inv.heard i).scalars (heard i hi).scalars

/-! ## Three devices, one of which hears from the first through the second -/

def fresh : Device where
  signals := { readReceipts := true, typingIndicator := true, presence := none, calls := some true }
  signalsAt := none
  disclose := false
  conversations := ∅
  petnames := ∅
  blocked := []
  vault := true
  prefStamps := ⟨none, none, none, none⟩
  tasks := []

/-- The devices of an account, written down as they are. -/
def newDevices (devices : Nat → Device) : World where
  devices
  clock _ := 1
  saving _ := []
  stored i := ⟨(devices i).composeStored, {}, {}, (devices i).vaultSettled⟩
  posted := []
  made := {}
  heard _ := {}

theorem newDevices_initial (undecided : ∀ i, (devices i).Undecided) :
    (newDevices devices).Initial :=
  ⟨undecided, fun _ => Nat.one_pos, fun _ => rfl, fun _ => rfl, rfl, rfl, fun _ => rfl⟩

def freshDevices : World := newDevices fun _ => fresh

theorem freshDevices_initial : freshDevices.Initial := newDevices_initial fun _ => ⟨rfl, rfl, rfl⟩

/-- A block is made on one device and lifted on the next, and the vault is turned off and on again
there; the first hears of it before it hears its own announcement again, and the third is closed and
opened in between. -/
def blockAndUnblock : List Action :=
  [.tick 0 10, .decide 0 (.blocked "bob" true), .tick 0 12, .decide 0 .disableVault, .emit 0,
    .resume 0 0, .tick 1 20, .absorb 1 0, .decide 1 (.blocked "bob" false), .enableVault 1,
    .resume 1 0, .tick 1 22, .resume 1 0, .emit 1, .resume 1 0, .tick 2 30, .absorb 2 0, .absorb 2 1,
    .resume 2 0, .persist 2, .saved 2 2, .reopen 2 true, .tick 0 30, .absorb 0 1, .resume 0 0,
    .absorb 0 0]

theorem converged_of_heard_blockAndUnblock : ∃ w,
    Reach (World.step fun _ => true) (fun w a => w.inTime a && w.settled a) freshDevices w ∧
    (∀ i ∈ ({0, 1, 2} : Set Nat), Device.Converged fresh w.made (w.devices i)) ∧
    (∀ i ∈ ({0, 1, 2} : Set Nat), ∀ j ∈ ({0, 1, 2} : Set Nat), (w.devices i).Agree (w.devices j)) ∧
    HoldsScalar ScalarsDecision.vault true w.made.scalars (w.devices 2).vault := by
  have executed : ∃ w, run (fun w a => if w.inTime a && w.settled a then
        w.step (fun _ => true) a else none) freshDevices blockAndUnblock = some w ∧
      (w.made.Within (w.heard 0) ∧ w.made.Within (w.heard 1) ∧ w.made.Within (w.heard 2)) ∧
      (w.devices 2).vaultSettled := ⟨_, rfl, by decide, rfl⟩
  obtain ⟨w, h, ⟨heard₀, heard₁, heard₂⟩, settled⟩ := executed
  have reached : Reach (World.step fun _ => true) (fun w a => w.inTime a && w.settled a)
      freshDevices w := reach_of_run_guarded h
  obtain ⟨converged, agree, vault⟩ := converged_of_heard freshDevices_initial (fun _ => rfl)
    (reached.mono fun _ _ hg => (Bool.and_eq_true_iff.1 hg).1)
    (by rintro i (rfl | rfl | rfl) <;> assumption : ∀ i ∈ ({0, 1, 2} : Set Nat), _)
  exact ⟨w, reached, converged, agree, vault reached 2 (.inr (.inr rfl)) settled⟩

/-! ## Two scalars decided on two devices -/

/-- Naming conversations is switched on here, and the vault off there a little later. -/
def twoScalars : List Action :=
  [.tick 0 10, .decide 0 (.disclose true), .emit 0, .resume 0 0, .tick 1 20, .decide 1 .disableVault,
    .emit 1, .resume 1 0, .tick 0 20, .absorb 0 1, .absorb 1 0]

/-- The only decision about naming conversations is undone: the later one about the vault stands for
the pair. -/
theorem later_scalar_undoes_the_other : freshDevices.Initial ∧
    (∀ i value, .decide i (.disclose value) ∈ twoScalars → value = true) ∧
    ∃ w, run (fun w a => if w.inTime a && w.settled a then w.step (fun _ => true) a else none)
        freshDevices twoScalars = some w ∧
      (∀ i < 2, w.made.Within (w.heard i)) ∧ ∀ i < 2, (w.devices i).disclose = false := by
  refine ⟨freshDevices_initial, fun i value hmem => ?_, _, rfl, by decide, by decide⟩
  simp only [twoScalars, List.mem_cons, List.not_mem_nil, or_false, reduceCtorEq, false_or,
    Action.decide.injEq, Change.disclose.injEq, and_false] at hmem
  exact hmem.2

end Whispee.Preferences
