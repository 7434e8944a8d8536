import Whispee.Preferences.Gossip

/-!
# Switching the vault

The vault is the one preference that takes time: switching it on waits for its key, and
`absorbPreferences` does not wait for that, nor does the record it writes. `Device.VaultIs` says where
a device stands with respect to the value its pair of scalars gives the vault; `World.settled` is the
condition under which no such switch is overtaken.
-/

namespace Whispee.Preferences

/-- While the key is imported for a pair that was absorbed, the device decides about a scalar only if
it has the key already, and neither turns the vault off nor adopts a pair that does; the import does
not fail. A device announces its pair only when the vault is as the pair has it, and it is opened
again from a record read when it was, with its key. -/
def World.settled (w : World) : Action → Bool
  | .decide i (.disclose _) => (w.devices i).vault || .applying ∉ (w.devices i).tasks
  | .decide i .disableVault => .applying ∉ (w.devices i).tasks
  | .resume i j =>
    match (w.devices i).tasks[j]? with
    | some .stamping => (w.devices i).vault || .applying ∉ (w.devices i).tasks
    | some (.emitting _) => (w.devices i).vaultSettled
    | _ => true
  | .fail i j =>
    match (w.devices i).tasks[j]? with
    | some .applying => (w.devices i).vault
    | _ => true
  | .absorb i n => w.posted[n]?.all fun a => a.preferences.all fun p =>
    p.scalars.vault || .applying ∉ (w.devices i).tasks ||
      !(w.devices i).newer (p.mapStamps (clamp (w.clock i))).scalars
  | .reopen i imported =>
    (w.stored i).settled && (imported || (w.stored i).stored.vaultEnabled = some false)
  | _ => true

namespace World

variable {w : World} {a : Announcement}

theorem here_of_settled {d : Device} (settled : d.vault || .applying ∉ d.tasks) :
    .applying ∈ d.tasks → d.vault = true := fun pending =>
  (Bool.or_eq_true_iff.1 settled).resolve_right fun none => of_decide_eq_true none pending

/-- What is adopted while a key is missing has the vault on. -/
theorem settled_absorb (settled : w.settled (.absorb i n)) (at_ : w.posted[n]? = some a) :
    ∀ p ∈ a.preferences, p.scalars.vault = true ∨ .applying ∉ (w.devices i).tasks ∨
      (w.devices i).newer (p.mapStamps (clamp (w.clock i))).scalars = false := by
  intro p hp
  rw [World.settled, at_] at settled
  have adopted := (Option.all_eq_true _ _).1 ((Option.all_eq_true _ _).1 settled a rfl) p hp
  simpa only [Bool.or_eq_true, Bool.not_eq_true', decide_eq_true_eq, or_assoc] using adopted

theorem settled_reopen (settled : w.settled (.reopen i imported)) :
    (w.stored i).settled ∧
      (imported = true ∨ (w.stored i).stored.vaultEnabled = some false) := by
  obtain ⟨settled, key⟩ := Bool.and_eq_true_iff.1 settled
  exact ⟨settled, (Bool.or_eq_true_iff.1 key).imp_right of_decide_eq_true⟩

end World

/-- The vault against the value expected of it, by the calls that switch it: what is imported is
expected, and what is there is, unless something is still to come. -/
structure Device.VaultIs (expected : Bool) (d : Device) : Prop where
  applying : .applying ∈ d.tasks → expected = true
  carriedOut : .stamping ∉ d.tasks → .applying ∉ d.tasks → d.vault = expected

/-- A call that ends takes no other with it. -/
theorem Task.mem_eraseIdx {tasks : List Task} (at_ : tasks[j]? = some task) (other : t ≠ task) :
    t ∈ tasks.eraseIdx j ↔ t ∈ tasks := by
  refine ⟨List.mem_of_mem_eraseIdx, fun ht => ?_⟩
  obtain ⟨k, hk⟩ := List.getElem?_of_mem ht
  refine List.mem_eraseIdx_iff_getElem?.2 ⟨k, ?_, hk⟩
  rintro rfl
  exact other (Option.some.inj (hk.symm.trans at_))

namespace Device

variable {d : Device} {incoming : Scalars Nat}

theorem vaultSettled_iff :
    d.vaultSettled ↔ .stamping ∉ d.tasks ∧ (d.vault = true ∨ .applying ∉ d.tasks) := by
  rw [vaultSettled, Bool.and_eq_true_iff, Bool.or_eq_true_iff, decide_eq_true_iff,
    decide_eq_true_iff]

namespace VaultIs

/-- A vault that is settled is as it is expected to be. -/
theorem vault (h : VaultIs expected d) (settled : d.vaultSettled) : d.vault = expected := by
  obtain ⟨stamped, here | none⟩ := vaultSettled_iff.1 settled
  · by_cases pending : .applying ∈ d.tasks
    · exact here.trans (h.applying pending).symm
    · exact h.carriedOut stamped pending
  · exact h.carriedOut stamped none

/-- The key is there, and the vault as the pair has it. -/
theorem applied (h : VaultIs expected d) (at_ : d.tasks[j]? = some .applying) :
    VaultIs expected { d with vault := true, tasks := d.tasks.eraseIdx j } where
  applying _ := h.applying (List.mem_of_getElem? at_)
  carriedOut _ _ := (h.applying (List.mem_of_getElem? at_)).symm

theorem enabled (h : VaultIs expected d) (at_ : d.tasks[j]? = some .enabling) :
    VaultIs expected { d with vault := true, tasks := d.tasks.set j .stamping } where
  applying pending := h.applying ((List.mem_or_eq_of_mem_set pending).resolve_right nofun)
  carriedOut stamped _ :=
    absurd (List.mem_set (List.getElem?_eq_some_iff.1 at_).1 Task.stamping) stamped

/-- A call ends that leaves the vault alone. -/
theorem ended (h : VaultIs expected d) (at_ : d.tasks[j]? = some task) (applying : task ≠ .applying)
    (stamping : task ≠ .stamping) : VaultIs expected { d with tasks := d.tasks.eraseIdx j } where
  applying pending := h.applying (List.mem_of_mem_eraseIdx pending)
  carriedOut stamped applied := h.carriedOut
    (fun pending => stamped ((Task.mem_eraseIdx at_ stamping.symm).2 pending))
    (fun pending => applied ((Task.mem_eraseIdx at_ applying.symm).2 pending))

/-- An import fails for a key that is there already. -/
theorem failed (h : VaultIs expected d) (at_ : d.tasks[j]? = some .applying) (here : d.vault = true) :
    VaultIs expected { d with tasks := d.tasks.eraseIdx j } where
  applying _ := h.applying (List.mem_of_getElem? at_)
  carriedOut _ _ := here.trans (h.applying (List.mem_of_getElem? at_)).symm

/-- A call fails. -/
theorem fail {w : World} (h : VaultIs expected (w.devices i))
    (at_ : (w.devices i).tasks[j]? = some task) (stamping : task ≠ .stamping)
    (settled : w.settled (.fail i j)) :
    VaultIs expected { w.devices i with tasks := (w.devices i).tasks.eraseIdx j } := by
  rw [World.settled, at_] at settled
  cases task with
  | applying => exact h.failed at_ settled
  | enabling | emitting => exact h.ended at_ (by simp) stamping
  | stamping => exact absurd rfl stamping

/-- A call begins that leaves the vault alone, or waits for its key. -/
theorem begun (h : VaultIs expected d) (applying : task ≠ .applying) :
    VaultIs expected { d with tasks := d.tasks ++ [task] } where
  applying pending := h.applying ((List.mem_append.1 pending).resolve_right fun last =>
    applying (List.mem_singleton.1 last).symm)
  carriedOut stamped applied := h.carriedOut
    (fun pending => stamped (List.mem_append_left _ pending))
    (fun pending => applied (List.mem_append_left _ pending))

/-- A decision about the pair is one about the vault, as it is then. -/
theorem stampScalars (here : .applying ∈ d.tasks → d.vault = true) :
    VaultIs d.vault (d.stampScalars now) where
  applying := here
  carriedOut _ _ := rfl

/-- Adopting a pair: off at once, on when the key is there. -/
theorem absorbScalars (h : VaultIs expected d)
    (settled : incoming.vault = true ∨ .applying ∉ d.tasks ∨ d.newer incoming = false) :
    VaultIs (if d.newer incoming then incoming.vault else expected)
      (d.absorbScalars incoming).1 := by
  rw [Device.absorbScalars]
  cases newer : d.newer incoming with
  | false => exact h
  | true =>
    cases on : incoming.vault with
    | false =>
      have none : .applying ∉ d.tasks := by
        rcases settled with here | none | older
        · exact absurd (on.symm.trans here) Bool.false_ne_true
        · exact none
        · exact absurd (newer.symm.trans older) (Bool.false_ne_true ·.symm)
      exact ⟨fun pending => absurd pending none, fun _ _ => Bool.and_false _⟩
    | true =>
      refine ⟨fun _ => rfl, fun _ applied => ?_⟩
      change d.vault && true = true
      cases here : d.vault with
      | true => rfl
      | false =>
        refine absurd ?_ applied
        simp [here]

theorem absorbSettings (h : VaultIs expected d) (signals : SyncedSignals Nat) :
    VaultIs expected (d.absorbSettings signals).1 := by
  rw [Device.absorbSettings]
  split <;> exact ⟨h.applying, h.carriedOut⟩

/-- Merging the dictionaries leaves the vault alone. -/
theorem absorbSignals {s : SyncedSignals Nat} {p : SyncedPreferences Nat} (h : VaultIs expected d)
    (settled : p.scalars.vault = true ∨ .applying ∉ d.tasks ∨ d.newer p.scalars = false) :
    VaultIs (if d.newer p.scalars then p.scalars.vault else expected)
      (d.absorbSignals s (some p)).1 := by
  rw [← d.newer_absorbSettings s, ← d.tasks_absorbSettings s] at settled
  have absorbed := (h.absorbSettings s).absorbScalars settled
  rw [d.newer_absorbSettings s] at absorbed
  exact ⟨absorbed.applying, absorbed.carriedOut⟩

/-- A session opened from a record, with its key where it asks for it. -/
theorem reopen {stored : Stored} (flag : stored.vaultEnabled = some expected)
    (key : imported = true ∨ stored.vaultEnabled = some false) :
    VaultIs expected (Device.reopen stored imported) := by
  refine ⟨nofun, fun _ _ => ?_⟩
  rw [flag] at key
  rw [Device.reopen, flag]
  cases expected with
  | false => rfl
  | true =>
    rcases key with rfl | refused
    · rfl
    · cases refused

end VaultIs

end Device

end Whispee.Preferences
