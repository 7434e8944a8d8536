import Whispee.Lib.LastWriter
import Whispee.Lib.Tasks
import Whispee.Lib.Transition

/-!
# The switch of the archive

The key of `Archive` in `apps/web/src/lib/session-vault.ts` is there when the vault is on, and
`apps/web/src/lib/session.ts` imports it, drops it, writes down whether it is there and announces it.
One device: its sessions open and end at any moment, an import is answered whenever it likes, and the
clock says what it likes. The decision about the other scalar, and the maps, are left out.
-/

namespace Whispee.Vault.Switch

open LastWriter Transition

structure Decision where
  at_ : Nat
  vault : Bool
  deriving DecidableEq

/-- The decision that stands is to have the vault off. -/
def Refused (known : List Decision) : Prop :=
  (latest Decision.at_ known).map Decision.vault = some false

instance : Decidable (Refused known) := inferInstanceAs (Decidable (_ = _))

/-- What is stored of the archive, and the decisions the device had heard of by then. -/
structure Stored where
  vaultEnabled : Option Bool
  scalars : Option Nat
  known : List Decision
  deriving DecidableEq

/-- A key that is being imported. -/
inductive Import where
  | enabling
  /-- For an announcement; nobody waits for it. -/
  | applying
  | rotating
  deriving DecidableEq

structure Live where
  /-- `Archive.key` is there. -/
  enabled : Bool
  scalars : Option Nat
  known : List Decision
  imports : List Import
  /-- The calls of `enableVault` that have their key and are about to stamp. -/
  stamping : Nat
  saving : List Stored
  /-- The deposits under way; for each, whether the vault was turned off in the meantime. -/
  uploads : List Bool
  /-- The key could not be imported as the session was opened, and there has been none since, nor
  a decision to do without. -/
  unavailable : Bool

/-- What the archive has done, each with the decisions then known. -/
inductive Event where
  | deposit (known : List Decision)
  | landed (known : List Decision)
  | written (stored : Stored)
  | announced (vault : Bool) (known : List Decision)
  deriving DecidableEq

structure World where
  session : Option Live
  stored : Stored
  log : List Event

inductive Action where
  /-- The key is imported, if it is to be, or is not. -/
  | reopen (imported : Bool)
  | close
  | enable
  | disable (now : Nat)
  | imported (i : Nat)
  | importFailed (i : Nat)
  /-- `enableVault` goes on past its key. -/
  | stamp (now : Nat)
  | absorb (decision : Decision)
  | rotate
  | persist
  | saved (i : Nat)
  | announce
  | deposit
  | landed (i : Nat)
  | failed (i : Nat)

namespace Live

variable (s : Live)

def snapshot : Stored := ⟨some s.enabled, s.scalars, s.known⟩

def persist : Live := { s with saving := s.saving ++ [s.snapshot] }

/-- `stampScalars`, and the end of `absorbPreferences`. -/
def stampScalars (decision : Decision) : Live :=
  ({ s with scalars := some decision.at_, known := s.known ++ [decision] } : Live).persist

/-- `Archive.disable`. -/
def disable : Live :=
  { s with enabled := false, uploads := s.uploads.map fun _ => true, unavailable := false }

def importing (i : Import) : Live := { s with imports := s.imports ++ [i] }

/-- Later than what was last stamped. -/
def newer (at_ : Nat) : Bool := s.scalars.all (· < at_)

def imported (i : Nat) (import_ : Import) : Live :=
  { s with
    enabled := true
    imports := s.imports.eraseIdx i
    stamping := if import_ = .enabling then s.stamping + 1 else s.stamping
    unavailable := false }

/-- `absorbPreferences`. -/
def absorb (decision : Decision) : Live :=
  if s.newer decision.at_ then
    (match s.enabled, decision.vault with
      | false, true => s.importing .applying
      | _, false => s.disable
      | true, true => s).stampScalars decision
  else { s with known := s.known ++ [decision] }

def rotate : Live := if s.enabled then s.importing .rotating else s

end Live

namespace World

variable (w : World)

def put (s : Live) : World := { w with session := some s }

def record (event : Event) : World := { w with log := w.log ++ [event] }

/-- `Session.open`. -/
def reopen (imported : Bool) : World :=
  w.put {
    enabled := w.stored.vaultEnabled ≠ some false && imported
    scalars := w.stored.scalars
    known := w.stored.known
    imports := []
    stamping := 0
    saving := []
    uploads := []
    unavailable := w.stored.vaultEnabled ≠ some false && !imported }

/-- `Archive.store`. -/
def deposit (s : Live) : World :=
  if s.enabled then (w.record (.deposit s.known)).put { s with uploads := s.uploads ++ [false] }
  else w

def stepLive (s : Live) : Action → Option World
  | .reopen _ => none
  | .close => some { w with session := none }
  | .enable => some (w.put (s.importing .enabling))
  | .disable now => some (w.put (s.disable.stampScalars ⟨now, false⟩))
  | .imported i => s.imports[i]?.map fun import_ => w.put (s.imported i import_)
  | .importFailed i =>
    s.imports[i]?.map fun _ => w.put { s with imports := s.imports.eraseIdx i }
  | .stamp now =>
    if 0 < s.stamping then
      some (w.put (({ s with stamping := s.stamping - 1 } : Live).stampScalars ⟨now, true⟩))
    else none
  | .absorb decision => some (w.put (s.absorb decision))
  | .rotate => some (w.put s.rotate)
  | .persist => some (w.put s.persist)
  | .saved i => s.saving[i]?.map fun stored =>
      { w.record (.written stored) with
        session := some { s with saving := s.saving.eraseIdx i }
        stored }
  | .announce => some (w.record (.announced s.enabled s.known))
  | .deposit => some (w.deposit s)
  | .landed i => s.uploads[i]?.map fun _ =>
      (w.record (.landed s.known)).put { s with uploads := s.uploads.eraseIdx i }
  | .failed i => s.uploads[i]?.map fun _ => w.put { s with uploads := s.uploads.eraseIdx i }

def step (a : Action) : Option World :=
  match w.session with
  | some s => w.stepLive s a
  | none =>
    match a with
    | .reopen imported => some (w.reopen imported)
    | _ => none

/-- An account that has never had to decide. -/
def start : World where
  session := none
  stored := ⟨none, none, []⟩
  log := []

end World

/-! ## What has to be the case -/

def Stored.Follows (stored : Stored) : Prop :=
  stored.vaultEnabled = some false → Refused stored.known

def Event.Follows : Event → Prop
  | .deposit known => ¬ Refused known
  | .landed known => ¬ Refused known
  | .written stored => stored.Follows
  | .announced vault known => vault = false → Refused known

structure World.Follows (w : World) : Prop where
  log : ∀ event ∈ w.log, event.Follows
  stored : w.stored.Follows

/-- A session that was opened without its key neither persists nor announces before there is a key
or a decision to do without; an announcement turns the vault on only where it is on; a key that was
imported for an announcement or a rotation arrives only while the vault is on; a decision is stamped
later than the last; between the key and the stamp of `enableVault` nothing is deposited, persisted
or turned off; and a deposit under way as the vault is turned off does not get through. -/
def Live.guard (s : Live) : Action → Bool
  | .disable now => s.stamping = 0 ∧ s.newer now
  | .imported i => s.imports[i]? = some .enabling ∨ s.enabled
  | .stamp now => s.newer now
  | .absorb decision =>
    s.newer decision.at_ → if decision.vault then s.enabled = true else s.stamping = 0
  | .persist => !s.unavailable ∧ s.stamping = 0
  | .announce => !s.unavailable
  | .deposit => s.stamping = 0
  | .landed i => s.uploads[i]? ≠ some true
  | _ => true

def World.guard (w : World) (a : Action) : Bool := w.session.all (·.guard a)

variable {known : List Decision} {decision : Decision} {scalars : Option Nat}

/-- The stamp that is kept is that of the decision which stands. -/
def Stands (known : List Decision) (scalars : Option Nat) : Prop :=
  scalars = (latest Decision.at_ known).map Decision.at_

theorem latest_newer (h : Stands known scalars) (hnewer : scalars.all (· < decision.at_)) :
    latest Decision.at_ (known ++ [decision]) = some decision := by
  rw [latest_append]
  cases hlatest : latest Decision.at_ known with
  | none => rfl
  | some d =>
    rw [Stands, hlatest] at h
    subst h
    exact later_eq_right (of_decide_eq_true hnewer)

theorem latest_older (h : Stands known scalars) (holder : scalars.all (· < decision.at_) = false) :
    latest Decision.at_ (known ++ [decision]) = latest Decision.at_ known := by
  rw [latest_append]
  cases hlatest : latest Decision.at_ known with
  | none =>
    rw [Stands, hlatest] at h
    subst h
    cases holder
  | some d =>
    rw [Stands, hlatest] at h
    subst h
    exact later_eq_left (Nat.le_of_not_lt (of_decide_eq_false holder))

theorem refused_newer (h : Stands known scalars) (hnewer : scalars.all (· < decision.at_)) :
    Refused (known ++ [decision]) ↔ decision.vault = false := by
  rw [Refused, latest_newer h hnewer, Option.map_some, Option.some.injEq]

theorem refused_older (h : Stands known scalars) (holder : scalars.all (· < decision.at_) = false) :
    Refused (known ++ [decision]) ↔ Refused known := by
  rw [Refused, latest_older h holder, Refused]

structure StoredInv (stored : Stored) : Prop where
  scalars : Stands stored.known stored.scalars
  flag : stored.vaultEnabled = some false ↔ Refused stored.known

structure LiveInv (s : Live) : Prop where
  scalars : Stands s.known s.scalars
  on : s.enabled = true → s.stamping = 0 → ¬ Refused s.known
  off : s.enabled = false → s.unavailable = true ∨ Refused s.known
  /-- An archive whose key is missing is not on. -/
  unavailable : s.unavailable = true → s.enabled = false
  stamping : 0 < s.stamping → s.enabled = true
  /-- Nothing was decided against the deposits that may still get through. -/
  uploads : false ∈ s.uploads → ¬ Refused s.known
  saving : ∀ stored ∈ s.saving, StoredInv stored

structure Inv (w : World) : Prop where
  live : ∀ {s}, w.session = some s → LiveInv s
  stored : StoredInv w.stored
  log : ∀ event ∈ w.log, event.Follows

variable {s : Live} {w w' : World}

namespace LiveInv

theorem snapshot (h : LiveInv s) (havailable : s.unavailable = false) (hsettled : s.stamping = 0) :
    StoredInv s.snapshot where
  scalars := h.scalars
  flag := by
    show some s.enabled = some false ↔ Refused s.known
    constructor
    · intro hoff
      rcases h.off (Option.some.inj hoff) with hmissing | hrefused
      · rw [havailable] at hmissing
        cases hmissing
      · exact hrefused
    · intro hrefused
      cases hon : s.enabled with
      | false => rfl
      | true => exact absurd hrefused (h.on hon hsettled)

theorem persist (h : LiveInv s) (hsnapshot : StoredInv s.snapshot) : LiveInv s.persist :=
  { h with saving := Tasks.forall_mem_concat h.saving hsnapshot }

/-- A later decision, carried out before it is stamped. -/
theorem stampScalars (hscalars : Stands s.known s.scalars)
    (hsaving : ∀ stored ∈ s.saving, StoredInv stored) (hnewer : s.newer decision.at_)
    (hdone : s.enabled = decision.vault) (havailable : s.unavailable = false)
    (hstamping : 0 < s.stamping → s.enabled = true)
    (huploads : decision.vault = false → false ∉ s.uploads) :
    LiveInv (s.stampScalars decision) := by
  have hrefused : Refused (s.known ++ [decision]) ↔ s.enabled = false := by
    rw [refused_newer hscalars hnewer, hdone]
  have hstands : Stands (s.known ++ [decision]) (some decision.at_) := by
    rw [Stands, latest_newer hscalars hnewer, Option.map_some]
  exact {
    scalars := hstands
    on := fun hon _ hrefusal => by
      have hoff := hrefused.1 hrefusal
      rw [show s.enabled = true from hon] at hoff
      cases hoff
    off := fun hoff => .inr (hrefused.2 hoff)
    unavailable := fun hmissing => by
      rw [show s.unavailable = true from hmissing] at havailable
      cases havailable
    stamping := hstamping
    uploads := fun hmem hrefusal => huploads (hdone ▸ hrefused.1 hrefusal) hmem
    saving := Tasks.forall_mem_concat hsaving ⟨hstands, by
      show some s.enabled = some false ↔ Refused (s.known ++ [decision])
      rw [hrefused, Option.some.injEq]⟩ }

theorem disable (h : LiveInv s) (hsettled : s.stamping = 0) (hoff : decision.vault = false)
    (hnewer : s.newer decision.at_) : LiveInv (s.disable.stampScalars decision) := by
  refine stampScalars h.scalars h.saving hnewer hoff.symm rfl (fun hpending => ?_) fun _ hmem => ?_
  · rw [show s.disable.stamping = s.stamping from rfl, hsettled] at hpending
    cases hpending
  · obtain ⟨_, _, hover⟩ := List.mem_map.1 hmem
    cases hover

/-- The archive is on: its key is there. -/
theorem available (h : LiveInv s) (hon : s.enabled = true) : s.unavailable = false := by
  cases hmissing : s.unavailable with
  | false => rfl
  | true =>
    rw [h.unavailable hmissing] at hon
    cases hon

theorem stamp (h : LiveInv s) (hpending : 0 < s.stamping) (hnewer : s.newer now) :
    LiveInv (({ s with stamping := s.stamping - 1 } : Live).stampScalars ⟨now, true⟩) :=
  stampScalars h.scalars h.saving hnewer (h.stamping hpending) (h.available (h.stamping hpending))
    (fun _ => h.stamping hpending) nofun

theorem older (h : LiveInv s) (holder : s.newer decision.at_ = false) :
    LiveInv { s with known := s.known ++ [decision] } := by
  have hrefused := refused_older h.scalars holder
  exact { h with
    scalars := by
      rw [Stands, latest_older h.scalars holder]
      exact h.scalars
    on := fun hon hsettled hrefusal => h.on hon hsettled (hrefused.1 hrefusal)
    off := fun hoff => (h.off hoff).imp_right hrefused.2
    uploads := fun hmem hrefusal => h.uploads hmem (hrefused.1 hrefusal) }

theorem absorb (h : LiveInv s) (hguard : s.newer decision.at_ →
    if decision.vault then s.enabled = true else s.stamping = 0) : LiveInv (s.absorb decision) := by
  unfold Live.absorb
  split
  next hnewer =>
    have allowed := hguard hnewer
    cases hvault : decision.vault with
    | false =>
      rw [hvault] at allowed
      cases s.enabled <;> exact h.disable allowed hvault hnewer
    | true =>
      rw [hvault] at allowed
      have hon : s.enabled = true := allowed
      rw [hon]
      exact stampScalars h.scalars h.saving hnewer (hon.trans hvault.symm) (h.available hon)
        (fun _ => hon) fun hoff => by
          rw [hvault] at hoff
          cases hoff
  next holder => exact h.older (Bool.eq_false_of_not_eq_true holder)

theorem imported (h : LiveInv s) {import_ : Import} (hguard : import_ = .enabling ∨ s.enabled) :
    LiveInv (s.imported i import_) where
  scalars := h.scalars
  on _ hsettled := by
    unfold Live.imported at hsettled
    dsimp only at hsettled
    split at hsettled
    · cases hsettled
    next hother =>
      have hon := hguard.resolve_left hother
      exact h.on hon hsettled
  off := nofun
  unavailable := nofun
  stamping _ := rfl
  uploads := h.uploads
  saving := h.saving

end LiveInv

theorem StoredInv.follows {stored : Stored} (h : StoredInv stored) : stored.Follows := h.flag.1

namespace Inv

theorem put (h : Inv w) (hlive : LiveInv s) : Inv (w.put s) where
  live hs := by
    cases hs
    exact hlive
  stored := h.stored
  log := h.log

theorem record (h : Inv w) {event : Event} (hevent : event.Follows) : Inv (w.record event) :=
  { h with log := Tasks.forall_mem_concat h.log hevent }

theorem reopen (h : Inv w) : Inv (w.reopen imported) := by
  refine h.put ⟨h.stored.scalars, fun hon _ hrefused => ?_, fun hoff => ?_, fun hmissing => ?_,
    nofun, nofun, nofun⟩
  · have hflag := h.stored.flag.2 hrefused
    rw [hflag] at hon
    cases hon
  · by_cases hflag : w.stored.vaultEnabled = some false
    · exact .inr (h.stored.flag.1 hflag)
    · left
      cases imported with
      | false =>
        show (decide (w.stored.vaultEnabled ≠ some false) && true) = true
        rw [decide_eq_true hflag]
        rfl
      | true =>
        rw [decide_eq_true hflag] at hoff
        cases hoff
  · dsimp only at hmissing ⊢
    cases imported with
    | false => exact Bool.and_false _
    | true =>
      rw [Bool.not_true, Bool.and_false] at hmissing
      cases hmissing

theorem deposit (h : Inv w) (hlive : LiveInv s) (hsettled : s.stamping = 0) :
    Inv (w.deposit s) := by
  unfold World.deposit
  split
  next hon =>
    have hnot : Event.Follows (.deposit s.known) := hlive.on hon hsettled
    exact (h.record hnot).put { hlive with uploads := fun _ => hnot }
  · exact h

/-- A deposit that gets through was not decided against. -/
theorem landed (h : Inv w) (hlive : LiveInv s) (hupload : s.uploads[i]? = some late)
    (hguard : s.uploads[i]? ≠ some true) :
    Inv ((w.record (.landed s.known)).put { s with uploads := s.uploads.eraseIdx i }) := by
  have hmem : false ∈ s.uploads := by
    cases late with
    | false => exact List.mem_of_getElem? hupload
    | true => exact absurd hupload hguard
  have hnot : Event.Follows (.landed s.known) := hlive.uploads hmem
  exact (h.record hnot).put
    { hlive with uploads := fun hmem => hlive.uploads (List.mem_of_mem_eraseIdx hmem) }

theorem saved (h : Inv w) (hlive : LiveInv s) {stored : Stored}
    (hsaving : s.saving[i]? = some stored) :
    Inv { w.record (.written stored) with
      session := some { s with saving := s.saving.eraseIdx i }
      stored } := by
  have hstored := hlive.saving stored (List.mem_of_getElem? hsaving)
  have hfollows : Event.Follows (.written stored) := hstored.follows
  refine ⟨fun hs => ?_, hstored, (h.record hfollows).log⟩
  cases hs
  exact { hlive with
    saving := fun stored hmem => hlive.saving stored (List.mem_of_mem_eraseIdx hmem) }

theorem stepLive (h : Inv w) (hs : w.session = some s) (hguard : s.guard a)
    (hstep : w.stepLive s a = some w') : Inv w' := by
  have hlive := h.live hs
  cases a with
  | reopen => cases hstep
  | close =>
    cases hstep
    exact ⟨nofun, h.stored, h.log⟩
  | enable =>
    cases hstep
    exact h.put { hlive with }
  | disable now =>
    cases hstep
    obtain ⟨hsettled, hnewer⟩ := of_decide_eq_true hguard
    exact h.put (hlive.disable hsettled rfl hnewer)
  | imported i =>
    obtain ⟨import_, himport, rfl⟩ := Option.map_eq_some_iff.1 hstep
    refine h.put (hlive.imported ((of_decide_eq_true hguard).imp_left fun henabling => ?_))
    exact Option.some.inj (himport.symm.trans henabling)
  | importFailed i =>
    obtain ⟨_, _, rfl⟩ := Option.map_eq_some_iff.1 hstep
    exact h.put { hlive with }
  | stamp now =>
    obtain ⟨hpending, hstep⟩ := Option.ite_none_right_eq_some.1 hstep
    cases hstep
    exact h.put (hlive.stamp hpending hguard)
  | absorb decision =>
    cases hstep
    exact h.put (hlive.absorb (of_decide_eq_true hguard))
  | rotate =>
    cases hstep
    unfold Live.rotate
    split
    · exact h.put { hlive with }
    · exact h.put hlive
  | persist =>
    cases hstep
    obtain ⟨havailable, hsettled⟩ := of_decide_eq_true hguard
    rw [Bool.not_eq_true'] at havailable
    exact h.put (hlive.persist (hlive.snapshot havailable hsettled))
  | saved i =>
    obtain ⟨stored, hsaving, rfl⟩ := Option.map_eq_some_iff.1 hstep
    exact h.saved hlive hsaving
  | announce =>
    cases hstep
    have havailable : s.unavailable = false := Bool.not_eq_true' _ ▸ hguard
    refine h.record fun hoff => (hlive.off hoff).resolve_left ?_
    rw [havailable]
    nofun
  | deposit =>
    cases hstep
    exact h.deposit hlive (of_decide_eq_true hguard)
  | landed i =>
    obtain ⟨_, hupload, rfl⟩ := Option.map_eq_some_iff.1 hstep
    exact h.landed hlive hupload (of_decide_eq_true hguard)
  | failed i =>
    obtain ⟨_, _, rfl⟩ := Option.map_eq_some_iff.1 hstep
    exact h.put { hlive with
      uploads := fun hmem => hlive.uploads (List.mem_of_mem_eraseIdx hmem) }

theorem step (h : Inv w) (hguard : w.guard a) (hstep : w.step a = some w') : Inv w' := by
  unfold World.step at hstep
  split at hstep
  next s hs =>
    unfold World.guard at hguard
    rw [hs] at hguard
    exact h.stepLive hs hguard hstep
  next =>
    split at hstep
    · cases hstep
      exact h.reopen
    · cases hstep

end Inv

theorem inv_start : Inv World.start where
  live h := by cases h
  stored := ⟨rfl, by decide⟩
  log := nofun

/-- However the imports end, and wherever the sessions do. -/
theorem vault_follows (h : Reach World.step (fun w a => w.guard a) World.start w) : w.Follows := by
  have inv : Inv w := h.invariant inv_start fun h hguard hstep => h.step hguard hstep
  exact ⟨inv.log, inv.stored.follows⟩

/-- Turned off here, on from another device while it is on here, off and on again, with a rotation
and a session whose key could not be imported. -/
def onAndOff : List Action :=
  [.reopen true, .deposit, .landed 0, .disable 5, .saved 0, .deposit, .close, .reopen true,
    .announce, .enable, .persist, .imported 0, .stamp 9, .saved 1, .deposit, .rotate,
    .absorb ⟨7, false⟩, .absorb ⟨12, true⟩, .imported 0, .landed 0, .announce, .close, .reopen false,
    .enable, .importFailed 0, .absorb ⟨20, false⟩, .announce, .saved 0]

theorem vault_follows_onAndOff :
    ∃ w, Reach World.step (fun w a => w.guard a) World.start w ∧ w.log.length = 10 ∧
      w.stored.vaultEnabled = some false ∧ w.Follows := by
  have evaluated : (run (fun w a => if World.guard w a then w.step a else none) World.start
      onAndOff).map (fun w => (w.log.length, w.stored.vaultEnabled)) = some (10, some false) := by
    decide +kernel
  obtain ⟨w, hrun, hw⟩ := Option.map_eq_some_iff.1 evaluated
  obtain ⟨hlog, hflag⟩ := Prod.mk.inj hw
  have reach := reach_of_run_guarded hrun
  exact ⟨w, reach, hlog, hflag, vault_follows reach⟩

/-- The key cannot be imported, and the session is written down. -/
def unavailable : List Action := [.reopen false, .announce, .persist, .saved 0]

/-- A failed import is announced, and written down, as a refusal nobody has made. -/
theorem failed_import_is_a_refusal :
    ∃ w, run World.step World.start unavailable = some w ∧
      w.log = [.announced false [], .written ⟨some false, none, []⟩] ∧ ¬ w.Follows := by
  have evaluated : (run World.step World.start unavailable).map World.log =
      some [.announced false [], .written ⟨some false, none, []⟩] := by decide +kernel
  obtain ⟨w, hrun, hlog⟩ := Option.map_eq_some_iff.1 evaluated
  refine ⟨w, hrun, hlog, fun h => ?_⟩
  have refused := h.log (.announced false []) (hlog ▸ List.mem_cons_self) rfl
  cases refused

end Whispee.Vault.Switch
