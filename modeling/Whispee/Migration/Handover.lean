import Whispee.Migration.Migration

/-!
# The hand-over

The old device is let go only when the new one has joined all its conversations, native storage
stays with its account, and one device at most is registered: in every run in which the two counts
stand for inclusion, the old device gains nothing after they were compared that the new one does
not have, and a run that registered a device has stored its session before the migration is started
again (`migration_safe`).
-/

namespace Whispee.Migration

open Transition

/-- It has a device to register, or is about to store its session. -/
def Position.starting : Position → Bool
  | .resolving | .registering .. | .storing _ => true
  | _ => false

/-- What holds of a page, next to what native storage has. -/
structure PageInv (native : Option Stored) (p : Page) : Prop where
  /-- The new session is the one in native storage. -/
  next : ∀ {next}, p.next = some next → ∃ stored, native = some stored ∧
    stored.account = next.account
  starting : p.position.starting → p.starts
  empty : p.starts → p.position = .opening ∨ p.position.starting → native = none
  joined : p.position.committed → p.old.conversations ⊆ p.joined

/-- A deed that can be answered for. -/
def Deed.Sound : Deed → Prop
  | .register _ | .write none _ => True
  | .write (some before) after => before.account = after.account
  | .revoke conversations joined | .erase conversations joined => conversations ⊆ joined

namespace World

def storing (w : World) : Bool := w.page.any (·.position.isStoring)

structure Inv (w : World) : Prop where
  page : ∀ {p}, w.page = some p → PageInv w.native p
  sound : ∀ deed ∈ w.history, deed.Sound
  once : w.history.countP Deed.registers ≤ 1
  /-- Before a session is stored, no device has been registered. -/
  fresh : w.native = none → w.storing = false → w.history.countP Deed.registers = 0

end World

variable {w w' : World} {p p' : Page} {native : Option Stored} {q : Position} {deed : Deed}

namespace PageInv

theorem abandon : PageInv native { p with next := none, position := .idle } where
  next h := by cases h
  starting h := by cases h
  empty _ h := by rcases h with h | h <;> cases h
  joined h := by cases h

/-- The run goes on to a position in which no device is to be registered. -/
theorem move (h : PageInv native p) (hopening : q ≠ .opening) (hstarting : q.starting = false)
    (hjoined : q.committed → p.old.conversations ⊆ p.joined) :
    PageInv native { p with position := q } where
  next := h.next
  starting hq := by
    rw [hstarting] at hq
    cases hq
  empty _ hq := by
    rcases hq with hq | hq
    · exact absurd hq hopening
    · rw [hstarting] at hq
      cases hq
  joined := hjoined

/-- The run goes on to a position on the way to a device of its own. -/
theorem advance (h : PageInv native p) (hstarts : p.starts) (hempty : native = none)
    (hq : q.committed = false) : PageInv native { p with position := q } where
  next := h.next
  starting _ := hstarts
  empty _ _ := hempty
  joined h := by
    rw [hq] at h
    cases h

/-- It starts over, with a device that there is. -/
theorem reopening (h : PageInv native p) (hstarts : ¬ p.starts) :
    PageInv native { p with position := .opening } where
  next := h.next
  starting h := by cases h
  empty h := absurd h hstarts
  joined h := by cases h

/-- The old session is condemned; nothing is written for it any more. -/
theorem forget (h : PageInv native p) (hjoined : p.old.conversations ⊆ p.joined) :
    PageInv native { p with forgotten := true, position := .forgetting } where
  next := h.next
  starting h := by cases h
  empty _ h := by rcases h with h | h <;> cases h
  joined _ := hjoined

theorem gainOld (h : PageInv native p)
    (hgain : p.position.committed → group ∈ p.joined) :
    PageInv native { p with old := p.old.gain group } where
  next := h.next
  starting := h.starting
  empty := h.empty
  joined hq := Finset.insert_subset (hgain hq) (h.joined hq)

theorem loseOld (h : PageInv native p) : PageInv native { p with old := p.old.lose group } where
  next := h.next
  starting := h.starting
  empty := h.empty
  joined hq := (Finset.erase_subset _ _).trans (h.joined hq)

/-- The new session changes, and keeps its account and its groups. -/
theorem mapNext (h : PageInv native p) {f : Session → Session}
    (haccount : ∀ s, (f s).account = s.account) (hgroups : ∀ s, s.groupIds ⊆ (f s).groupIds) :
    PageInv native { p with next := p.next.map f } where
  next hnext := by
    obtain ⟨before, hbefore, rfl⟩ := Option.map_eq_some_iff.1 hnext
    obtain ⟨stored, hstored, hsame⟩ := h.next hbefore
    exact ⟨stored, hstored, hsame.trans (haccount before).symm⟩
  starting := h.starting
  empty := h.empty
  joined hq := by
    refine (h.joined hq).trans ?_
    unfold Page.joined
    cases p.next with
    | none => exact Finset.Subset.refl _
    | some next => exact hgroups next

theorem switch (h : PageInv native p) :
    PageInv native { p with old := { p.old with archive } } where
  next := h.next
  starting := h.starting
  empty := h.empty
  joined := h.joined

/-- The stored session is opened, and the device there is goes on. -/
theorem openStored (hq : q ≠ .opening) (hcommitted : q.committed = false)
    (hstarting : q.starting → p.starts ∧ native = none) :
    PageInv native { p with next := native.map (·.reopen archive), position := q } where
  next hnext := by
    obtain ⟨stored, hstored, rfl⟩ := Option.map_eq_some_iff.1 hnext
    exact ⟨stored, hstored, rfl⟩
  starting hq := (hstarting hq).1
  empty _ h := by
    rcases h with h | h
    · exact absurd h hq
    · exact (hstarting h).2
  joined h := by
    rw [hcommitted] at h
    cases h

/-- The new session is written to native storage again. -/
theorem rewrite {next : Session} (h : PageInv native p) (hnext : p.next = some next) :
    PageInv (some next.stored) p where
  next hnext' := by
    rw [hnext] at hnext'
    cases hnext'
    exact ⟨next.stored, rfl, rfl⟩
  starting := h.starting
  empty hstarts hq := by
    obtain ⟨stored, hstored, _⟩ := h.next hnext
    rw [h.empty hstarts hq] at hstored
    cases hstored
  joined := h.joined

theorem saved {session : Session} :
    PageInv (some session.stored) { p with next := some session, position := .propagating 0 } where
  next hnext := by
    cases hnext
    exact ⟨session.stored, rfl, rfl⟩
  starting h := by cases h
  empty _ h := by rcases h with h | h <;> cases h
  joined h := by cases h

end PageInv

namespace World

theorem Inv.put (h : Inv w) (hp : w.page = some p)
    (hpage : PageInv w.native p') (hstoring : p'.position.isStoring = false →
      p.position.isStoring = false) : Inv (w.put p') where
  page hp' := by
    cases hp'
    exact hpage
  sound := h.sound
  once := h.once
  fresh hnative hnot := h.fresh hnative (by
    rw [storing, hp]
    exact hstoring hnot)

/-- Something is done that is no registration. -/
theorem sound_concat (h : ∀ deed ∈ w.history, deed.Sound) (hdeed : deed.Sound) :
    ∀ d ∈ w.history ++ [deed], d.Sound := by
  intro d hd
  rcases List.mem_append.1 hd with hold | hlast
  · exact h d hold
  · obtain rfl := List.mem_singleton.1 hlast
    exact hdeed

theorem countP_concat (hdeed : deed.registers = false) :
    (w.history ++ [deed]).countP Deed.registers = w.history.countP Deed.registers := by
  rw [List.countP_append, List.countP_singleton, hdeed]
  rfl

/-- Something is done that is neither a registration nor a write. -/
theorem Inv.log (h : Inv w) (deed : Deed) (hdeed : deed.Sound) (hnot : deed.registers = false)
    (web : Option Stored) : Inv { w with web, history := w.history ++ [deed] } where
  page := h.page
  sound := sound_concat h.sound hdeed
  once := by
    dsimp only
    rw [countP_concat hnot]
    exact h.once
  fresh hnative hstoring := by
    dsimp only
    rw [countP_concat hnot]
    exact h.fresh hnative hstoring

theorem Inv.revoke (h : Inv w) (hjoined : p.old.conversations ⊆ p.joined) : Inv (w.revoke p) :=
  h.log (.revoke _ _) hjoined rfl w.web

theorem Inv.erase (h : Inv w) (hjoined : p.old.conversations ⊆ p.joined) : Inv (w.erase p) :=
  h.log (.erase _ _) hjoined rfl none

/-- A session goes to native storage, and its account has been there or nobody's has. -/
theorem Inv.write (h : Inv w) {after : Stored}
    (hpage : PageInv (some after) p')
    (hkept : ∀ before, w.native = some before → before.account = after.account) :
    Inv ((w.write after).put p') where
  page hp' := by
    cases hp'
    exact hpage
  sound := by
    refine sound_concat h.sound ?_
    cases hnative : w.native with
    | none => trivial
    | some before => exact hkept before hnative
  once := by
    show (w.history ++ [_]).countP Deed.registers ≤ 1
    rw [countP_concat rfl]
    exact h.once
  fresh hnative := by cases hnative

theorem Inv.abandon (h : Inv w) (hp : w.page = some p) (hnot : p.position.isStoring = false) :
    Inv (w.abandon p) :=
  h.put hp .abandon fun _ => hnot

/-- The server registers the first device. -/
theorem Inv.register (h : Inv w) (hp : w.page = some p) (hnative : w.native = none)
    (hnot : p.position.isStoring = false) (hpage : PageInv w.native p')
    (hstoring : p'.position.isStoring) (device : String) : Inv ((w.register device).put p') where
  page hp' := by
    cases hp'
    exact hpage
  sound := sound_concat h.sound trivial
  once := by
    show (w.history ++ [Deed.register device]).countP Deed.registers ≤ 1
    rw [List.countP_append, h.fresh hnative (by rw [storing, hp]; exact hnot)]
    rfl
  fresh _ hnot' := by
    rw [show ((w.register device).put p').storing = p'.position.isStoring from rfl,
      hstoring] at hnot'
    cases hnot'

theorem Inv.answerRegister {id : String} (h : Inv w) (hp : w.page = some p)
    (hposition : p.position = .registering id names) : Inv (w.answerRegister p id names) := by
  have hpage := h.page hp
  have hstarting : p.position.starting = true := by rw [hposition]; rfl
  have hstarts := hpage.starting hstarting
  have hnative := hpage.empty hstarts (.inr hstarting)
  have hnot : p.position.isStoring = false := by rw [hposition]; rfl
  unfold World.answerRegister
  split
  · exact h.abandon hp hnot
  next name names =>
    split
    · exact h.abandon hp hnot
    split
    · split
      · exact h.abandon hp hnot
      · exact h.put hp (hpage.advance hstarts hnative rfl) fun _ => hnot
    · exact h.register hp hnative hnot (hpage.advance hstarts hnative rfl) rfl _

theorem Inv.count {round : Nat} (h : Inv w) (hp : w.page = some p) (hposition : p.position = .counting round)
    (hguard : p.old.conversations.card ≤ ((p.next.map Session.conversations).getD ∅).card →
      p.old.conversations ⊆ p.joined) : Inv (w.count p round) := by
  have hnot : p.position.isStoring = false := by rw [hposition]; rfl
  unfold World.count
  split
  next hcount =>
    exact h.put hp ((h.page hp).move nofun rfl fun _ => hguard hcount) fun _ => hnot
  split
  · exact h.abandon hp hnot
  · exact h.put hp ((h.page hp).move nofun rfl nofun) fun _ => hnot

theorem Inv.startRevoke (h : Inv w) (hp : w.page = some p) (hposition : p.position = .restoring) :
    Inv (w.startRevoke p) := by
  have hnot : p.position.isStoring = false := by rw [hposition]; rfl
  have hjoined := (h.page hp).joined (by rw [hposition]; rfl)
  unfold World.startRevoke
  split
  · exact h.abandon hp hnot
  split
  · exact h.abandon hp hnot
  · exact h.put hp ((h.page hp).move nofun rfl fun _ => hjoined) fun _ => hnot

/-- What the guard asks on an open page. -/
def allows (w : World) (p : Page) : Action → Prop
  | .counted => p.old.conversations.card ≤ ((p.next.map Session.conversations).getD ∅).card →
      p.old.conversations ⊆ p.joined
  | .gainOld group => p.position.committed → group ∈ p.joined
  | .crash | .fail => p.position.isStoring = false
  | .registeredUnheard => False
  | .execute => p.starts → w.native = none
  | _ => True

theorem allows_of_guard (hp : w.page = some p) (h : w.guard a) : w.allows p a := by
  cases a with
  | counted | gainOld | execute =>
    rw [guard, hp] at h
    have allowed := of_decide_eq_true h
    exact allowed
  | crash | fail =>
    rw [guard, hp] at h
    exact Bool.eq_false_of_not_eq_true' h
  | registeredUnheard =>
    rw [guard, hp] at h
    cases h
  | _ => trivial

theorem Inv.stepPage (h : Inv w) (hp : w.page = some p) (hguard : w.allows p a)
    (hstep : w.stepPage p a = some w') : Inv w' := by
  have hpage := h.page hp
  cases a with
  | restart | install => cases hstep
  | crash =>
    cases hstep
    exact ⟨nofun, h.sound, h.once, fun hnative _ => h.fresh hnative (by rw [storing, hp]; exact hguard)⟩
  | gainOld group =>
    cases hstep
    exact h.put hp (hpage.gainOld hguard) id
  | gainNext group =>
    cases hstep
    exact h.put hp (hpage.mapNext (fun _ => rfl) fun _ => Finset.subset_insert _ _) id
  | loseOld group =>
    cases hstep
    exact h.put hp hpage.loseOld id
  | loseNext group =>
    cases hstep
    exact h.put hp (hpage.mapNext (fun _ => rfl) fun _ => Finset.Subset.refl _) id
  | switch archive =>
    cases hstep
    exact h.put hp hpage.switch id
  | persistOld =>
    obtain ⟨_, hstep⟩ := Option.ite_none_left_eq_some.1 hstep
    cases hstep
    exact ⟨h.page, h.sound, h.once, h.fresh⟩
  | persistNext =>
    obtain ⟨next, hnext, rfl⟩ := Option.map_eq_some_iff.1 hstep
    obtain ⟨stored, hstored, hsame⟩ := hpage.next hnext
    have hwritten := h.write (hpage.rewrite hnext) fun before hbefore => by
      rw [hstored] at hbefore
      cases hbefore
      exact hsame
    rwa [show (w.write next.stored).put p = w.write next.stored from by
      rw [World.put, World.write, ← hp]] at hwritten
  | execute =>
    simp only [World.stepPage] at hstep
    split at hstep
    next hposition hdecision =>
      cases hstep
      have hstarts : p.starts = true := by rw [Page.starts, hdecision]
      exact h.put hp (hpage.advance hstarts (hguard hstarts) rfl) fun _ => by rw [hposition]; rfl
    next hposition hdecision =>
      cases hstep
      have hstarts : ¬ p.starts := by
        rw [Page.starts, hdecision]
        exact Bool.false_ne_true
      exact h.put hp (hpage.reopening hstarts) fun _ => by rw [hposition]; rfl
    · cases hstep
  | opened archive =>
    obtain ⟨hposition, hstep⟩ := Option.ite_none_right_eq_some.1 hstep
    have hnot : p.position.isStoring = false := by rw [hposition]; rfl
    split at hstep
    next handle hdecision =>
      cases hstep
      have hstarts : p.starts = true := by rw [Page.starts, hdecision]
      exact h.put hp (.openStored nofun rfl fun _ => ⟨hstarts, hpage.empty hstarts (.inl hposition)⟩)
        fun _ => hnot
    · cases hstep
      exact h.put hp (.openStored nofun rfl nofun) fun _ => hnot
  | resolved id =>
    obtain ⟨hposition, hstep⟩ := Option.ite_none_right_eq_some.1 hstep
    cases hstep
    have hstarting : p.position.starting = true := by rw [hposition]; rfl
    have hstarts := hpage.starting hstarting
    exact h.put hp (hpage.advance hstarts (hpage.empty hstarts (.inr hstarting)) rfl)
      fun _ => by rw [hposition]; rfl
  | registered =>
    simp only [World.stepPage] at hstep
    split at hstep
    next hposition =>
      cases hstep
      exact h.answerRegister hp hposition
    · cases hstep
  | registeredUnheard => exact hguard.elim
  | saved archive =>
    simp only [World.stepPage] at hstep
    split at hstep
    next session hposition =>
      cases hstep
      have hstarting : p.position.starting = true := by rw [hposition]; rfl
      refine h.write .saved fun before hbefore => ?_
      rw [hpage.empty (hpage.starting hstarting) (.inr hstarting)] at hbefore
      cases hbefore
    · cases hstep
  | polled =>
    simp only [World.stepPage] at hstep
    split at hstep
    next round hposition =>
      cases hstep
      exact h.put hp (hpage.move nofun rfl nofun) fun _ => by rw [hposition]; rfl
    next hposition =>
      cases hstep
      have hjoined := hpage.joined (by rw [hposition]; rfl)
      exact h.put hp (hpage.forget hjoined) fun _ => by rw [hposition]; rfl
    · cases hstep
  | counted =>
    simp only [World.stepPage] at hstep
    split at hstep
    next round hposition =>
      cases hstep
      exact h.count hp hposition hguard
    · cases hstep
  | waited =>
    simp only [World.stepPage] at hstep
    split at hstep
    next round hposition =>
      cases hstep
      exact h.put hp (hpage.move nofun rfl nofun) fun _ => by rw [hposition]; rfl
    · cases hstep
  | restored =>
    obtain ⟨hposition, hstep⟩ := Option.ite_none_right_eq_some.1 hstep
    cases hstep
    exact h.startRevoke hp hposition
  | revoked =>
    obtain ⟨hposition, hstep⟩ := Option.ite_none_right_eq_some.1 hstep
    have hnot : p.position.isStoring = false := by rw [hposition]; rfl
    have hjoined := hpage.joined (by rw [hposition]; rfl)
    split at hstep
    · cases hstep
      exact (h.revoke hjoined).put hp (hpage.move nofun rfl fun _ => hjoined) fun _ => hnot
    · cases hstep
      exact h.abandon hp hnot
  | revokedUnheard =>
    obtain ⟨⟨hposition, _⟩, hstep⟩ := Option.ite_none_right_eq_some.1 hstep
    cases hstep
    exact (h.revoke (hpage.joined (by rw [hposition]; rfl))).abandon hp (by rw [hposition]; rfl)
  | cleared =>
    obtain ⟨hposition, hstep⟩ := Option.ite_none_right_eq_some.1 hstep
    cases hstep
    exact (h.erase (hpage.joined (by rw [hposition]; rfl))).put hp (hpage.move nofun rfl nofun)
      fun _ => by rw [hposition]; rfl
  | fail =>
    obtain ⟨_, hstep⟩ := Option.ite_none_left_eq_some.1 hstep
    cases hstep
    exact h.abandon hp hguard

/-- A page opens with nothing under way. -/
theorem pageInv_restart {stored : Stored} {decision : Decision} (forgotten : Bool) :
    PageInv native ⟨kind, stored.reopen opened, forgotten, decision, none, .idle⟩ where
  next h := by cases h
  starting h := by cases h
  empty _ h := by rcases h with h | h <;> cases h
  joined h := by cases h

theorem Inv.step (h : Inv w) (hguard : w.guard a) (hstep : w.step a = some w') : Inv w' := by
  unfold World.step at hstep
  split at hstep
  next p hp => exact h.stepPage hp (allows_of_guard hp hguard) hstep
  next hp =>
    have hstoring : w.storing = false := by rw [storing, hp]; rfl
    split at hstep
    next kind opened =>
      obtain ⟨stored, _, rfl⟩ := Option.map_eq_some_iff.1 hstep
      refine ⟨fun hp' => ?_, h.sound, h.once, fun hnative _ => h.fresh hnative hstoring⟩
      cases hp'
      exact pageInv_restart false
    next session =>
      obtain ⟨_, hstep⟩ := Option.ite_none_right_eq_some.1 hstep
      cases hstep
      refine ⟨fun hp' => ?_, h.sound, h.once, nofun⟩
      rw [show w.page = none from hp] at hp'
      cases hp'
    · cases hstep

theorem inv_start {web : Option Stored} {devices : List String} :
    Inv (start web native devices) where
  page h := by cases h
  sound := nofun
  once := Nat.zero_le _
  fresh _ _ := rfl

/-- Whatever the two anchors hold, and wherever the runs are interrupted. -/
theorem migration_safe {web : Option Stored} {devices : List String}
    (h : Reach step (fun w a => w.guard a) (start web native devices) w) : Safe w.history := by
  have inv : Inv w := h.invariant inv_start fun h hguard hstep => h.step hguard hstep
  exact ⟨fun h => inv.sound _ h, fun h => inv.sound _ h, fun h => inv.sound _ h, inv.once⟩

def account : String := "00112233445566778899aabbccddeeff"

/-- The web session of an account with these conversations. -/
def webSession (groupIds : Finset String) : Stored where
  deviceId := account ++ ":desktop"
  account
  handle := "alice"
  vaultEnabled := some true
  groupIds

/-- Up to a native device whose session is stored. -/
def registration : List Action :=
  [.restart .desktop true, .execute, .opened true, .resolved account, .registered, .registered,
    .saved true]

/-- The page closes as soon as the new session is stored; the next one finishes. -/
def interrupted : List Action :=
  registration ++ [.crash, .restart .desktop true, .execute, .opened true, .polled,
    .gainNext "h", .counted, .waited, .polled, .gainOld "i", .gainNext "g", .gainNext "i",
    .persistNext, .counted, .restored, .revoked, .polled, .cleared]

theorem migration_safe_interrupted :
    ∃ w, Reach step (fun w a => w.guard a)
        (start (some (webSession {"g", "h"})) none [account ++ ":desktop"]) w ∧
      w.web = none ∧
      .erase {"i", "g", "h"} {"i", "g", "h"} ∈ w.history ∧ Safe w.history := by
  have evaluated : (run (fun w a => if w.guard a then w.step a else none)
      (start (some (webSession {"g", "h"})) none [account ++ ":desktop"]) interrupted).map
        (fun w => (w.web, w.history.getLast?)) =
          some (none, some (.erase {"i", "g", "h"} {"i", "g", "h"})) := by decide +kernel
  obtain ⟨w, hrun, hw⟩ := Option.map_eq_some_iff.1 evaluated
  obtain ⟨hweb, hlast⟩ := Prod.mk.inj hw
  have reach := reach_of_run_guarded hrun
  exact ⟨w, reach, hweb, List.mem_of_getLast? hlast, migration_safe reach⟩

/-- The new device is invited to `h` before it has been added to `g`: one conversation each. -/
def alike : List Action :=
  registration ++ [.polled, .gainNext "h", .counted, .restored, .revoked, .polled, .cleared]

/-- The request fails that propagates, and the same offer is taken up again. -/
def again : List Action :=
  registration ++ [.fail, .execute, .opened true, .resolved account, .registered, .registered,
    .registered]

/-- One count for another erases the only session that is in `g`; a second go at an offer to start
registers a second device. -/
theorem counts_alike_and_started_again :
    (∃ w, run step (start (some (webSession {"g"})) none [account ++ ":desktop"]) alike = some w ∧
      w.web = none ∧ .erase {"g"} {"h"} ∈ w.history ∧ ¬ Safe w.history) ∧
    ∃ w, run step (start (some (webSession {"g"})) none [account ++ ":desktop"]) again = some w ∧
      .register (account ++ ":desktop-2") ∈ w.history ∧
      .register (account ++ ":desktop-3") ∈ w.history ∧ ¬ Safe w.history := by
  constructor
  · have evaluated : (run step (start (some (webSession {"g"})) none [account ++ ":desktop"])
        alike).map (fun w => (w.web, w.history.getLast?)) =
          some (none, some (.erase {"g"} {"h"})) := by decide +kernel
    obtain ⟨w, hrun, hw⟩ := Option.map_eq_some_iff.1 evaluated
    obtain ⟨hweb, hlast⟩ := Prod.mk.inj hw
    have hmem := List.mem_of_getLast? hlast
    refine ⟨w, hrun, hweb, hmem, fun safe => ?_⟩
    exact absurd (safe.erased hmem) (by decide)
  · have evaluated : (run step (start (some (webSession {"g"})) none [account ++ ":desktop"])
        again).map (fun w => w.history.filter Deed.registers) =
          some [.register (account ++ ":desktop-2"), .register (account ++ ":desktop-3")] := by
      decide +kernel
    obtain ⟨w, hrun, hw⟩ := Option.map_eq_some_iff.1 evaluated
    have hmem : ∀ deed ∈ w.history.filter Deed.registers, deed ∈ w.history :=
      fun deed h => (List.mem_filter.1 h).1
    refine ⟨w, hrun, hmem _ (by rw [hw]; simp), hmem _ (by rw [hw]; simp), fun safe => ?_⟩
    have twice := safe.once
    rw [List.countP_eq_length_filter, hw] at twice
    exact absurd twice (by decide)

end World

end Whispee.Migration
