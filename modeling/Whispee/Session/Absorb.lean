import Whispee.Lib.LastWriter
import Whispee.Session.Reopen

/-!
# Absorbing what peers call themselves

`Names.absorb` and `Names.absorbHandle` of `apps/web/src/lib/session-naming.ts`, over runs in which
names are persisted with the session and read back. A reload takes up the last write: what was
absorbed after it is delivered again, or is as good as never heard.
-/

namespace Whispee.Session.Absorb

open Naming Hydrate LastWriter

/-! ## `hydrate` and `snapshot` -/

/-- The part of the stored session that names are in. -/
structure StoredNames where
  displayName : Option String
  profiles : Option (Dictionary Profile)
  handles : Option (Dictionary HandleClaim)
  petnames : Option (Dictionary String)

def hydrate : Option StoredNames → Names
  | none => .empty
  | some stored => {
    own := stored.displayName
    declared := stored.profiles.getD ∅
    claimed := (stored.handles.getD ∅).map fun claim => ⟨claim.handle, claim.at_⟩
    given := stored.petnames.getD ∅ }

def snapshot (names : Names) : StoredNames where
  displayName := names.own
  profiles := whenFilled names.declared
  handles := whenFilled (names.claimed.map fun claim => ⟨claim.name, claim.at_⟩)
  petnames := whenFilled names.given

theorem hydrate_snapshot (names : Names) : hydrate (some (snapshot names)) = names := by
  unfold hydrate snapshot
  dsimp only
  rw [whenFilled_getD, whenFilled_getD, whenFilled_getD, map_map _ _ (fun _ => rfl)]

/-- The names of a whole session are read the same way. -/
theorem hydrateNames_eq (stored : Hydrate.StoredSession) : hydrateNames stored =
    hydrate (some ⟨stored.displayName, stored.profiles, stored.handles, stored.petnames⟩) := rfl

/-! ## Runs -/

/-- What the author of a message says about itself. -/
structure Said where
  account : String
  text : String
  at_ : Nat

inductive Announcement where
  | profile (said : Said)
  | handle (said : Said)

inductive Event where
  | absorb (a : Announcement)
  | persist
  | reload

structure Device where
  names : Names
  stored : Option StoredNames

def Device.fresh : Device := ⟨hydrate none, none⟩

section
variable (U : Unicode)

def take (names : Names) : Announcement → Names
  | .profile said => (names.absorb U said.account said.text said.at_).2
  | .handle said => (names.absorbHandle U said.account said.text said.at_).2

def step (d : Device) : Event → Device
  | .absorb a => { d with names := take U d.names a }
  | .persist => { d with stored := some (snapshot d.names) }
  | .reload => { d with names := hydrate d.stored }

def run (events : List Event) : Device := events.foldl (step U) .fresh

/-- It passes the validation of `absorb`, of `absorbHandle`. A name that cleans away to nothing
passes, and clears the name there was. -/
def Announcement.Passes : Announcement → Prop
  | profile said => sanitize U said.text = "" ∨ validate (sanitize U said.text) = none
  | handle said => validateHandle (normalize U said.text) = none

end

/-- What was heard, and not lost since: in memory, and in the last write. -/
structure Heard where
  memory : List Announcement
  written : List Announcement

def hearEvent (h : Heard) : Event → Heard
  | .absorb a => { h with memory := h.memory ++ [a] }
  | .persist => { h with written := h.memory }
  | .reload => { h with memory := h.written }

def heard (events : List Event) : Heard := events.foldl hearEvent ⟨[], []⟩

section
variable (U : Unicode) (account : String)

/-- The names an account gave itself, as they are kept. -/
def profilesIn (announcements : List Announcement) : List Profile :=
  announcements.filterMap fun
    | .profile said =>
      if said.account = account then some ⟨sanitize U said.text, said.at_⟩ else none
    | .handle _ => none

/-- The handles it claimed. -/
def handlesIn (announcements : List Announcement) : List Profile :=
  announcements.filterMap fun
    | .profile _ => none
    | .handle said =>
      if said.account = account then some ⟨normalize U said.text, said.at_⟩ else none

/-- A name, not the clearing of one. -/
def isName (p : Profile) : Bool := p.name ≠ ""

end

/-! ## What is held -/

section
variable {U : Unicode} {account : String}

theorem run_concat : run U (events ++ [e]) = step U (run U events) e := by
  rw [run, List.foldl_append]
  rfl

theorem heard_concat : heard (events ++ [e]) = hearEvent (heard events) e := by
  rw [heard, List.foldl_append]
  rfl

/-- What is in memory, and what the last write reads back as, is what was heard. -/
theorem run_names (events : List Event) :
    (run U events).names = (heard events).memory.foldl (take U) .empty ∧
      hydrate (run U events).stored = (heard events).written.foldl (take U) .empty := by
  induction events using List.reverseRecOn with
  | nil => exact ⟨rfl, rfl⟩
  | append_singleton events e ih =>
    obtain ⟨hmemory, hwritten⟩ := ih
    rw [run_concat, heard_concat]
    cases e with
    | absorb a =>
      refine ⟨?_, hwritten⟩
      change take U (run U events).names a = ((heard events).memory ++ [a]).foldl (take U) .empty
      rw [List.foldl_append, ← hmemory]
      rfl
    | persist => exact ⟨hmemory, (hydrate_snapshot _).trans hmemory⟩
    | reload => exact ⟨hwritten, hwritten⟩

/-- `absorb` hears a name that passes, for its account alone. -/
theorem declared_absorb {names : Names} {said : Said}
    (h : sanitize U said.text = "" ∨ validate (sanitize U said.text) = none) :
    (names.absorb U said.account said.text said.at_).2.declared.get? account =
      if said.account = account then
        hear Profile.at_ isName (names.declared.get? account) ⟨sanitize U said.text, said.at_⟩
      else names.declared.get? account := by
  have hpass : ¬(sanitize U said.text ≠ "" && (validate (sanitize U said.text)).isSome) = true := by
    rcases h with h | h <;> simp [h]
  rw [hear_eq]
  by_cases hknown : (names.declared.get? said.account).any (said.at_ ≤ ·.at_)
  · rw [Names.absorb, if_pos hknown]
    split
    · rename_i haccount
      rw [← haccount, if_pos hknown]
    · rfl
  · rw [Names.absorb, if_neg hknown]
    dsimp only
    rw [if_neg hpass]
    by_cases hname : sanitize U said.text = ""
    · rw [if_pos hname]
      dsimp only
      rw [Dictionary.get?_erase]
      split
      · rename_i haccount
        rw [if_pos haccount.symm, haccount, if_neg hknown, hname]
        rfl
      · rename_i haccount
        rw [if_neg (Ne.symm haccount)]
    · rw [if_neg hname]
      dsimp only
      rw [Dictionary.get?_set]
      split
      · rename_i haccount
        rw [if_pos haccount.symm, haccount, if_neg hknown]
        exact (if_pos (decide_eq_true hname)).symm
      · rename_i haccount
        rw [if_neg (Ne.symm haccount)]

/-- `absorbHandle` hears a handle that passes. -/
theorem claimed_absorbHandle {names : Names} {said : Said}
    (h : validateHandle (normalize U said.text) = none) :
    (names.absorbHandle U said.account said.text said.at_).2.claimed.get? account =
      if said.account = account then
        hear Profile.at_ (fun _ => true) (names.claimed.get? account)
          ⟨normalize U said.text, said.at_⟩
      else names.claimed.get? account := by
  rw [hear_eq]
  by_cases hknown : (names.claimed.get? said.account).any (said.at_ ≤ ·.at_)
  · rw [Names.absorbHandle, if_pos hknown]
    split
    · rename_i haccount
      rw [← haccount, if_pos hknown]
    · rfl
  · rw [Names.absorbHandle, if_neg hknown]
    dsimp only
    rw [if_neg (by rw [h]; decide)]
    dsimp only
    rw [Dictionary.get?_set]
    split
    · rename_i haccount
      rw [if_pos haccount.symm, haccount, if_neg hknown]
      rfl
    · rename_i haccount
      rw [if_neg (Ne.symm haccount)]

theorem profilesIn_cons : profilesIn U account (.profile said :: announcements) =
    if said.account = account then
      ⟨sanitize U said.text, said.at_⟩ :: profilesIn U account announcements
    else profilesIn U account announcements := by
  by_cases h : said.account = account <;> simp [profilesIn, h]

theorem handlesIn_cons : handlesIn U account (.handle said :: announcements) =
    if said.account = account then
      ⟨normalize U said.text, said.at_⟩ :: handlesIn U account announcements
    else handlesIn U account announcements := by
  by_cases h : said.account = account <;> simp [handlesIn, h]

theorem declared_absorbHandle (names : Names) (said : Said) :
    (names.absorbHandle U said.account said.text said.at_).2.declared = names.declared := by
  unfold Names.absorbHandle
  split
  · rfl
  · dsimp only
    split <;> rfl

theorem claimed_absorb (names : Names) (said : Said) :
    (names.absorb U said.account said.text said.at_).2.claimed = names.claimed := by
  unfold Names.absorb
  split
  · rfl
  · dsimp only
    split
    · rfl
    · split <;> rfl

theorem declared_foldl {announcements : List Announcement} {names : Names}
    (h : ∀ a ∈ announcements, a.Passes U) :
    (announcements.foldl (take U) names).declared.get? account =
      (profilesIn U account announcements).foldl (hear Profile.at_ isName)
        (names.declared.get? account) := by
  induction announcements generalizing names with
  | nil => rfl
  | cons a announcements ih =>
    rw [List.forall_mem_cons] at h
    rw [List.foldl_cons, ih h.2]
    cases a with
    | profile said =>
      rw [take, declared_absorb h.1, profilesIn_cons]
      split <;> rfl
    | handle said =>
      rw [take, declared_absorbHandle]
      rfl

theorem claimed_foldl {announcements : List Announcement} {names : Names}
    (h : ∀ a ∈ announcements, a.Passes U) :
    (announcements.foldl (take U) names).claimed.get? account =
      (handlesIn U account announcements).foldl (hear Profile.at_ fun _ => true)
        (names.claimed.get? account) := by
  induction announcements generalizing names with
  | nil => rfl
  | cons a announcements ih =>
    rw [List.forall_mem_cons] at h
    rw [List.foldl_cons, ih h.2]
    cases a with
    | profile said =>
      rw [take, claimed_absorb]
      rfl
    | handle said =>
      rw [take, claimed_absorbHandle h.1, handlesIn_cons]
      split <;> rfl

/-- The handle held is the latest one heard. So is the name, or the clearing of it, exactly where
the latest announcement names the account or each that does is followed by a later one: a clearing
leaves no time behind, and what is older than it counts again. -/
theorem absorbed_iff {events : List Event} (account : String)
    (passes : ∀ a ∈ (heard events).memory, a.Passes U)
    (distinct : Distinct Profile.at_ (profilesIn U account (heard events).memory)) :
    (run U events).names.claimed.get? account =
      latest Profile.at_ (handlesIn U account (heard events).memory) ∧
    ((run U events).names.declared.get? account =
        (latest Profile.at_ (profilesIn U account (heard events).memory)).filter isName ↔
      (∀ last, latest Profile.at_ (profilesIn U account (heard events).memory) = some last →
        last.name ≠ "") ∨
      ∀ before p after, profilesIn U account (heard events).memory = before ++ p :: after →
        p.name ≠ "" → ∃ later ∈ after, p.at_ < later.at_) := by
  rw [(run_names events).1, claimed_foldl passes, declared_foldl passes]
  refine ⟨foldl_hear_of_keep fun _ _ => rfl, ?_⟩
  rw [show Names.empty.declared.get? account = none from rfl, foldl_hear_eq_latest_iff distinct]
  refine or_congr ?_ ?_
  · exact forall₂_congr fun last _ => decide_eq_true_iff
  · constructor
    · intro h before p after heq hp
      by_contra hnot
      refine h p ⟨decide_eq_true hp, before, after, heq, fun e he => ?_⟩
      exact Nat.le_of_not_lt fun hlt => hnot ⟨e, he, hlt⟩
    · rintro h p ⟨hp, before, after, heq, hafter⟩
      obtain ⟨e, he, hlt⟩ := h before p after heq (of_decide_eq_true hp)
      exact Nat.not_le_of_lt hlt (hafter e he)

end

/-! ## A name that is cleared -/

def alice : String := "aaaaaaaaaaaaaaaaaaaaaaaaaaaaaaaa"

def named : Announcement := .profile ⟨alice, "Alice", 1⟩

def cleared : Announcement := .profile ⟨alice, "", 2⟩

theorem passes_of_mem {announcements : List Announcement}
    (h : ∀ a ∈ announcements, a = named ∨ a = cleared) : ∀ a ∈ announcements, a.Passes ascii := by
  intro a ha
  rcases h a ha with rfl | rfl
  · exact .inr (by rfl)
  · exact .inl (by decide +kernel)

theorem distinct_of_mem {profiles : List Profile}
    (h : ∀ p ∈ profiles, p = ⟨"Alice", 1⟩ ∨ p = ⟨"", 2⟩) : Distinct Profile.at_ profiles := by
  intro p hp q hq heq
  rcases h p hp with rfl | rfl <;> rcases h q hq with rfl | rfl <;> first | rfl | cases heq

/-- In the order they were said, across a restart. -/
theorem absorbed_iff_clearedLast :
    let events : List Event := [.absorb named, .persist, .reload, .absorb cleared, .persist]
    (run ascii events).names.declared.get? alice = none := by
  intro events
  have hprofiles : profilesIn ascii alice (heard events).memory = [⟨"Alice", 1⟩, ⟨"", 2⟩] := by
    decide +kernel
  have hpasses : ∀ a ∈ (heard events).memory, a.Passes ascii :=
    passes_of_mem fun a ha => by simpa [events, heard, hearEvent] using ha
  have hheld := (absorbed_iff alice hpasses
    (distinct_of_mem fun p hp => by simpa [hprofiles] using hp)).2
  rw [hprofiles] at hheld
  refine (hheld.2 (.inr ?_)).trans (by decide)
  intro before p after heq hp
  cases before with
  | nil =>
    obtain ⟨rfl, rfl⟩ := List.cons.inj heq
    exact ⟨_, List.mem_singleton_self _, Nat.lt_succ_self 1⟩
  | cons first before =>
    have hlast := (List.cons.inj heq).2
    cases before with
    | nil =>
      obtain ⟨rfl, rfl⟩ := List.cons.inj hlast
      exact absurd rfl hp
    | cons second before => simp at hlast

/-- Alice clears her name, and what she called herself before is delivered again. -/
def repeated : List Event := [.absorb named, .absorb cleared, .absorb named]

theorem cleared_name_comes_back :
    (run ascii repeated).names.declared.get? alice = some ⟨"Alice", 1⟩ ∧
    ¬∀ (U : Unicode) (events : List Event) (account : String),
      (∀ a ∈ (heard events).memory, a.Passes U) →
      Distinct Profile.at_ (profilesIn U account (heard events).memory) →
      (run U events).names.declared.get? account =
        (latest Profile.at_ (profilesIn U account (heard events).memory)).filter isName := by
  have hrun : (run ascii repeated).names.declared.get? alice = some ⟨"Alice", 1⟩ := by
    decide +kernel
  have hprofiles : profilesIn ascii alice (heard repeated).memory =
      [⟨"Alice", 1⟩, ⟨"", 2⟩, ⟨"Alice", 1⟩] := by
    decide +kernel
  refine ⟨hrun, fun h => ?_⟩
  have hheld := h ascii repeated alice
    (passes_of_mem fun a ha => by simp [repeated, heard, hearEvent] at ha; tauto)
    (distinct_of_mem fun p hp => by simp [hprofiles] at hp; tauto)
  rw [hrun, hprofiles] at hheld
  revert hheld
  decide

end Whispee.Session.Absorb
