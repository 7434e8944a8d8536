import Whispee.Session.Persist

/-!
# What is written is a snapshot

A record whose first half was read at one time and whose second half at another is the record of one
instant if the second half did not change before the first had. A write that lands after one of a
later call takes the store back.
-/

namespace Whispee.Session.Persist

open Transition

variable {Settings : Type}

/-- The record the call has written. -/
def Call.written (c : Call Settings) : Option (StoredSession Settings) :=
  match c.phase with
  | .written stored => some stored
  | _ => none

/-- Between its two readings: the first half of the record, and not the second. -/
def Call.reading (c : Call Settings) : Option (Early Settings) :=
  match c.phase with
  | .sealingSeed early | .sealingState early => some early
  | _ => none

namespace World

/-- While a call is between its two readings, what it reads last changes only where what it has read
first is still so; and no call writes after one that started later. -/
def steady [DecidableEq Settings] (w : World Settings) : Action Settings → Bool
  | .change live => w.persists.all fun c =>
    match c.reading with
    | some early => live.late early = w.live.late early ∨ live.early = early
    | none => true
  | .resume i =>
    match w.persists[i]? with
    | some ⟨.saving _, _⟩ => (w.persists.drop (i + 1)).all fun c => c.written.isNone
    | _ => true
  | _ => true

/-- Every record written is that of one instant, after its call and before it was complete; and once
all calls have finished, the store holds what the last of them to start has read. -/
structure Consistent (w : World Settings) : Prop where
  snapshot : ∀ c ∈ w.persists, ∀ stored, c.phase = .written stored →
    ∃ l ∈ c.instants, stored = composeStored l
  latest : w.forgotten = false → (∀ c ∈ w.persists, c.running = false) →
    ∀ before c after, w.persists = before ++ c :: after → (∀ c' ∈ after, c'.phase = .failed) →
      c.phase ≠ .failed → ∃ stored, c.phase = .written stored ∧ w.store = some stored

end World

/-! ## The invariant -/

/-- What a call has read is so, or was, at one of the instants it has seen. -/
def Call.Ok (live : Live Settings) (c : Call Settings) : Prop :=
  match c.phase with
  | .sealingSeed early | .sealingState early =>
    ∃ l ∈ c.instants, l.early = early ∧ l.late early = live.late early
  | .sealingHistory stored | .saving stored | .written stored =>
    ∃ l ∈ c.instants, stored = composeStored l
  | .failed => True

structure Inv (w : World Settings) : Prop where
  calls : ∀ c ∈ w.persists, c.Ok w.live
  forgotten : w.clears ≠ [] → w.forgotten = true
  latest : w.forgotten = false → ∀ stored,
    (w.persists.filterMap Call.written).getLast? = some stored → w.store = some stored

theorem filterMap_set {f : α → Option β} {l : List α} (at_ : l[i]? = some a) (h : f b = f a) :
    (l.set i b).filterMap f = l.filterMap f := by
  induction l generalizing i with
  | nil => cases at_
  | cons x l ih =>
    cases i with
    | zero =>
      cases at_
      rw [List.set_cons_zero, List.filterMap_cons, List.filterMap_cons, h]
    | succ i => rw [List.set_cons_succ, List.filterMap_cons, List.filterMap_cons, ih at_]

theorem getLast?_filterMap_set {f : α → Option β} {l : List α} (at_ : l[i]? = some a)
    (h : f b = some r) (last : ∀ x ∈ l.drop (i + 1), f x = none) :
    ((l.set i b).filterMap f).getLast? = some r := by
  have inRange : i < l.length := (List.getElem?_eq_some_iff.1 at_).1
  have nothing : (l.drop (i + 1)).filterMap f = [] := List.filterMap_eq_nil_iff.2 last
  rw [List.set_eq_take_append_cons_drop, if_pos inRange, List.filterMap_append,
    List.filterMap_cons_some h, nothing]
  exact List.getLast?_concat

variable {w : World Settings}

/-- Two readings of one instant make its record. -/
theorem eq_composeStored {l : Live Settings} (hearly : l.early = early) (hlate : l.late early = late) :
    (⟨early, late⟩ : StoredSession Settings) = composeStored l := by
  subst hearly
  rw [composeStored, hlate]

theorem Call.Ok.observe [DecidableEq Settings] {c : Call Settings} (h : c.Ok w.live)
    (hg : ∀ early, c.reading = some early →
      live.late early = w.live.late early ∨ live.early = early) :
    (World.observe live c).Ok live := by
  obtain ⟨phase, instants⟩ := c
  cases phase with
  | sealingSeed early | sealingState early =>
    rcases hg early rfl with same | still
    · obtain ⟨l, hl, hearly, hlate⟩ := h
      exact ⟨l, List.mem_append_left _ hl, hearly, hlate.trans same.symm⟩
    · exact ⟨live, List.mem_append_right _ (List.mem_singleton_self _), still, rfl⟩
  | _ => exact h

theorem written_observe (live : Live Settings) (c : Call Settings) :
    (World.observe live c).written = c.written := by
  obtain ⟨phase, instants⟩ := c
  cases phase <;> rfl

namespace Inv

/-- A call moves on, having written nothing. -/
theorem setPhase (h : Inv w) (at_ : w.persists[i]? = some c) (ok : ({ c with phase } : Call _).Ok w.live)
    (same : ({ c with phase } : Call _).written = c.written) : Inv (w.setPhase i c phase) where
  calls := Tasks.forall_mem_set h.calls ok
  forgotten := h.forgotten
  latest hnot stored hlast := by
    refine h.latest hnot stored ?_
    rw [← filterMap_set at_ same]
    exact hlast

theorem resume [DecidableEq Settings] (h : Inv w) (at_ : w.persists[i]? = some c)
    (hg : w.steady (.resume i)) (hs : w.resume i c = some w') : Inv w' := by
  have ok := h.calls c (List.mem_of_getElem? at_)
  obtain ⟨phase, instants⟩ := c
  cases phase with
  | sealingSeed early =>
    cases hs
    exact h.setPhase at_ ok rfl
  | sealingState early =>
    cases hs
    obtain ⟨l, hl, hearly, hlate⟩ := ok
    exact h.setPhase at_ ⟨l, hl, eq_composeStored hearly hlate⟩ rfl
  | sealingHistory stored =>
    cases hs
    exact h.setPhase at_ ok rfl
  | saving stored =>
    cases hs
    refine ⟨Tasks.forall_mem_set h.calls ok, h.forgotten, fun _ stored' hlast => ?_⟩
    have last : ∀ x ∈ w.persists.drop (i + 1), x.written = none := by
      simp only [World.steady, at_, List.all_eq_true, Option.isNone_iff_eq_none] at hg
      exact hg
    have written := getLast?_filterMap_set (f := Call.written) (b := ⟨.written stored, instants⟩)
      at_ rfl last
    exact written.symm.trans hlast
  | written | failed => cases hs

theorem step [DecidableEq Settings] (h : Inv w) (hg : w.steady a) (hs : w.step a = some w') :
    Inv w' := by
  cases a with
  | change live =>
    cases hs
    refine ⟨fun c hc => ?_, h.forgotten, fun hnot stored hlast => h.latest hnot stored ?_⟩
    · obtain ⟨c, hold, rfl⟩ := List.mem_map.1 hc
      refine (h.calls c hold).observe fun early hearly => ?_
      have kept := List.all_eq_true.1 hg c hold
      simp only [hearly, decide_eq_true_eq] at kept
      exact kept
    · rw [← hlast, List.filterMap_map]
      congr 1
      exact List.filterMap_congr fun c _ => (written_observe live c).symm
  | persist =>
    simp only [World.step] at hs
    split at hs
    · cases hs
    · cases hs
      refine ⟨?_, h.forgotten, fun hnot stored hlast => h.latest hnot stored ?_⟩
      · exact Tasks.forall_mem_concat h.calls ⟨w.live, List.mem_singleton_self _, rfl, rfl⟩
      · rw [List.filterMap_append] at hlast
        simpa [Call.written] using hlast
  | resume i =>
    simp only [World.step] at hs
    split at hs
    next at_ => exact h.resume at_ hg hs
    next => cases hs
  | fail i =>
    simp only [World.step] at hs
    split at hs
    next c at_ =>
      obtain ⟨running, hs⟩ := Option.ite_none_right_eq_some.1 hs
      cases hs
      refine h.setPhase at_ trivial ?_
      obtain ⟨phase, instants⟩ := c
      cases phase with
      | written => cases running
      | _ => rfl
    next => cases hs
  | forget =>
    cases hs
    exact ⟨h.calls, fun _ => rfl, fun hnot => Bool.noConfusion hnot⟩
  | clear j =>
    simp only [World.step] at hs
    split at hs
    next at_ =>
      cases hs
      have forgotten : w.forgotten = true := h.forgotten fun hnil => by
        rw [hnil] at at_
        cases at_
      exact ⟨h.calls, fun _ => forgotten, fun hnot => Bool.noConfusion (forgotten.symm.trans hnot)⟩
    next => cases hs

theorem consistent (h : Inv w) : w.Consistent where
  snapshot c hc stored hstored := by
    have ok := h.calls c hc
    rwa [Call.Ok, hstored] at ok
  latest hnot finished before c after hpersists failed hc := by
    have stopped : c.running = false := finished c (hpersists ▸ List.mem_append_right _ List.mem_cons_self)
    obtain ⟨phase, instants⟩ := c
    cases phase with
    | written stored =>
      refine ⟨stored, rfl, h.latest hnot stored ?_⟩
      have nothing : after.filterMap Call.written = [] :=
        List.filterMap_eq_nil_iff.2 fun c' hc' => by rw [Call.written, failed c' hc']
      have here : Call.written ⟨.written stored, instants⟩ = some stored := rfl
      rw [hpersists, List.filterMap_append, List.filterMap_cons_some here, nothing]
      exact List.getLast?_concat
    | failed => exact absurd rfl hc
    | _ => cases stopped

end Inv

/-- The session with a message in its outbox. -/
def queued : Live String :=
  ⟨"alice", [1], [[0xab]], [("ab", ⟨3, none, [], [⟨"m", "hi", 10⟩], 0⟩)]⟩

/-- A message is queued while a `persist` seals the state, and another `persist` begins. -/
def persistTwice : List (Action String) :=
  [.persist, .resume 0, .change queued, .resume 0, .persist, .resume 0, .resume 0, .resume 1,
    .resume 1, .resume 1, .resume 1]

/-- The session once an envelope is absorbed: the MLS state, the cursor and the thread have moved. -/
def absorbed : Live String :=
  ⟨"alice", [2], [[0xab]], [("ab", ⟨4, none, [⟨4, "phone", false, [7], none⟩], [], 0⟩)]⟩

/-- An envelope is absorbed while a `persist` seals the seed. -/
def absorbWhileSealing : List (Action String) :=
  [.persist, .change absorbed, .resume 0, .resume 0, .resume 0, .resume 0]

end Whispee.Session.Persist
