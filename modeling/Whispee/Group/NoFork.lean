import Whispee.Group.Mailbox

/-!
# Forks

While every commit is stored in order, the mailbox holds one chain of commits and each device has
applied a prefix of it: everything up to its cursor, and its own answered commit beyond it
(`DeviceOk`). `applied_eq_of_inOrder` follows. The code puts nothing in order: the server numbers
what it is given, and an author applies its commit when its post is answered, whatever was stored
before it (`concurrent_commits_fork`).
-/

namespace Whispee.Group

open Transition (Reach run)
open State (tickets)

/-! ## The commits of a mailbox -/

section
variable {m : List Payload}

theorem tickets_append (m m' : List Payload) : tickets (m ++ m') = tickets m ++ tickets m' :=
  List.filterMap_append

theorem tickets_take_succ (h : m[j]? = some payload) :
    tickets (m.take (j + 1)) = tickets (m.take j) ++ tickets [payload] := by
  rw [List.take_add_one, h, tickets_append]
  rfl

theorem tickets_take_le (h : j ≤ k) :
    (tickets (m.take j)).length ≤ (tickets (m.take k)).length := by
  rw [← Nat.min_eq_left h, ← List.take_take]
  exact ((List.take_sublist j (m.take k)).filterMap _).length_le

theorem tickets_take_lt (h : m[j]? = some (.commit c)) (hk : j < k) :
    (tickets (m.take j)).length < (tickets (m.take k)).length := by
  have := tickets_take_le (m := m) (j := j + 1) (k := k) hk
  rw [tickets_take_succ h, List.length_append] at this
  exact this

theorem tickets_take_lt_tickets (h : m[j]? = some (.commit c)) :
    (tickets (m.take j)).length < (tickets m).length := by
  have := tickets_take_lt h (List.getElem?_eq_some_iff.1 h).1
  rwa [List.take_length] at this

/-- Every commit was built on all the commits before it, and every Welcome leads to the epoch after
all the commits before it. -/
structure Chained (m : List Payload) : Prop where
  commit : m[j]? = some (.commit c) → c.base = tickets (m.take j)
  welcome : m[j]? = some (.welcome w) → w.tree = tickets (m.take j)

theorem getElem?_append_singleton {p : Payload} (h : (m ++ [payload])[j]? = some p) :
    m[j]? = some p ∨ j = m.length ∧ payload = p := by
  rw [List.getElem?_append] at h
  split at h
  · exact .inl h
  · rcases hj : j - m.length with _ | i
    · rw [hj] at h
      exact .inr ⟨by omega, Option.some.inj h⟩
    · simp [hj] at h

theorem take_append_of_getElem? {p : Payload} (h : m[j]? = some p) (m' : List Payload) :
    (m ++ m').take j = m.take j :=
  List.take_append_of_le_length (Nat.le_of_lt (List.getElem?_eq_some_iff.1 h).1)

theorem Chained.append (h : Chained m)
    (commit : ∀ c, payload = .commit c → c.base = tickets m)
    (welcome : ∀ w, payload = .welcome w → w.tree = tickets m) : Chained (m ++ [payload]) where
  commit hj := by
    rcases getElem?_append_singleton hj with hj | ⟨rfl, rfl⟩
    · rw [take_append_of_getElem? hj, h.commit hj]
    · rw [List.take_left, commit _ rfl]
  welcome hj := by
    rcases getElem?_append_singleton hj with hj | ⟨rfl, rfl⟩
    · rw [take_append_of_getElem? hj, h.welcome hj]
    · rw [List.take_left, welcome _ rfl]

end

/-! ## One device -/

/-- A device that keeps the conversation has applied the commits up to some place of the mailbox;
those beyond its cursor are its own. -/
structure DeviceOk (m : List Payload) (device : Device) : Prop where
  placed : device.status = .active → ∃ k, device.cursor ≤ k ∧ k ≤ m.length ∧
    device.applied = tickets (m.take k) ∧
    ∀ j c, device.cursor ≤ j → j < k → m[j]? = some (.commit c) → j + 1 ∈ device.mine
  own : device.status = .active → j + 1 ∈ device.mine → m[j]? = some (.commit c) →
    (tickets (m.take j)).length < device.applied.length
  stored : seq ∈ device.mine → seq ≤ m.length
  page : device.page = some p → ∃ first, first ≤ max device.cursor (p.oldest - 1) ∧
    ∀ i row, p.envelopes[i]? = some row → row.2 = first + i + 1 ∧ m[first + i]? = some row.1

/-- The author of a commit stands where it built it. -/
structure Waiting (device : Device) (c : Commit) : Prop where
  active : device.status = .active
  pending : device.pending = some c
  base : c.base = device.applied

/-- A commit stored at position `j` whose answer is under way. -/
structure Unanswered (device : Device) (j : Nat) (c : Commit) : Prop extends Waiting device c where
  cursor : device.cursor ≤ j
  notMine : j + 1 ∉ device.mine

section
variable {m : List Payload} {device : Device}

theorem DeviceOk.append (h : DeviceOk m device) (payload : Payload) :
    DeviceOk (m ++ [payload]) device where
  placed active := by
    obtain ⟨k, hc, hk, applied, mine⟩ := h.placed active
    refine ⟨k, hc, by simp; omega, ?_, fun j c hj hjk hm => ?_⟩
    · rw [List.take_append_of_le_length hk, applied]
    · refine mine j c hj hjk ?_
      rwa [List.getElem?_append_left (by omega)] at hm
  own active hj hm := by
    have := h.stored hj
    rw [List.getElem?_append_left (by omega)] at hm
    rw [take_append_of_getElem? hm]
    exact h.own active hj hm
  stored hs := by
    have := h.stored hs
    simp
    omega
  page hp := by
    obtain ⟨first, hf, rows⟩ := h.page hp
    refine ⟨first, hf, fun i row hi => ?_⟩
    obtain ⟨hs, hm⟩ := rows i row hi
    exact ⟨hs, by rw [List.getElem?_append_left (List.getElem?_eq_some_iff.1 hm).1, hm]⟩

theorem DeviceOk.page_advance (h : DeviceOk m device) (n : Nat) (hp : device.page = some p) :
    ∃ first, first ≤ max (max device.cursor n) (p.oldest - 1) ∧ ∀ i row,
      p.envelopes[i]? = some row → row.2 = first + i + 1 ∧ m[first + i]? = some row.1 := by
  obtain ⟨first, hf, rows⟩ := h.page hp
  exact ⟨first, by omega, rows⟩

/-- The cursor may pass an envelope that is no commit, or a commit applied already. -/
theorem DeviceOk.advance (h : DeviceOk m device) (hm : m[j]? = some payload)
    (next : j ≤ device.cursor)
    (passed : ∀ c, payload = .commit c → device.status = .active → device.cursor = j →
      (tickets (m.take j)).length < device.applied.length) :
    DeviceOk m { device with cursor := max device.cursor (j + 1) } := by
  refine ⟨fun active => ?_, h.own, h.stored, h.page_advance (j + 1)⟩
  obtain ⟨k, hc, hk, applied, mine⟩ := h.placed active
  have inRange : j < m.length := (List.getElem?_eq_some_iff.1 hm).1
  by_cases hjk : j < k
  · refine ⟨k, Nat.max_le.2 ⟨hc, hjk⟩, hk, applied, fun i c hi => mine i c ?_⟩
    exact Nat.le_trans (Nat.le_max_left ..) hi
  · -- The device has applied nothing beyond its cursor, which stands at `j`.
    obtain rfl : k = j := by omega
    have cursor : device.cursor = k := by omega
    have noCommit : ∀ c, payload ≠ .commit c := by
      intro c hp
      have := passed c hp active cursor
      rw [applied] at this
      exact Nat.lt_irrefl _ this
    refine ⟨k + 1, Nat.max_le.2 ⟨by omega, Nat.le_refl _⟩, inRange, ?_, fun i c hi hik => ?_⟩
    · rw [applied, tickets_take_succ hm]
      cases payload with
      | commit c => exact absurd rfl (noCommit c)
      | welcome w => simp [tickets]
      | other => simp [tickets]
    · have := Nat.le_trans (Nat.le_max_right ..) hi
      omega

/-- The device merges the commit its cursor stands at. -/
theorem DeviceOk.merge (h : DeviceOk m device) (chained : Chained m)
    (hm : m[j]? = some (.commit c)) (active : device.status = .active)
    (base : c.base = device.applied) (status : Status) :
    DeviceOk m { device with
      status := status
      applied := device.applied ++ [c.ticket]
      pending := none
      cursor := max device.cursor (j + 1) } := by
  obtain ⟨k, hc, hk, applied, mine⟩ := h.placed active
  have inRange : j < m.length := (List.getElem?_eq_some_iff.1 hm).1
  have hkj : k ≤ j := by
    refine Nat.le_of_not_lt fun hjk => ?_
    have := tickets_take_lt hm hjk
    rw [← chained.commit hm, base, applied] at this
    exact Nat.lt_irrefl _ this
  refine ⟨fun _ => ⟨j + 1, Nat.max_le.2 ⟨by omega, Nat.le_refl _⟩, inRange, ?_, fun i c hi hij => ?_⟩,
    fun _ hi hm' => ?_, h.stored, h.page_advance (j + 1)⟩
  · rw [tickets_take_succ hm, ← chained.commit hm, base]
    rfl
  · have := Nat.le_trans (Nat.le_max_right ..) hi
    omega
  · rw [List.length_append]
    exact Nat.lt_add_right _ (h.own active hi hm')

/-- One turn of the envelope loop, at an envelope the cursor has reached. -/
theorem DeviceOk.read (h : DeviceOk m device) (chained : Chained m)
    (hm : m[j]? = some payload) (next : j ≤ device.cursor)
    (inOrder : ∀ c, payload = .commit c →
      if c.author = self then j + 1 ∈ device.mine else authorizes c.ticket) :
    DeviceOk m (device.read self authorizes (payload, j + 1)) := by
  unfold Device.read
  by_cases mine : j + 1 ∈ device.mine
  · rw [if_pos mine]
    exact h.advance hm next fun c hp active _ => h.own active mine (hp ▸ hm)
  · rw [if_neg mine]
    cases payload with
    | welcome w => exact h.advance hm next nofun
    | other => exact h.advance hm next nofun
    | commit c =>
      have verdict := inOrder c rfl
      have foreign : c.author ≠ self := fun own => mine (by rwa [if_pos own] at verdict)
      rw [if_neg foreign] at verdict
      simp only [Device.absorb]
      split
      · rename_i accepted
        exact h.merge chained hm accepted.1 accepted.2.2.1 _
      · rename_i refused
        refine h.advance hm next fun _ _ active cursor => ?_
        obtain ⟨k, hc, hk, applied, own⟩ := h.placed active
        by_cases hjk : j < k
        · exact absurd (own j c (Nat.le_of_eq cursor) hjk hm) mine
        · -- MLS and the policy accept the commit.
          obtain rfl : k = j := by omega
          exact absurd ⟨active, foreign, (chained.commit hm).trans applied.symm, verdict⟩ refused

@[simp] theorem mine_absorb (payload : Payload) :
    (device.absorb self authorizes payload).mine = device.mine := by
  cases payload with
  | commit c =>
    simp only [Device.absorb]
    split <;> rfl
  | _ => rfl

@[simp] theorem mine_read (row : Payload × Nat) :
    (device.read self authorizes row).mine = device.mine := by
  simp only [Device.read]
  split <;> simp

theorem cursor_read (row : Payload × Nat) : row.2 ≤ (device.read self authorizes row).cursor := by
  simp only [Device.read]
  exact Nat.le_max_right ..

/-- A run of envelopes that starts where the cursor has got to. -/
theorem DeviceOk.readAll (h : DeviceOk m device) (chained : Chained m)
    {rows : List (Payload × Nat)} (next : first ≤ device.cursor)
    (contiguous : ∀ i row, rows[i]? = some row →
      row.2 = first + i + 1 ∧ m[first + i]? = some row.1)
    (inOrder : ∀ row ∈ rows, ∀ c, row.1 = .commit c →
      if c.author = self then row.2 ∈ device.mine else authorizes c.ticket) :
    DeviceOk m (rows.foldl (·.read self authorizes) device) := by
  induction rows generalizing device first with
  | nil => exact h
  | cons row rows ih =>
    obtain ⟨payload, seq⟩ := row
    obtain ⟨hs, hm⟩ := contiguous 0 _ rfl
    simp only [Nat.add_zero] at hs hm
    subst hs
    refine ih (h.read chained hm next fun c hc => inOrder _ (List.mem_cons_self ..) c hc)
      (cursor_read _) (fun i row hi => ?_) fun row hr c hc => ?_
    · have := contiguous (i + 1) row hi
      rwa [show first + (i + 1) = first + 1 + i by omega] at this
    · rw [mine_read]
      exact inOrder row (List.mem_cons_of_mem _ hr) c hc

/-- What the guard says of a page. -/
def PageInOrder (self : Nat) (mine : List Nat) (authorizes : Nat → Bool)
    (rows : List (Payload × Nat)) : Prop :=
  ∀ row ∈ rows, ∀ c, row.1 = .commit c →
    if c.author = self then row.2 ∈ mine else authorizes c.ticket

theorem DeviceOk.poll (h : DeviceOk m device) (chained : Chained m) {page : Page}
    (hp : device.page = some page)
    (inOrder : PageInOrder self device.mine authorizes page.envelopes) :
    DeviceOk m (device.poll self authorizes page) := by
  unfold Device.poll
  split
  · exact ⟨h.placed, h.own, h.stored, nofun⟩
  · rename_i whole
    obtain ⟨first, hf, rows⟩ := h.page hp
    have read := h.readAll chained (by omega) rows inOrder
    exact ⟨read.placed, read.own, read.stored, nofun⟩

/-- A page whose commits are all made for other epochs moves the cursor only. -/
theorem foldl_read_unmoved {rows : List (Payload × Nat)}
    (other : ∀ row ∈ rows, ∀ c, row.1 = .commit c → c.base ≠ device.applied) :
    ∃ cursor, rows.foldl (·.read self authorizes) device = { device with cursor := cursor } ∧
      ∀ n, device.cursor ≤ n → (∀ row ∈ rows, row.2 ≤ n) → cursor ≤ n := by
  induction rows generalizing device with
  | nil => exact ⟨device.cursor, rfl, fun n hn _ => hn⟩
  | cons row rows ih =>
    have kept : device.read self authorizes row =
        { device with cursor := max device.cursor row.2 } := by
      obtain ⟨payload, seq⟩ := row
      simp only [Device.read]
      split
      · rfl
      · cases payload with
        | commit c => simp [Device.absorb, other _ (List.mem_cons_self ..) c rfl]
        | _ => rfl
    obtain ⟨cursor, hf, bound⟩ := @ih { device with cursor := max device.cursor row.2 }
      fun row hr => other row (List.mem_cons_of_mem _ hr)
    refine ⟨cursor, by rw [List.foldl_cons, kept, hf], fun n hn hr => bound n ?_ fun row hr' => ?_⟩
    · exact Nat.max_le.2 ⟨hn, hr row (List.mem_cons_self ..)⟩
    · exact hr row (List.mem_cons_of_mem _ hr')

theorem poll_unmoved (self : Nat) (authorizes : Nat → Bool) {page : Page}
    (other : ∀ row ∈ page.envelopes, ∀ c, row.1 = .commit c → c.base ≠ device.applied) :
    ∃ cursor stale, device.poll self authorizes page =
        { device with cursor := cursor, stale := stale, page := none } := by
  unfold Device.poll
  split
  · exact ⟨device.cursor, true, rfl⟩
  · obtain ⟨cursor, hf, -⟩ := foldl_read_unmoved other
    exact ⟨cursor, device.stale, by rw [hf]⟩

/-- While the answer to its commit is under way, the page a device absorbs ends before the commit:
it would otherwise contain it. -/
theorem Unanswered.poll (un : Unanswered device j c) (ok : DeviceOk m device)
    (chained : Chained m) (hm : m[j]? = some (.commit c)) {page : Page}
    (hp : device.page = some page)
    (inOrder : PageInOrder c.author device.mine authorizes page.envelopes) :
    Unanswered (device.poll c.author authorizes page) j c := by
  unfold Device.poll
  split
  · exact ⟨⟨un.active, un.pending, un.base⟩, un.cursor, un.notMine⟩
  · rename_i whole
    obtain ⟨first, hf, rows⟩ := ok.page hp
    have before : ∀ row ∈ page.envelopes, row.2 ≤ j := by
      intro row hr
      obtain ⟨i, hi⟩ := List.mem_iff_getElem?.1 hr
      refine Nat.le_of_not_lt fun beyond => ?_
      have hs := (rows i row hi).1
      have hc := un.cursor
      have inPage : j - first < page.envelopes.length :=
        Nat.lt_of_le_of_lt (by omega) (List.getElem?_eq_some_iff.1 hi).1
      obtain ⟨hs', hm'⟩ := rows (j - first) _ (List.getElem?_eq_getElem inPage)
      rw [show first + (j - first) = j by omega] at hs' hm'
      have verdict := inOrder _ (List.getElem_mem inPage) c (Option.some.inj (hm'.symm.trans hm))
      rw [if_pos rfl, hs'] at verdict
      exact un.notMine verdict
    obtain ⟨cursor, hq, bound⟩ := @foldl_read_unmoved device c.author authorizes page.envelopes
      fun row hr c' hc hb => by
        obtain ⟨i, hi⟩ := List.mem_iff_getElem?.1 hr
        obtain ⟨hs, hm'⟩ := rows i row hi
        rw [hc] at hm'
        have lt := tickets_take_lt hm' (k := j) (by have := before row hr; omega)
        rw [← chained.commit hm', ← chained.commit hm, hb, un.base] at lt
        exact Nat.lt_irrefl _ lt
    rw [hq]
    exact ⟨⟨un.active, un.pending, un.base⟩, bound j un.cursor before, un.notMine⟩

/-- When its post is answered, the author merges the commit. -/
theorem Unanswered.merge (un : Unanswered device j c) (ok : DeviceOk m device)
    (chained : Chained m) (hm : m[j]? = some (.commit c)) :
    DeviceOk m { device with
      mine := (j + 1) :: device.mine, applied := device.applied ++ [c.ticket], pending := none } := by
  obtain ⟨k, hc, hk, applied, mine⟩ := ok.placed un.active
  have inRange : j < m.length := (List.getElem?_eq_some_iff.1 hm).1
  have here : tickets (m.take k) = tickets (m.take j) := by
    rw [← applied, ← un.base, chained.commit hm]
  have longer : device.applied.length < (device.applied ++ [c.ticket]).length := by simp
  refine ⟨fun _ => ⟨j + 1, Nat.le_succ_of_le un.cursor, inRange, ?_, fun i c' hi hij hm' => ?_⟩,
    fun _ hi hm' => ?_, fun hs => ?_, ok.page⟩
  · rw [tickets_take_succ hm, ← chained.commit hm, un.base]
    rfl
  · rcases Nat.lt_succ_iff_lt_or_eq.1 hij with hij | rfl
    · -- An earlier commit beyond the cursor had been applied, so it was its own.
      refine List.mem_cons_of_mem _ (mine i c' hi (Nat.lt_of_not_le fun hki => ?_) hm')
      have lt := tickets_take_lt hm' hij
      have le := tickets_take_le (m := m) hki
      rw [here] at le
      omega
    · exact List.mem_cons_self ..
  · rcases List.mem_cons.1 hi with hi | hi
    · cases hi
      rw [← chained.commit hm, un.base]
      exact longer
    · exact Nat.lt_trans (ok.own un.active hi hm') longer
  · rcases List.mem_cons.1 hs with rfl | hs
    · exact inRange
    · exact ok.stored hs

end

/-! ## The system -/

namespace State

structure Inv (s : State) : Prop where
  chained : Chained s.mailbox
  devices : ∀ d, DeviceOk s.mailbox (s.devices d)
  stored : s.posts t = some (payload, some seq) → ∃ j, seq = j + 1 ∧ s.mailbox[j]? = some payload
  distinct : s.posts t = some (payload, some seq) → s.posts t' = some (payload', some seq) → t = t'
  unanswered : s.posts t = some (.commit c, some (j + 1)) → Unanswered (s.devices c.author) j c
  /-- A commit on its way to the server was built on what the mailbox holds, or on less. -/
  base_le : s.posts t = some (.commit c, none) → c.base.length ≤ (tickets s.mailbox).length
  unstored : s.posts t = some (.commit c, none) → c.base = tickets s.mailbox →
    Waiting (s.devices c.author) c

theorem Inv.initial {s : State} (h : Initial s) : Inv s where
  chained := ⟨by simp [h.mailbox], by simp [h.mailbox]⟩
  devices d := by
    rcases h.devices d with hd | hd <;> rw [hd, h.mailbox]
    · exact ⟨fun _ => ⟨0, by simp [tickets]⟩, by simp, by simp, by simp⟩
    · exact ⟨by simp, by simp, by simp, by simp⟩
  stored hp := by simp [h.posts] at hp
  distinct hp := by simp [h.posts] at hp
  unanswered hp := by simp [h.posts] at hp
  base_le hp := by simp [h.posts] at hp
  unstored hp := by simp [h.posts] at hp

variable {s : State}

/-! ### Envelopes and posts -/

/-- The mailbox grows by an envelope in order. -/
theorem Inv.append (h : Inv s) (commit : ∀ c, payload = .commit c → c.base = tickets s.mailbox)
    (welcome : ∀ w, payload = .welcome w → w.tree = tickets s.mailbox) :
    Inv { s with mailbox := s.mailbox ++ [payload] } where
  chained := h.chained.append commit welcome
  devices d := (h.devices d).append payload
  stored hp := by
    obtain ⟨j, hs, hm⟩ := h.stored hp
    exact ⟨j, hs, by rw [List.getElem?_append_left (List.getElem?_eq_some_iff.1 hm).1, hm]⟩
  distinct := h.distinct
  unanswered := h.unanswered
  base_le hp := by
    simp only [tickets_append, List.length_append]
    exact Nat.le_add_right_of_le (h.base_le hp)
  unstored hp hb := by
    have le := h.base_le hp
    rw [hb, tickets_append, List.length_append] at le
    have none : tickets [payload] = [] := List.eq_nil_of_length_eq_zero (by omega)
    exact h.unstored hp (by rw [hb, tickets_append, none, List.append_nil])

/-- The server stores a post under way. -/
theorem Inv.store (h : Inv s) (hp : s.posts t = some (payload, none))
    (commit : ∀ c, payload = .commit c → c.base = tickets s.mailbox)
    (welcome : ∀ w, payload = .welcome w → w.tree = tickets s.mailbox) :
    Inv { s.setPost t (some (payload, some (s.mailbox.length + 1))) with
      mailbox := s.mailbox ++ [payload] } := by
  have grown := h.append commit welcome
  have fresh : ∀ {t' payload'}, s.posts t' ≠ some (payload', some (s.mailbox.length + 1)) := by
    intro t' payload' hp'
    obtain ⟨j, hs, hm⟩ := h.stored hp'
    have := (List.getElem?_eq_some_iff.1 hm).1
    omega
  refine ⟨grown.chained, grown.devices, ?_, ?_, ?_, ?_, ?_⟩
  all_goals simp only [setPost, Function.update_apply]
  · intro t' payload' seq hp'
    split at hp'
    · cases hp'
      exact ⟨s.mailbox.length, rfl, by simp⟩
    · exact grown.stored hp'
  · intro t₁ p₁ seq t₂ p₂ h₁ h₂
    split at h₁ <;> split at h₂
    · subst t₁ t₂
      rfl
    · cases h₁
      exact absurd h₂ fresh
    · cases h₂
      exact absurd h₁ fresh
    · exact h.distinct h₁ h₂
  · intro t' j c hp'
    split at hp'
    · obtain ⟨rfl, rfl⟩ : payload = .commit c ∧ s.mailbox.length = j := by simpa using hp'
      have waiting := h.unstored hp (commit c rfl)
      have ok := h.devices c.author
      obtain ⟨k, hc, hk, -⟩ := ok.placed waiting.active
      refine ⟨waiting, Nat.le_trans hc hk, fun mine => ?_⟩
      have := ok.stored mine
      omega
    · exact h.unanswered hp'
  · intro t' c hp'
    split at hp'
    · cases hp'
    · exact grown.base_le hp'
  · intro t' c hp'
    split at hp'
    · cases hp'
    · exact grown.unstored hp'

theorem of_setPost_none (hp : (s.setPost t none).posts t' = some post) :
    t' ≠ t ∧ s.posts t' = some post := by
  simp only [setPost, Function.update_apply] at hp
  split at hp
  · cases hp
  · exact ⟨‹_›, hp⟩

/-- A post ends. -/
theorem Inv.drop (h : Inv s) (t : Nat) : Inv (s.setPost t none) :=
  ⟨h.chained, h.devices, fun hp => h.stored (of_setPost_none hp).2,
    fun hp hp' => h.distinct (of_setPost_none hp).2 (of_setPost_none hp').2,
    fun hp => h.unanswered (of_setPost_none hp).2, fun hp => h.base_le (of_setPost_none hp).2,
    fun hp => h.unstored (of_setPost_none hp).2⟩

/-! ### Devices -/

/-- One device changes; its posts under way still find it where they need it. -/
theorem Inv.setDevice {device : Device} (h : Inv s) (ok : DeviceOk s.mailbox device)
    (unanswered : ∀ {t c j}, s.posts t = some (.commit c, some (j + 1)) → c.author = d →
      Unanswered (s.devices d) j c → Unanswered device j c)
    (unstored : ∀ {t c}, s.posts t = some (.commit c, none) → c.author = d →
      c.base = tickets s.mailbox → Waiting (s.devices d) c → Waiting device c) :
    Inv (s.setDevice d device) := by
  refine ⟨h.chained, fun d' => ?_, h.stored, h.distinct, fun hp => ?_, h.base_le,
    fun hp hb => ?_⟩
  all_goals simp only [State.setDevice, Function.update_apply]
  · split
    · exact ok
    · exact h.devices d'
  · split
    · rename_i author
      exact unanswered hp author (author ▸ h.unanswered hp)
    · exact h.unanswered hp
  · split
    · rename_i author
      exact unstored hp author hb (author ▸ h.unstored hp hb)
    · exact h.unstored hp hb

/-- A page as the server answers it is a run of envelopes. -/
theorem getElem?_fetchEnvelopes (h : (s.fetchEnvelopes after)[i]? = some row) :
    row.2 = max after (s.oldest - 1) + i + 1 ∧
      s.mailbox[max after (s.oldest - 1) + i]? = some row.1 := by
  rw [fetchEnvelopes, List.getElem?_take] at h
  split at h
  · rw [List.getElem?_drop, List.getElem?_zipIdx] at h
    obtain ⟨payload, hm, rfl⟩ := Option.map_eq_some_iff.1 h
    exact ⟨Nat.add_comm .., hm⟩
  · cases h

theorem Inv.fetch (h : Inv s) (d : Nat) :
    Inv (s.setDevice d { s.devices d with
      page := some ⟨s.oldest, s.fetchEnvelopes (s.devices d).cursor⟩ }) := by
  have ok := h.devices d
  refine h.setDevice ⟨ok.placed, ok.own, ok.stored, fun hp => ?_⟩
    (fun _ _ un => ⟨⟨un.active, un.pending, un.base⟩, un.cursor, un.notMine⟩)
    (fun _ _ _ un => ⟨un.active, un.pending, un.base⟩)
  cases hp
  exact ⟨_, Nat.le_refl _, fun i row hi => getElem?_fetchEnvelopes hi⟩

theorem Inv.poll (h : Inv s) (hp : (s.devices d).page = some page)
    (inOrder : PageInOrder d (s.devices d).mine authorizes page.envelopes) :
    Inv (s.setDevice d ((s.devices d).poll d authorizes page)) := by
  obtain ⟨first, hf, rows⟩ := (h.devices d).page hp
  refine h.setDevice ((h.devices d).poll h.chained hp inOrder) ?_ ?_
  · intro t c j hpost author un
    obtain ⟨_, hj, hm⟩ := h.stored hpost
    cases hj
    subst d
    exact un.poll (h.devices c.author) h.chained hm hp inOrder
  · -- A commit the device could merge would be one more than its commit was built on.
    intro t c hpost author base un
    obtain ⟨cursor, stale, hq⟩ := poll_unmoved d authorizes fun row hr c' hc hb => by
      obtain ⟨i, hi⟩ := List.mem_iff_getElem?.1 hr
      obtain ⟨-, hm⟩ := rows i row hi
      rw [hc] at hm
      have lt := tickets_take_lt_tickets hm
      rw [← h.chained.commit hm, hb, ← un.base, base] at lt
      exact Nat.lt_irrefl _ lt
    rw [hq]
    exact ⟨un.active, un.pending, un.base⟩

/-- A post that is no commit starts; it moves nobody. -/
theorem Inv.startWelcome (h : Inv s) (t n : Nat) (w : Welcome) :
    Inv { s.setPost t (some (.welcome w, none)) with nextTicket := n } := by
  have kept : ∀ {t' payload seq}, (s.setPost t (some (.welcome w, none))).posts t' =
      some (payload, seq) → (seq ≠ none ∨ payload ≠ .welcome w) → s.posts t' = some (payload, seq) := by
    intro t' payload seq hp other
    simp only [setPost, Function.update_apply] at hp
    split at hp
    · cases hp
      simp at other
    · exact hp
  exact ⟨h.chained, h.devices, fun hp => h.stored (kept hp (by simp)),
    fun hp hp' => h.distinct (kept hp (by simp)) (kept hp' (by simp)),
    fun hp => h.unanswered (kept hp (by simp)), fun hp => h.base_le (kept hp (by simp)),
    fun hp => h.unstored (kept hp (by simp))⟩

theorem Inv.build (h : Inv s) (active : (s.devices d).status = .active)
    (idle : (s.devices d).pending = none) (c : Commit) (author : c.author = d)
    (base : c.base = (s.devices d).applied) (t n : Nat) :
    Inv { (s.setDevice d { s.devices d with pending := some c }).setPost t (some (.commit c, none)) with
      nextTicket := n } := by
  have ok := h.devices d
  have ok' : DeviceOk s.mailbox { s.devices d with pending := some c } :=
    ⟨ok.placed, ok.own, ok.stored, ok.page⟩
  have waiting : Waiting { s.devices d with pending := some c } c := ⟨active, rfl, base⟩
  -- Nothing of the device is under way that needs it to stand still: it has no commit pending.
  have built := h.setDevice ok' (fun _ _ un => nomatch idle.symm.trans un.pending)
    (fun _ _ _ un => nomatch idle.symm.trans un.pending)
  have kept : ∀ {t' payload seq}, ((s.setDevice d { s.devices d with pending := some c }).setPost t
      (some (.commit c, none))).posts t' = some (payload, seq) →
      payload = .commit c ∧ seq = none ∨ s.posts t' = some (payload, seq) := by
    intro t' payload seq hp
    simp only [setPost, Function.update_apply] at hp
    split at hp
    · cases hp
      exact .inl ⟨rfl, rfl⟩
    · exact .inr hp
  refine ⟨built.chained, built.devices, fun hp => ?_, fun hp hp' => ?_, fun hp => ?_, fun hp => ?_,
    fun hp hb => ?_⟩
  · exact built.stored ((kept hp).resolve_left nofun)
  · exact built.distinct ((kept hp).resolve_left nofun) ((kept hp').resolve_left nofun)
  · exact built.unanswered ((kept hp).resolve_left nofun)
  · rcases kept hp with ⟨hc, -⟩ | hp
    · cases hc
      obtain ⟨k, -, hk, applied, -⟩ := ok.placed active
      have := tickets_take_le (m := s.mailbox) hk
      rwa [List.take_length, ← applied, ← base] at this
    · exact built.base_le hp
  · rcases kept hp with ⟨hc, -⟩ | hp
    · cases hc
      simpa [State.setDevice, setPost, author] using waiting
    · exact built.unstored hp hb

/-- One commit of a device is unanswered: a second one would have it stand at two places. -/
theorem Inv.sole_unanswered (h : Inv s) (hp : s.posts t = some (.commit c, some (j + 1)))
    (hp' : s.posts t' = some (.commit c', some (j' + 1))) (author : c'.author = c.author) :
    t' = t := by
  obtain ⟨_, hj, hm⟩ := h.stored hp
  obtain ⟨_, hj', hm'⟩ := h.stored hp'
  cases hj
  cases hj'
  have same : tickets (s.mailbox.take j) = tickets (s.mailbox.take j') := by
    rw [← h.chained.commit hm, ← h.chained.commit hm', (h.unanswered hp).base,
      (h.unanswered hp').base, author]
  rcases Nat.lt_trichotomy j j' with lt | rfl | lt
  · exact absurd (congrArg List.length same) (Nat.ne_of_lt (tickets_take_lt hm lt))
  · exact h.distinct hp' hp
  · exact absurd (congrArg List.length same) (Nat.ne_of_gt (tickets_take_lt hm' lt))

/-- While a commit of a device is unanswered, no other of its commits is in order. -/
theorem Inv.not_current (h : Inv s) (hp : s.posts t = some (.commit c, some (j + 1)))
    (hp' : s.posts t' = some (.commit c', none)) (author : c'.author = c.author) :
    c'.base ≠ tickets s.mailbox := by
  intro base
  obtain ⟨_, hj, hm⟩ := h.stored hp
  cases hj
  have lt := tickets_take_lt_tickets hm
  rw [← h.chained.commit hm, (h.unanswered hp).base, ← author, ← (h.unstored hp' base).base,
    base] at lt
  exact Nat.lt_irrefl _ lt

/-- The answer to a commit finds its author where it built it: the author merges it. -/
theorem Inv.answerCommit (h : Inv s) (hp : s.posts t = some (.commit c, some seq)) :
    Inv ((s.setPost t none).answerCommit seq c) := by
  obtain ⟨j, rfl, hm⟩ := h.stored hp
  have un := h.unanswered hp
  have merged := un.merge (h.devices c.author) h.chained hm
  have applies : ((s.devices c.author).addMine (j + 1)).applyPending =
      some { s.devices c.author with
        mine := (j + 1) :: (s.devices c.author).mine
        applied := (s.devices c.author).applied ++ [c.ticket]
        pending := none } := by
    simp [Device.addMine, Device.applyPending, un.active, un.pending]
  have answered := (h.drop t).setDevice (d := c.author) merged
    (fun hp' author _ =>
      absurd (h.sole_unanswered hp (of_setPost_none hp').2 author) (of_setPost_none hp').1)
    (fun hp' author base _ => absurd base (h.not_current hp (of_setPost_none hp').2 author))
  simp only [State.answerCommit]
  rw [show (s.setPost t none).devices = s.devices from rfl, applies]
  cases c.adds with
  | none => exact answered
  | some recipient => exact answered.startWelcome _ _ _

theorem Inv.answerWelcome (h : Inv s) (hp : s.posts t = some (.welcome w, some seq)) :
    Inv ((s.setPost t none).setDevice w.inviter ((s.devices w.inviter).addMine seq)) := by
  obtain ⟨j, rfl, hm⟩ := h.stored hp
  have ok := h.devices w.inviter
  have noted : DeviceOk s.mailbox ((s.devices w.inviter).addMine (j + 1)) := by
    refine ⟨fun active => ?_, fun active hi hm' => ?_, fun hs => ?_, ok.page⟩
    · obtain ⟨k, hc, hk, applied, mine⟩ := ok.placed active
      exact ⟨k, hc, hk, applied, fun i c hi hik hm' => List.mem_cons_of_mem _ (mine i c hi hik hm')⟩
    · rcases List.mem_cons.1 hi with hi | hi
      · cases hi
        cases hm.symm.trans hm'
      · exact ok.own active hi hm'
    · rcases List.mem_cons.1 hs with rfl | hs
      · exact (List.getElem?_eq_some_iff.1 hm).1
      · exact ok.stored hs
  refine (h.drop t).setDevice noted (fun hp' _ un => ?_)
    (fun _ _ _ un => ⟨un.active, un.pending, un.base⟩)
  refine ⟨⟨un.active, un.pending, un.base⟩, un.cursor, fun mine => ?_⟩
  rcases List.mem_cons.1 mine with hj | mine
  · obtain ⟨_, hs, hm'⟩ := h.stored (of_setPost_none hp').2
    cases hs
    cases hj
    cases hm.symm.trans hm'
  · exact un.notMine mine

theorem findWelcome_spec {rows : List (Payload × Nat)} (h : findWelcome d rows = some (w, seq)) :
    (.welcome w, seq) ∈ rows ∧ w.joins = w.tree := by
  obtain ⟨⟨payload, n⟩, hr, hf⟩ := List.exists_of_findSome?_eq_some h
  cases payload with
  | welcome w' =>
    simp only [Option.ite_none_right_eq_some] at hf
    obtain ⟨⟨-, ht⟩, hw⟩ := hf
    cases hw
    exact ⟨hr, ht⟩
  | _ => cases hf

/-- A device joins at the place of its Welcome. -/
theorem Inv.join (h : Inv s) (absent : (s.devices d).status = .absent)
    (hw : findWelcome d (s.fetchEnvelopes 0) = some (w, seq)) :
    Inv (s.setDevice d ⟨.active, w.joins, none, seq, [], false, none⟩) := by
  obtain ⟨hr, tree⟩ := findWelcome_spec hw
  obtain ⟨i, hi⟩ := List.mem_iff_getElem?.1 hr
  obtain ⟨hs, hm⟩ := getElem?_fetchEnvelopes hi
  generalize max 0 (s.oldest - 1) + i = j at hs hm
  simp only at hs hm
  subst hs
  refine h.setDevice ⟨fun _ => ⟨j + 1, Nat.le_refl _, (List.getElem?_eq_some_iff.1 hm).1, ?_,
    fun i c hi hij => absurd hij (Nat.not_lt.2 hi)⟩, nofun, nofun, nofun⟩
    (fun _ _ un => nomatch absent.symm.trans un.active)
    (fun _ _ _ un => nomatch absent.symm.trans un.active)
  rw [tickets_take_succ hm, ← h.chained.welcome hm]
  simp [tickets, tree]

theorem Inv.step (h : Inv s) (hg : s.inOrder a) (hs : s.step a = some t) : Inv t := by
  cases a with
  | build d evicts adds =>
    simp only [State.step] at hs
    split at hs
    · rename_i ready
      cases hs
      exact h.build ready.1 ready.2.1 _ rfl rfl _ _
    · cases hs
  | store ticket =>
    simp only [State.step] at hs
    split at hs
    · rename_i payload hp
      cases hs
      simp only [inOrder, hp] at hg
      refine h.store hp ?_ ?_
      · rintro c rfl
        simpa using hg
      · rintro w rfl
        simpa using hg
    · cases hs
  | answer ticket =>
    simp only [State.step] at hs
    split at hs
    · cases hs
      exact h.answerCommit ‹_›
    · cases hs
      exact h.answerWelcome ‹_›
    · cases hs
  | fail ticket =>
    simp only [State.step] at hs
    split at hs
    · cases hs
      exact h.drop ticket
    · cases hs
  | message =>
    cases hs
    exact h.append nofun nofun
  | purge oldest =>
    simp only [State.step] at hs
    split at hs
    · cases hs
      exact ⟨h.chained, h.devices, h.stored, h.distinct, h.unanswered, h.base_le, h.unstored⟩
    · cases hs
  | fetch d =>
    simp only [State.step] at hs
    split at hs
    · cases hs
      exact h.fetch d
    · cases hs
  | poll d authorizes =>
    simp only [State.step] at hs
    split at hs
    · rename_i page hp
      cases hs
      refine h.poll hp fun row hr c hc => ?_
      simp only [inOrder, hp, List.all_eq_true] at hg
      have := hg row hr
      obtain ⟨payload, seq⟩ := row
      cases hc
      simpa using this
    · cases hs
  | join d =>
    simp only [State.step] at hs
    split at hs
    · split at hs
      · cases hs
        exact h.join ‹_› ‹_›
      · cases hs
    · cases hs

theorem Inv.of_reach {s t : State} (h : Reach State.step (fun s a => s.inOrder a) s t)
    (initial : Initial s) : Inv t :=
  h.invariant (Inv.initial initial) fun inv hg hs => inv.step hg hs

/-- What a device has applied when it has processed the mailbox up to a number. -/
theorem Inv.applied_eq (h : Inv s) (hd : s.ProcessedUpTo d n) :
    (s.devices d).applied = tickets (s.mailbox.take n) := by
  obtain ⟨k, hc, hk, applied, mine⟩ := (h.devices d).placed hd.kept
  rw [hd.cursor] at hc mine
  have noCommit : ∀ j, n ≤ j → j < k → ∀ c, s.mailbox[j]? ≠ some (.commit c) := fun j hj hjk c hm =>
    hd.noneBeyond _ (mine j c hj hjk hm) (Nat.lt_succ_of_le hj) c hm
  rw [applied]
  clear applied mine
  induction hc with
  | refl => rfl
  | step hnk ih =>
    rename_i k'
    have hm : ∃ payload, s.mailbox[k']? = some payload := ⟨_, List.getElem?_eq_getElem hk⟩
    obtain ⟨payload, hm⟩ := hm
    rw [tickets_take_succ hm, ih (Nat.le_of_lt hk) fun j hj hjk => noCommit j hj (Nat.lt_succ_of_lt hjk)]
    cases payload with
    | commit c => exact absurd hm (noCommit _ hnk (Nat.lt_succ_self _) c)
    | _ => exact List.append_nil _

/-- In every run in order, what two devices that keep the conversation have applied are one the
beginning of the other. -/
theorem prefix_of_inOrder {s t : State} (initial : Initial s)
    (h : Reach State.step (fun s a => s.inOrder a) s t) {d d' : Nat}
    (kept : (t.devices d).status = .active) (kept' : (t.devices d').status = .active) :
    (t.devices d).applied <+: (t.devices d').applied ∨
      (t.devices d').applied <+: (t.devices d).applied := by
  have inv := Inv.of_reach h initial
  obtain ⟨k, -, -, applied, -⟩ := (inv.devices d).placed kept
  obtain ⟨k', -, -, applied', -⟩ := (inv.devices d').placed kept'
  rw [applied, applied']
  rcases Nat.le_total k k' with hk | hk
  · exact .inl ((List.take_prefix_take_left hk).filterMap _)
  · exact .inr ((List.take_prefix_take_left hk).filterMap _)

end State

/-- In every run in order, two devices that keep the conversation and have processed the mailbox up
to the same number are at the same epoch with the same commits applied. -/
theorem applied_eq_of_inOrder {s t : State} (initial : s.Initial)
    (h : Reach State.step (fun s a => s.inOrder a) s t) {d d' n : Nat}
    (hd : t.ProcessedUpTo d n) (hd' : t.ProcessedUpTo d' n) :
    (t.devices d).epoch = (t.devices d').epoch ∧
      (t.devices d).applied = (t.devices d').applied := by
  have inv := State.Inv.of_reach h initial
  have same : (t.devices d).applied = (t.devices d').applied :=
    (inv.applied_eq hd).trans (inv.applied_eq hd').symm
  exact ⟨congrArg List.length same, same⟩

/-! ## Two members -/

/-- A group of the devices 0 and 1, before its first envelope. -/
def twoMembers : State where
  mailbox := []
  oldest := 1
  nextTicket := 0
  posts _ := none
  devices d := ⟨if d < 2 then .active else .absent, [], none, 0, [], false, none⟩

theorem twoMembers_initial : twoMembers.Initial where
  mailbox := rfl
  oldest := rfl
  posts _ := rfl
  devices d := by
    by_cases h : d < 2
    · exact .inl (by simp only [twoMembers, if_pos h])
    · exact .inr (by simp only [twoMembers, if_neg h])

/-- Device 0 invites device 2, and everybody reads the mailbox in turn. -/
def invitation : List Action :=
  [.build 0 [] (some 2), .store 0, .answer 0, .store 1, .answer 1, .join 2,
    .fetch 1, .poll 1 fun _ => true]

theorem applied_eq_of_inOrder_invitation : ∃ t,
    Reach State.step (fun s a => s.inOrder a) twoMembers t ∧
    (t.devices 1).applied = [0] ∧ (t.devices 1).applied = (t.devices 2).applied := by
  have done : ∃ t, run (fun s a => if s.inOrder a then s.step a else none) twoMembers invitation
      = some t ∧ (t.devices 1).applied = [0] ∧
      ((t.devices 1).status = .active ∧ (t.devices 1).cursor = 2 ∧ (t.devices 1).mine = []) ∧
      ((t.devices 2).status = .active ∧ (t.devices 2).cursor = 2 ∧ (t.devices 2).mine = []) :=
    ⟨_, rfl, rfl, ⟨rfl, rfl, rfl⟩, rfl, rfl, rfl⟩
  obtain ⟨t, h, applied, ⟨active, cursor, mine⟩, active', cursor', mine'⟩ := done
  have reached : Reach State.step (fun s a => s.inOrder a) twoMembers t :=
    Transition.reach_of_run_guarded h
  exact ⟨t, reached, applied, (applied_eq_of_inOrder twoMembers_initial reached
    ⟨active, cursor, by simp [mine]⟩ ⟨active', cursor', by simp [mine']⟩).2⟩

/-- Both devices build a commit on the same epoch, and both posts are answered before either reads
the mailbox. -/
def bothCommit : List Action :=
  [.build 0 [] none, .build 1 [] none, .store 0, .store 1, .answer 0, .answer 1,
    .fetch 0, .poll 0 fun _ => true, .fetch 1, .poll 1 fun _ => true]

/-- Each device has applied its own commit and refused the other's, for ever: they are at the same
place of the mailbox with different commits applied. -/
theorem concurrent_commits_fork : ∃ t, run State.step twoMembers bothCommit = some t ∧
    t.ProcessedUpTo 0 2 ∧ t.ProcessedUpTo 1 2 ∧
    (t.devices 0).applied = [0] ∧ (t.devices 1).applied = [1] := by
  have done : ∃ t, run State.step twoMembers bothCommit = some t ∧
      ((t.devices 0).status = .active ∧ (t.devices 0).cursor = 2 ∧ (t.devices 0).mine = [1]) ∧
      ((t.devices 1).status = .active ∧ (t.devices 1).cursor = 2 ∧ (t.devices 1).mine = [2]) ∧
      (t.devices 0).applied = [0] ∧ (t.devices 1).applied = [1] :=
    ⟨_, rfl, ⟨rfl, rfl, rfl⟩, ⟨rfl, rfl, rfl⟩, rfl, rfl⟩
  obtain ⟨t, h, ⟨active, cursor, mine⟩, ⟨active', cursor', mine'⟩, applied⟩ := done
  exact ⟨t, h, ⟨active, cursor, by simp [mine]⟩, ⟨active', cursor', by simp [mine']⟩, applied⟩

end Whispee.Group
