import Whispee.Lib.FixedWindow
import Whispee.Server.Groups

/-!
# Rate limits

`Throttle` and `Claims` of `crates/server/src/throttle.rs`, and the key `claim_key_package` of
`routes.rs` counts a claim under. Instants are nanoseconds, and do not decrease. The table is swept
of windows that are over, which is not to be seen from outside (`limited_serve`).
-/

namespace Whispee.Server

open FixedWindow

/-- Past this many tracked keys, stale entries are swept. -/
def SWEEP_THRESHOLD : Nat := 4096

structure Counter where
  since : Nat
  requests : UInt32
  deriving DecidableEq

structure Throttle where
  quota : UInt32
  window : Nat
  seen : Std.HashMap String Counter

namespace Throttle

/-- A minute. -/
def WINDOW : Nat := 60 * 10 ^ 9

def perMinute (quota : UInt32) : Throttle := ⟨quota, WINDOW, ∅⟩

variable (t : Throttle) (key : String) (now : Nat)

def swept : Std.HashMap String Counter :=
  if SWEEP_THRESHOLD < t.seen.size then
    t.seen.filter fun _ counter => now - counter.since < t.window
  else t.seen

/-- The counter of a call, which is counted in it. -/
def counted : Counter :=
  let counter := (t.swept now)[key]?.getD ⟨now, 0⟩
  let counter := if t.window ≤ now - counter.since then ⟨now, 0⟩ else counter
  { counter with requests := counter.requests + 1 }

/-- Counts a request under a key, and says whether it may pass. -/
def allows : Bool × Throttle :=
  if t.quota = 0 then (true, t)
  else ((t.counted key now).requests ≤ t.quota,
    { t with seen := (t.swept now).insert key (t.counted key now) })

end Throttle

/-- The key a claim is counted under, by the device that signed it and the device it aims at. -/
def claimKey (pair : String × String) : String := pair.1 ++ ":" ++ pair.2

/-! ## Runs -/

structure Call where
  key : String
  at_ : Nat
  deriving DecidableEq

structure Served where
  throttle : Throttle
  /-- The decisions so far. -/
  log : List (Call × Bool)

namespace Served

def call (s : Served) (c : Call) : Served where
  throttle := (s.throttle.allows c.key c.at_).2
  log := s.log ++ [(c, (s.throttle.allows c.key c.at_).1)]

/-- When calls of a key were admitted. -/
def admitted (s : Served) (key : String) : List Nat :=
  (s.log.filter fun entry => entry.1.key = key && entry.2).map (·.1.at_)

end Served

def serve (quota : UInt32) (calls : List Call) : Served :=
  calls.foldl Served.call ⟨.perMinute quota, []⟩

/-- A key's own calls. -/
def own (key : String) (calls : List Call) : List Nat := (calls.filter (·.key = key)).map (·.at_)

/-- What a counter of the key's own calls, that nobody sweeps, would decide. -/
def specified (quota : UInt32) (before : List Call) (c : Call) : Bool :=
  quota = 0 || admits Throttle.WINDOW quota.toNat (own c.key before) c.at_

/-- Times do not decrease, and no window of a key has as many calls as a counter can hold. -/
structure Timed (calls : List Call) : Prop where
  ordered : (calls.map (·.at_)).Pairwise (· ≤ ·)
  few : ∀ key start,
    ((own key calls).countP fun t => start ≤ t ∧ t < start + Throttle.WINDOW) < 2 ^ 32

/-- The specification of a limiter, with that of the keys of two claims. A quota of zero is none. -/
structure Meets (quota : UInt32) (calls : List Call) (pair pair' : String × String) : Prop where
  decisions : ∀ before c after, calls = before ++ c :: after →
    (serve quota calls).log[before.length]? = some (c, specified quota before c)
  burst : quota ≠ 0 → ∀ key start,
    countWithin Throttle.WINDOW start ((serve quota calls).admitted key) ≤ 2 * quota.toNat
  isolated : pair ≠ pair' → claimKey pair ≠ claimKey pair'

/-- A caller is the other caller, a colon and the beginning of its target up to a colon. -/
def Overlaps (pair pair' : String × String) : Prop :=
  ∃ middle, pair'.1 = pair.1 ++ ":" ++ middle ∧ pair.2 = middle ++ ":" ++ pair'.2

section
variable {calls : List Call} {quota : UInt32} {key : String} {c : Call} {s : Served} {w : Window}

@[simp] theorem own_concat : own key (calls ++ [c]) =
    if c.key = key then own key calls ++ [c.at_] else own key calls := by
  unfold own
  by_cases h : c.key = key <;> simp [h]

theorem serve_concat : serve quota (calls ++ [c]) = (serve quota calls).call c := by
  rw [serve, List.foldl_append]
  rfl

/-- Fewer calls than a counter can hold fit into any window. -/
theorem Timed.of_length (ordered : (calls.map (·.at_)).Pairwise (· ≤ ·))
    (few : calls.length < 2 ^ 32) : Timed calls where
  ordered
  few key start :=
    calc ((own key calls).countP _)
      _ ≤ (own key calls).length := List.countP_le_length
      _ ≤ calls.length := by
        rw [own, List.length_map]
        exact List.length_filter_le _ _
      _ < 2 ^ 32 := few

theorem Timed.init (h : Timed (calls ++ [c])) : Timed calls where
  ordered := by
    have ordered := h.ordered
    rw [List.map_append] at ordered
    exact (List.pairwise_append.1 ordered).1
  few key start := by
    refine Nat.lt_of_le_of_lt ?_ (h.few key start)
    rw [own_concat]
    split
    · rw [List.countP_append]
      exact Nat.le_add_right _ _
    · exact Nat.le_refl _

theorem Timed.le_last (h : Timed (calls ++ [c])) : ∀ c' ∈ calls, c'.at_ ≤ c.at_ := by
  have ordered := h.ordered
  rw [List.map_append] at ordered
  intro c' hc'
  exact (List.pairwise_append.1 ordered).2.2 c'.at_ (List.mem_map_of_mem hc') c.at_
    (List.mem_singleton_self _)

theorem Timed.pairwise_own (h : Timed calls) (key : String) : (own key calls).Pairwise (· ≤ ·) :=
  h.ordered.sublist (List.filter_sublist.map _)

/-- A counter has not overflowed. -/
theorem Timed.count_lt (h : Timed calls)
    (hw : (run Throttle.WINDOW quota.toNat (own key calls)).window = some w) : w.count < 2 ^ 32 :=
  Nat.lt_of_le_of_lt (count_le (by decide) (h.pairwise_own key) hw) (h.few key w.since)

/-- What the table holds of a key: its window, unless that is over and was swept. -/
inductive Tracked (calls : List Call) : Option Counter → Option Window → Prop where
  | unknown : Tracked calls none none
  | held (w : Window) : Tracked calls (some ⟨w.since, .ofNat w.count⟩) (some w)
  | lapsed (w : Window) (c : Call) (mem : c ∈ calls)
      (lapsed : Throttle.WINDOW ≤ c.at_ - w.since) : Tracked calls none (some w)

namespace Tracked

variable {o : Option Counter} {r : Option Window}

theorem mono (h : Tracked calls o r) : Tracked (calls ++ [c]) o r := by
  cases h with
  | unknown => exact .unknown
  | held w => exact .held w
  | lapsed w c mem lapsed => exact .lapsed w c (List.mem_append_left _ mem) lapsed

/-- A sweep takes away only what is over. -/
theorem filter (h : Tracked calls o r) : Tracked (calls ++ [c])
    (o.filter fun counter => c.at_ - counter.since < Throttle.WINDOW) r := by
  cases h with
  | unknown => exact .unknown
  | held w =>
    by_cases hopen : c.at_ - w.since < Throttle.WINDOW
    · rw [Option.filter_some, if_pos (decide_eq_true hopen)]
      exact .held w
    · rw [Option.filter_some, if_neg fun h => hopen (of_decide_eq_true h)]
      exact .lapsed w c (List.mem_append_right _ (List.mem_singleton_self c)) (Nat.not_lt.1 hopen)
  | lapsed w c' mem lapsed => exact .lapsed w c' (List.mem_append_left _ mem) lapsed

/-- What is counted is what the window of the key's own calls counts. -/
theorem counted (h : Tracked (calls ++ [c]) o r) (hlast : ∀ c' ∈ calls ++ [c], c'.at_ ≤ c.at_)
    {counter : Counter} (hcounter : counter = o.getD ⟨c.at_, 0⟩) :
    (if Throttle.WINDOW ≤ c.at_ - counter.since then ⟨c.at_, 0⟩ else counter : Counter).since =
        (next Throttle.WINDOW r c.at_).since ∧
      (if Throttle.WINDOW ≤ c.at_ - counter.since then ⟨c.at_, 0⟩ else counter : Counter).requests + 1 =
        .ofNat (next Throttle.WINDOW r c.at_).count := by
  have fresh : ¬ Throttle.WINDOW ≤ c.at_ - c.at_ := by
    rw [Nat.sub_self]
    decide
  subst hcounter
  cases h with
  | unknown =>
    rw [Option.getD_none, if_neg fresh]
    exact ⟨rfl, rfl⟩
  | held w =>
    rw [Option.getD_some, next]
    split
    · exact ⟨rfl, rfl⟩
    · exact ⟨rfl, (UInt32.ofNat_add w.count 1).symm⟩
  | lapsed w c' mem lapsed =>
    have hnow := hlast c' mem
    have hover : Throttle.WINDOW ≤ c.at_ - w.since := by omega
    rw [Option.getD_none, if_neg fresh, next, if_pos hover]
    exact ⟨rfl, rfl⟩

end Tracked

/-- The state of the limiter, and the decisions it has made. -/
structure Limited (quota : UInt32) (calls : List Call) (s : Served) : Prop where
  limit : s.throttle.quota = quota
  window : s.throttle.window = Throttle.WINDOW
  seen : quota ≠ 0 → ∀ key : String, Tracked calls s.throttle.seen[key]?
    (run Throttle.WINDOW quota.toNat (own key calls)).window
  length : s.log.length = calls.length
  decisions : ∀ before c after, calls = before ++ c :: after →
    s.log[before.length]? = some (c, specified quota before c)
  admitted : quota ≠ 0 → ∀ key,
    s.admitted key = (run Throttle.WINDOW quota.toNat (own key calls)).admitted

theorem Throttle.swept_tracked (h : Limited quota calls s) (hquota : quota ≠ 0) (c : Call)
    (key : String) :
    Tracked (calls ++ [c]) (s.throttle.swept c.at_)[key]?
      (run Throttle.WINDOW quota.toNat (own key calls)).window := by
  unfold swept
  split
  · rw [Std.HashMap.getElem?_filter', h.window]
    exact (h.seen hquota key).filter
  · exact (h.seen hquota key).mono

theorem Throttle.counted_eq (h : Limited quota calls s) (hquota : quota ≠ 0)
    (timed : Timed (calls ++ [c])) :
    s.throttle.counted c.key c.at_ =
      let w := next Throttle.WINDOW (run Throttle.WINDOW quota.toNat (own c.key calls)).window c.at_
      ⟨w.since, .ofNat w.count⟩ := by
  have hlast : ∀ c' ∈ calls ++ [c], c'.at_ ≤ c.at_ := by
    intro c' hc'
    rcases List.mem_append.1 hc' with hold | hnew
    · exact timed.le_last c' hold
    · exact Nat.le_of_eq (congrArg Call.at_ (List.mem_singleton.1 hnew))
  obtain ⟨hsince, hrequests⟩ := (swept_tracked h hquota c c.key).counted hlast rfl
  unfold counted
  rw [h.window]
  exact congr (congrArg Counter.mk hsince) hrequests

/-- A decision is what it would be without the other keys. -/
theorem Throttle.allows_eq (h : Limited quota calls s) (timed : Timed (calls ++ [c])) :
    (s.throttle.allows c.key c.at_).1 = specified quota calls c := by
  unfold allows
  rw [h.limit]
  split
  next hzero => rw [specified, decide_eq_true hzero, Bool.true_or]
  next hquota =>
    have hcount : (next WINDOW (run WINDOW quota.toNat (own c.key calls)).window c.at_).count <
        2 ^ 32 := by
      refine @Timed.count_lt _ quota c.key _ timed ?_
      rw [own_concat, if_pos rfl, run_concat]
      rfl
    rw [specified, decide_eq_false hquota, Bool.false_or, admits, counted_eq h hquota timed]
    dsimp only
    rw [decide_eq_decide, UInt32.le_iff_toNat_le, UInt32.toNat_ofNat_of_lt' hcount]

theorem limited_nil : Limited quota [] (serve quota []) where
  limit := rfl
  window := rfl
  seen _ key := by
    show Tracked [] (∅ : Std.HashMap String Counter)[key]? none
    rw [Std.HashMap.getElem?_empty]
    exact .unknown
  length := rfl
  decisions before c after h := by
    rw [List.nil_eq, List.append_eq_nil_iff] at h
    cases h.2
  admitted _ _ := rfl

/-- The log of the key's calls that were admitted. -/
theorem admitted_call (s : Served) (c : Call) (key : String) : (s.call c).admitted key =
    s.admitted key ++ if c.key = key ∧ (s.throttle.allows c.key c.at_).1 then [c.at_] else [] := by
  unfold Served.admitted Served.call
  dsimp only
  rw [List.filter_append, List.map_append, List.filter_cons]
  by_cases h : c.key = key ∧ (s.throttle.allows c.key c.at_).1
  · rw [if_pos h, if_pos (by rw [decide_eq_true h.1, h.2]; rfl)]
    rfl
  · rw [if_neg h, if_neg fun both => h ?_]
    · rfl
    · rw [Bool.and_eq_true, decide_eq_true_eq] at both
      exact both

theorem Limited.call (h : Limited quota calls s) (timed : Timed (calls ++ [c])) :
    Limited quota (calls ++ [c]) (s.call c) where
  limit := by
    unfold Served.call Throttle.allows
    split <;> exact h.limit
  window := by
    unfold Served.call Throttle.allows
    split <;> exact h.window
  seen hquota key := by
    have hlimit : s.throttle.quota ≠ 0 := h.limit ▸ hquota
    have hseen : (s.call c).throttle.seen =
        (s.throttle.swept c.at_).insert c.key (s.throttle.counted c.key c.at_) := by
      unfold Served.call Throttle.allows
      rw [if_neg hlimit]
    rw [hseen, Std.HashMap.getElem?_insert, own_concat]
    by_cases hkey : c.key = key
    · subst hkey
      rw [if_pos (beq_self_eq_true _), if_pos rfl, run_concat,
        Throttle.counted_eq h hquota timed]
      exact .held _
    · rw [if_neg fun same => hkey (eq_of_beq same), if_neg hkey]
      exact Throttle.swept_tracked h hquota c key
  length := by
    unfold Served.call
    rw [List.length_append, List.length_append, h.length]
    rfl
  decisions before c' after hsplit := by
    unfold Served.call
    dsimp only
    rw [Throttle.allows_eq h timed]
    rcases List.eq_nil_or_concat after with rfl | ⟨rest, last, rfl⟩
    · obtain ⟨rfl, hlast⟩ := List.append_inj' hsplit rfl
      obtain rfl := (List.cons.inj hlast).1
      rw [← h.length, List.getElem?_concat_length]
    · rw [List.concat_eq_append, ← List.cons_append, ← List.append_assoc] at hsplit
      have hcalls := (List.append_inj' hsplit rfl).1
      have hlt : before.length < s.log.length := by
        rw [h.length, hcalls, List.length_append, List.length_cons]
        omega
      rw [List.getElem?_append_left hlt]
      exact h.decisions before c' rest hcalls
  admitted hquota key := by
    rw [admitted_call, Throttle.allows_eq h timed, h.admitted hquota, own_concat]
    by_cases hkey : c.key = key
    · subst hkey
      rw [if_pos rfl, run_concat, specified, decide_eq_false hquota, Bool.false_or, step]
      dsimp only
      split
      next hin => rw [if_pos (of_decide_eq_true hin.2)]
      next hout =>
        rw [if_neg fun hin => hout ⟨rfl, decide_eq_true hin⟩, List.append_nil]
    · rw [if_neg hkey, if_neg fun hin => hkey hin.1, List.append_nil]

/-- After any calls, the limiter has decided each as a counter of its key's own calls would. -/
theorem limited_serve (timed : Timed calls) : Limited quota calls (serve quota calls) := by
  induction calls using List.reverseRecOn with
  | nil => exact limited_nil
  | append_singleton calls c ih =>
    rw [serve_concat]
    exact (ih timed.init).call timed

/-! ## The key of a claim -/

theorem append_cons_eq_iff {x : α} {a b c d : List α} : a ++ x :: b = c ++ x :: d ↔
    (a = c ∧ b = d) ∨ (∃ m, c = a ++ x :: m ∧ b = m ++ x :: d) ∨
      ∃ m, a = c ++ x :: m ∧ d = m ++ x :: b := by
  rw [List.append_eq_append_iff]
  constructor
  · rintro (⟨_ | ⟨y, m⟩, rfl, hrest⟩ | ⟨_ | ⟨y, m⟩, rfl, hrest⟩)
    · exact .inl ⟨(List.append_nil a).symm, (List.cons.inj hrest).2⟩
    · obtain ⟨rfl, rfl⟩ := List.cons.inj hrest
      exact .inr (.inl ⟨m, rfl, rfl⟩)
    · exact .inl ⟨List.append_nil c, (List.cons.inj hrest).2.symm⟩
    · obtain ⟨rfl, rfl⟩ := List.cons.inj hrest
      exact .inr (.inr ⟨m, rfl, rfl⟩)
  · rintro (⟨rfl, rfl⟩ | ⟨m, rfl, rfl⟩ | ⟨m, rfl, rfl⟩)
    · exact .inl ⟨[], (List.append_nil a).symm, rfl⟩
    · exact .inl ⟨x :: m, rfl, rfl⟩
    · exact .inr ⟨x :: m, rfl, rfl⟩

variable {pair pair' : String × String}

theorem claimKey_toList : (claimKey pair).toList = pair.1.toList ++ ':' :: pair.2.toList := by
  rw [claimKey, String.toList_append, String.toList_append, List.append_assoc]
  rfl

theorem overlaps_iff : Overlaps pair pair' ↔ ∃ m : List Char,
    pair'.1.toList = pair.1.toList ++ ':' :: m ∧ pair.2.toList = m ++ ':' :: pair'.2.toList := by
  constructor
  · rintro ⟨middle, hcaller, htarget⟩
    refine ⟨middle.toList, ?_, ?_⟩
    · rw [hcaller, String.toList_append, String.toList_append, List.append_assoc]
      rfl
    · rw [htarget, String.toList_append, String.toList_append, List.append_assoc]
      rfl
  · rintro ⟨m, hcaller, htarget⟩
    have hm : (String.ofList m).toList = m := String.toList_ofList
    refine ⟨.ofList m, String.toList_injective ?_, String.toList_injective ?_⟩
    · rw [hcaller, String.toList_append, String.toList_append, hm]
      exact (List.append_assoc _ [':'] m).symm
    · rw [htarget, String.toList_append, String.toList_append, hm]
      exact (List.append_assoc m [':'] _).symm

theorem claimKey_eq_iff : claimKey pair = claimKey pair' ↔
    pair = pair' ∨ Overlaps pair pair' ∨ Overlaps pair' pair := by
  rw [← String.toList_inj, claimKey_toList, claimKey_toList, append_cons_eq_iff, overlaps_iff,
    overlaps_iff, String.toList_inj, String.toList_inj, Prod.ext_iff]

/-- An overlap is never one of a pair with itself. -/
theorem Overlaps.ne (h : Overlaps pair pair') : pair ≠ pair' := by
  rintro rfl
  obtain ⟨m, hcaller, _⟩ := overlaps_iff.1 h
  have hlength := congrArg List.length hcaller
  rw [List.length_append, List.length_cons] at hlength
  omega

/-- The limiter meets its specification, if none of two callers is the other followed by a colon
and a beginning of its target. -/
theorem throttle_meets_iff (timed : Timed calls) : Meets quota calls pair pair' ↔
    ¬ (Overlaps pair pair' ∨ Overlaps pair' pair) := by
  have limited : Limited quota calls (serve quota calls) := limited_serve timed
  constructor
  · rintro h (hover | hover)
    · exact h.isolated hover.ne (claimKey_eq_iff.2 (.inr (.inl hover)))
    · exact h.isolated hover.ne.symm (claimKey_eq_iff.2 (.inr (.inr hover)))
  · intro hclear
    constructor
    · exact limited.decisions
    · intro hquota key start
      rw [limited.admitted hquota]
      exact countWithin_le (by decide) (timed.pairwise_own key) quota.toNat start
    · intro hne heq
      rcases claimKey_eq_iff.1 heq with hsame | hover
      · exact hne hsame
      · exact hclear hover

/-- A phone claims thrice the packages of another, within a minute. -/
theorem throttle_meets_phones : Timed (List.replicate 3 ⟨"a:phone:b:phone", 7⟩) ∧
    Meets 2 (List.replicate 3 ⟨"a:phone:b:phone", 7⟩) ("a:phone", "b:phone")
      ("b:phone", "a:phone") := by
  have timed : Timed (List.replicate 3 ⟨"a:phone:b:phone", 7⟩) :=
    .of_length (by decide) (by decide)
  refine ⟨timed, (throttle_meets_iff timed).2 ?_⟩
  rintro (hover | hover) <;>
  · obtain ⟨m, hcaller, _⟩ := overlaps_iff.1 hover
    have hlength := congrArg List.length hcaller
    rw [List.length_append, List.length_cons] at hlength
    have hsame : "a:phone".toList.length = "b:phone".toList.length := by decide
    dsimp only at hlength
    omega

/-- The id of a device, as `register_device` accepts it. -/
def acceptedId (id : String) : Bool :=
  !id.isEmpty && id.utf8ByteSize ≤ 128 && (Groups.devicePrefix id).any Groups.isAccountId

/-- Two phones of one account, and two accounts they aim at, count under one key. -/
theorem claims_of_colons_share :
    let alice := "0a0a0a0a0a0a0a0a0a0a0a0a0a0a0a0a"
    let bob := "0b0b0b0b0b0b0b0b0b0b0b0b0b0b0b0b"
    let carol := "0c0c0c0c0c0c0c0c0c0c0c0c0c0c0c0c"
    let pair := (alice ++ ":x", bob ++ ":y:" ++ carol ++ ":z")
    let pair' := (alice ++ ":x:" ++ bob ++ ":y", carol ++ ":z")
    acceptedId pair.1 ∧ acceptedId pair.2 ∧ acceptedId pair'.1 ∧ acceptedId pair'.2 ∧
      Timed [⟨claimKey pair, 0⟩, ⟨claimKey pair', 0⟩] ∧ pair ≠ pair' ∧ claimKey pair = claimKey pair' ∧
      ¬ Meets 1 [⟨claimKey pair, 0⟩, ⟨claimKey pair', 0⟩] pair pair' := by
  dsimp only
  refine ⟨by decide +kernel, by decide +kernel, by decide +kernel, by decide +kernel,
    .of_length (by simp) (by simp), by decide +kernel, by decide +kernel, fun h => ?_⟩
  exact h.isolated (by decide +kernel) (by decide +kernel)

end

end Whispee.Server
