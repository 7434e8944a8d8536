import Mathlib.Data.List.Chain
import Whispee.Lib.CodeUnits

/-!
# Mentions in a message

`runs` of `apps/web/src/lib/mention.ts`. The pattern takes at most 32 characters of a handle, and
what it took is looked up: of a longer run of handle characters it takes a beginning, which may be
a member although the whole names nobody (`scanned_iff`).
-/

namespace Whispee.Text.Mention

open CodeUnits

/-- A stretch of a message: prose, or somebody addressed by it. -/
inductive Run where
  | text (text : Units)
  | handle (handle : Units)
  deriving DecidableEq

/-- The sigil, `@`. -/
def AT : UInt16 := 0x40

/-- `[a-z0-9_]` -/
def handleChar (c : UInt16) : Bool := within 0x61 0x7A c || within 0x30 0x39 c || c = 0x5F

/-- `/[\w@]/` -/
def WORD (c : UInt16) : Bool := handleChar c || within 0x41 0x5A c || c = AT

/-- The handle characters after the sigil at `i`. -/
def following (s : Units) (i : Nat) : Units := (s.drop (i + 1)).takeWhile handleChar

/-- `/@([a-z0-9_]{3,32})/` at one place. -/
def matchAt (s : Units) (i : Nat) : Option Units :=
  if s[i]? = some AT ∧ 3 ≤ (following s i).length then some ((following s i).take 32) else none

/-- `SCAN.exec` from `lastIndex` on. -/
def exec (s : Units) (lastIndex : Nat) : Option (Nat × Units) := do
  let i ← (List.range' lastIndex (s.length - lastIndex)).find? fun i => (matchAt s i).isSome
  return (i, ← matchAt s i)

/-- What stands before a place does not let a mention begin there. -/
def joined (s : Units) (i : Nat) : Bool := 0 < i && s[i - 1]?.any WORD

theorem exec_eq_some (h : exec s lastIndex = some (i, handle)) :
    lastIndex ≤ i ∧ i < s.length ∧ matchAt s i = some handle ∧
      ∀ j, lastIndex ≤ j → j < i → matchAt s j = none := by
  obtain ⟨i', hfind, h⟩ := Option.bind_eq_some_iff.mp h
  obtain ⟨handle', hmatch, h⟩ := Option.bind_eq_some_iff.mp h
  obtain ⟨rfl, rfl⟩ := Prod.mk.inj (Option.some.inj h)
  obtain ⟨-, hmem, hfirst⟩ := List.find?_range'_eq_some.mp hfind
  rw [List.mem_range'_1] at hmem
  exact ⟨hmem.1, by omega, hmatch, fun j hj hlt => by simpa using hfirst j hj hlt⟩

theorem exec_eq_none (h : exec s lastIndex = none) (hj : lastIndex ≤ j) : matchAt s j = none := by
  by_cases hlt : j < s.length
  · cases hfind : (List.range' lastIndex (s.length - lastIndex)).find?
        fun i => (matchAt s i).isSome with
    | none =>
      simpa using List.find?_range'_eq_none.mp hfind j hj (by omega)
    | some i =>
      have hsome := List.find?_some (p := fun i => (matchAt s i).isSome) hfind
      obtain ⟨handle, hmatch⟩ := Option.isSome_iff_exists.mp hsome
      rw [exec, hfind] at h
      simp [hmatch] at h
  · rw [matchAt, if_neg]
    rw [List.getElem?_eq_none (Nat.le_of_not_lt hlt)]
    simp

/-- The loop of `runs`. -/
def scan (s : Units) (known : List Units) (out : List Run) (cut lastIndex : Nat) : List Run :=
  match h : exec s lastIndex with
  | none => if cut < s.length then out ++ [.text (slice s cut s.length)] else out
  | some (i, handle) =>
    let next := i + 1 + handle.length
    if joined s i then scan s known out cut next
    else if !known.contains handle then scan s known out cut next
    else
      let out := if cut < i then out ++ [.text (slice s cut i)] else out
      scan s known (out ++ [.handle handle]) next next
termination_by s.length - lastIndex
decreasing_by
  all_goals
    obtain ⟨hle, hlt, -⟩ := exec_eq_some h
    omega

def runs (s : Units) (among : List Units) : List Run := scan s among [] 0 0

/-! ## What is asked of the runs -/

/-- What a run stands for. -/
def Run.source : Run → Units
  | .text prose => prose
  | .handle name => AT :: name

def source (runs : List Run) : Units := runs.flatMap Run.source

def Run.isText : Run → Bool
  | .text _ => true
  | .handle _ => false

/-- Where the handles of the runs stand. -/
def spots : Nat → List Run → List (Nat × Units)
  | _, [] => []
  | i, .text prose :: runs => spots (i + prose.length) runs
  | i, .handle name :: runs => (i, name) :: spots (i + 1 + name.length) runs

/-- The member mentioned at a place: a sigil that a word does not run into, and the whole of the
handle characters after it. -/
def mentioned (s : Units) (among : List Units) (i : Nat) : Option (Nat × Units) :=
  let handle := following s i
  if s[i]? = some AT ∧ joined s i = false ∧ 3 ≤ handle.length ∧ handle.length ≤ 32 ∧
      among.contains handle then some (i, handle)
  else none

structure Scanned (s : Units) (among : List Units) (runs : List Run) : Prop where
  whole : source runs = s
  nonempty : ∀ text, .text text ∈ runs → text ≠ []
  separated : runs.IsChain fun a b => ¬ (a.isText ∧ b.isText)
  exact : spots 0 runs = (List.range s.length).filterMap (mentioned s among)

/-- No beginning of a longer run of handle characters is a member. -/
def Capped (s : Units) (among : List Units) : Prop :=
  ∀ i, s[i]? = some AT → joined s i = false → 32 < (following s i).length →
    (following s i).take 32 ∉ among

/-! ## What the loop finds -/

variable {s : Units} {among : List Units} {out : List Run}

/-- What the loop takes for a member at a place. -/
def taken (s : Units) (among : List Units) (i : Nat) : Option (Nat × Units) :=
  match matchAt s i with
  | some handle => if joined s i = false ∧ among.contains handle then some (i, handle) else none
  | none => none

theorem taken_eq_none (h : matchAt s i = none) : taken s among i = none := by
  rw [taken, h]

theorem source_append (a b : List Run) : source (a ++ b) = source a ++ source b :=
  List.flatMap_append

theorem spots_append (i : Nat) (a b : List Run) :
    spots i (a ++ b) = spots i a ++ spots (i + (source a).length) b := by
  induction a generalizing i with
  | nil => rfl
  | cons run a ih =>
    cases run with
    | text prose =>
      rw [List.cons_append, spots, spots, ih]
      simp [source, Run.source, Nat.add_assoc]
    | handle name =>
      rw [List.cons_append, spots, spots, ih]
      simp [source, Run.source, Nat.add_assoc, Nat.add_comm 1]

/-- A match is the sigil and handle characters, among which there is no other sigil. -/
theorem matchAt_eq_some (h : matchAt s i = some handle) :
    slice s i (i + 1 + handle.length) = AT :: handle ∧ i + 1 + handle.length ≤ s.length ∧
      ∀ j, i < j → j < i + 1 + handle.length → matchAt s j = none := by
  unfold matchAt at h
  split at h
  · next hat =>
    have hhandle := Option.some.inj h
    have hbegins : handle <+: s.drop (i + 1) := by
      rw [← hhandle]
      exact (List.take_prefix _ _).trans (List.takeWhile_prefix _)
    have hall : ∀ c ∈ handle, handleChar c = true := fun c hc => by
      rw [← hhandle] at hc
      exact List.all_eq_true.mp List.all_takeWhile c (List.mem_of_mem_take hc)
    have hlength := hbegins.length_le
    rw [List.length_drop] at hlength
    have hi : i < s.length := by
      by_contra hge
      rw [List.getElem?_eq_none (Nat.le_of_not_lt hge)] at hat
      cases hat.1
    refine ⟨?_, by omega, fun j hij hj => ?_⟩
    · rw [← slice_append (Nat.le_succ i) (Nat.le_add_right (i + 1) _), slice_singleton hat.1]
      rw [slice, Nat.add_sub_cancel_left, List.prefix_iff_eq_take.mp hbegins]
      simp
    · rw [matchAt, if_neg]
      rintro ⟨hsigil, -⟩
      obtain ⟨k, rfl⟩ : ∃ k, j = i + 1 + k := ⟨j - (i + 1), by omega⟩
      have hk : handle[k]? = some AT := by
        obtain ⟨t, ht⟩ := hbegins
        rw [← hsigil, ← List.getElem?_drop, ← ht, List.getElem?_append_left (by omega)]
      exact absurd (hall AT (List.mem_of_getElem? hk)) (by decide)
  · cases h

theorem range_filterMap_of_none {f : Nat → Option β} (hle : m ≤ n)
    (h : ∀ j, m ≤ j → j < n → f j = none) :
    (List.range n).filterMap f = (List.range m).filterMap f := by
  have hnone : (List.range' m (n - m)).filterMap f = [] :=
    List.filterMap_eq_nil_iff.mpr fun j hj => by
      rw [List.mem_range'_1] at hj
      exact h j hj.1 (by omega)
  have hsplit : List.range n = List.range m ++ List.range' m (n - m) := by
    have happend := List.range'_append_1 (s := 0) (m := m) (n := n - m)
    rw [Nat.zero_add, Nat.add_sub_cancel' hle] at happend
    rw [List.range_eq_range', List.range_eq_range', happend]
  rw [hsplit, List.filterMap_append, hnone, List.append_nil]

/-- Of the places from `m` on only `i` is taken. -/
theorem range_filterMap {f : Nat → Option β} (hle : m ≤ i) (hlt : i < n)
    (hbefore : ∀ j, m ≤ j → j < i → f j = none) (hafter : ∀ j, i < j → j < n → f j = none) :
    (List.range n).filterMap f = (List.range m).filterMap f ++ (f i).toList := by
  rw [range_filterMap_of_none hlt fun j hj => hafter j hj, List.range_succ, List.filterMap_append,
    range_filterMap_of_none hle hbefore]
  cases hi : f i <;> simp [hi]

/-- No empty prose, and no prose after prose. -/
structure Formed (out : List Run) : Prop where
  nonempty : ∀ prose, .text prose ∈ out → prose ≠ []
  separated : out.IsChain fun a b => ¬ (a.isText ∧ b.isText)

/-- What holds of the runs so far: they are the source up to the cut, no prose stands last, and
their handles are what is taken up to `lastIndex`. -/
structure Inv (s : Units) (among : List Units) (out : List Run) (cut lastIndex : Nat) : Prop where
  cut_le : cut ≤ lastIndex
  le : lastIndex ≤ s.length
  formed : Formed out
  whole : source out = s.take cut
  last : ∀ run, out.getLast? = some run → run.isText = false
  exact : spots 0 out = (List.range lastIndex).filterMap (taken s among)

/-- The runs with what is left before a place as prose. -/
structure Ended (s : Units) (out ended : List Run) (i : Nat) : Prop where
  formed : Formed ended
  whole : source ended = s.take i
  exact : spots 0 ended = spots 0 out

theorem Inv.ended (h : Inv s among out cut lastIndex) (hcut : cut ≤ i) (hi : i ≤ s.length) :
    Ended s out (if cut < i then out ++ [.text (slice s cut i)] else out) i := by
  split
  · next hlt =>
    have hne : slice s cut i ≠ [] := by
      intro hnil
      have hlength := length_slice (s := s) (i := cut) hi
      rw [hnil, List.length_nil] at hlength
      omega
    refine ⟨⟨fun prose hmem => ?_, ?_⟩, ?_, ?_⟩
    · rcases List.mem_append.mp hmem with hmem | hmem
      · exact h.formed.nonempty prose hmem
      · exact Run.text.inj (List.mem_singleton.mp hmem) ▸ hne
    · rw [List.isChain_append]
      refine ⟨h.formed.separated, List.isChain_singleton _, fun a ha b hb => ?_⟩
      rw [h.last a ha]
      simp
    · rw [source_append, h.whole]
      simpa [source, Run.source] using take_slice hcut
    · rw [spots_append]
      simp [spots]
  · next hge =>
    have hi : i = cut := by omega
    exact ⟨h.formed, hi ▸ h.whole, rfl⟩

/-- A match that is not a member, or that a word runs into, stays prose. -/
theorem Inv.skip (h : Inv s among out cut lastIndex) (hexec : exec s lastIndex = some (i, handle))
    (htaken : taken s among i = none) : Inv s among out cut (i + 1 + handle.length) := by
  obtain ⟨hle, hlt, hmatch, hbefore⟩ := exec_eq_some hexec
  obtain ⟨_, hend, hafter⟩ := matchAt_eq_some hmatch
  have hcut := h.cut_le
  refine ⟨by omega, hend, h.formed, h.whole, h.last, ?_⟩
  rw [range_filterMap hle (by omega) (fun j hj hji => taken_eq_none (hbefore j hj hji))
    fun j hij hj => taken_eq_none (hafter j hij hj), htaken, h.exact]
  exact (List.append_nil _).symm

/-- A match that is a member ends the prose before it. -/
theorem Inv.take (h : Inv s among out cut lastIndex) (hexec : exec s lastIndex = some (i, handle))
    (htaken : taken s among i = some (i, handle)) :
    Inv s among ((if cut < i then out ++ [.text (slice s cut i)] else out) ++ [.handle handle])
      (i + 1 + handle.length) (i + 1 + handle.length) := by
  obtain ⟨hle, hlt, hmatch, hbefore⟩ := exec_eq_some hexec
  obtain ⟨hslice, hend, hafter⟩ := matchAt_eq_some hmatch
  have hcut := h.cut_le
  have hended := h.ended (i := i) (by omega) (by omega)
  refine ⟨Nat.le_refl _, hend, ⟨fun prose hmem => ?_, ?_⟩, ?_, fun run hrun => ?_, ?_⟩
  · rcases List.mem_append.mp hmem with hmem | hmem
    · exact hended.formed.nonempty prose hmem
    · cases List.mem_singleton.mp hmem
  · rw [List.isChain_append]
    refine ⟨hended.formed.separated, List.isChain_singleton _, fun a _ b hb => ?_⟩
    cases Option.mem_some_iff.mp hb
    simp [Run.isText]
  · rw [source_append, hended.whole]
    have hsource : source [.handle handle] = slice s i (i + 1 + handle.length) := by
      rw [hslice]
      simp [source, Run.source]
    rw [hsource, take_slice (by omega)]
  · rw [List.getLast?_append] at hrun
    cases hrun
    rfl
  · rw [spots_append, hended.exact, hended.whole, List.length_take, h.exact,
      range_filterMap hle (by omega) (fun j hj hji => taken_eq_none (hbefore j hj hji))
        fun j hij hj => taken_eq_none (hafter j hij hj), htaken]
    simp [spots]
    omega

theorem taken_of_not_mem (hmatch : matchAt s i = some handle)
    (h : (!among.contains handle) = true) : taken s among i = none := by
  rw [taken, hmatch]
  refine if_neg fun ⟨_, hmem⟩ => ?_
  rw [hmem] at h
  cases h

theorem taken_of_joined (h : joined s i = true) : taken s among i = none := by
  unfold taken
  split
  · rw [h]
    exact if_neg (by simp)
  · rfl

theorem scan_spec (h : Inv s among out cut lastIndex) :
    Formed (scan s among out cut lastIndex) ∧ source (scan s among out cut lastIndex) = s ∧
      spots 0 (scan s among out cut lastIndex) =
        (List.range s.length).filterMap (taken s among) := by
  fun_induction scan s among out cut lastIndex with
  | case1 out cut lastIndex hexec hcut =>
    have hended := h.ended (h.cut_le.trans h.le) (Nat.le_refl _)
    rw [if_pos hcut] at hended
    refine ⟨hended.formed, by rw [hended.whole, List.take_length], ?_⟩
    rw [hended.exact, h.exact,
      range_filterMap_of_none h.le fun j hj _ => taken_eq_none (exec_eq_none hexec hj)]
  | case2 out cut lastIndex hexec hcut =>
    have hended := h.ended (h.cut_le.trans h.le) (Nat.le_refl _)
    rw [if_neg hcut] at hended
    refine ⟨hended.formed, by rw [hended.whole, List.take_length], ?_⟩
    rw [h.exact,
      range_filterMap_of_none h.le fun j hj _ => taken_eq_none (exec_eq_none hexec hj)]
  | case3 out cut lastIndex i handle hexec next hjoined ih =>
    exact ih (h.skip hexec (taken_of_joined hjoined))
  | case4 out cut lastIndex i handle hexec next hjoined hmem ih =>
    exact ih (h.skip hexec (taken_of_not_mem (exec_eq_some hexec).2.2.1 hmem))
  | case5 out cut lastIndex i handle hexec next hjoined hmem out' ih =>
    refine ih (h.take hexec ?_)
    rw [taken, (exec_eq_some hexec).2.2.1]
    exact if_pos ⟨by simpa using hjoined, by simpa using hmem⟩

theorem inv_start (s : Units) (among : List Units) : Inv s among [] 0 0 :=
  ⟨Nat.le_refl _, Nat.zero_le _, ⟨by simp, List.isChain_nil⟩, rfl, by simp, rfl⟩

/-! ## Long runs -/

/-- Where the run of handle characters has at most 32 of them, what is taken is what is
mentioned. -/
theorem taken_eq_mentioned (h : (following s i).length ≤ 32) :
    taken s among i = mentioned s among i := by
  rw [taken, mentioned, matchAt, List.take_of_length_le h]
  by_cases hat : s[i]? = some AT ∧ 3 ≤ (following s i).length
  · rw [if_pos hat]
    simp [hat, h]
  · rw [if_neg hat, if_neg (fun hall => hat ⟨hall.1, hall.2.2.1⟩)]

/-- Of a longer run a beginning may be taken, and nothing is mentioned. -/
theorem taken_of_long (h : 32 < (following s i).length) :
    taken s among i = none ↔
      (s[i]? = some AT → joined s i = false → (following s i).take 32 ∉ among) := by
  rw [taken, matchAt]
  by_cases hat : s[i]? = some AT
  · rw [if_pos ⟨hat, by omega⟩]
    simp [hat]
  · rw [if_neg fun hall => hat hall.1]
    simp [hat]

theorem mentioned_of_long (h : 32 < (following s i).length) : mentioned s among i = none :=
  if_neg fun hall => absurd hall.2.2.2.1 (by omega)

/-- What is taken everywhere is what is mentioned, if no long run begins with a member. -/
theorem filterMap_taken_iff (s : Units) (among : List Units) :
    (List.range s.length).filterMap (taken s among) =
      (List.range s.length).filterMap (mentioned s among) ↔ Capped s among := by
  constructor
  · intro heq i hat hjoined hlong hmem
    have hi : i < s.length := (List.getElem?_eq_some_iff.mp hat).1
    have htaken : taken s among i = some (i, (following s i).take 32) := by
      rw [taken, matchAt, if_pos ⟨hat, by omega⟩]
      exact if_pos ⟨hjoined, List.contains_iff_mem.mpr hmem⟩
    have hin : (i, (following s i).take 32) ∈
        (List.range s.length).filterMap (mentioned s among) := by
      rw [← heq]
      exact List.mem_filterMap.mpr ⟨i, List.mem_range.mpr hi, htaken⟩
    obtain ⟨j, -, hj⟩ := List.mem_filterMap.mp hin
    simp only [mentioned] at hj
    split at hj
    · next hall =>
      obtain ⟨rfl, -⟩ := Prod.mk.inj (Option.some.inj hj)
      exact absurd hall.2.2.2.1 (by omega)
    · cases hj
  · intro h
    refine List.filterMap_congr fun i _ => ?_
    by_cases hlong : 32 < (following s i).length
    · rw [mentioned_of_long hlong, taken_of_long hlong]
      exact fun hat hjoined => h i hat hjoined hlong
    · exact taken_eq_mentioned (Nat.le_of_not_lt hlong)

/-- The runs of a message are what is asked of them exactly when no run of more than 32 handle
characters begins with a member. -/
theorem scanned_iff (s : Units) (among : List Units) :
    Scanned s among (runs s among) ↔ Capped s among := by
  obtain ⟨hformed, hwhole, hspots⟩ := scan_spec (inv_start s among)
  rw [← filterMap_taken_iff, ← hspots]
  exact ⟨fun h => h.exact, fun h => ⟨hwhole, hformed.nonempty, hformed.separated, h⟩⟩

/-- A member of 32 characters, and one more written after it. -/
theorem dangling : ¬ ∀ s among, Scanned s among (runs s among) := by
  intro h
  let member : Units := List.replicate 32 0x61
  have hscanned := h (AT :: (member ++ [0x61])) [member]
  have hcapped := (filterMap_taken_iff _ _).mp
    ((scan_spec (inv_start _ _)).2.2.symm.trans hscanned.exact)
  exact hcapped 0 rfl rfl (by decide) (by decide)

end Whispee.Text.Mention
