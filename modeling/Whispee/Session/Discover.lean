import Whispee.Lib.Tasks
import Whispee.Server.Envelopes

/-!
# Finding the Welcome

`decode`, `encodeMls` and `encodeWelcome` of `apps/web/src/lib/envelope.ts`, and
`discoverNewConversations` of `apps/web/src/lib/session.ts` over the mailboxes of the groups the
server lists for a device. MLS is a parameter: which Welcomes open depends on the key packages a
device holds, and an attempt to join uses up the one a Welcome is encrypted to.
-/

namespace Whispee.Session.Discover

open Server (Envelope GroupTable)
open Whispee.Group (MAX_ENVELOPES_PER_PAGE)
open Transition

/-! ## The application envelope -/

def TYPE_MLS : UInt8 := 0
def TYPE_WELCOME : UInt8 := 1

inductive Parsed where
  | mls (payload : Bytes)
  | welcome (welcome ratchetTree : Bytes)
  deriving DecidableEq, Repr

def encodeMls (payload : Bytes) : Bytes := TYPE_MLS :: payload

def encodeWelcome (welcome ratchetTree : Bytes) : Bytes :=
  TYPE_WELCOME :: (toBeBytes 4 welcome.length ++ (welcome ++ ratchetTree))

def decode : Bytes → Except String Parsed
  | [] => .error "empty envelope"
  | type :: rest =>
    if type = TYPE_MLS then .ok (.mls rest)
    else if type = TYPE_WELCOME then
      if rest.length < 4 then .error "truncated welcome envelope"
      else
        let welcomeLength := fromBeBytes (rest.take 4)
        if 4 + welcomeLength > rest.length then .error "inconsistent welcome length"
        else .ok (.welcome ((rest.drop 4).take welcomeLength) (rest.drop (4 + welcomeLength)))
    else .error ("unknown envelope type: " ++ toString type)

theorem decode_encodeMls (payload : Bytes) : decode (encodeMls payload) = .ok (.mls payload) := rfl

theorem decode_encodeWelcome (h : welcome.length < 2 ^ 32) :
    decode (encodeWelcome welcome ratchetTree) = .ok (.welcome welcome ratchetTree) := by
  have prefixed : (toBeBytes 4 welcome.length).length = 4 := length_toBeBytes
  have length : fromBeBytes (toBeBytes 4 welcome.length) = welcome.length :=
    fromBeBytes_toBeBytes h
  have fits : ¬ 4 + welcome.length >
      (toBeBytes 4 welcome.length ++ (welcome ++ ratchetTree)).length := by
    simp only [List.length_append, prefixed]
    omega
  simp only [decode, encodeWelcome, if_neg (by decide : TYPE_WELCOME ≠ TYPE_MLS), if_true,
    List.take_left' prefixed, List.drop_left' prefixed, length, if_neg fits, ← List.drop_drop,
    List.take_left, List.drop_left]
  rw [if_neg (by simp [prefixed])]

/-! ## The device -/

/-- The MLS client of a device, as far as joining goes. -/
structure Mls (Store Key : Type) where
  /-- The group joined, if the Welcome opens, and what the attempt leaves of the store. -/
  join : Store → Bytes → Bytes → Store × Option Bytes
  publishKeyPackage : Store → Store
  peerFingerprints : Store → Bytes → List String
  epoch : Store → Bytes → Nat
  /-- The key packages whose private part is in the store. -/
  holds : Store → Key → Prop
  /-- The key packages a Welcome is encrypted to. -/
  recipients : Bytes → List Key
  /-- The key packages this device ever makes. -/
  own : Key → Prop

variable {Store Key : Type} (mls : Mls Store Key)

/-- What discovery relies on of MLS. -/
structure Mls.Lawful : Prop where
  /-- A Welcome encrypted to no key package held does not open. -/
  unmatched : (∀ key ∈ mls.recipients welcome, ¬ mls.holds store key) →
    (mls.join store welcome tree).2 = none
  /-- An attempt uses up no other key package than those the Welcome is encrypted to. -/
  kept : key ∉ mls.recipients welcome → mls.holds store key →
    mls.holds (mls.join store welcome tree).1 key
  spent : mls.holds (mls.join store welcome tree).1 key → mls.holds store key
  published : mls.holds store key → mls.holds (mls.publishKeyPackage store) key
  made : mls.holds (mls.publishKeyPackage store) key → mls.holds store key ∨ mls.own key

/-- A conversation, as joining sets it up. -/
structure View where
  groupId : Bytes
  peers : List String
  epoch : Nat
  cursor : Nat
  deriving DecidableEq, Repr

/-- The loop over the rows of a page: every Welcome is tried, up to the first that opens. -/
def tryRows (store : Store) : List Envelope → Store × Option (Bytes × Nat)
  | [] => (store, none)
  | row :: rows =>
    match decode row.payload with
    | .ok (.welcome welcome tree) =>
      let attempt := mls.join store welcome tree
      match attempt.2 with
      | some joined => (attempt.1, some (joined, row.seq))
      | none => tryRows attempt.1 rows
    | _ => tryRows store rows

/-! ## The device and the server -/

structure World (Store : Type) where
  /-- The mailboxes, by the hexadecimal form of the group's id. -/
  tables : String → GroupTable
  /-- The groups the server lists for the device. -/
  listed : List String
  store : Store
  conversations : List (String × View)
  /-- The groups a discovery under way has yet to visit. -/
  toVisit : List String

inductive Action where
  /-- The server's list changes. -/
  | list (groups : List String)
  | post (hex : String) (payload : Bytes) (createdAt : Nat)
  | purge (hex : String) (now : Nat)
  | publishKeyPackage
  /-- A discovery starts: the server's list is fetched. -/
  | listGroups
  /-- It goes on to the next group. -/
  | visit
  /-- A request fails, and the discovery ends. -/
  | fail

namespace World

def has (w : World Store) (hex : String) : Bool := w.conversations.any (·.1 = hex)

def setTable (w : World Store) (hex : String) (t : GroupTable) : World Store :=
  { w with tables := Function.update w.tables hex t }

/-- One turn of `discoverNewConversations`. -/
def visit (w : World Store) (hex : String) : World Store :=
  if w.has hex then w
  else
    let (store, found) := tryRows mls w.store ((w.tables hex).page 0)
    match found with
    | some (joined, seq) => { w with
        store
        conversations := w.conversations ++
          [(hex, ⟨joined, mls.peerFingerprints store joined, mls.epoch store joined, seq⟩)] }
    | none => { w with store }

def step (w : World Store) : Action → Option (World Store)
  | .list groups => some { w with listed := groups }
  | .post hex payload createdAt =>
    let t := w.tables hex
    some (w.setTable hex (t.insert ⟨t.nextSeq + 1, payload, createdAt⟩))
  | .purge hex now =>
    let t := w.tables hex
    some (w.setTable hex (t.delete ((t.envelopes.filter (t.doomed now)).map (·.seq))))
  | .publishKeyPackage => some { w with store := mls.publishKeyPackage w.store }
  | .listGroups => if w.toVisit = [] then some { w with toVisit := w.listed } else none
  | .visit =>
    match w.toVisit with
    | [] => none
    | hex :: rest => some { w.visit mls hex with toVisit := rest }
  | .fail => some { w with toVisit := [] }

/-- The device has joined the group from this envelope. -/
def JoinedFrom (w : World Store) (hex : String) (row : Envelope) : Prop :=
  ∃ view, (hex, view) ∈ w.conversations ∧ view.cursor = row.seq

/-- The envelope is retained, and fewer than a page's worth of retained ones come before it. -/
def OnFirstPage (w : World Store) (hex : String) (row : Envelope) : Prop :=
  row ∈ (w.tables hex).envelopes ∧
    ((w.tables hex).envelopes.filter (·.seq < row.seq)).length < MAX_ENVELOPES_PER_PAGE

/-- A discovery visits the group while the envelope is on the first page of its mailbox. -/
def Finds (hex : String) (row : Envelope) (w : World Store) (a : Action) : Prop :=
  a = .visit ∧ w.toVisit.head? = some hex ∧ w.OnFirstPage hex row

end World

/-! ## The Welcome that is looked for -/

/-- An envelope that is a Welcome encrypted to this key package. -/
def Mls.AddressedTo (key : Key) (payload : Bytes) : Prop :=
  ∃ welcome tree, decode payload = .ok (.welcome welcome tree) ∧ key ∈ mls.recipients welcome

/-- A Welcome that opens on every device that holds this key package. -/
def Mls.Invites (key : Key) (payload : Bytes) : Prop :=
  ∃ welcome tree, decode payload = .ok (.welcome welcome tree) ∧
    ∀ store, mls.holds store key → (mls.join store welcome tree).2.isSome

/-- An envelope that may lie beside the Welcome for `key` in the mailbox of the group: none of our
key packages can open it. Elsewhere, any envelope that is for another key package may lie. -/
def Mls.Beside (key : Key) (hex hex' : String) (payload : Bytes) : Prop :=
  ¬ mls.AddressedTo key payload ∧
    (hex' = hex → ∀ key', mls.own key' → ¬ mls.AddressedTo key' payload)

/-- The rows of a table come in the order of their numbers, which start at `1`. -/
def Sorted (t : GroupTable) : Prop :=
  t.envelopes.Pairwise (·.seq < ·.seq) ∧ ∀ e ∈ t.envelopes, 0 < e.seq ∧ e.seq ≤ t.nextSeq

/-- A device that has not joined the group yet, and its Welcome `row` among other envelopes. -/
structure Invited (key : Key) (hex : String) (row : Envelope) (w : World Store) : Prop where
  sorted : ∀ hex', Sorted (w.tables hex')
  invites : mls.Invites key row.payload
  keyPackage : mls.own key ∧ mls.holds w.store key
  own : ∀ key', mls.holds w.store key' → mls.own key'
  beside : ∀ hex', ∀ e ∈ (w.tables hex').envelopes,
    (hex' = hex ∧ e = row) ∨ mls.Beside key hex hex' e.payload
  unjoined : w.has hex = false

/-- A post puts nothing in the way of the Welcome. -/
def Mls.PostsBeside (key : Key) (hex : String) : Action → Prop
  | .post hex' payload _ => mls.Beside key hex hex' payload
  | _ => True

/-! ## A page -/

theorem mem_take_iff_of_pairwise {l : List Envelope} (h : l.Pairwise (·.seq < ·.seq)) (he : e ∈ l) :
    e ∈ l.take n ↔ (l.filter (·.seq < e.seq)).length < n := by
  obtain ⟨before, after, rfl⟩ := List.append_of_mem he
  obtain ⟨_, ⟨hafter, _⟩, hbefore⟩ := List.pairwise_append.1 h |>.imp_right
    (And.imp_left List.pairwise_cons.1)
  have smaller : (before ++ e :: after).filter (·.seq < e.seq) = before := by
    rw [List.filter_append, List.filter_cons_of_neg (by simp), List.filter_eq_self.2,
      List.filter_eq_nil_iff.2, List.append_nil]
    · intro x hx
      simpa using Nat.le_of_lt (hafter x hx)
    · intro x hx
      simpa using hbefore x hx e List.mem_cons_self
  rw [smaller]
  constructor
  · intro hmem
    refine Nat.lt_of_not_le fun hle => ?_
    rw [List.take_append_of_le_length hle] at hmem
    exact Nat.lt_irrefl _ (hbefore e (List.mem_of_mem_take hmem) e List.mem_cons_self)
  · intro hlt
    obtain ⟨k, rfl⟩ := Nat.exists_eq_add_of_lt hlt
    simp [List.take_append, Nat.add_assoc]

theorem Sorted.page_zero {t : GroupTable} (h : Sorted t) :
    t.page 0 = t.envelopes.take MAX_ENVELOPES_PER_PAGE := by
  have all : t.envelopes.filter (0 < ·.seq) = t.envelopes :=
    List.filter_eq_self.2 fun e he => decide_eq_true (h.2 e he).1
  rw [GroupTable.page, all, List.Pairwise.insertionSort_eq (h.1.imp Nat.le_of_lt)]

theorem Sorted.insert {t : GroupTable} (h : Sorted t) :
    Sorted (t.insert ⟨t.nextSeq + 1, payload, createdAt⟩) := by
  refine ⟨List.pairwise_append.2 ⟨h.1, List.pairwise_singleton _ _, ?_⟩, ?_⟩
  · intro e he e' he'
    cases List.mem_singleton.1 he'
    exact Nat.lt_succ_of_le (h.2 e he).2
  · exact Tasks.forall_mem_concat (fun e he => ⟨(h.2 e he).1, Nat.le_succ_of_le (h.2 e he).2⟩)
      ⟨Nat.succ_pos _, Nat.le_refl _⟩

theorem Sorted.delete {t : GroupTable} (h : Sorted t) : Sorted (t.delete seqs) :=
  ⟨h.1.filter _, fun e he => h.2 e (List.mem_filter.1 he).1⟩

/-! ## The rows of a page, tried one after the other -/

variable {mls : Mls Store Key}

theorem tryRows_cons_of_none (h : ∀ welcome tree, decode e.payload = .ok (.welcome welcome tree) →
      (mls.join store welcome tree).2 = none) :
    ∃ store', tryRows mls store (e :: rows) = tryRows mls store' rows ∧
      (store' = store ∨ ∃ welcome tree, decode e.payload = .ok (.welcome welcome tree) ∧
        store' = (mls.join store welcome tree).1) := by
  cases hdecode : decode e.payload with
  | error _ => exact ⟨store, by simp only [tryRows, hdecode], .inl rfl⟩
  | ok parsed =>
    cases parsed with
    | mls _ => exact ⟨store, by simp only [tryRows, hdecode], .inl rfl⟩
    | welcome welcome tree =>
      exact ⟨_, by simp only [tryRows, hdecode, h welcome tree hdecode],
        .inr ⟨welcome, tree, rfl, rfl⟩⟩

theorem spent_tryRows (laws : mls.Lawful) (h : mls.holds (tryRows mls store rows).1 key) :
    mls.holds store key := by
  fun_induction tryRows mls store rows with
  | case1 => exact h
  | case2 => exact laws.spent h
  | case3 store row rows welcome tree _ _ _ ih => exact laws.spent (ih h)
  | case4 store row rows _ ih => exact ih h

theorem holds_tryRows (laws : mls.Lawful) (h : mls.holds store key)
    (apart : ∀ e ∈ rows, ¬ mls.AddressedTo key e.payload) :
    mls.holds (tryRows mls store rows).1 key := by
  fun_induction tryRows mls store rows with
  | case1 => exact h
  | case2 store row rows welcome tree hdecode =>
    exact laws.kept (fun hkey => apart row List.mem_cons_self ⟨welcome, tree, hdecode, hkey⟩) h
  | case3 store row rows welcome tree hdecode _ _ ih =>
    refine ih (laws.kept (fun hkey => ?_) h) fun e he => apart e (List.mem_cons_of_mem _ he)
    exact apart row List.mem_cons_self ⟨welcome, tree, hdecode, hkey⟩
  | case4 store row rows _ ih => exact ih h fun e he => apart e (List.mem_cons_of_mem _ he)

/-- Among envelopes for others, nothing opens. -/
theorem tryRows_of_foreign (laws : mls.Lawful) (own : ∀ key, mls.holds store key → mls.own key)
    (foreign : ∀ e ∈ rows, ∀ key, mls.own key → ¬ mls.AddressedTo key e.payload)
    (rows' : List Envelope) :
    ∃ store', tryRows mls store (rows ++ rows') = tryRows mls store' rows' ∧
      (∀ key, mls.holds store' key → mls.holds store key) ∧
      ∀ key, mls.own key → mls.holds store key → mls.holds store' key := by
  induction rows generalizing store with
  | nil => exact ⟨store, rfl, fun _ h => h, fun _ _ h => h⟩
  | cons e rows ih =>
    have notNamed : ∀ {key welcome tree}, mls.own key →
        decode e.payload = .ok (.welcome welcome tree) → key ∉ mls.recipients welcome :=
      fun hown hdecode hkey => foreign e List.mem_cons_self _ hown ⟨_, _, hdecode, hkey⟩
    have refused : ∀ welcome tree, decode e.payload = .ok (.welcome welcome tree) →
        (mls.join store welcome tree).2 = none := fun welcome tree hdecode =>
      laws.unmatched fun key hkey hholds => notNamed (own key hholds) hdecode hkey
    obtain ⟨next, skipped, hnext⟩ := tryRows_cons_of_none refused
    have spent : ∀ key, mls.holds next key → mls.holds store key := by
      rcases hnext with rfl | ⟨welcome, tree, _, rfl⟩
      · exact fun _ h => h
      · exact fun _ => laws.spent
    have kept : ∀ key, mls.own key → mls.holds store key → mls.holds next key := by
      rcases hnext with rfl | ⟨welcome, tree, hdecode, rfl⟩
      · exact fun _ _ h => h
      · exact fun key hown => laws.kept (notNamed hown hdecode)
    obtain ⟨last, hlast, spent', kept'⟩ := ih (fun key h => own key (spent key h))
      fun e he => foreign e (List.mem_cons_of_mem _ he)
    exact ⟨last, skipped.trans hlast, fun key h => spent key (spent' key h),
      fun key hown h => kept' key hown (kept key hown h)⟩

theorem tryRows_of_opens (h : mls.holds store key) (invites : mls.Invites key row.payload) :
    ∃ joined, (tryRows mls store (row :: rows)).2 = some (joined, row.seq) := by
  obtain ⟨welcome, tree, hdecode, opens⟩ := invites
  obtain ⟨joined, hjoined⟩ := Option.isSome_iff_exists.1 (opens store h)
  exact ⟨joined, by simp only [tryRows, hdecode, hjoined]⟩

/-! ## One turn -/

namespace World

theorem tables_setTable (w : World Store) (hex : String) (t : GroupTable) (hex' : String) :
    (w.setTable hex t).tables hex' = if hex' = hex then t else w.tables hex' :=
  Function.update_apply w.tables hex t hex'

theorem step_visit_eq_some_iff {w : World Store} : w.step mls .visit = some w' ↔
    ∃ hex rest, w.toVisit = hex :: rest ∧ { w.visit mls hex with toVisit := rest } = w' := by
  simp only [step]
  split
  next h => simp [h]
  next hex rest h => simp [h]

theorem visit_of_has {w : World Store} (h : w.has hex) : w.visit mls hex = w := if_pos h

theorem visit_of_none {w : World Store} (h : w.has hex = false)
    (hnone : (tryRows mls w.store ((w.tables hex).page 0)).2 = none) :
    w.visit mls hex = { w with store := (tryRows mls w.store ((w.tables hex).page 0)).1 } := by
  simp only [visit, h, Bool.false_eq_true, if_false, hnone]

theorem visit_of_some {w : World Store} (h : w.has hex = false)
    (hsome : (tryRows mls w.store ((w.tables hex).page 0)).2 = some (joined, seq)) :
    ∃ view, view.cursor = seq ∧ w.visit mls hex = { w with
      store := (tryRows mls w.store ((w.tables hex).page 0)).1
      conversations := w.conversations ++ [(hex, view)] } := by
  simp only [visit, h, Bool.false_eq_true, if_false, hsome]
  exact ⟨_, rfl, rfl⟩

/-- What a turn may change: the store, by what the rows of the page make of it, and the
conversation of the group visited. -/
theorem visit_cases (mls : Mls Store Key) (w : World Store) (hex : String) :
    w.visit mls hex = w ∨ ∃ conversations,
      (∀ hex', hex' ≠ hex → conversations.any (·.1 = hex') = w.has hex') ∧
      w.visit mls hex = { w with
        store := (tryRows mls w.store ((w.tables hex).page 0)).1
        conversations } := by
  cases h : w.has hex with
  | true => exact .inl (visit_of_has h)
  | false =>
    cases hfound : (tryRows mls w.store ((w.tables hex).page 0)).2 with
    | none => exact .inr ⟨w.conversations, fun _ _ => rfl, visit_of_none h hfound⟩
    | some found =>
      obtain ⟨view, _, hvisit⟩ := visit_of_some h hfound
      refine .inr ⟨_, fun hex' hne => ?_, hvisit⟩
      simp [has, Ne.symm hne]

end World

variable {w : World Store} {key : Key}

theorem Sorted.mem_page_zero (h : Sorted (w.tables hex)) :
    row ∈ (w.tables hex).page 0 ↔ w.OnFirstPage hex row := by
  rw [h.page_zero]
  constructor
  · intro hmem
    have retained := List.mem_of_mem_take hmem
    exact ⟨retained, (mem_take_iff_of_pairwise h.1 retained).1 hmem⟩
  · exact fun ⟨retained, first⟩ => (mem_take_iff_of_pairwise h.1 retained).2 first

namespace Invited

theorem mem_of_mem_page (h : Invited mls key hex row w) (he : e ∈ (w.tables hex').page 0) :
    e ∈ (w.tables hex').envelopes :=
  List.mem_of_mem_take ((h.sorted hex').page_zero ▸ he)

/-- A turn over rows for other key packages, which joins nothing for the group, leaves the
invitation as it was. -/
theorem of_visit (h : Invited mls key hex row w) (laws : mls.Lawful)
    (apart : ∀ e ∈ (w.tables hex').page 0, ¬ mls.AddressedTo key e.payload)
    (unjoined : (w.visit mls hex').has hex = false) :
    Invited mls key hex row (w.visit mls hex') := by
  rcases w.visit_cases mls hex' with same | ⟨conversations, _, hvisit⟩
  · exact same.symm ▸ h
  · rw [hvisit] at unjoined ⊢
    exact {
      sorted := h.sorted
      invites := h.invites
      keyPackage := ⟨h.keyPackage.1, holds_tryRows laws h.keyPackage.2 apart⟩
      own := fun key' hkey' => h.own key' (spent_tryRows laws hkey')
      beside := h.beside
      unjoined }

/-- While the Welcome is not on the first page, a turn on its group finds nothing. -/
theorem visit_of_not_onFirstPage (h : Invited mls key hex row w) (laws : mls.Lawful)
    (hnot : ¬ w.OnFirstPage hex row) : Invited mls key hex row (w.visit mls hex) := by
  have beside : ∀ e ∈ (w.tables hex).page 0, mls.Beside key hex hex e.payload := by
    intro e he
    rcases h.beside hex e (h.mem_of_mem_page he) with ⟨_, rfl⟩ | hbeside
    · exact absurd ((h.sorted hex).mem_page_zero.1 he) hnot
    · exact hbeside
  obtain ⟨store, hskip, _⟩ := tryRows_of_foreign laws h.own (fun e he => (beside e he).2 rfl) []
  rw [List.append_nil] at hskip
  refine h.of_visit laws (fun e he => (beside e he).1) ?_
  rw [World.visit_of_none h.unjoined (by rw [hskip]; rfl)]
  exact h.unjoined

/-- A turn on another group leaves the key package of the Welcome alone. -/
theorem visit_of_ne (h : Invited mls key hex row w) (laws : mls.Lawful) (hne : hex' ≠ hex) :
    Invited mls key hex row (w.visit mls hex') := by
  refine h.of_visit laws (fun e he => ?_) ?_
  · rcases h.beside hex' e (h.mem_of_mem_page he) with ⟨rfl, _⟩ | hbeside
    · exact absurd rfl hne
    · exact hbeside.1
  · rcases w.visit_cases mls hex' with same | ⟨conversations, others, hvisit⟩
    · exact same.symm ▸ h.unjoined
    · rw [hvisit]
      exact (others hex (Ne.symm hne)).trans h.unjoined

/-- On the first page, the Welcome is reached, and opens. -/
theorem joinedFrom_visit (h : Invited mls key hex row w) (laws : mls.Lawful)
    (first : w.OnFirstPage hex row) : (w.visit mls hex).JoinedFrom hex row := by
  have ordered : ((w.tables hex).page 0).Pairwise (·.seq < ·.seq) :=
    (h.sorted hex).page_zero ▸ (h.sorted hex).1.sublist (List.take_sublist _ _)
  obtain ⟨before, after, hpage⟩ := List.append_of_mem ((h.sorted hex).mem_page_zero.2 first)
  rw [hpage] at ordered
  have foreign : ∀ e ∈ before, ∀ key', mls.own key' → ¬ mls.AddressedTo key' e.payload := by
    intro e he
    have retained := h.mem_of_mem_page (e := e) (hpage ▸ List.mem_append_left _ he)
    rcases h.beside hex e retained with ⟨_, rfl⟩ | hbeside
    · have ahead := (List.pairwise_append.1 ordered).2.2 e he e List.mem_cons_self
      exact absurd ahead (Nat.lt_irrefl _)
    · exact hbeside.2 rfl
  obtain ⟨store, hskip, _, kept⟩ := tryRows_of_foreign laws h.own foreign (row :: after)
  have held : mls.holds store key := kept key h.keyPackage.1 h.keyPackage.2
  have opened : ∃ joined, (tryRows mls w.store ((w.tables hex).page 0)).2 = some (joined, row.seq) := by
    rw [hpage, hskip]
    exact tryRows_of_opens held h.invites
  obtain ⟨joined, hjoined⟩ := opened
  obtain ⟨view, hcursor, hvisit⟩ := World.visit_of_some h.unjoined hjoined
  rw [hvisit]
  exact ⟨view, List.mem_append_right _ (List.mem_singleton_self _), hcursor⟩

theorem setTable (h : Invited mls key hex row w) (sorted : Sorted t)
    (beside : ∀ e ∈ t.envelopes, e ∈ (w.tables hex').envelopes ∨ mls.Beside key hex hex' e.payload) :
    Invited mls key hex row (w.setTable hex' t) := by
  refine { h with sorted := fun hex'' => ?_, beside := fun hex'' => ?_ }
  · rw [World.tables_setTable]
    split
    · exact sorted
    · exact h.sorted hex''
  · rw [World.tables_setTable]
    split
    next heq =>
      subst heq
      exact fun e he => (beside e he).elim (h.beside hex'' e) .inr
    next => exact h.beside hex''

/-- Every step leaves the Welcome to be found, except the turn that finds it. -/
theorem step (h : Invited mls key hex row w) (laws : mls.Lawful) (hpost : mls.PostsBeside key hex a)
    (hnot : ¬ w.Finds hex row a) (hs : w.step mls a = some w') : Invited mls key hex row w' := by
  cases a with
  | list | fail =>
    cases hs
    exact { h with }
  | listGroups =>
    obtain ⟨_, hs⟩ := Option.ite_none_right_eq_some.1 hs
    cases hs
    exact { h with }
  | post hex' payload createdAt =>
    cases hs
    refine h.setTable (h.sorted hex').insert fun e he => ?_
    rcases List.mem_append.1 he with he | he
    · exact .inl he
    · cases List.mem_singleton.1 he
      exact .inr hpost
  | purge hex' now =>
    cases hs
    exact h.setTable (h.sorted hex').delete fun e he => .inl (List.mem_filter.1 he).1
  | publishKeyPackage =>
    cases hs
    refine { h with keyPackage := ?_, own := ?_ }
    · exact h.keyPackage.imp_right laws.published
    · exact fun key' hkey' => (laws.made hkey').elim (h.own key') id
  | visit =>
    obtain ⟨hex', rest, hnext, rfl⟩ := World.step_visit_eq_some_iff.1 hs
    suffices Invited mls key hex row (w.visit mls hex') from { this with }
    by_cases hcase : hex' = hex
    · subst hcase
      refine h.visit_of_not_onFirstPage laws fun first => hnot ⟨rfl, ?_, first⟩
      rw [hnext]
      rfl
    · exact h.visit_of_ne laws hcase

end Invited

/-- A conversation joined stays joined. -/
theorem joinedFrom_step (h : w.JoinedFrom hex row) (hs : w.step mls a = some w') :
    w'.JoinedFrom hex row := by
  obtain ⟨view, hview, hcursor⟩ := h
  cases a with
  | visit =>
    obtain ⟨hex', rest, _, rfl⟩ := World.step_visit_eq_some_iff.1 hs
    refine ⟨view, ?_, hcursor⟩
    change (hex, view) ∈ (w.visit mls hex').conversations
    cases h : w.has hex' with
    | true => rwa [World.visit_of_has h]
    | false =>
      cases hfound : (tryRows mls w.store ((w.tables hex').page 0)).2 with
      | none => rwa [World.visit_of_none h hfound]
      | some found =>
        obtain ⟨_, _, hvisit⟩ := World.visit_of_some h hfound
        rw [hvisit]
        exact List.mem_append_left _ hview
  | listGroups =>
    obtain ⟨_, hs⟩ := Option.ite_none_right_eq_some.1 hs
    cases hs
    exact ⟨view, hview, hcursor⟩
  | _ =>
    cases hs
    exact ⟨view, hview, hcursor⟩

theorem joinedFrom_run (h : w.JoinedFrom hex row) (hr : run (World.step mls) w actions = some u) :
    u.JoinedFrom hex row := by
  induction actions generalizing w with
  | nil =>
    cases hr
    exact h
  | cons a actions ih =>
    obtain ⟨v, hv, hr⟩ := Option.bind_eq_some_iff.1 hr
    exact ih (joinedFrom_step h hv) hr

theorem World.Finds.joinedFrom {a : Action} (found : w.Finds hex row a)
    (h : Invited mls key hex row w) (laws : mls.Lawful) (hs : w.step mls a = some w') :
    w'.JoinedFrom hex row := by
  obtain ⟨rfl, hnext, first⟩ := found
  obtain ⟨hex', rest, htoVisit, rfl⟩ := World.step_visit_eq_some_iff.1 hs
  rw [htoVisit] at hnext
  cases hnext
  exact h.joinedFrom_visit laws first

/-- In every run, the device joins the group from its Welcome exactly if some discovery visits the
group while fewer than a page's worth of retained envelopes come before the Welcome. -/
theorem joinedFrom_iff_finds (laws : mls.Lawful) (start : Invited mls key hex row w)
    (posts : ∀ a ∈ actions, mls.PostsBeside key hex a)
    (h : run (World.step mls) w actions = some u) :
    u.JoinedFrom hex row ↔ Passes (World.step mls) (World.Finds hex row) w actions := by
  induction actions generalizing w with
  | nil =>
    cases h
    refine iff_of_false ?_ not_passes_nil
    rintro ⟨view, hview, _⟩
    have joined : u.has hex := List.any_eq_true.2 ⟨(hex, view), hview, decide_eq_true rfl⟩
    exact Bool.noConfusion (joined.symm.trans start.unjoined)
  | cons a actions ih =>
    obtain ⟨v, hv, h⟩ := Option.bind_eq_some_iff.1 h
    rw [passes_cons_iff hv]
    obtain ⟨hpost, posts⟩ := List.forall_mem_cons.1 posts
    by_cases found : w.Finds hex row a
    · exact iff_of_true (joinedFrom_run (found.joinedFrom start laws hv) h) (.inl found)
    · rw [ih (start.step laws hpost found hv) posts h, or_iff_right found]

/-! ## A phone that is invited -/

/-- A client whose key packages are bytes: a Welcome lists the ones it is encrypted to, and the
tree sent along stands for the group. -/
def byteMls : Mls (List UInt8) UInt8 where
  join store welcome tree :=
    match welcome.find? (· ∈ store) with
    | some key => (store.erase key, some tree)
    | none => (store, none)
  publishKeyPackage := id
  peerFingerprints _ _ := ["inviter"]
  epoch _ _ := 1
  holds store key := key ∈ store
  recipients := id
  own key := key = 7

theorem byteMls_lawful : byteMls.Lawful where
  unmatched {welcome store tree} h := by
    have none_held : welcome.find? (· ∈ store) = none :=
      List.find?_eq_none.2 fun key hkey held => h key hkey (of_decide_eq_true (p := key ∈ store) held)
    simp only [byteMls, none_held]
  kept {welcome key store tree} hnot held := by
    simp only [byteMls] at hnot held ⊢
    split
    next key' hfound =>
      have other : key ≠ key' := by
        rintro rfl
        exact hnot (List.mem_of_find?_eq_some hfound)
      exact (List.mem_erase_of_ne other).2 held
    next => exact held
  spent {store welcome tree key} h := by
    simp only [byteMls] at h ⊢
    split at h
    · exact List.mem_of_mem_erase h
    · exact h
  published held := held
  made held := .inl held

/-- The Welcome for the phone, at this place of a mailbox. -/
def welcomeAt (seq : Nat) : Envelope := ⟨seq, encodeWelcome [7] [1], 0⟩

theorem byteMls_invites : byteMls.Invites 7 (welcomeAt seq).payload := by
  refine ⟨[7], [1], rfl, fun store held => ?_⟩
  have found : [(7 : UInt8)].find? (· ∈ store) = some 7 :=
    List.find?_cons_of_pos (decide_eq_true held)
  simp only [byteMls, found, Option.isSome_some]

/-- A phone with one key package, listed in one group. -/
def phone (t : GroupTable) : World (List UInt8) where
  tables hex := if hex = "ab" then t else ⟨0, []⟩
  listed := ["ab"]
  store := [7]
  conversations := []
  toVisit := []

theorem invited_phone (sorted : Sorted t)
    (others : ∀ e ∈ t.envelopes, e = welcomeAt seq ∨ byteMls.Beside 7 "ab" "ab" e.payload) :
    Invited byteMls 7 "ab" (welcomeAt seq) (phone t) where
  sorted hex := by
    simp only [phone]
    split
    · exact sorted
    · exact ⟨.nil, fun _ h => nomatch h⟩
  invites := byteMls_invites
  keyPackage := ⟨rfl, List.mem_singleton_self _⟩
  own _ held := List.mem_singleton.1 held
  beside hex e he := by
    simp only [phone] at he
    split at he
    next heq =>
      subst heq
      exact (others e he).imp (⟨rfl, ·⟩) id
    next => cases he
  unjoined := rfl

/-- The Welcome of another device, then that of the phone. -/
def twoWelcomes : GroupTable := ⟨2, [⟨1, encodeWelcome [9] [1], 0⟩, welcomeAt 2]⟩

theorem joinedFrom_iff_finds_twoWelcomes : ∃ u,
    run (World.step byteMls) (phone twoWelcomes) [.listGroups, .visit] = some u ∧
    u.conversations = [("ab", ⟨[1], ["inviter"], 1, 2⟩)] ∧ u.JoinedFrom "ab" (welcomeAt 2) := by
  have sorted : Sorted twoWelcomes := by
    simp only [Sorted, twoWelcomes, welcomeAt]
    decide
  have other : byteMls.Beside 7 "ab" "ab" (encodeWelcome [9] [1]) := by
    have notNamed : ¬ byteMls.AddressedTo 7 (encodeWelcome [9] [1]) := by
      rintro ⟨welcome, tree, hdecode, hkey⟩
      rw [decode_encodeWelcome (by decide)] at hdecode
      cases hdecode
      exact absurd hkey (by decide : (7 : UInt8) ∉ [9])
    exact ⟨notNamed, fun _ key own => own ▸ notNamed⟩
  have invited : Invited byteMls 7 "ab" (welcomeAt 2) (phone twoWelcomes) := by
    refine invited_phone sorted fun e he => ?_
    rcases List.mem_cons.1 he with rfl | he
    · exact .inr other
    · exact .inl (List.mem_singleton.1 he)
  obtain ⟨u, hrun, joined⟩ : ∃ u,
      run (World.step byteMls) (phone twoWelcomes) [.listGroups, .visit] = some u ∧
      u.conversations = [("ab", ⟨[1], ["inviter"], 1, 2⟩)] := ⟨_, rfl, by decide⟩
  refine ⟨u, hrun, joined, (joinedFrom_iff_finds byteMls_lawful invited ?_ hrun).2 ?_⟩
  · simp [Mls.PostsBeside]
  · refine ⟨[.listGroups], .visit, [], _, rfl, rfl, rfl, rfl, ?_⟩
    exact ⟨List.mem_cons_of_mem _ (List.mem_singleton_self _), by decide⟩

/-! ## A Welcome behind a page of messages -/

/-- As many messages as a page holds. -/
def messages : List Envelope :=
  (List.range' 1 MAX_ENVELOPES_PER_PAGE).map fun seq => ⟨seq, encodeMls [], 0⟩

def busy : GroupTable := ⟨201, messages ++ [welcomeAt 201]⟩

/-- `n` polls that meet no failure. -/
def polls (n : Nat) : List Action := (List.replicate n [Action.listGroups, .visit]).flatten

theorem seq_of_mem_messages (h : e ∈ messages) : 1 ≤ e.seq ∧ e.seq < 201 := by
  obtain ⟨seq, hseq, rfl⟩ := List.mem_map.1 h
  exact List.mem_range'_1.1 hseq

theorem busy_sorted : Sorted busy := by
  refine ⟨List.pairwise_append.2 ⟨?_, List.pairwise_singleton _ _, ?_⟩, ?_⟩
  · exact List.pairwise_map.2 List.pairwise_lt_range'
  · intro e he e' he'
    cases List.mem_singleton.1 he'
    exact (seq_of_mem_messages he).2
  · refine Tasks.forall_mem_concat (fun e he => ?_) (by decide)
    obtain ⟨low, high⟩ := seq_of_mem_messages he
    exact ⟨low, Nat.le_of_lt high⟩

theorem busy_invited : Invited byteMls 7 "ab" (welcomeAt 201) (phone busy) := by
  refine invited_phone busy_sorted (Tasks.forall_mem_concat (fun e he => .inr ?_) (.inl rfl))
  obtain ⟨seq, _, rfl⟩ := List.mem_map.1 he
  have message : ∀ key, ¬ byteMls.AddressedTo key (encodeMls []) := by
    rintro key ⟨welcome, tree, hdecode, _⟩
    cases hdecode
  exact ⟨message 7, fun _ key _ => message key⟩

theorem busy_page : busy.page 0 = messages := by
  rw [busy_sorted.page_zero]
  exact List.take_left' (by simp [messages])

theorem tryRows_messages (store : List UInt8) : tryRows byteMls store messages = (store, none) := by
  have skip : ∀ l : List Nat, tryRows byteMls store
      (l.map fun seq => ⟨seq, encodeMls [], 0⟩) = (store, none) := by
    intro l
    induction l with
    | nil => rfl
    | cons seq l ih => exact ih
  exact skip _

/-- The Welcome is retained, the group listed and the key package held, and no number of polls
joins. -/
theorem welcome_behind_page_never_joined :
    Invited byteMls 7 "ab" (welcomeAt 201) (phone busy) ∧ "ab" ∈ (phone busy).listed ∧
    welcomeAt 201 ∈ ((phone busy).tables "ab").envelopes ∧
    ∀ n, run (World.step byteMls) (phone busy) (polls n) = some (phone busy) ∧
      ¬ (phone busy).JoinedFrom "ab" (welcomeAt 201) := by
  have still : ({ phone busy with toVisit := ["ab"] } : World _).visit byteMls "ab" =
      { phone busy with toVisit := ["ab"] } := by
    have page : ((phone busy).tables "ab").page 0 = messages := busy_page
    rw [World.visit_of_none rfl (by rw [page, tryRows_messages]), page, tryRows_messages]
  have poll : ∀ actions, run (World.step byteMls) (phone busy) (.listGroups :: .visit :: actions) =
      run (World.step byteMls) (phone busy) actions := by
    intro actions
    have visited : ({ phone busy with toVisit := ["ab"] } : World _).step byteMls .visit =
        some (phone busy) := World.step_visit_eq_some_iff.2 ⟨"ab", [], rfl, by rw [still]; rfl⟩
    have listed : (phone busy).step byteMls .listGroups =
        some { phone busy with toVisit := ["ab"] } := rfl
    simp only [run, listed, visited, Option.bind_some]
  refine ⟨busy_invited, List.mem_singleton_self _, ?_, fun n => ⟨?_, ?_⟩⟩
  · exact List.mem_append_right _ (List.mem_singleton_self _)
  · induction n with
    | zero => rfl
    | succ n ih => exact (poll (polls n)).trans ih
  · rintro ⟨view, hview, _⟩
    cases hview

end Whispee.Session.Discover
