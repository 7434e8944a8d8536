import Whispee.Server.Storage

/-!
# Every byte is counted

What a transaction has done to the rows is, account by account, what it has moved the counters by
and what it still has to charge and to credit. So the counters and the rows agree whenever nothing
is under way, and each commit keeps them so; only the deletion of groups takes rows away on its
own.
-/

namespace Whispee.Server.Storage

open Mvcc Transition

/-! ## Weights -/

def vaultSize (account : String) (row : VaultEntry) : Int :=
  if row.account = account then row.payload.length else 0

def attachmentSize (account : String) (row : Attachment) : Int :=
  if row.account = some account then row.payload.length else 0

namespace Database

/-- The bytes of the account in the committed rows. -/
def kept (d : Database) (account : String) : Int :=
  d.vault.kept (vaultSize account) + d.attachments.kept (attachmentSize account)

/-- What a transaction under way adds to them. -/
def pending (d : Database) (x : Nat) (account : String) : Int :=
  d.vault.pending (vaultSize account) x + d.attachments.pending (attachmentSize account) x

end Database

theorem sum_ite_eq_sum_filter (p : Row → Prop) [DecidablePred p] (f : Row → Nat) (l : List Row) :
    (l.map fun row => if p row then (f row : Int) else 0).sum = ((l.filter p).map f).sum := by
  induction l with
  | nil => rfl
  | cons row l ih =>
    rw [List.map_cons, List.sum_cons, ih, List.filter_cons]
    by_cases h : p row <;> simp [h]

theorem Database.kept_eq_stored (d : Database) (account : String) :
    d.kept account = d.stored account := by
  rw [kept, stored, Table.kept_eq, Table.kept_eq, Int.natCast_add]
  exact congrArg₂ _
    (sum_ite_eq_sum_filter (fun row : VaultEntry => row.account = account) (·.payload.length) _)
    (sum_ite_eq_sum_filter (fun row : Attachment => row.account = some account)
      (·.payload.length) _)

/-! ## What a transaction still owes -/

/-- What a statement, once sent, will have moved the counter by over what it does to the rows. -/
def Statement.due (account : String) : Statement → Int
  | .charge account' bytes => if account' = account then bytes else 0
  | .credit account' bytes => if account' = account then -bytes else 0
  | .insertAttachment row => - attachmentSize account row
  | _ => 0

def due (account : String) (rest : List Statement) : Int := (rest.map (·.due account)).sum

/-- The moves made so far, and the statements still to be sent. -/
@[simp] def Phase.moved : Phase → List (String × Int)
  | .working moved _ => moved
  | .received | .member | .purged | .selected _ | .done | .refused _ => []

@[simp] def Phase.rest : Phase → List Statement
  | .working _ rest => rest
  | .received | .member | .purged | .selected _ | .done | .refused _ => []

theorem Phase.holds_iff {phase : Phase} : phase.holds account ↔ ∃ n, (account, n) ∈ phase.moved := by
  cases phase with
  | working moved rest =>
    simp only [holds, List.any_eq_true, decide_eq_true_eq, Phase.moved]
    exact ⟨fun ⟨m, hm, heq⟩ => ⟨m.2, heq ▸ hm⟩, fun ⟨n, hn⟩ => ⟨_, hn, rfl⟩⟩
  | _ => exact iff_of_false Bool.false_ne_true fun ⟨_, hn⟩ => nomatch hn

theorem Phase.movedOf_eq_zero {phase : Phase} (h : ¬ phase.holds account) :
    movedOf phase.moved account = 0 := by
  have none_moved : phase.moved.filter (·.1 = account) = [] := by
    refine List.filter_eq_nil_iff.2 fun m hm => ?_
    rw [decide_eq_true_eq]
    rintro rfl
    exact h (Phase.holds_iff.2 ⟨m.2, hm⟩)
  rw [movedOf, none_moved]
  rfl

theorem movedOf_concat (moved : List (String × Int)) (account account' : String) (n : Int) :
    movedOf (moved ++ [(account', n)]) account =
      movedOf moved account + if account' = account then n else 0 := by
  rw [movedOf, movedOf, List.filter_append, List.map_append, List.sum_append, List.filter_singleton]
  by_cases h : account' = account <;> simp [h]

theorem due_append : due account (next ++ rest) = due account next + due account rest := by
  rw [due, List.map_append, List.sum_append]
  rfl

theorem due_cons : due account (statement :: rest) = statement.due account + due account rest := by
  rw [due, List.map_cons, List.sum_cons]
  rfl

theorem due_addTo (account account' : String) (bytes : Nat) (sums : List (String × Nat)) :
    due account ((addTo account' bytes sums).map fun c => .credit c.1 c.2) =
      due account (sums.map fun c => .credit c.1 c.2) - if account' = account then bytes else 0 := by
  induction sums with
  | nil =>
    simp only [addTo, List.map_cons, List.map_nil, due_cons, Statement.due]
    split <;> omega
  | cons c sums ih =>
    rw [addTo]
    by_cases h : c.1 = account'
    · rw [if_pos h]
      simp only [List.map_cons, due_cons, Statement.due, h]
      split <;> omega
    · rw [if_neg h]
      simp only [List.map_cons, due_cons, ih]
      omega

/-- The credits of a deletion are what its rows weigh. -/
theorem due_credited (account : String) (rows : List Attachment) :
    due account ((credited rows).map fun c => .credit c.1 c.2) =
      - (rows.map (attachmentSize account)).sum := by
  induction rows with
  | nil => rfl
  | cons row rows ih =>
    rw [credited, List.map_cons, List.sum_cons, attachmentSize]
    cases h : row.account with
    | none => simp [ih]
    | some account' =>
      simp only [due_addTo, ih, Option.some.injEq]
      split <;> omega

theorem fst_mem_addTo (h : c ∈ addTo account bytes sums) : c.1 = account ∨ ∃ c' ∈ sums, c'.1 = c.1 := by
  induction sums with
  | nil =>
    cases List.mem_singleton.1 h
    exact .inl rfl
  | cons c' sums ih =>
    rw [addTo] at h
    split at h
    next heq =>
      rcases List.mem_cons.1 h with rfl | h
      · exact .inl heq
      · exact .inr ⟨c, List.mem_cons_of_mem _ h, rfl⟩
    next =>
      rcases List.mem_cons.1 h with rfl | h
      · exact .inr ⟨_, List.mem_cons_self, rfl⟩
      · exact (ih h).imp_right fun ⟨c', hc', heq⟩ => ⟨c', List.mem_cons_of_mem _ hc', heq⟩

theorem account_of_mem_credited (h : c ∈ credited rows) : ∃ row ∈ rows, row.account = some c.1 := by
  induction rows generalizing c with
  | nil => cases h
  | cons row rows ih =>
    have later : ∀ {c}, c ∈ credited rows → ∃ row' ∈ row :: rows, row'.account = some c.1 :=
      fun hc => (ih hc).imp fun _ h => ⟨List.mem_cons_of_mem _ h.1, h.2⟩
    rw [credited] at h
    split at h
    next account haccount =>
      rcases fst_mem_addTo h with heq | ⟨c', hc', heq⟩
      · exact ⟨row, List.mem_cons_self, heq ▸ haccount⟩
      · exact heq ▸ later hc'
    next => exact later h

/-! ## The tables -/

/-- Every account a statement names is registered. -/
def Statement.Known (d : Database) : Statement → Prop
  | .insertVault account _ _ | .charge account _ | .credit account _ | .selectVault account _
  | .deleteVault account _ => d.storage account ≠ none
  | .insertAttachment row => ∀ account, row.account = some account → d.storage account ≠ none
  | .selectExpired _ | .selectDoomed _ | .deleteAttachments _ => True

/-- The tables are in order, and the counters are what the committed rows amount to. -/
structure Tables (d : Database) : Prop where
  vault : d.vault.Wf
  attachments : d.attachments.Wf
  vaultKnown : ∀ u ∈ d.vault, d.storage u.row.account ≠ none
  attachmentsKnown : ∀ u ∈ d.attachments, ∀ account, u.row.account = some account →
    d.storage account ≠ none
  devicesKnown : ∀ row ∈ d.devices, d.storage row.account ≠ none
  counted : ∀ account, d.kept account = (d.storage account).getD 0

/-- What a statement of the transaction `x` leaves alone. -/
structure Acts (d : Database) (x : Nat) (d' : Database) : Prop where
  tables : Tables d'
  storage : d'.storage = d.storage
  vaultRows : d'.vault.rows = d.vault.rows
  attachmentRows : d'.attachments.rows = d.attachments.rows
  others : ∀ y, y ≠ x → ∀ account, d'.pending y account = d.pending y account

namespace Acts

theorem refl (h : Tables d) : Acts d x d := ⟨h, rfl, rfl, rfl, fun _ _ _ => rfl⟩

theorem trans (h : Acts d x d') (h' : Acts d' x d'') : Acts d x d'' where
  tables := h'.tables
  storage := h'.storage.trans h.storage
  vaultRows := h'.vaultRows.trans h.vaultRows
  attachmentRows := h'.attachmentRows.trans h.attachmentRows
  others y hy account := (h'.others y hy account).trans (h.others y hy account)

/-- A change of the vault that its committed rows do not show. -/
theorem of_vault (h : Tables d) (wf : Table.Wf vault)
    (known : ∀ u ∈ vault, d.storage u.row.account ≠ none)
    (kept : ∀ account, vault.kept (vaultSize account) = d.vault.kept (vaultSize account))
    (rows : vault.rows = d.vault.rows)
    (others : ∀ y, y ≠ x → ∀ account,
      vault.pending (vaultSize account) y = d.vault.pending (vaultSize account) y) :
    Acts d x { d with vault, nextCtid := n } where
  tables := { h with
    vault := wf
    vaultKnown := known
    counted := fun account => (congrArg (· + _) (kept account)).trans (h.counted account) }
  storage := rfl
  vaultRows := rows
  attachmentRows := rfl
  others y hy account := congrArg (· + _) (others y hy account)

/-- The same, of the attachments. -/
theorem of_attachments (h : Tables d) (wf : Table.Wf attachments)
    (known : ∀ u ∈ attachments, ∀ account, u.row.account = some account →
      d.storage account ≠ none)
    (kept : ∀ account, attachments.kept (attachmentSize account) =
      d.attachments.kept (attachmentSize account))
    (rows : attachments.rows = d.attachments.rows)
    (others : ∀ y, y ≠ x → ∀ account, attachments.pending (attachmentSize account) y =
      d.attachments.pending (attachmentSize account) y) :
    Acts d x { d with attachments, nextCtid := n } where
  tables := { h with
    attachments := wf
    attachmentsKnown := known
    counted := fun account => (congrArg (_ + ·) (kept account)).trans (h.counted account) }
  storage := rfl
  vaultRows := rfl
  attachmentRows := rows
  others y hy account := congrArg (_ + ·) (others y hy account)

end Acts

/-! ## Insertions -/

theorem storeEntry_spec (h : Tables d) (known : d.storage account ≠ none) :
    Acts d x (d.storeEntry x account groupId entry).1 ∧ ∀ account',
      (d.storeEntry x account groupId entry).1.pending x account' = d.pending x account' +
        if account = account' then ((d.storeEntry x account groupId entry).2 : Int) else 0 := by
  rw [Database.storeEntry]
  split
  · exact ⟨.refl h, fun _ => by simp⟩
  · refine ⟨.of_vault h h.vault.insert ?_ (fun _ => Table.kept_insert) Table.rows_insert
      fun y hy _ => Table.pending_insert_of_ne hy, fun account' => ?_⟩
    · exact Tasks.forall_mem_concat h.vaultKnown known
    · simp only [Database.pending, Table.pending_insert]
      exact add_right_comm _ _ _

theorem storeEntries_spec (h : Tables d) (known : d.storage account ≠ none) :
    Acts d x (d.storeEntries x account groupId entries).1 ∧ ∀ account',
      (d.storeEntries x account groupId entries).1.pending x account' = d.pending x account' +
        if account = account' then ((d.storeEntries x account groupId entries).2 : Int) else 0 := by
  induction entries generalizing d with
  | nil => exact ⟨.refl h, fun _ => by simp [Database.storeEntries]⟩
  | cons entry entries ih =>
    obtain ⟨first, hfirst⟩ := @storeEntry_spec d account x groupId entry h known
    obtain ⟨second, hsecond⟩ := ih first.tables (first.storage.symm ▸ known)
    refine ⟨first.trans second, fun account' => ?_⟩
    simp only [Database.storeEntries, hsecond, hfirst, Int.natCast_add]
    split <;> omega

/-! ## One statement -/

/-- What a statement does: the rows it changes are paid for by the moves it makes and the ones it
leaves due, and it moves no counter that others hold, nor past the ceiling. -/
structure Executes (ceiling : Int) (d : Database) (locked : String → Bool) (x : Nat)
    (moved : List (String × Int)) (statement : Statement) (d' : Database)
    (moved' : List (String × Int)) (next : List Statement) : Prop where
  acts : Acts d x d'
  balanced : ∀ account, d'.pending x account + (movedOf moved account + statement.due account) =
    d.pending x account + (movedOf moved' account + due account next)
  moves : moved' = moved ∨ ∃ account n, moved' = moved ++ [(account, n)] ∧
    locked account = false ∧ ∃ stored, d.storage account = some stored ∧
      (n ≤ 0 ∨ ceiling = 0 ∨ stored + movedOf moved' account ≤ ceiling)
  known : ∀ statement ∈ next, statement.Known d'

theorem executes_charge (h : Tables d)
    (hs : charge ceiling d (locked account) moved account bytes = .go d' moved' next) :
    Executes ceiling d locked x moved (.charge account bytes) d' moved' next := by
  rw [charge] at hs
  split at hs
  · cases hs
  next stored hstored =>
    split at hs
    next fits =>
      split at hs
      · cases hs
      next free =>
        cases hs
        refine ⟨.refl h, fun account' => ?_, .inr ⟨account, bytes, rfl, ?_, stored, hstored, ?_⟩,
          fun _ hst => nomatch hst⟩
        · rw [movedOf_concat]
          simp only [Statement.due, due, List.map_nil, List.sum_nil, Int.add_zero]
        · exact Bool.eq_false_iff.2 free
        · rw [movedOf_concat, if_pos rfl, ← Int.add_assoc]
          exact .inr fits
    · cases hs

theorem executes_credit (h : Tables d) (known : d.storage account ≠ none)
    (hs : credit d (locked account) moved account bytes = .go d' moved' next) :
    Executes ceiling d locked x moved (.credit account bytes) d' moved' next := by
  rw [credit] at hs
  split at hs
  next hnone => exact absurd hnone known
  next stored hstored =>
    split at hs
    · cases hs
    next free =>
      split at hs
      · cases hs
        refine ⟨.refl h, fun account' => ?_, .inr ⟨account, -bytes, rfl, ?_, stored, hstored, ?_⟩,
          fun _ hst => nomatch hst⟩
        · rw [movedOf_concat]
          simp only [Statement.due, due, List.map_nil, List.sum_nil, Int.add_zero]
        · exact Bool.eq_false_iff.2 free
        · exact .inl (Int.neg_nonpos_of_nonneg (Int.natCast_nonneg _))
      · cases hs

/-- A statement that only decides what is sent next. -/
theorem executes_select (h : Tables d) (known : next.Known d) (hdue : ∀ account, next.due account = 0)
    (hdue' : ∀ account, statement.due account = 0) :
    Executes ceiling d locked x moved statement d moved [next] where
  acts := .refl h
  balanced account := by simp [due, hdue, hdue']
  moves := .inl rfl
  known st hst := List.mem_singleton.1 hst ▸ known

theorem executes_insertAttachment (h : Tables d) (known : Statement.Known d (.insertAttachment row)) :
    Executes ceiling d locked x moved (.insertAttachment row)
      { d with
        attachments := d.attachments.insert x d.nextCtid row
        nextCtid := d.nextCtid + 1 } moved [] where
  acts := .of_attachments h h.attachments.insert
    (Tasks.forall_mem_concat h.attachmentsKnown known) (fun _ => Table.kept_insert)
    Table.rows_insert fun y hy _ => Table.pending_insert_of_ne hy
  balanced account := by
    simp only [Database.pending, Table.pending_insert, Statement.due, due, List.map_nil,
      List.sum_nil]
    omega
  moves := .inl rfl
  known _ hst := nomatch hst

theorem sum_vaultSize {rows : List VaultEntry} (h : ∀ row ∈ rows, row.account = account) :
    (rows.map (vaultSize account')).sum =
      if account = account' then (((rows.map (·.payload.length)).sum : Nat) : Int) else 0 := by
  induction rows with
  | nil => simp
  | cons row rows ih =>
    obtain ⟨hrow, h⟩ := List.forall_mem_cons.1 h
    simp only [List.map_cons, List.sum_cons, ih h, vaultSize, hrow, Int.natCast_add]
    split <;> rfl

/-- A deletion from the vault leaves due the credit of what it deletes. -/
theorem executes_deleteVault (h : Tables d) (known : d.storage account ≠ none) :
    Executes ceiling d locked x moved (.deleteVault account ctids)
      { d with vault := d.vault.delete x fun u => hit ctids u ∧ u.row.account = account } moved
      [.credit account (((d.vault.filter fun u => hit ctids u ∧ u.row.account = account).map
        (·.row)).map (·.payload.length)).sum] := by
  have committed : ∀ u ∈ d.vault, (hit ctids u ∧ u.row.account = account : Bool) → u.Committed :=
    fun u _ hu => by simp_all [hit]
  have owned : ∀ row ∈ (d.vault.filter fun u => hit ctids u ∧ u.row.account = account).map (·.row),
      row.account = account := by
    intro row hrow
    obtain ⟨u, hu, rfl⟩ := List.mem_map.1 hrow
    exact (of_decide_eq_true (List.mem_filter.1 hu).2).2
  have weighs : ∀ account', _ = _ := fun account' => @sum_vaultSize account account' _ owned
  simp only [List.map_map, Function.comp_def] at weighs
  refine ⟨.of_vault h (h.vault.delete committed) ?_ (fun _ => Table.kept_delete) Table.rows_delete
    fun y hy _ => Table.pending_delete_of_ne committed hy, fun account' => ?_, .inl rfl, ?_⟩
  · intro u hu
    obtain ⟨u, hold, rfl⟩ := List.mem_map.1 hu
    split
    · exact h.vaultKnown u hold
    · exact h.vaultKnown u hold
  · simp only [Database.pending, Table.pending_delete committed, weighs, due_cons, Statement.due,
      List.map_map, Function.comp_def]
    simp only [due, List.map_nil, List.sum_nil]
    split <;> omega
  · intro st hst
    cases List.mem_singleton.1 hst
    exact known

theorem executes_deleteAttachments (h : Tables d) :
    Executes ceiling d locked x moved (.deleteAttachments ctids)
      { d with attachments := d.attachments.delete x (hit ctids) } moved
      ((credited ((d.attachments.filter (hit ctids)).map (·.row))).map fun c =>
        .credit c.1 c.2) := by
  have committed : ∀ u ∈ d.attachments, hit ctids u → u.Committed :=
    fun u _ hu => (of_decide_eq_true hu).2
  refine ⟨.of_attachments h (h.attachments.delete committed) ?_ (fun _ => Table.kept_delete)
    Table.rows_delete fun y hy _ => Table.pending_delete_of_ne committed hy, fun account => ?_,
    .inl rfl, ?_⟩
  · intro u hu
    obtain ⟨u, hold, rfl⟩ := List.mem_map.1 hu
    split
    · exact h.attachmentsKnown u hold
    · exact h.attachmentsKnown u hold
  · simp only [Database.pending, Table.pending_delete committed, due_credited, Statement.due,
      List.map_map, Function.comp_def]
    omega
  · intro st hst
    obtain ⟨c, hc, rfl⟩ := List.mem_map.1 hst
    obtain ⟨row, hrow, haccount⟩ := account_of_mem_credited hc
    obtain ⟨u, hu, rfl⟩ := List.mem_map.1 hrow
    exact h.attachmentsKnown u (List.mem_filter.1 hu).1 c.1 haccount

theorem executes_of_go (h : Tables d) (known : statement.Known d)
    (hs : exec ceiling d locked x moved statement = .go d' moved' next) :
    Executes ceiling d locked x moved statement d' moved' next := by
  cases statement with
  | insertVault account groupId entries =>
    simp only [exec] at hs
    split at hs
    · cases hs
    · cases hs
      obtain ⟨acts, hpending⟩ := @storeEntries_spec d account x groupId entries h known
      refine ⟨acts, fun account' => ?_, .inl rfl, fun st hst => ?_⟩
      · simp only [hpending, due_cons, Statement.due]
        simp only [due, List.map_nil, List.sum_nil]
        omega
      · cases List.mem_singleton.1 hst
        exact fun hnone => known (acts.storage ▸ hnone)
  | charge account bytes => exact executes_charge h hs
  | credit account bytes => exact executes_credit h known hs
  | insertAttachment row =>
    simp only [exec] at hs
    split at hs
    · cases hs
      exact executes_insertAttachment h known
    · cases hs
  | selectVault account groupId =>
    cases hs
    exact executes_select h known (fun _ => rfl) fun _ => rfl
  | selectExpired now | selectDoomed now =>
    cases hs
    exact executes_select h trivial (fun _ => rfl) fun _ => rfl
  | deleteVault account ctids =>
    simp only [exec] at hs
    split at hs
    · cases hs
    · cases hs
      exact executes_deleteVault h known
  | deleteAttachments ctids =>
    simp only [exec] at hs
    split at hs
    · cases hs
    · cases hs
      exact executes_deleteAttachments h

/-! ## The invariant -/

/-- A request under way: its rows are what it has moved and what it still owes, and what it moves
stays below the ceiling. -/
structure TaskOk (ceiling : Int) (d : Database) (x : Nat) (phase : Phase) : Prop where
  balanced : ∀ account, d.pending x account = movedOf phase.moved account + due account phase.rest
  moved : ∀ m ∈ phase.moved, d.storage m.1 ≠ none
  rest : ∀ statement ∈ phase.rest, statement.Known d
  within : ceiling ≠ 0 → ∀ account stored, phase.holds account → d.storage account = some stored →
    stored + movedOf phase.moved account ≤ ceiling

def Within (ceiling : Int) (d : Database) : Prop :=
  ceiling ≠ 0 → ∀ account stored, d.storage account = some stored → stored ≤ ceiling

structure Inv (ceiling : Int) (s : State) : Prop where
  tables : Tables s.toDatabase
  within : Within ceiling s.toDatabase
  tasks : ∀ i task, s.requests[i]? = some task → TaskOk ceiling s.toDatabase i task.2
  beyond : ∀ x, s.requests.length ≤ x → ∀ account, s.pending x account = 0
  exclusive : ∀ account, Tasks.Exclusive (fun task => task.2.holds account = true) s.requests

theorem Statement.Known.mono {statement : Statement} (h : statement.Known d)
    (storage : ∀ account, d.storage account ≠ none → d'.storage account ≠ none) :
    statement.Known d' := by
  cases statement with
  | insertAttachment row => exact fun account haccount => storage account (h account haccount)
  | selectExpired | selectDoomed | deleteAttachments => trivial
  | _ => exact storage _ h

/-- A request that owes nothing. -/
theorem TaskOk.idle (h : ∀ account, d.pending x account = 0) (moved : phase.moved = [])
    (hdue : ∀ account, due account phase.rest = 0) (known : ∀ statement ∈ phase.rest, statement.Known d) :
    TaskOk ceiling d x phase where
  balanced account := by rw [h, moved, hdue]; rfl
  moved m hm := by rw [moved] at hm; cases hm
  rest := known
  within _ account _ held := by
    obtain ⟨n, hn⟩ := Phase.holds_iff.1 held
    rw [moved] at hn
    cases hn

/-- What others do to the tables leaves a request as it was, where they leave alone the counters it
holds. -/
theorem TaskOk.frame (h : TaskOk ceiling d x phase)
    (pending : ∀ account, d'.pending x account = d.pending x account)
    (known : ∀ account, d.storage account ≠ none → d'.storage account ≠ none)
    (held : ∀ account, phase.holds account → d'.storage account = d.storage account) :
    TaskOk ceiling d' x phase where
  balanced account := (pending account).trans (h.balanced account)
  moved m hm := known m.1 (h.moved m hm)
  rest statement hst := (h.rest statement hst).mono known
  within hne account stored hheld hstored :=
    h.within hne account stored hheld ((held account hheld).symm.trans hstored)

/-- No move made, and moves to come that pay for the rows to come. -/
structure Phase.Fresh (d : Database) (phase : Phase) : Prop where
  moved : phase.moved = []
  due : ∀ account, due account phase.rest = 0
  known : ∀ statement ∈ phase.rest, statement.Known d

theorem Phase.fresh_refused : Phase.Fresh d (.refused why) :=
  ⟨rfl, fun _ => rfl, fun _ hst => nomatch hst⟩

theorem Phase.fresh_member : Phase.Fresh d .member :=
  ⟨rfl, fun _ => rfl, fun _ hst => nomatch hst⟩

theorem Tables.known_of_callerAccount (h : Tables d) (hc : d.callerAccount device = some account) :
    d.storage account ≠ none := by
  obtain ⟨row, hrow, rfl⟩ := Option.map_eq_some_iff.1 hc
  exact h.devicesKnown row (List.mem_of_find?_eq_some hrow)

theorem fresh_receive {s : State} (h : Tables s.toDatabase) :
    (s.receive now request).Fresh s.toDatabase := by
  cases request with
  | storeVault device groupId entries =>
    simp only [State.receive]
    split
    · exact Phase.fresh_refused
    · split
      · exact Phase.fresh_refused
      · split
        · exact Phase.fresh_member
        · exact Phase.fresh_refused
  | dropVault device groupId =>
    simp only [State.receive]
    split
    next hcaller =>
      refine ⟨rfl, fun _ => rfl, fun _ hst => ?_⟩
      cases List.mem_singleton.1 hst
      exact h.known_of_callerAccount hcaller
    next => exact Phase.fresh_refused
  | uploadAttachment device groupId body =>
    simp only [State.receive]
    split
    · split
      · exact Phase.fresh_refused
      · exact Phase.fresh_member
    · exact Phase.fresh_refused
  | purge => exact ⟨rfl, fun _ => rfl, by simp [State.receive, Statement.Known]⟩

theorem fresh_begin {s : State} (h : Tables s.toDatabase) :
    (s.begin now request).Fresh s.toDatabase := by
  cases request with
  | storeVault device groupId entries =>
    simp only [State.begin]
    split
    next hcaller =>
      refine ⟨rfl, fun _ => rfl, fun _ hst => ?_⟩
      cases List.mem_singleton.1 hst
      exact h.known_of_callerAccount hcaller
    next => exact Phase.fresh_refused
  | uploadAttachment device groupId body =>
    simp only [State.begin]
    split
    next account hcaller =>
      have known := h.known_of_callerAccount hcaller
      refine ⟨rfl, fun account' => ?_, List.forall_mem_cons.2 ⟨known, fun _ hst => ?_⟩⟩
      · simp only [Phase.rest, due_cons, Statement.due, attachmentSize, Option.some.injEq]
        split <;> simp [due]
      · cases List.mem_singleton.1 hst
        intro account' haccount
        cases haccount
        exact known
    next => exact Phase.fresh_refused
  | dropVault | purge => exact Phase.fresh_refused

namespace Inv

variable {s : State}

/-- A request moves on and leaves alone what others are doing. -/
theorem move (h : Inv ceiling s) (at_ : s.requests[i]? = some (request, old)) (tables : Tables d')
    (within : Within ceiling d')
    (others : ∀ y, y ≠ i → ∀ account, d'.pending y account = s.pending y account)
    (known : ∀ account, s.storage account ≠ none → d'.storage account ≠ none)
    (free : ∀ account, ¬ old.holds account → d'.storage account = s.storage account)
    (task : TaskOk ceiling d' i new)
    (holds : ∀ account, new.holds account → old.holds account ∨ s.locked i account = false) :
    Inv ceiling { s.setPhase i request new with toDatabase := d' } where
  tables := tables
  within := within
  tasks j task' hj := by
    rcases (Tasks.getElem?_set_eq_some_iff at_).1 hj with ⟨rfl, rfl⟩ | ⟨hne, hj⟩
    · exact task
    · refine (h.tasks j task' hj).frame (others j hne) known fun account hheld => ?_
      exact free account fun hold => hne (h.exclusive account hj at_ hheld hold)
  beyond x hx account := by
    have inRange : i < s.requests.length := (List.getElem?_eq_some_iff.1 at_).1
    have hx : s.requests.length ≤ x := by rwa [← List.length_set (i := i) (a := (request, new))]
    exact (others x (Nat.ne_of_gt (Nat.lt_of_lt_of_le inRange hx)) account).trans
      (h.beyond x hx account)
  exclusive account := by
    refine (h.exclusive account).set at_ fun hnew => ?_
    by_cases hold : old.holds account
    · exact .inl hold
    · refine .inr fun task htask hheld => ?_
      have unlocked := (holds account hnew).resolve_left hold
      obtain ⟨j, hj⟩ := List.mem_iff_getElem?.1 htask
      by_cases hji : j = i
      · subst hji
        rw [at_] at hj
        cases hj
        exact hold hheld
      · have another : task ∈ s.requests.eraseIdx i :=
          List.mem_eraseIdx_iff_getElem?.2 ⟨j, hji, hj⟩
        exact List.any_eq_false.1 unlocked task another hheld

/-- The tables change by something else than a request. -/
theorem environment (h : Inv ceiling s) (tables : Tables d') (within : Within ceiling d')
    (pending : ∀ x account, d'.pending x account = s.pending x account)
    (storage : ∀ account, s.storage account ≠ none → d'.storage account = s.storage account) :
    Inv ceiling { s with toDatabase := d' } where
  tables := tables
  within := within
  tasks i task hi := by
    refine (h.tasks i task hi).frame (pending i) (fun account hk => storage account hk ▸ hk)
      fun account hheld => ?_
    obtain ⟨n, hn⟩ := Phase.holds_iff.1 hheld
    exact storage account ((h.tasks i task hi).moved _ hn)
  beyond x hx account := (pending x account).trans (h.beyond x hx account)
  exclusive := h.exclusive

/-- A statement keeps its transaction in balance. -/
theorem of_exec (h : Inv ceiling s)
    (at_ : s.requests[i]? = some (request, .working moved (statement :: rest)))
    (hs : exec ceiling s.toDatabase (s.locked i) i moved statement = .go d' moved' next) :
    Inv ceiling { s.setPhase i request (.working moved' (next ++ rest)) with toDatabase := d' } := by
  have task : TaskOk _ _ _ (.working moved (statement :: rest)) := h.tasks i _ at_
  have done := executes_of_go h.tables (task.rest statement List.mem_cons_self) hs
  have storage : d'.storage = s.storage := done.acts.storage
  refine h.move at_ done.acts.tables (fun hne account stored => storage ▸ h.within hne account stored)
    done.acts.others (fun _ hk => storage ▸ hk) (fun _ _ => congrFun storage _) ?_ ?_
  · refine ⟨fun account => ?_, ?_, ?_, ?_⟩
    · have before := task.balanced account
      have between := done.balanced account
      simp only [Phase.moved, Phase.rest, due_cons] at before
      simp only [Phase.moved, Phase.rest, due_append]
      omega
    · rcases done.moves with rfl | ⟨account, n, rfl, _, stored, hstored, _⟩
      · exact storage ▸ task.moved
      · refine Tasks.forall_mem_concat (storage ▸ task.moved) ?_
        rw [storage, hstored]
        exact Option.some_ne_none _
    · intro st hst
      rcases List.mem_append.1 hst with hst | hst
      · exact done.known st hst
      · exact (task.rest st (List.mem_cons_of_mem _ hst)).mono fun _ hk => storage ▸ hk
    · intro hne account stored hheld hstored
      rw [storage] at hstored
      -- what the transaction has moved so far is admitted, held or not
      have before : stored + movedOf moved account ≤ ceiling := by
        by_cases hold : Phase.holds account (.working moved (statement :: rest))
        · exact task.within hne account stored hold hstored
        · have unmoved : movedOf moved account = 0 := Phase.movedOf_eq_zero hold
          rw [unmoved, Int.add_zero]
          exact h.within hne account stored hstored
      rcases done.moves with rfl | ⟨account', n, rfl, _, stored', hstored', fits⟩
      · exact before
      · by_cases heq : account' = account
        · subst heq
          rw [hstored'] at hstored
          cases hstored
          rcases fits with hn | hzero | fits
          · simp only [Phase.moved, movedOf_concat, if_true]
            omega
          · exact absurd hzero hne
          · exact fits
        · simp only [Phase.moved, movedOf_concat, if_neg heq, Int.add_zero]
          exact before
  · intro account hheld
    rcases done.moves with rfl | ⟨account', n, rfl, free, _⟩
    · exact .inl hheld
    · simp only [Phase.holds, List.any_append, List.any_cons, List.any_nil, Bool.or_false,
        Bool.or_eq_true, decide_eq_true_eq] at hheld
      rcases hheld with hheld | rfl
      · exact .inl hheld
      · exact .inr free

/-- With nothing left to send, what was moved is what the rows amount to. -/
theorem commit (h : Inv ceiling s) (at_ : s.requests[i]? = some (request, .working moved []))
    (idle : new.moved = []) (hrest : new.rest = []) :
    Inv ceiling { s.setPhase i request new with toDatabase := s.commit i moved } := by
  have task : TaskOk _ _ _ (.working moved []) := h.tasks i _ at_
  have balanced : ∀ account, s.pending i account = movedOf moved account := by
    intro account
    have := task.balanced account
    simpa [due] using this
  have storage : ∀ account, (s.commit i moved).storage account =
      (s.storage account).map (· + movedOf moved account) := fun _ => rfl
  have known : ∀ account, s.storage account ≠ none → (s.commit i moved).storage account ≠ none := by
    intro account hk hnone
    exact hk (Option.map_eq_none_iff.1 ((storage account).symm.trans hnone))
  have unmoved : ∀ account, s.storage account = none → movedOf moved account = 0 := by
    intro account hnone
    have free : ¬ (Phase.working moved []).holds account := by
      intro hheld
      obtain ⟨n, hn⟩ := Phase.holds_iff.1 hheld
      exact task.moved _ hn hnone
    exact Phase.movedOf_eq_zero free
  have pending : ∀ y, y ≠ i → ∀ account, (s.commit i moved).pending y account = s.pending y account :=
    fun y hy account => congrArg₂ _ (Table.pending_commit_of_ne h.tables.vault hy)
      (Table.pending_commit_of_ne h.tables.attachments hy)
  refine h.move at_ ?_ ?_ pending known ?_ (.idle ?_ idle ?_ ?_) ?_
  · refine ⟨h.tables.vault.commit, h.tables.attachments.commit, ?_, ?_, ?_, fun account => ?_⟩
    · intro u hu
      obtain ⟨u, hold, rfl⟩ := List.mem_map.1 hu
      have row := known _ (h.tables.vaultKnown u (List.mem_filter.1 hold).1)
      split <;> exact row
    · intro u hu account haccount
      obtain ⟨u, hold, rfl⟩ := List.mem_map.1 hu
      refine known _ (h.tables.attachmentsKnown u (List.mem_filter.1 hold).1 account ?_)
      split at haccount <;> exact haccount
    · exact fun row hrow => known _ (h.tables.devicesKnown row hrow)
    · have committed : (s.commit i moved).kept account = s.kept account + s.pending i account := by
        simp only [Database.kept, Database.pending, Database.commit,
          Table.kept_commit h.tables.vault, Table.kept_commit h.tables.attachments]
        omega
      rw [committed, balanced, h.tables.counted, storage]
      cases hstored : s.storage account with
      | none => simp [unmoved account hstored]
      | some stored => rfl
  · intro hne account stored hstored
    obtain ⟨before, hbefore, rfl⟩ := Option.map_eq_some_iff.1 hstored
    by_cases hheld : Phase.holds account (.working moved [])
    · exact task.within hne account before hheld hbefore
    · have unmoved : movedOf moved account = 0 := Phase.movedOf_eq_zero hheld
      rw [unmoved, Int.add_zero]
      exact h.within hne account before hbefore
  · intro account hfree
    have unmoved : movedOf moved account = 0 := Phase.movedOf_eq_zero hfree
    rw [storage, unmoved]
    cases s.storage account <;> simp
  · intro account
    have vault := Table.pending_eq_zero (w := vaultSize account)
      (Table.not_marked_commit (t := s.vault) (x := i))
    have attachments := Table.pending_eq_zero (w := attachmentSize account)
      (Table.not_marked_commit (t := s.attachments) (x := i))
    exact congrArg₂ _ vault attachments
  · intro account
    rw [hrest]
    rfl
  · rw [hrest]
    exact fun _ hst => nomatch hst
  · intro account hheld
    obtain ⟨n, hn⟩ := Phase.holds_iff.1 hheld
    rw [idle] at hn
    cases hn

/-- Whatever a request has done is undone. -/
theorem rollback (h : Inv ceiling s) (at_ : s.requests[i]? = some (request, old)) :
    Inv ceiling { s.setPhase i request (.refused why) with toDatabase := s.rollback i } := by
  refine h.move at_ ?_ h.within ?_ (fun _ hk => hk) (fun _ _ => rfl) (.idle ?_ rfl (fun _ => rfl)
    fun _ hst => nomatch hst) fun _ hheld => nomatch hheld
  · refine ⟨h.tables.vault.rollback, h.tables.attachments.rollback, ?_, ?_, h.tables.devicesKnown,
      fun account => ?_⟩
    · intro u hu
      obtain ⟨u, hold, rfl⟩ := List.mem_map.1 hu
      have row := h.tables.vaultKnown u (List.mem_filter.1 hold).1
      split <;> exact row
    · intro u hu account haccount
      obtain ⟨u, hold, rfl⟩ := List.mem_map.1 hu
      refine h.tables.attachmentsKnown u (List.mem_filter.1 hold).1 account ?_
      split at haccount <;> exact haccount
    · exact (congrArg₂ _ Table.kept_rollback Table.kept_rollback).trans (h.tables.counted account)
  · exact fun y hy account => congrArg₂ _ (Table.pending_rollback_of_ne h.tables.vault hy)
      (Table.pending_rollback_of_ne h.tables.attachments hy)
  · intro account
    have vault := Table.pending_eq_zero (w := vaultSize account)
      (Table.not_marked_rollback (t := s.vault) (x := i))
    have attachments := Table.pending_eq_zero (w := attachmentSize account)
      (Table.not_marked_rollback (t := s.attachments) (x := i))
    exact congrArg₂ _ vault attachments

/-- Before its first move and after its last, a request goes on. -/
theorem of_fresh (h : Inv ceiling s) (at_ : s.requests[i]? = some (request, old))
    (hold : old.moved = [] ∧ old.rest = []) (hnew : new.Fresh s.toDatabase) :
    Inv ceiling (s.setPhase i request new) := by
  refine h.move at_ h.tables h.within (fun _ _ _ => rfl) (fun _ hk => hk) (fun _ _ => rfl)
    (.idle ?_ hnew.moved hnew.due hnew.known) fun account hheld => ?_
  · intro account
    rw [(h.tasks i _ at_).balanced, hold.1, hold.2]
    rfl
  · obtain ⟨n, hn⟩ := Phase.holds_iff.1 hheld
    rw [hnew.moved] at hn
    cases hn

/-- A deletion of groups that takes along no charged attachment. -/
theorem deleteGroups (h : Inv ceiling s) (at_ : s.requests[i]? = some (request, .selected groups))
    (free : ∀ u ∈ s.attachments, u.row.groupId ∈ groups → u.Committed)
    (uncharged : ∀ u ∈ s.attachments, u.row.groupId ∈ groups → u.row.account = none) :
    Inv ceiling ((s.deleteGroups groups).setPhase i request .done) := by
  have gone : ∀ u : Tuple Attachment, (decide (u.row.groupId ∉ groups)) = false →
      u.row.groupId ∈ groups := fun u hu => by simpa using hu
  have pending : ∀ y account, (s.deleteGroups groups).pending y account = s.pending y account :=
    fun y account => congrArg (_ + ·) (Table.pending_filter fun u hu hp => free u hu (gone u hp))
  change Inv ceiling { s.setPhase i request .done with
    toDatabase := (s.deleteGroups groups).toDatabase }
  refine h.move at_ ?_ h.within
    (fun y _ account => pending y account) (fun _ hk => hk) (fun _ _ => rfl)
    (.idle (fun account => (pending i account).trans ((h.tasks i _ at_).balanced account)) rfl
      (fun _ => rfl) fun _ hst => nomatch hst) fun _ hheld => nomatch hheld
  refine { h.tables with attachments := h.tables.attachments.filter, attachmentsKnown := ?_, counted := ?_ }
  · exact fun u hu => h.tables.attachmentsKnown u (List.mem_filter.1 hu).1
  · intro account
    refine (congrArg (_ + ·) (Table.kept_filter fun u hu hp => ?_)).trans (h.tables.counted account)
    rw [Tuple.weight, attachmentSize, uncharged u hu (gone u hp)]
    simp

theorem advance (h : Inv ceiling s) (at_ : s.requests[i]? = some (request, phase))
    (hg : s.creditsFirst (.advance i now)) (hs : s.advance ceiling i request now phase = some s') :
    Inv ceiling s' := by
  cases phase with
  | received =>
    cases hs
    exact h.of_fresh at_ ⟨rfl, rfl⟩ (fresh_receive h.tables)
  | member =>
    cases hs
    exact h.of_fresh at_ ⟨rfl, rfl⟩ (fresh_begin h.tables)
  | working moved rest =>
    cases rest with
    | nil =>
      cases hs
      refine h.commit at_ ?_ ?_ <;> split <;> rfl
    | cons statement rest =>
      simp only [State.advance] at hs
      split at hs
      · cases hs
      · cases hs
        exact h.rollback at_
      next hexec =>
        cases hs
        exact h.of_exec at_ hexec
  | purged =>
    cases hs
    exact h.of_fresh at_ ⟨rfl, rfl⟩ ⟨rfl, fun _ => rfl, fun _ hst => nomatch hst⟩
  | selected groups =>
    simp only [State.advance] at hs
    split at hs
    · cases hs
    next free =>
      cases hs
      refine h.deleteGroups at_ (fun u hu hgroup => ?_) fun u hu hgroup => ?_
      · by_contra held
        exact free (List.any_eq_true.2 ⟨u, hu, decide_eq_true ⟨hgroup, held⟩⟩)
      · simp only [State.creditsFirst, at_, List.all_eq_true, decide_eq_true_eq] at hg
        exact hg u hu hgroup
  | done | refused => cases hs

/-- A new account has nothing stored. -/
theorem registerAccount (h : Inv ceiling s) (hceiling : 0 ≤ ceiling)
    (hnew : s.storage account = none) :
    Inv ceiling { s with storage := Function.update s.storage account (some 0) } := by
  have other : ∀ account', s.storage account' ≠ none →
      Function.update s.storage account (some 0) account' = s.storage account' := by
    intro account' hk
    refine Function.update_of_ne ?_ _ _
    rintro rfl
    exact hk hnew
  have known : ∀ account', s.storage account' ≠ none →
      Function.update s.storage account (some 0) account' ≠ none :=
    fun account' hk => (other account' hk).symm ▸ hk
  refine h.environment { h.tables with
    vaultKnown := fun u hu => known _ (h.tables.vaultKnown u hu)
    attachmentsKnown := fun u hu account' hu' => known _ (h.tables.attachmentsKnown u hu account' hu')
    devicesKnown := fun row hrow => known _ (h.tables.devicesKnown row hrow)
    counted := fun account' => (h.tables.counted account').trans ?_ } ?_ (fun _ _ => rfl) other
  · change _ = (Function.update s.storage account (some 0) account').getD 0
    rw [Function.update_apply]
    split
    next heq => rw [heq, hnew]; rfl
    next => rfl
  · intro hne account' stored hstored
    change Function.update s.storage account (some 0) account' = some stored at hstored
    rw [Function.update_apply] at hstored
    split at hstored
    · cases hstored
      exact hceiling
    · exact h.within hne account' stored hstored

theorem step (h : Inv ceiling s) (hceiling : 0 ≤ ceiling) (hg : s.creditsFirst a)
    (hs : s.step ceiling a = some s') : Inv ceiling s' := by
  have same : ∀ {groups members envelopes}, Inv ceiling { s with groups, members, envelopes } :=
    h.environment { h.tables with } h.within (fun _ _ => rfl) fun _ _ => rfl
  cases a with
  | registerAccount account =>
    obtain ⟨hnew, hs⟩ := Option.ite_none_right_eq_some.1 hs
    cases hs
    exact h.registerAccount hceiling hnew
  | registerDevice id account =>
    simp only [State.step] at hs
    split at hs
    · cases hs
    next hknown =>
      cases hs
      exact h.environment { h.tables with
        devicesKnown := Tasks.forall_mem_concat h.tables.devicesKnown hknown } h.within
        (fun _ _ => rfl) fun _ _ => rfl
  | revokeDevice id =>
    cases hs
    refine h.environment { h.tables with devicesKnown := fun row hrow => ?_ } h.within
      (fun _ _ => rfl) fun _ _ => rfl
    obtain ⟨row, hold, rfl⟩ := List.mem_map.1 hrow
    split <;> exact h.tables.devicesKnown row hold
  | addMembers | removeMembers =>
    cases hs
    exact same
  | postEnvelope groupId now =>
    obtain ⟨_, hs⟩ := Option.ite_none_right_eq_some.1 hs
    cases hs
    exact same
  | request r =>
    cases hs
    refine ⟨h.tables, h.within, fun i task hi => ?_, fun x hx account => ?_, fun account => ?_⟩
    · rcases Tasks.getElem?_concat_eq_some_iff.1 hi with hi | ⟨rfl, rfl⟩
      · exact h.tasks i task hi
      · exact .idle (h.beyond _ (Nat.le_refl _)) rfl (fun _ => rfl) fun _ hst => nomatch hst
    · refine h.beyond x (Nat.le_trans ?_ hx) account
      simp
    · exact (h.exclusive account).concat Bool.false_ne_true
  | advance i now =>
    simp only [State.step] at hs
    split at hs
    next at_ => exact h.advance at_ hg hs
    next => cases hs
  | fail i =>
    simp only [State.step] at hs
    split at hs
    · cases hs
    · cases hs
    · cases hs
    next =>
      cases hs
      exact h.rollback ‹_›

end Inv

/-! ## Every run -/

/-- Before any request: the counters are what the rows amount to, below the ceiling, and whoever
has rows or devices is registered. -/
structure Initial (ceiling : Int) (s : State) : Prop where
  requests : s.requests = []
  settled : (∀ u ∈ s.vault, u.Committed) ∧ ∀ u ∈ s.attachments, u.Committed
  counted : ∀ account, (s.stored account : Int) = (s.storage account).getD 0
  within : Within ceiling s.toDatabase
  vaultKnown : ∀ u ∈ s.vault, s.storage u.row.account ≠ none
  attachmentsKnown : ∀ u ∈ s.attachments, ∀ account, u.row.account = some account →
    s.storage account ≠ none
  devicesKnown : ∀ row ∈ s.devices, s.storage row.account ≠ none

/-- Rows and counters, as everybody sees them, are the same. -/
def Database.Same (d d' : Database) : Prop :=
  d'.storage = d.storage ∧ d'.vault.rows = d.vault.rows ∧ d'.attachments.rows = d.attachments.rows

theorem Database.same_rollback (d : Database) (x : Nat) : d.Same (d.rollback x) :=
  ⟨rfl, Table.rows_rollback, Table.rows_rollback⟩

/-- Every counter is what the account has stored, and no more than the ceiling; and a request that
is not a purge changes rows and counters only by the step that ends it well. -/
structure Accounted (ceiling : Int) (s : State) : Prop where
  counted : ∀ account bytes, s.storage account = some bytes → bytes = s.stored account
  within : ceiling ≠ 0 → ∀ account bytes, s.storage account = some bytes → bytes ≤ ceiling
  refused : ∀ a s' i request phase, (a = .fail i ∨ ∃ now, a = .advance i now) →
    s.step ceiling a = some s' → s'.requests[i]? = some (request, phase) → request ≠ .purge →
    phase ≠ .done → s.Same s'.toDatabase

theorem Initial.inv {s : State} (h : Initial ceiling s) : Inv ceiling s := by
  have unmarked : ∀ x account, s.pending x account = 0 := fun x account =>
    congrArg₂ _ (Table.pending_eq_zero fun u hu => (h.settled.1 u hu).unmarked)
      (Table.pending_eq_zero fun u hu => (h.settled.2 u hu).unmarked)
  refine ⟨⟨fun u hu _ => (h.settled.1 u hu).2, fun u hu _ => (h.settled.2 u hu).2, h.vaultKnown,
    h.attachmentsKnown, h.devicesKnown, fun account => ?_⟩, h.within, fun i task hi => ?_,
    fun x _ account => unmarked x account, fun account => ?_⟩
  · rw [Database.kept_eq_stored, h.counted]
  · rw [h.requests] at hi
    cases hi
  · rw [h.requests]
    exact .of_none fun _ ht => nomatch ht

/-- Only a commit and a deletion of groups are seen by others. -/
theorem Inv.same_or_ends {s : State} (h : Inv ceiling s)
    (at_ : s.requests[i]? = some (request, phase))
    (hs : s.advance ceiling i request now phase = some s') :
    s.Same s'.toDatabase ∨ ∃ new, s'.requests = s.requests.set i (request, new) ∧
      (request ≠ .purge → new = .done) := by
  cases phase with
  | received | member | purged =>
    cases hs
    exact .inl ⟨rfl, rfl, rfl⟩
  | working moved rest =>
    cases rest with
    | nil =>
      cases hs
      exact .inr ⟨_, rfl, fun hpurge => if_neg hpurge⟩
    | cons statement rest =>
      simp only [State.advance] at hs
      split at hs
      · cases hs
      · cases hs
        exact .inl (s.same_rollback i)
      next hexec =>
        cases hs
        have known := (h.tasks i _ at_).rest statement List.mem_cons_self
        have acts := (executes_of_go h.tables known hexec).acts
        exact .inl ⟨acts.storage, acts.vaultRows, acts.attachmentRows⟩
  | selected groups =>
    simp only [State.advance] at hs
    split at hs
    · cases hs
    · cases hs
      exact .inr ⟨_, rfl, fun _ => rfl⟩
  | done | refused => cases hs

theorem Inv.accounted {s : State} (h : Inv ceiling s) : Accounted ceiling s where
  counted account bytes hbytes := by
    rw [← Database.kept_eq_stored, h.tables.counted, hbytes]
    rfl
  within := h.within
  refused a s' i request phase ha hs hi hpurge hdone := by
    rcases ha with rfl | ⟨now, rfl⟩
    · simp only [State.step] at hs
      split at hs
      · cases hs
      · cases hs
      · cases hs
      · cases hs
        exact s.same_rollback i
    · simp only [State.step] at hs
      split at hs
      next request' phase' at_ =>
        rcases h.same_or_ends at_ hs with same | ⟨new, hnew, ends⟩
        · exact same
        · rw [hnew] at hi
          rcases (Tasks.getElem?_set_eq_some_iff at_).1 hi with ⟨_, hi⟩ | ⟨hne, _⟩
          · cases hi
            exact absurd (ends hpurge) hdone
          · exact absurd rfl hne
      next => cases hs

/-- In every run in which no deletion of groups takes charged attachments with it, every account is
charged for exactly what it has stored, never past the ceiling, and a refused request leaves no
trace. -/
theorem accounted_of_creditsFirst {s t : State} (hceiling : 0 ≤ ceiling) (start : Initial ceiling s)
    (h : Reach (State.step ceiling) (fun s a => s.creditsFirst a) s t) : Accounted ceiling t :=
  (h.invariant start.inv fun hi hg hs => hi.step hceiling hg hs : Inv ceiling t).accounted

/-! ## An account that deposits -/

/-- One account with one device, in one group; nothing stored yet. -/
def aliceAlone : State where
  devices := [⟨"phone", "alice", false⟩]
  storage account := if account = "alice" then some 0 else none
  groups := ["ab"]
  members := [("ab", "phone")]
  envelopes := []
  vault := []
  attachments := []
  nextCtid := 0
  requests := []

theorem aliceAlone_initial (h : 0 ≤ ceiling) : Initial ceiling aliceAlone where
  requests := rfl
  settled := ⟨fun _ hu => (nomatch hu), fun _ hu => (nomatch hu)⟩
  counted account := by
    change (0 : Int) = (if account = "alice" then some 0 else none : Option Int).getD 0
    split <;> rfl
  within _ account stored hstored := by
    obtain ⟨_, hstored⟩ := Option.ite_none_right_eq_some.1 hstored
    cases hstored
    exact h
  vaultKnown _ hu := nomatch hu
  attachmentsKnown _ hu := nomatch hu
  devicesKnown row hrow := by
    cases List.mem_singleton.1 hrow
    exact Option.some_ne_none _

/-- Two entries come under one number, and the first is stored. -/
def depositTwice : List Action :=
  [.request (.storeVault "phone" "ab" [(1, [1, 2, 3]), (1, [4])]), .advance 0 0, .advance 0 0,
    .advance 0 0, .advance 0 0, .advance 0 0]

theorem accounted_of_creditsFirst_depositTwice : ∃ t,
    Reach (State.step 4) (fun s a => s.creditsFirst a) aliceAlone t ∧
    t.requests.map (·.2) = [.done] ∧ t.storage "alice" = some 3 ∧ Accounted 4 t := by
  have deposited : ∃ t, run (fun s a => if s.creditsFirst a then s.step 4 a else none) aliceAlone
      depositTwice = some t ∧ t.requests.map (·.2) = [.done] ∧ t.storage "alice" = some 3 :=
    ⟨_, rfl, by decide, by decide⟩
  obtain ⟨t, h, done, charged⟩ := deposited
  have reached : Reach _ (fun s a => s.creditsFirst a) aliceAlone t :=
    Transition.reach_of_run_guarded h
  exact ⟨t, reached, done, charged,
    accounted_of_creditsFirst (by decide) (aliceAlone_initial (by decide)) reached⟩

/-! ## An upload between the two halves of a purge -/

/-- A member passes the check of an upload and leaves the group, the last to do so; the attachment
lands after the purge has credited the group's attachments, and before it deletes the group. -/
def uploadIntoPurge : List Action :=
  [.request (.uploadAttachment "phone" "ab" [1, 2, 3]), .advance 0 0,
    .removeMembers "ab" ["phone"],
    .request .purge, .advance 1 0, .advance 1 0, .advance 1 0, .advance 1 0, .advance 1 0,
    .advance 1 0,
    .advance 0 0, .advance 0 0, .advance 0 0, .advance 0 0,
    .advance 1 0, .advance 1 0]

theorem cascade_uncredited : ∃ t, Initial 4 aliceAlone ∧
    run (State.step 4) aliceAlone uploadIntoPurge = some t ∧
    t.requests.map (·.2) = [.done, .done] ∧ t.storage "alice" = some 3 ∧ t.stored "alice" = 0 ∧
    ¬ Accounted 4 t := by
  have drifted : ∃ t, run (State.step 4) aliceAlone uploadIntoPurge = some t ∧
      t.requests.map (·.2) = [.done, .done] ∧ t.storage "alice" = some 3 ∧ t.stored "alice" = 0 :=
    ⟨_, rfl, by decide, by decide, by decide⟩
  obtain ⟨t, h, done, charged, stored⟩ := drifted
  refine ⟨t, aliceAlone_initial (by decide), h, done, charged, stored, fun accounted => ?_⟩
  have counted := accounted.counted "alice" 3 charged
  rw [stored] at counted
  exact absurd counted (by decide)

end Whispee.Server.Storage
