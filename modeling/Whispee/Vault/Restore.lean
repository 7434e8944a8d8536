import Whispee.Lib.Paging
import Whispee.Lib.Transition
import Whispee.Session.History

/-!
# Restoring the archive

`store`, `restore` and `merge` of `apps/web/src/lib/vault.ts`, `Archive.restore` and what
`restoreHistory` and `hydrate` of `session.ts` do with it, over `store_vault` and `fetch_vault` of
`crates/server/src/routes.rs`: one conversation and the rows of one account. A restore reads the
pages while the thread is added to, and replaced, by everything else that runs.
-/

namespace Whispee.Vault.Restore

open Transition
open Json (Value)
open Session (Wire.Content Wire.Thrown)

/-! ## The server -/

/-- A row of `vault_entries`, of one account and one group. -/
structure VaultEntry where
  seq : Int
  payload : Bytes
  deriving DecidableEq

/-- Of the primary key, `seq` is what is left. -/
structure VaultEntries where
  rows : List VaultEntry
  distinct : (rows.map (·.seq)).Nodup

def MAX_VAULT_ENTRIES : Nat := 200

namespace VaultEntries

def empty : VaultEntries := ⟨[], List.nodup_nil⟩

/-- `ON CONFLICT DO NOTHING` -/
def insert (v : VaultEntries) (entry : VaultEntry) : VaultEntries :=
  if h : entry.seq ∈ v.rows.map (·.seq) then v
  else ⟨v.rows ++ [entry], by
    rw [List.map_append, List.nodup_append]
    refine ⟨v.distinct, List.nodup_singleton _, fun seq hseq seq' hseq' heq => ?_⟩
    rw [heq, List.mem_singleton.1 hseq'] at hseq
    exact h hseq⟩

/-- `store_vault`, where `admitted` is what the throttle, the membership and the quota say. -/
def storeVault (v : VaultEntries) (admitted : Bool) (entries : List VaultEntry) :
    Option VaultEntries :=
  if entries.isEmpty ∨ MAX_VAULT_ENTRIES < entries.length ∨ admitted = false then none
  else some (entries.foldl insert v)

def fetchVault (v : VaultEntries) (after : Int) : List VaultEntry :=
  Paging.page (·.seq) MAX_VAULT_ENTRIES v.rows after

end VaultEntries

/-! ## The client -/

/-- A message of the thread. Of an archived one, nobody looks at what `sender` and `mine` are. -/
structure Message where
  seq : Int
  sender : Value
  mine : Value
  content : Wire.Content
  sentAt : Option Rat
  expiresAt : Option Rat

def seqs (messages : List Message) : List Int := messages.map (·.seq)

def PAGE : Nat := 200

def IV_LEN : Nat := 12

/-- The batches of `store`. -/
def batches (entries : List α) : List (List α) :=
  match entries with
  | [] => []
  | entry :: entries => (entry :: entries).take PAGE :: batches ((entry :: entries).drop PAGE)
termination_by entries.length
decreasing_by
  rw [List.length_drop, List.length_cons, PAGE]
  omega

structure Restored where
  messages : List Message
  unreadable : Nat

/-- What an iteration of the loop of `restore` comes to. -/
inductive Turn where
  | done (r : Restored)
  | again (r : Restored) (after : Int)

def merge (existing archives : List Message) : List Message :=
  archives.filter fun message => !(seqs existing).contains message.seq

def isExpired (message : Message) (now : Rat) : Bool :=
  match message.expiresAt with
  | some expiresAt => expiresAt ≤ now
  | none => false

def prune (messages : List Message) (now : Rat) : List Message :=
  messages.filter fun message => !isExpired message now

section
variable (decrypt : Bytes → Bytes → Option Bytes) (clock : Int → Nat)
  (coerced : Value → Except Wire.Thrown Bytes)

/-- `decryptEntry`, if it does not throw: AES-GCM under the vault key is `decrypt`, and `clock` says
when a row is read. -/
def decryptEntry (seq : Int) (blob : Bytes) : Option Message := do
  let plaintext ← decrypt (blob.take IV_LEN) (blob.drop IV_LEN)
  let document ← Json.read (Session.Wire.textDecode plaintext).toList
  let archived := Json.parse document
  Except.toOption do
    let body ← Session.History.newUint8Array coerced (← Session.Wire.property archived "body")
    let stamped ← Session.Wire.decode (clock seq) (.whole body)
    return {
      seq
      sender := ← Session.Wire.property archived "sender"
      mine := ← Session.Wire.property archived "mine"
      content := stamped.body
      sentAt := stamped.sentAt
      expiresAt := none }

def opened (row : VaultEntry) : Option Message :=
  decryptEntry decrypt clock coerced row.seq row.payload

def readRow (r : Restored) (row : VaultEntry) : Restored :=
  match opened decrypt clock coerced row with
  | some message => { r with messages := r.messages ++ [message] }
  | none => { r with unreadable := r.unreadable + 1 }

def turn (r : Restored) (rows : List VaultEntry) : Turn :=
  match rows.getLast? with
  | none => .done r
  | some last =>
    let r := rows.foldl (readRow decrypt clock coerced) r
    if rows.length < PAGE then .done r else .again r last.seq

def restoreFrom (fetchVault : Int → List VaultEntry) : Nat → Restored → Int → Option Restored
  | 0, _, _ => none
  | fuel + 1, r, after =>
    match turn decrypt clock coerced r (fetchVault after) with
    | .done r => some r
    | .again r after => restoreFrom fetchVault fuel r after

def restore (fetchVault : Int → List VaultEntry) (fuel : Nat) : Option Restored :=
  restoreFrom decrypt clock coerced fetchVault fuel ⟨[], 0⟩ 0

end

/-- What `Archive.restore` returns, if it does not throw. -/
def settled (held : List Message) (r : Restored) : Option (List Message) :=
  if r.messages.isEmpty && decide (0 < r.unreadable) then none else some (merge held r.messages)

/-! ## A restore among everything else -/

/-- Where `restoreHistory` is. It was handed the array of the thread, which is `held` once the
thread is another one. -/
inductive Phase where
  | idle
  | paging (held : Option (List Message)) (r : Restored) (after : Int)
  | restored (held : Option (List Message)) (r : Restored)
  | merged (added : List Message)

structure State where
  vault : VaultEntries
  enabled : Bool
  lifetimeSeconds : Nat
  hydrated : Bool
  messages : List Message
  phase : Phase

inductive Action where
  /-- A device of the account deposits a batch. -/
  | deposit (admitted : Bool) (entries : List VaultEntry)
  | dropVault
  | enable (enabled : Bool)
  | setLifetime (seconds : Nat)
  /-- The poll, a send or another restore adds to the thread. -/
  | absorb (messages : List Message)
  | dropExpired (now : Rat)
  | hydrate
  | restoreHistory
  /-- The server answers, and the page is read. -/
  | page
  | pageFailed
  | merge
  | add

namespace Phase

/-- The thread is another array from now on. -/
def replace (messages : List Message) : Phase → Phase
  | .paging held r after => .paging (some (held.getD messages)) r after
  | .restored held r => .restored (some (held.getD messages)) r
  | phase => phase

end Phase

namespace State

def restoreHistory (s : State) : State :=
  { s with phase :=
      if s.enabled ∧ s.lifetimeSeconds = 0 then .paging none ⟨[], 0⟩ 0 else .merged [] }

def dropExpired (s : State) (now : Rat) : State :=
  let kept := prune s.messages now
  if kept.length = s.messages.length then s
  else { s with messages := kept, phase := s.phase.replace s.messages }

section
variable (decrypt : Bytes → Bytes → Option Bytes) (clock : Int → Nat)
  (coerced : Value → Except Wire.Thrown Bytes)

def step (s : State) : Action → Option State
  | .deposit admitted entries => (s.vault.storeVault admitted entries).map ({ s with vault := · })
  | .dropVault => some { s with vault := .empty }
  | .enable enabled => some { s with enabled }
  | .setLifetime lifetimeSeconds => some { s with lifetimeSeconds }
  | .absorb messages => some { s with messages := s.messages ++ messages }
  | .dropExpired now => some (s.dropExpired now)
  | .hydrate =>
    match s.phase with
    | .idle =>
      if s.hydrated || !s.enabled then some s else some { s with hydrated := true }.restoreHistory
    | _ => none
  | .restoreHistory =>
    match s.phase with
    | .idle => some s.restoreHistory
    | _ => none
  | .page =>
    match s.phase with
    | .paging held r after =>
      match turn decrypt clock coerced r (s.vault.fetchVault after) with
      | .done r => some { s with phase := .restored held r }
      | .again r after => some { s with phase := .paging held r after }
    | _ => none
  | .pageFailed =>
    match s.phase with
    | .paging _ _ _ => some { s with phase := .idle }
    | _ => none
  | .merge =>
    match s.phase with
    | .restored held r =>
      match settled (held.getD s.messages) r with
      | some added => some { s with phase := .merged added }
      | none => some { s with phase := .idle }
    | _ => none
  | .add =>
    match s.phase with
    | .merged added => some { s with messages := s.messages ++ added, phase := .idle }
    | _ => none

/-- Nothing is put into the thread that it holds. What a restore has read, or is given to read, is
not there unless it will see it: it sees what comes to the array it was handed until it merges. -/
def Harmless (s : State) : Action → Prop
  | .absorb messages => (seqs (s.messages ++ messages)).Nodup ∧
      match s.phase with
      | .paging (some old) r _ | .restored (some old) r =>
        ∀ seq ∈ seqs messages, seq ∈ seqs r.messages → seq ∈ seqs old
      | .merged added => ∀ seq ∈ seqs messages, seq ∉ seqs added
      | _ => True
  | .page =>
    match s.phase with
    | .paging (some old) _ after => ∀ row ∈ s.vault.fetchVault after,
      (opened decrypt clock coerced row).isSome →
        row.seq ∈ seqs s.messages → row.seq ∈ seqs old
    | _ => True
  | _ => True

end

end State

/-! ## What a restore should come to -/

/-- What is archived after the deposits, each admitted or not. -/
def archived (deposits : List (Bool × List VaultEntry)) : VaultEntries :=
  deposits.foldl (fun v deposit => (v.storeVault deposit.1 deposit.2).getD v) .empty

section
variable (decrypt : Bytes → Bytes → Option Bytes) (clock : Int → Nat)
  (coerced : Value → Except Wire.Thrown Bytes)

/-- Every row that opens is there, once and in order, and the others are counted. -/
structure Complete (v : VaultEntries) (r : Restored) : Prop where
  ascending : (seqs r.messages).Pairwise (· < ·)
  messages : ∀ message, message ∈ r.messages ↔
    ∃ row ∈ v.rows, opened decrypt clock coerced row = some message
  unreadable : r.unreadable =
    v.rows.countP fun row => (opened decrypt clock coerced row).isNone

end

/-! ## Deposits -/

theorem flatten_batches (entries : List α) : (batches entries).flatten = entries := by
  induction entries using batches.induct with
  | case1 => rw [batches, List.flatten_nil]
  | case2 entry entries ih => rw [batches, List.flatten_cons, ih, List.take_append_drop]

theorem fits_of_mem_batches (h : batch ∈ batches entries) :
    batch ≠ [] ∧ batch.length ≤ MAX_VAULT_ENTRIES := by
  induction entries using batches.induct with
  | case1 =>
    rw [batches] at h
    cases h
  | case2 entry entries ih =>
    rw [batches, List.mem_cons] at h
    rcases h with rfl | h
    · refine ⟨List.cons_ne_nil _ _, ?_⟩
      rw [List.length_take]
      exact Nat.min_le_left ..
    · exact ih h

namespace VaultEntries

theorem storeVault_eq (v : VaultEntries) (h : entries ≠ [] ∧ entries.length ≤ MAX_VAULT_ENTRIES) :
    v.storeVault true entries = some (entries.foldl insert v) := by
  have hfits : ¬ (entries.isEmpty ∨ MAX_VAULT_ENTRIES < entries.length ∨ true = false) := by
    rw [List.isEmpty_iff]
    intro hrefused
    rcases hrefused with hempty | hlong | hfalse
    · exact h.1 hempty
    · exact hlong.not_ge h.2
    · cases hfalse
  rw [storeVault, if_neg hfits]

/-- What `store` deposits is archived, however it is cut. -/
theorem archived_batches (entries : List VaultEntry) :
    archived ((batches entries).map (true, ·)) = entries.foldl insert .empty := by
  have hbatches : ∀ (bs : List (List VaultEntry)) (v : VaultEntries),
      (∀ b ∈ bs, b ≠ [] ∧ b.length ≤ MAX_VAULT_ENTRIES) →
      (bs.map (true, ·)).foldl (fun v deposit => (v.storeVault deposit.1 deposit.2).getD v) v =
        bs.flatten.foldl insert v := by
    intro bs
    induction bs with
    | nil => exact fun _ _ => rfl
    | cons b bs ih =>
      intro v hfits
      obtain ⟨hb, hbs⟩ := List.forall_mem_cons.1 hfits
      rw [List.map_cons, List.foldl_cons, storeVault_eq v hb, Option.getD_some, ih _ hbs,
        List.flatten_cons, List.foldl_append]
  rw [archived, hbatches _ _ fun b hb => fits_of_mem_batches hb, flatten_batches]

end VaultEntries

/-! ## The pages -/

section
variable {decrypt : Bytes → Bytes → Option Bytes} {clock : Int → Nat}
  {coerced : Value → Except Wire.Thrown Bytes}

theorem seq_of_opened (h : opened decrypt clock coerced row = some message) :
    message.seq = row.seq := by
  obtain ⟨_, _, h⟩ := Option.bind_eq_some_iff.1 h
  obtain ⟨document, _, h⟩ := Option.bind_eq_some_iff.1 h
  obtain ⟨_, _, h⟩ := Fallible.bind_eq_ok_iff.1 (Fallible.toOption_eq_some h)
  obtain ⟨_, _, h⟩ := Fallible.bind_eq_ok_iff.1 h
  obtain ⟨_, _, h⟩ := Fallible.bind_eq_ok_iff.1 h
  obtain ⟨_, _, h⟩ := Fallible.bind_eq_ok_iff.1 h
  obtain ⟨_, _, h⟩ := Fallible.bind_eq_ok_iff.1 h
  cases h
  rfl

theorem foldl_readRow (rows : List VaultEntry) (r : Restored) :
    rows.foldl (readRow decrypt clock coerced) r =
      ⟨r.messages ++ rows.filterMap (opened decrypt clock coerced),
        r.unreadable +
          rows.countP fun row => (opened decrypt clock coerced row).isNone⟩ := by
  induction rows generalizing r with
  | nil => rw [List.foldl_nil, List.filterMap_nil, List.append_nil, List.countP_nil]; rfl
  | cons row rows ih =>
    rw [List.foldl_cons, ih, readRow]
    cases hrow : opened decrypt clock coerced row with
    | none => simp [hrow, Nat.add_assoc, Nat.add_comm 1]
    | some message => simp [hrow]

/-- A page that is not full is the last; after one that is, the rest is asked for. -/
theorem turn_fetchVault (v : VaultEntries) (r : Restored) (after : Int) :
    (v.fetchVault after = Paging.following (·.seq) v.rows after ∧
      turn decrypt clock coerced r (v.fetchVault after) =
        .done ((v.fetchVault after).foldl (readRow decrypt clock coerced) r)) ∨
    ∃ last, (v.fetchVault after).getLast? = some last ∧
      turn decrypt clock coerced r (v.fetchVault after) =
        .again ((v.fetchVault after).foldl (readRow decrypt clock coerced) r) last.seq := by
  unfold turn
  split
  · rename_i hnone
    have hnil := List.getLast?_eq_none_iff.1 hnone
    refine .inl ⟨Paging.page_eq_of_short ?_, by rw [hnil, List.foldl_nil]⟩
    change (v.fetchVault after).length < _
    rw [hnil]
    exact Nat.zero_lt_succ _
  · rename_i last hlast
    by_cases hshort : (v.fetchVault after).length < PAGE
    · exact .inl ⟨Paging.page_eq_of_short hshort, if_pos hshort⟩
    · exact .inr ⟨last, hlast, if_neg hshort⟩

/-- With fuel for the rows that are left, the loop ends, and it has read them. -/
theorem restoreFrom_eq (v : VaultEntries) (r : Restored) (after : Int)
    (hfuel : (Paging.following (·.seq) v.rows after).length < fuel) :
    restoreFrom decrypt clock coerced v.fetchVault fuel r after =
      some ((Paging.following (·.seq) v.rows after).foldl (readRow decrypt clock coerced) r) := by
  induction fuel generalizing r after with
  | zero => exact absurd hfuel (Nat.not_lt_zero _)
  | succ fuel ih =>
    rw [restoreFrom]
    rcases turn_fetchVault v r after with ⟨hall, hturn⟩ | ⟨last, hlast, hturn⟩
    · rw [hturn, hall]
    · have hless := Paging.length_following_lt v.distinct hlast
      rw [hturn, Paging.following_eq_append v.distinct hlast, List.foldl_append]
      exact ih _ _ (by omega)

/-! ## Completeness -/

/-- The seqs of what rows open to. -/
theorem seqs_opened (rows : List VaultEntry) :
    seqs (rows.filterMap (opened decrypt clock coerced)) =
      (rows.filter fun row =>
        (opened decrypt clock coerced row).isSome).map (·.seq) := by
  induction rows with
  | nil => rfl
  | cons row rows ih =>
    rw [seqs] at ih
    cases hrow : opened decrypt clock coerced row with
    | none => rw [seqs, List.filterMap_cons_none hrow, ih, List.filter_cons_of_neg (by simp [hrow])]
    | some message =>
      rw [seqs, List.filterMap_cons_some hrow, List.map_cons, ih, seq_of_opened hrow,
        List.filter_cons_of_pos (by simp [hrow]), List.map_cons]

theorem pairwise_opened {rows : List VaultEntry} (h : rows.Pairwise (·.seq < ·.seq)) :
    (seqs (rows.filterMap fun row =>
      opened decrypt clock coerced row)).Pairwise (· < ·) := by
  rw [seqs_opened, List.pairwise_map]
  exact h.sublist List.filter_sublist

/-- The rows a restore reads. -/
theorem complete_iff_pos (v : VaultEntries) :
    Complete decrypt clock coerced v
      ((Paging.following (·.seq) v.rows 0).foldl (readRow decrypt clock coerced) ⟨[], 0⟩) ↔
        ∀ row ∈ v.rows, 0 < row.seq := by
  have hperm := Paging.perm_following (fun row : VaultEntry => row.seq) v.rows 0
  have hsplit := List.countP_eq_countP_filter_add v.rows
    (fun row => (opened decrypt clock coerced row).isNone)
    fun row => decide (0 < row.seq)
  rw [foldl_readRow, List.nil_append, Nat.zero_add]
  constructor
  · rintro ⟨_, hmessages, hunreadable⟩ row hrow
    by_contra hseq
    cases hopen : opened decrypt clock coerced row with
    | some message =>
      obtain ⟨row', hrow', hopen'⟩ :=
        List.mem_filterMap.1 ((hmessages message).2 ⟨row, hrow, hopen⟩)
      rw [← seq_of_opened hopen, seq_of_opened hopen'] at hseq
      exact hseq (Paging.mem_following.1 hrow').2
    | none =>
      rw [hsplit, hperm.countP_eq] at hunreadable
      dsimp only at hunreadable
      have hpos : 0 < (v.rows.filter fun row => !decide (0 < row.seq)).countP
          fun row => (opened decrypt clock coerced row).isNone :=
        List.countP_pos_iff.2
          ⟨row, List.mem_filter.2 ⟨hrow, by simpa using hseq⟩, Option.isNone_iff_eq_none.2 hopen⟩
      omega
  · intro h
    have hall : v.rows.filter (fun row => decide (0 < row.seq)) = v.rows :=
      List.filter_eq_self.2 fun row hrow => decide_eq_true (h row hrow)
    rw [hall] at hperm
    refine ⟨pairwise_opened (Paging.pairwise_following v.distinct), fun message => ?_,
      hperm.countP_eq _⟩
    rw [List.mem_filterMap]
    exact exists_congr fun row => and_congr_left fun _ => hperm.mem_iff

/-! ## The thread -/

/-- What the thread holds of what has been read is in the array that was handed in. -/
def Seen (held : Option (List Message)) (r : Restored) (messages : List Message) : Prop :=
  ∀ old ∈ held, ∀ seq ∈ seqs messages, seq ∈ seqs r.messages → seq ∈ seqs old

def Phase.Sound (messages : List Message) : Phase → Prop
  | .idle => True
  | .paging held r after => (seqs r.messages).Pairwise (· < ·) ∧
      (∀ seq ∈ seqs r.messages, seq ≤ after) ∧ Seen held r messages
  | .restored held r => (seqs r.messages).Pairwise (· < ·) ∧ Seen held r messages
  | .merged added => (seqs added).Nodup ∧ ∀ seq ∈ seqs messages, seq ∉ seqs added

/-- No number is twice in the thread, nor will be once the restore has added to it. -/
structure Inv (s : State) : Prop where
  distinct : (seqs s.messages).Nodup
  sound : s.phase.Sound s.messages

theorem mem_seqs_merge : seq ∈ seqs (merge existing archives) ↔
    seq ∈ seqs archives ∧ seq ∉ seqs existing := by
  simp only [seqs, merge, List.mem_map, List.mem_filter, Bool.not_eq_true', ← Bool.not_eq_true,
    List.contains_iff_mem]
  constructor
  · rintro ⟨message, ⟨hmem, hnot⟩, rfl⟩
    exact ⟨⟨message, hmem, rfl⟩, by simpa using hnot⟩
  · rintro ⟨⟨message, hmem, rfl⟩, hnot⟩
    exact ⟨message, ⟨hmem, by simpa using hnot⟩, rfl⟩

theorem prune_sublist : (prune messages now).Sublist messages := List.filter_sublist

theorem Phase.Sound.sublist {phase : Phase} (h : phase.Sound messages)
    (hsub : messages'.Sublist messages) : phase.Sound messages' := by
  have hmem : ∀ seq ∈ seqs messages', seq ∈ seqs messages :=
    fun seq hseq => (hsub.map (·.seq)).subset hseq
  cases phase with
  | idle => trivial
  | paging held r after =>
    exact ⟨h.1, h.2.1, fun old hold seq hseq => h.2.2 old hold seq (hmem seq hseq)⟩
  | restored held r => exact ⟨h.1, fun old hold seq hseq => h.2 old hold seq (hmem seq hseq)⟩
  | merged added => exact ⟨h.1, fun seq hseq => h.2 seq (hmem seq hseq)⟩

/-- The array that was handed in stays as it is, or is what the thread was. -/
theorem Seen.replace (h : Seen held r messages) : Seen (some (held.getD messages)) r messages := by
  intro old hold seq hseq hread
  cases hold
  cases held with
  | none => exact hseq
  | some old => exact h old rfl seq hseq hread

theorem Phase.Sound.replace {phase : Phase} (h : phase.Sound messages) :
    (phase.replace messages).Sound messages := by
  cases phase with
  | idle => trivial
  | paging held r after => exact ⟨h.1, h.2.1, h.2.2.replace⟩
  | restored held r => exact ⟨h.1, h.2.replace⟩
  | merged added => exact h

theorem Inv.dropExpired (h : Inv s) (now : Rat) : Inv (s.dropExpired now) := by
  rw [State.dropExpired]
  split
  · exact h
  · exact ⟨h.distinct.sublist (prune_sublist.map _), h.sound.replace.sublist prune_sublist⟩

theorem Inv.restoreHistory {s : State} (h : (seqs s.messages).Nodup) : Inv s.restoreHistory := by
  refine ⟨h, ?_⟩
  rw [State.restoreHistory]
  split
  · exact ⟨List.Pairwise.nil, List.forall_mem_nil _, fun _ hold => nomatch hold⟩
  · exact ⟨List.nodup_nil, fun _ _ => List.not_mem_nil⟩

theorem mem_seqs_opened {rows : List VaultEntry} :
    seq ∈ seqs (rows.filterMap (opened decrypt clock coerced)) ↔
      ∃ row ∈ rows, (opened decrypt clock coerced row).isSome ∧ row.seq = seq := by
  rw [seqs_opened, List.mem_map]
  simp only [List.mem_filter, and_assoc]

theorem lt_of_mem_fetchVault {v : VaultEntries} (h : row ∈ v.fetchVault after) : after < row.seq :=
  (Paging.mem_following.1 (Paging.page_sublist.subset h)).2

theorem pairwise_fetchVault (v : VaultEntries) (after : Int) :
    (v.fetchVault after).Pairwise (·.seq < ·.seq) :=
  (Paging.pairwise_following v.distinct).sublist Paging.page_sublist

theorem le_of_getLast? {rows : List VaultEntry} (h : rows.Pairwise (·.seq < ·.seq))
    (hlast : rows.getLast? = some last) (hrow : row ∈ rows) : row.seq ≤ last.seq := by
  obtain ⟨front, rfl⟩ := List.getLast?_eq_some_iff.1 hlast
  rcases List.mem_append.1 hrow with hrow | hrow
  · exact Int.le_of_lt ((List.pairwise_append.1 h).2.2 row hrow last (List.mem_singleton_self _))
  · exact Int.le_of_eq (congrArg _ (List.mem_singleton.1 hrow))

/-- What a page does to what has been read: it goes on in order, and is seen. -/
theorem foldl_readRow_sound {v : VaultEntries} (hsorted : (seqs r.messages).Pairwise (· < ·))
    (hread : ∀ seq ∈ seqs r.messages, seq ≤ after) (hseen : Seen held r messages)
    (hpage : ∀ old ∈ held, ∀ row ∈ v.fetchVault after, (opened decrypt clock coerced row).isSome →
      row.seq ∈ seqs messages → row.seq ∈ seqs old) :
    (seqs ((v.fetchVault after).foldl (readRow decrypt clock coerced) r).messages).Pairwise
      (· < ·) ∧
    Seen held ((v.fetchVault after).foldl (readRow decrypt clock coerced) r) messages ∧
    ∀ seq ∈ seqs ((v.fetchVault after).foldl (readRow decrypt clock coerced) r).messages,
      seq ≤ after ∨ ∃ row ∈ v.fetchVault after, row.seq = seq := by
  rw [foldl_readRow]
  have hseqs : seqs (r.messages ++ (v.fetchVault after).filterMap (opened decrypt clock coerced)) =
      seqs r.messages ++ seqs ((v.fetchVault after).filterMap (opened decrypt clock coerced)) :=
    List.map_append
  refine ⟨?_, fun old hold seq hseq hmem => ?_, fun seq hmem => ?_⟩
  · rw [hseqs, List.pairwise_append]
    refine ⟨hsorted, pairwise_opened (pairwise_fetchVault v after), fun seq hseq seq' hseq' => ?_⟩
    obtain ⟨row, hrow, _, rfl⟩ := mem_seqs_opened.1 hseq'
    exact Int.lt_of_le_of_lt (hread seq hseq) (lt_of_mem_fetchVault hrow)
  · rw [hseqs] at hmem
    rcases List.mem_append.1 hmem with hmem | hmem
    · exact hseen old hold seq hseq hmem
    · obtain ⟨row, hrow, hopen, rfl⟩ := mem_seqs_opened.1 hmem
      exact hpage old hold row hrow hopen hseq
  · rw [hseqs] at hmem
    rcases List.mem_append.1 hmem with hmem | hmem
    · exact .inl (hread seq hmem)
    · obtain ⟨row, hrow, _, rfl⟩ := mem_seqs_opened.1 hmem
      exact .inr ⟨row, hrow, rfl⟩

theorem Inv.absorb {s : State} (h : Inv s)
    (hharmless : s.Harmless decrypt clock coerced (.absorb messages)) :
    Inv { s with messages := s.messages ++ messages } := by
  have hmem : ∀ seq, seq ∈ seqs (s.messages ++ messages) →
      seq ∈ seqs s.messages ∨ seq ∈ seqs messages := by
    intro seq hseq
    rw [seqs, List.map_append] at hseq
    exact List.mem_append.1 hseq
  obtain ⟨vault, enabled, lifetimeSeconds, hydrated, thread, phase⟩ := s
  obtain ⟨hnodup, hphase⟩ := hharmless
  refine ⟨hnodup, ?_⟩
  cases phase with
  | idle => trivial
  | paging held r after =>
    obtain ⟨hsorted, hread, hseen⟩ := h.sound
    refine ⟨hsorted, hread, ?_⟩
    cases held with
    | none => exact fun _ hold => nomatch hold
    | some old =>
      rintro _ ⟨⟩ seq hseq hmem'
      exact (hmem seq hseq).elim (hseen old rfl seq · hmem') (hphase seq · hmem')
  | restored held r =>
    obtain ⟨hsorted, hseen⟩ := h.sound
    refine ⟨hsorted, ?_⟩
    cases held with
    | none => exact fun _ hold => nomatch hold
    | some old =>
      rintro _ ⟨⟩ seq hseq hmem'
      exact (hmem seq hseq).elim (hseen old rfl seq · hmem') (hphase seq · hmem')
  | merged added =>
    exact ⟨h.sound.1, fun seq hseq => (hmem seq hseq).elim (h.sound.2 seq) (hphase seq)⟩

/-- The merge takes out what the array that was handed in holds, and the thread holds no more. -/
theorem sound_merge {held : Option (List Message)} (hsorted : (seqs r.messages).Pairwise (· < ·))
    (hseen : Seen held r messages) :
    (Phase.merged (merge (held.getD messages) r.messages)).Sound messages := by
  constructor
  · have hne : (seqs r.messages).Nodup := hsorted.imp Int.ne_of_lt
    exact hne.sublist (List.filter_sublist.map _)
  · intro seq hseq hadded
    obtain ⟨hread, hnot⟩ := mem_seqs_merge.1 hadded
    cases held with
    | none => exact hnot hseq
    | some old => exact hnot (hseen old rfl seq hseq hread)

theorem Inv.step (h : Inv s) (hharmless : s.Harmless decrypt clock coerced a)
    (hstep : s.step decrypt clock coerced a = some t) : Inv t := by
  cases a with
  | deposit admitted entries =>
    obtain ⟨vault, _, rfl⟩ := Option.map_eq_some_iff.1 hstep
    exact ⟨h.distinct, h.sound⟩
  | dropVault | enable | setLifetime =>
    cases hstep
    exact ⟨h.distinct, h.sound⟩
  | absorb messages =>
    cases hstep
    exact h.absorb hharmless
  | dropExpired now =>
    cases hstep
    exact h.dropExpired now
  | hydrate =>
    rw [State.step] at hstep
    split at hstep
    · split at hstep
      · cases hstep
        exact h
      · cases hstep
        exact Inv.restoreHistory (s := { s with hydrated := true }) h.distinct
    · cases hstep
  | restoreHistory =>
    rw [State.step] at hstep
    split at hstep
    · cases hstep
      exact Inv.restoreHistory h.distinct
    · cases hstep
  | page =>
    obtain ⟨vault, enabled, lifetimeSeconds, hydrated, messages, phase⟩ := s
    cases phase with
    | idle | restored | merged => cases hstep
    | paging held r after =>
      obtain ⟨hsorted, hread, hseen⟩ := h.sound
      have hpage : ∀ old ∈ held, ∀ row ∈ vault.fetchVault after,
          (opened decrypt clock coerced row).isSome →
            row.seq ∈ seqs messages → row.seq ∈ seqs old := by
        rintro old ⟨⟩
        exact hharmless
      obtain ⟨hsorted', hseen', hread'⟩ := foldl_readRow_sound hsorted hread hseen hpage
      rw [State.step] at hstep
      dsimp only at hstep
      rcases turn_fetchVault vault r after with ⟨_, hturn⟩ | ⟨last, hlast, hturn⟩
      · rw [hturn] at hstep
        cases hstep
        exact ⟨h.distinct, hsorted', hseen'⟩
      · rw [hturn] at hstep
        cases hstep
        refine ⟨h.distinct, hsorted', fun seq hseq => ?_, hseen'⟩
        rcases hread' seq hseq with hle | ⟨row, hrow, rfl⟩
        · have := lt_of_mem_fetchVault (List.mem_of_getLast? hlast)
          omega
        · exact le_of_getLast? (pairwise_fetchVault vault after) hlast hrow
  | pageFailed =>
    rw [State.step] at hstep
    split at hstep
    · cases hstep
      exact ⟨h.distinct, trivial⟩
    · cases hstep
  | merge =>
    obtain ⟨vault, enabled, lifetimeSeconds, hydrated, messages, phase⟩ := s
    cases phase with
    | idle | paging | merged => cases hstep
    | restored held r =>
      rw [State.step] at hstep
      dsimp only at hstep
      split at hstep
      · rename_i added hadded
        cases hstep
        obtain ⟨_, hadded⟩ := Option.ite_none_left_eq_some.1 hadded
        cases hadded
        exact ⟨h.distinct, sound_merge h.sound.1 h.sound.2⟩
      · cases hstep
        exact ⟨h.distinct, trivial⟩
  | add =>
    obtain ⟨vault, enabled, lifetimeSeconds, hydrated, messages, phase⟩ := s
    cases phase with
    | idle | paging | restored => cases hstep
    | merged added =>
      cases hstep
      refine ⟨?_, trivial⟩
      rw [seqs, List.map_append, List.nodup_append']
      exact ⟨h.distinct, h.sound.1, fun seq hseq => h.sound.2 seq hseq⟩

/-- The loop of a restore ends, and it brings back all there is if and only if no number is less
than one; and while restores run among everything else, no number is twice in the thread as long as
every step is harmless. -/
theorem restore_spec (decrypt : Bytes → Bytes → Option Bytes) (clock : Int → Nat)
    (coerced : Value → Except Wire.Thrown Bytes) :
    (∀ deposits, ∃ n r, (∀ fuel, n < fuel →
        restore decrypt clock coerced (archived deposits).fetchVault fuel = some r) ∧
      (Complete decrypt clock coerced (archived deposits) r ↔
        ∀ row ∈ (archived deposits).rows, 0 < row.seq)) ∧
    ∀ {s t : State}, (seqs s.messages).Nodup → s.phase = .idle →
      Reach (State.step decrypt clock coerced) (State.Harmless decrypt clock coerced) s t →
        (seqs t.messages).Nodup := by
  constructor
  · intro deposits
    exact ⟨_, _, fun fuel hfuel => restoreFrom_eq _ _ _ hfuel, complete_iff_pos _⟩
  · intro s t hdistinct hidle hreach
    refine Inv.distinct (hreach.invariant ⟨hdistinct, ?_⟩ Inv.step)
    rw [hidle]
    trivial

end

/-! ## Runs -/

def clear (_ ciphertext : Bytes) : Option Bytes := some ciphertext

def noCoercion (_ : Value) : Except Wire.Thrown Bytes := .error .typeError

/-- The text of one letter that this account wrote. -/
def entry (seq : Int) : VaultEntry :=
  ⟨seq, List.replicate IV_LEN 0 ++ asBytes "\x7b\"sender\":null,\"mine\":true,\"body\":[0,97]\x7d"⟩

def message (seq : Int) (expiresAt : Option Rat) : Message :=
  ⟨seq, .null, .bool true, .text "a", none, expiresAt⟩

/-- A thread of one message, that is to expire. -/
def opening : State where
  vault := .empty
  enabled := true
  lifetimeSeconds := 0
  hydrated := false
  messages := [message 4 (some 10)]
  phase := .idle

/-- Of two numbers archived, both come back; and what the poll adds to the array a restore was
handed leaves the thread as it should be. -/
theorem restore_spec_absorbed :
    (∃ n r, (∀ fuel, n < fuel → restore clear (fun _ => 0) noCoercion
        (archived [(true, [entry 5, entry 3])]).fetchVault fuel = some r) ∧
      Complete clear (fun _ => 0) noCoercion (archived [(true, [entry 5, entry 3])]) r) ∧
    ∃ t, run (State.step clear (fun _ => 0) noCoercion) opening
        [.hydrate, .absorb [message 5 none], .page, .merge, .add] = some t ∧
      (seqs t.messages).Nodup := by
  obtain ⟨hrestore, hrun⟩ := restore_spec clear (fun _ => 0) noCoercion
  constructor
  · obtain ⟨n, r, hends, hcomplete⟩ := hrestore [(true, [entry 5, entry 3])]
    exact ⟨n, r, hends, hcomplete.2 (by decide +kernel)⟩
  · have hhydrated : Reach (State.step clear (fun _ => 0) noCoercion)
        (State.Harmless clear (fun _ => 0) noCoercion) opening _ :=
      .tail (a := Action.hydrate) .refl trivial rfl
    have habsorbed := hhydrated.tail (a := Action.absorb [message 5 none]) ⟨by decide, trivial⟩ rfl
    have hread := habsorbed.tail (a := Action.page) trivial rfl
    have hmerged := hread.tail (a := Action.merge) trivial rfl
    have hadded := hmerged.tail (a := Action.add) trivial rfl
    exact ⟨_, rfl, hrun (s := opening) (List.nodup_singleton _) rfl hadded⟩

/-- The thread expires while the restore waits for the server, a message comes in and is archived:
it comes back. -/
theorem restored_twice :
    (seqs opening.messages).Nodup ∧ opening.phase = .idle ∧
      (run (State.step clear (fun _ => 0) noCoercion) opening
        [.hydrate, .dropExpired 20, .absorb [message 5 none], .deposit true [entry 5], .page,
          .merge, .add]).map (seqs ·.messages) = some [5, 5] ∧ ¬ [5, 5].Nodup :=
  ⟨List.nodup_singleton _, rfl, by decide +kernel, by decide⟩

end Whispee.Vault.Restore
