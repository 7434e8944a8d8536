import Whispee.Lib.Transition
import Mathlib.Data.Finset.Card
import Mathlib.Logic.Function.Basic

/-!
# Receipts

`record` and `pending` of `apps/web/src/lib/receipts.ts`, `isControl` of
`apps/web/src/lib/content.ts`, and what `acknowledge`, `absorb` and `markRead` of
`apps/web/src/lib/session.ts` do with them: any number of devices on one conversation, each in one
session. A poll absorbs envelopes, one after the other, and then acknowledges; while a receipt is
being sent everything else goes on. An emission fails with or without the envelope being stored.
-/

namespace Whispee.Session.Receipts

open Transition

inductive ReceiptState where
  | delivered
  | read
  deriving DecidableEq, Repr

/-- The kinds of content; of all of them the receipt alone is looked into. -/
inductive Content where
  | text
  | attachment
  | gossip
  | postingKey
  | receipt (state : ReceiptState) (seq : Nat)
  | reaction
  | reply
  | profile
  | call
  | membership
  | expiry
  | handle
  | signals
  deriving DecidableEq, Repr

def isControl : Content → Bool
  | .gossip | .postingKey | .receipt .. | .profile | .handle | .signals => true
  | .text | .attachment | .reaction | .reply | .call | .membership | .expiry => false

/-- What an account has acknowledged. -/
structure AccountReceipts where
  delivered : Nat
  read : Nat
  deriving DecidableEq, Repr

namespace AccountReceipts

variable (known : AccountReceipts)

def reached : ReceiptState → Nat
  | .delivered => known.delivered
  | .read => known.read

/-- Reading implies having received. -/
def record (state : ReceiptState) (seq : Nat) : AccountReceipts :=
  match state with
  | .read => { read := max known.read seq, delivered := max known.delivered seq }
  | .delivered => { known with delivered := max known.delivered seq }

end AccountReceipts

/-- An account that is not in the book has acknowledged nothing. -/
abbrev ReceiptBook := String → AccountReceipts

def record (book : ReceiptBook) (account : String) (state : ReceiptState) (seq : Nat) :
    ReceiptBook :=
  Function.update book account ((book account).record state seq)

def pending (book : ReceiptBook) (account : String) (state : ReceiptState) (cursor : Nat) :
    Option Nat :=
  if (book account).reached state < cursor then some cursor else none

/-- A receipt for the one state counts for the other. -/
def covers : ReceiptState → ReceiptState → Bool
  | .delivered, .read => false
  | _, _ => true

/-- What has happened to a device, as far as its account's receipts go. -/
inductive Event where
  /-- A message with this number is there to be acknowledged. -/
  | reached (seq : Nat)
  /-- A receipt of another device of the account has been absorbed. -/
  | heard (state : ReceiptState) (seq : Nat)
  /-- The device emits a receipt, whatever becomes of it. -/
  | emitted (state : ReceiptState) (seq : Nat)
  | failed (state : ReceiptState) (seq : Nat)
  /-- It has acknowledged everything, and no emission has failed. -/
  | polled
  deriving DecidableEq, Repr

structure Device where
  cursor : Nat
  contentCursor : Nat
  readCursor : Nat
  book : ReceiptBook
  readReceipts : Bool
  /-- The receipt that `acknowledge` is sending. -/
  sending : Option (ReceiptState × Nat)
  history : List Event

namespace Device

variable (d : Device) (account : String)

def emit (state : ReceiptState) (seq : Nat) : Device :=
  { d with
    book := record d.book account state seq
    sending := some (state, seq)
    history := d.history ++ [.emitted state seq] }

def finish : Device := { d with sending := none, history := d.history ++ [.polled] }

/-- `acknowledge`, past the delivered receipt. -/
def acknowledgeRead : Device :=
  if d.readReceipts then
    match pending d.book account .read d.readCursor with
    | some read => d.emit account .read read
    | none => d.finish
  else d.finish

def acknowledge : Device :=
  match pending d.book account .delivered d.contentCursor with
  | some delivered => d.emit account .delivered delivered
  | none => d.acknowledgeRead account

/-- The receipt has been sent. -/
def sent : ReceiptState → Device
  | .delivered => { d with sending := none }.acknowledgeRead account
  | .read => d.finish

def fail (state : ReceiptState) (seq : Nat) : Device :=
  { d with sending := none, history := d.history ++ [.failed state seq] }

/-- A receipt is absorbed, of this account or another. -/
def hear (sender : String) (state : ReceiptState) (seq : Nat) : Device :=
  { d with
    book := record d.book sender state seq
    history := if sender = account then d.history ++ [.heard state seq] else d.history }

def reach (seq : Nat) : Device :=
  { d with
    contentCursor := max d.contentCursor seq
    history := d.history ++ [.reached seq] }

/-- What is absorbed of a message that could be opened. -/
def absorb (sender : String) (seq : Nat) (content : Content) : Device :=
  if isControl content then
    match content with
    | .receipt state acknowledged => d.hear account sender state acknowledged
    | _ => d
  else d.reach seq

end Device

/-- Nothing but an application message has content. -/
structure Envelope where
  device : Nat
  content : Option Content
  deriving DecidableEq

structure World where
  /-- What the server has, numbered from one. -/
  mailbox : List Envelope
  devices : Nat → Device

inductive Action where
  /-- A poll comes to the next envelope. -/
  | absorb (i : Nat) (readable : Bool)
  | acknowledge (i : Nat)
  | markRead (i : Nat)
  | setReadReceipts (i : Nat) (on : Bool)
  /-- Anything but a receipt is posted. -/
  | send (e : Envelope)
  /-- The receipt under way is posted. -/
  | posted (i : Nat)
  /-- Its emission fails. -/
  | failed (i : Nat) (stored : Bool)

namespace World

variable (accountOf : Nat → String) (w : World)

def put (i : Nat) (d : Device) : World := { w with devices := Function.update w.devices i d }

def post (e : Envelope) : World := { w with mailbox := w.mailbox ++ [e] }

/-- A device skips what it has written itself, and what it cannot read. -/
def absorb (i : Nat) (e : Envelope) (readable : Bool) : Device :=
  let d := { w.devices i with cursor := (w.devices i).cursor + 1 }
  match e.content with
  | some content =>
    if readable ∧ e.device ≠ i then d.absorb (accountOf i) (accountOf e.device) d.cursor content
    else d
  | none => d

def isReceipt : Content → Bool
  | .receipt .. => true
  | _ => false

def step : Action → Option World
  | .absorb i readable =>
    if (w.devices i).sending = none then
      w.mailbox[(w.devices i).cursor]?.map fun e => w.put i (w.absorb accountOf i e readable)
    else none
  | .acknowledge i =>
    if (w.devices i).sending = none then some (w.put i ((w.devices i).acknowledge (accountOf i)))
    else none
  | .markRead i => some (w.put i { w.devices i with
      readCursor := max (w.devices i).readCursor (w.devices i).contentCursor })
  | .setReadReceipts i on => some (w.put i { w.devices i with readReceipts := on })
  | .send e => if e.content.any isReceipt then none else some (w.post e)
  | .posted i =>
    (w.devices i).sending.map fun (state, seq) =>
      (w.post ⟨i, some (.receipt state seq)⟩).put i ((w.devices i).sent (accountOf i) state)
  | .failed i stored =>
    (w.devices i).sending.map fun (state, seq) =>
      (if stored then w.post ⟨i, some (.receipt state seq)⟩ else w).put i
        ((w.devices i).fail state seq)

/-- What the sessions are opened with. -/
structure Opened where
  mailbox : List Envelope
  cursor : Nat → Nat
  readCursor : Nat → Nat
  readReceipts : Nat → Bool

def start (opened : Opened) : World where
  mailbox := opened.mailbox
  devices i := {
    cursor := opened.cursor i
    contentCursor := 0
    readCursor := opened.readCursor i
    book := fun _ => ⟨0, 0⟩
    readReceipts := opened.readReceipts i
    sending := none
    history := [] }

end World

/-! ## What receipts owe -/

namespace Event

def reached? : Event → Option Nat
  | .reached seq => some seq
  | _ => none

def emitted? (state : ReceiptState) : Event → Option Nat
  | .emitted state' seq => if state' = state then some seq else none
  | _ => none

/-- What the account has recorded by this; a receipt that fails was recorded before it was sent. -/
def recorded? : Event → Option (ReceiptState × Nat)
  | .heard state seq | .emitted state seq | .failed state seq => some (state, seq)
  | _ => none

/-- An emission is above all that was recorded before it. -/
def Above (before later : Event) : Prop :=
  ∀ state seq, later = .emitted state seq → ∀ state' seq', before.recorded? = some (state', seq') →
    covers state' state → seq' < seq

end Event

/-- The positions there were to acknowledge: the messages that came, and for the read receipts
where the user had got to before. -/
def positions (restored : Nat) (history : List Event) (state : ReceiptState) : List Nat :=
  (if state = .read ∧ restored ≠ 0 then [restored] else []) ++ history.filterMap Event.reached?

def emissions (history : List Event) (state : ReceiptState) : List Nat :=
  history.filterMap (Event.emitted? state)

/-- No more receipts than positions, each above what was recorded before it. -/
structure Bounded (restored : Nat) (history : List Event) : Prop where
  count : ∀ state,
    (emissions history state).length ≤ (positions restored history state).toFinset.card
  above : history.Pairwise Event.Above

/-- A position is the number of a message of another device. -/
def OfMessages (mailbox : List Envelope) (i : Nat) (history : List Event) : Prop :=
  ∀ seq, .reached seq ∈ history → ∃ k e content, seq = k + 1 ∧ mailbox[k]? = some e ∧
    e.device ≠ i ∧ e.content = some content ∧ isControl content = false

/-- After a failed emission a poll that gets through has acknowledged as much. -/
def Retried (history : List Event) : Prop :=
  ∀ before state seq after, history = before ++ .failed state seq :: after → .polled ∈ after →
    ∃ seq' ≥ seq, .emitted state seq' ∈ after

/-- The last emission of a receipt for this state has failed. -/
def owed (history : List Event) (state : ReceiptState) : Bool :=
  history.foldl (fun owed event => match event with
    | .emitted state' _ => if state' = state then false else owed
    | .failed state' _ => if state' = state then true else owed
    | _ => owed) false

/-- What is owed as the read receipt is due is covered by a receipt that is due. -/
def Device.paysRead (d : Device) (account : String) : Bool :=
  owed d.history .read → d.readReceipts ∧ (pending d.book account .read d.readCursor).isSome

def Device.pays (d : Device) (account : String) : Bool :=
  match pending d.book account .delivered d.contentCursor with
  | some _ => true
  | none => !owed d.history .delivered ∧ d.paysRead account

/-- A poll that comes after a failed emission finds its cursor above everything that is recorded. -/
def World.guard (accountOf : Nat → String) (w : World) : Action → Bool
  | .acknowledge i => (w.devices i).pays (accountOf i)
  | .posted i =>
    match (w.devices i).sending with
    | some (.delivered, _) => (w.devices i).paysRead (accountOf i)
    | _ => true
  | _ => true

end Whispee.Session.Receipts
