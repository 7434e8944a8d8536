import Whispee.Transparency.Service

/-!
# The checks a client makes of the log

`apps/web/src/lib/transparency.ts`, and the two checks `session.ts` puts together from it: that an
account's key is in the log, and that the log extends the view of a peer. The requests of a check
are answered by the server one after the other, each from its own instant; a request that fails
ends the check without a verdict.
-/

namespace Whispee.Transparency.Client

open Service Transition

variable {Hash : Type} {Key : Type v}

/-- The last accepted head, kept from one session to the next. -/
structure SeenHead (Hash : Type) where
  size : Nat
  root : Hash
  logKey : Bytes
  deriving DecidableEq

/-- What a peer says it sees. -/
structure GossipHead (Hash : Type) where
  size : Nat
  root : Hash
  deriving DecidableEq

inductive Verdict where
  | ok
  /-- The server failed to prove what it claims. -/
  | refused (reason : String)
  deriving DecidableEq

/-- What is remembered of a head. -/
def seenOf (head : SignedHead Hash) : SeenHead Hash := ⟨head.size, head.root, head.logKey⟩

section
variable [DecidableEq Hash] (S : Sha256 Hash) (E : Ed25519 Key) (pinned : Option Bytes)

/-- Verifies a head served by the server, whose key may neither differ from the one pinned at
build time nor change. -/
def acceptHead (head : SignedHead Hash) (seen : Option (SeenHead Hash)) : Verdict :=
  if pinned.any (· ≠ head.logKey) then
    .refused "the log is signed by a key this application was not built to trust."
  else if seen.any (·.logKey ≠ head.logKey) then
    .refused "the log key changed: this is no longer the same log."
  else if head.verify S E ≠ .ok () then .refused "badly signed log head."
  else if seen.any (head.size < ·.size) then
    .refused "the log shrank: entries have disappeared."
  else .ok

/-- `verifyAccount`, up to the question whether the log extends the head last accepted. -/
def verifyEntry (handle : String) (identityKey : Bytes) (seen : Option (SeenHead Hash))
    (proof : InclusionProof Hash) : Verdict :=
  match acceptHead S E pinned proof.head seen with
  | .refused reason => .refused reason
  | .ok =>
    -- the leaf is recomputed from the key we are served
    if verifyInclusion S (leafHash S (entry handle identityKey)) proof.index proof.head.size
        proof.proof proof.head.root ≠ .ok () then
      .refused ("the key served for @" ++ handle ++ " does not appear in the log.")
    else if identityKey ≠ proof.identityKey then
      .refused ("the log publishes a different key for @" ++ handle ++
        " than the one we are served.")
    else .ok

/-- The end of `verifyExtends`. The head that comes with the proof is not looked at. -/
def verifyExtends (anchor : SeenHead Hash) (current : SignedHead Hash)
    (answer : ConsistencyProof Hash) : Verdict :=
  if verifyConsistency S anchor.size anchor.root current.size current.root answer.proof ≠ .ok ()
  then .refused "the log does not extend the reference view: keys have been rewritten."
  else .ok

/-! ## Checks under way -/

/-- How far a check has come: the request it waits for, and what it remembers. -/
inductive Check (Hash : Type) where
  /-- `resolveAccount` has asked for the devices. -/
  | resolving (account : String) (request : Nat)
  | resolved (account : String) (identityKey : Bytes)
  /-- `verifyAccount` has asked for the entry, against this anchor. -/
  | proving (account : String) (identityKey : Bytes) (seen : Option (SeenHead Hash))
    (request : Nat)
  /-- `extendsView` has asked for the head. -/
  | heading (peer : GossipHead Hash) (request : Nat)
  /-- `verifyExtends` has asked for a proof; `remember` in `verifyAccount`. -/
  | extending (remember : Bool) (anchor : SeenHead Hash) (current : SignedHead Hash)
    (request : Nat)
  /-- With a verdict, or without one if a request failed. -/
  | ended (verdict : Option Verdict)
  deriving DecidableEq

/-- The account whose key a check has to find where the server has left it. -/
def Check.account? : Check Hash → Option String
  | .resolving account _ | .resolved account _ | .proving account _ _ _ => some account
  | .heading .. | .extending .. | .ended _ => none

structure World (S : Sha256 Hash) (Key : Type v) where
  server : State S Key
  /-- The heads that clients have accepted so far. -/
  accepted : List (SeenHead Hash)
  checks : List (Check Hash)

inductive Action (Hash : Type) (Key : Type v) where
  | server (action : Service.Action Key)
  /-- A client resolves an account; the process of a request is the balancer's choice. -/
  | resolve (account : String) (process : Nat)
  /-- `check` is called, with the head the client holds. -/
  | check (k : Nat) (seen : Option (SeenHead Hash)) (process : Nat)
  /-- A peer's view of the log arrives. -/
  | gossip (peer : SeenHead Hash) (process : Nat)
  /-- The answer a check waits for arrives. -/
  | resume (k : Nat) (process : Nat)
  /-- The request a check waits for fails on the way. -/
  | drop (k : Nat)

namespace World

variable {S} (s : World S Key)

/-- A request is sent. -/
def send (process : Nat) (ask : Ask) : World S Key :=
  { s with server := { s.server with
      readers := s.server.readers ++ [⟨process, ask, .received⟩] } }

def setCheck (k : Nat) (c : Check Hash) : World S Key := { s with checks := s.checks.set k c }

/-- A check ends in success, and its head may be remembered. -/
def accept (k : Nat) (head : Option (SeenHead Hash)) : World S Key :=
  { s.setCheck k (.ended (some .ok)) with accepted := s.accepted ++ head.toList }

/-- `verifyExtends`, up to its request. -/
def extend (k : Nat) (remember : Bool) (anchor : SeenHead Hash) (current : SignedHead Hash)
    (process : Nat) : World S Key :=
  if anchor.size > current.size then
    s.setCheck k (.ended (some (.refused "the log is shorter than the reference view.")))
  else (s.send process (.consistency anchor.size)).setCheck k
    (.extending remember anchor current s.server.readers.length)

/-- The answer to a request, once there is one. -/
def answer (request : Nat) : Option (Except Server.ApiError (Answer Hash)) :=
  s.server.readers[request]?.bind fun r =>
    match r.phase with
    | .answered _ answer => some answer
    | _ => none

/-- A check goes on once its request is answered. -/
def resume (k : Nat) (process : Nat) (c : Check Hash) : Option (World S Key) :=
  match c with
  | .resolving account request =>
    match s.answer request with
    | some (.ok (.devices identityKey)) => some (s.setCheck k (.resolved account identityKey))
    | some (.error _) => some (s.setCheck k (.ended none))
    | _ => none
  | .proving account identityKey seen request =>
    match s.answer request with
    | some (.ok (.proof p)) =>
      match verifyEntry S E pinned account identityKey seen p with
      | .refused reason => some (s.setCheck k (.ended (some (.refused reason))))
      | .ok =>
        match seen with
        | some anchor => some (s.extend k true anchor p.head process)
        | none => some (s.accept k (some (seenOf p.head)))
    | some (.error _) => some (s.setCheck k (.ended none))
    | _ => none
  | .heading peer request =>
    match s.answer request with
    | some (.ok (.head current)) =>
      some (s.extend k false ⟨peer.size, peer.root, current.logKey⟩ current process)
    | some (.error _) => some (s.setCheck k (.ended none))
    | _ => none
  | .extending remember anchor current request =>
    match s.answer request with
    | some (.ok (.consistency c)) =>
      match verifyExtends S anchor current c with
      | .refused reason => some (s.setCheck k (.ended (some (.refused reason))))
      | .ok => some (s.accept k (if remember then some (seenOf current) else none))
    | some (.error _) => some (s.setCheck k (.ended none))
    | _ => none
  | .resolved .. | .ended _ => none

def step : Action Hash Key → Option (World S Key)
  | .server action => (s.server.step E action).map fun server => { s with server }
  | .resolve account process =>
    let sent := s.send process (.devices account)
    some { sent with checks := s.checks ++ [.resolving account s.server.readers.length] }
  | .check k seen process =>
    match s.checks[k]? with
    | some (.resolved account identityKey) =>
      if seen.all (· ∈ s.accepted) then
        some ((s.send process (.proof account)).setCheck k
          (.proving account identityKey seen s.server.readers.length))
      else none
    | _ => none
  | .gossip peer process =>
    if peer ∈ s.accepted then
      let sent := s.send process .head
      some { sent with
        checks := s.checks ++ [.heading ⟨peer.size, peer.root⟩ s.server.readers.length] }
    else none
  | .resume k process => s.checks[k]?.bind (s.resume E pinned k process)
  | .drop k =>
    match s.checks[k]? with
    | some (.ended _) | none => none
    | some _ => some (s.setCheck k (.ended none))

end World

end

end Whispee.Transparency.Client
