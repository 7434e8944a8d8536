import Whispee.Bytes
import Whispee.Lib.Transition
import Whispee.Link.Address

/-!
# Fetching a link

How `apps/desktop/src/link.rs` reaches the page a message links to: `validate`, `resolve_allowed`,
`hop`, `redirect_target`, `follow` and `read_bounded`, one step for each of their awaits. What the
resolver, the sites and the clock answer is left open, and so is what the environment names as a
proxy: the client is built without `no_proxy`, and a request it sends through one is connected to the
proxy, which resolves the name itself.
-/

namespace Whispee.Link

open Transition

inductive Host where
  | domain (name : String)
  | ipv4 (ip : Ipv4Addr)
  | ipv6 (ip : Ipv6Addr)
  deriving DecidableEq

/-- What is asked of the crate `url`. -/
structure UrlCrate (Url : Type u) where
  parse : String → Option Url
  join : Url → String → Option Url
  asStr : Url → String
  scheme : Url → String
  port : Url → Option UInt16
  portOrKnownDefault : Url → Option UInt16
  username : Url → String
  password : Url → Option String
  hostStr : Url → Option String
  host : Url → Option Host

structure SocketAddr where
  ip : IpAddr
  port : UInt16
  deriving DecidableEq

/-- At most three hops, each one re-validated from scratch. -/
def MAX_REDIRECTS : Nat := 3

def MAX_BODY : Nat := 256 * 1024

def MAX_IMAGE : Nat := 1024 * 1024

/-- In milliseconds. -/
def CONNECT_TIMEOUT : Nat := 3000

def USER_AGENT : String := "Mozilla/5.0 (compatible)"

/-- Why a URL will not be contacted. -/
inductive Refusal where
  | scheme
  | userinfo
  | host
  | address
  | redirects
  deriving DecidableEq

def Refusal.message : Refusal → String
  | .scheme => "Only https links on the standard port can be contacted."
  | .userinfo => "This link carries a name and password, which hides where it goes."
  | .host => "This link has no site to contact."
  | .address => "This link points back at this machine or its local network."
  | .redirects => "This link redirects too many times."

inductive Policy where
  | none
  | limited (max : Nat)
  deriving DecidableEq

/-- What a `reqwest::ClientBuilder` is told. -/
structure ClientBuilder where
  resolveToAddrs : String × List SocketAddr
  redirect : Policy
  connectTimeout : Nat
  userAgent : String
  referer : Bool
  /-- `no_proxy` was called, so that the environment names none. -/
  noProxy : Bool
  deriving DecidableEq

/-- To whom a connection is opened: the host of the URL, or a proxy. -/
inductive Peer where
  | origin
  | proxy
  deriving DecidableEq

structure Connection where
  peer : Peer
  addr : SocketAddr
  deriving DecidableEq

/-- A request that was made, and what connections were opened for it. One that HTTP/2 sends again,
on a stream that was refused or a connection that went away, is still one request. -/
structure Request (Url : Type u) where
  url : Url
  opened : List Connection
  deriving DecidableEq

/-- What is asked of the crate `reqwest`. -/
structure Reqwest (Url : Type u) where
  build : ClientBuilder → Bool
  /-- The proxy the environment names for a URL: `HTTPS_PROXY` or `ALL_PROXY`, less `NO_PROXY`. -/
  proxy : Url → Option SocketAddr
  /-- What a GET of this URL can come to by the time it is answered, fails or is dropped. -/
  sends : ClientBuilder → Url → List (Request Url) → Prop

structure Response where
  status : Nat
  headers : List (String × Bytes)
  deriving DecidableEq

def Response.isRedirection (response : Response) : Bool :=
  300 ≤ response.status && response.status < 400

/-- `HeaderValue::to_str` -/
def toStr (value : Bytes) : Option String :=
  if value.all fun b => (32 ≤ b && b < 127) || b = 9 then fromUtf8 value else none

def Response.location (response : Response) : Option String :=
  (response.headers.find? (·.1 = "location")).bind (toStr ·.2)

section

variable {Url : Type u} (urls : UrlCrate Url) (reqwest : Reqwest Url)

/-- Checks the shape of a URL, before anything is resolved or connected. -/
def validate (raw : String) : Except Refusal Url :=
  match urls.parse raw with
  | none => .error .host
  | some url =>
    if urls.scheme url ≠ "https" then .error .scheme
    else if urls.port url ≠ none ∧ urls.port url ≠ some 443 then .error .scheme
    else if urls.username url ≠ "" ∨ (urls.password url).isSome then .error .userinfo
    else if urls.hostStr url = none ∨ urls.hostStr url = some "" then .error .host
    else .ok url

/-- What `resolve_allowed` comes to before it awaits the resolver, if it does. -/
inductive Resolution where
  | ready (answer : Except Refusal SocketAddr)
  | lookupHost (name : String) (port : UInt16)

def resolveAllowed (host : Host) (port : UInt16) : Resolution :=
  let literal (ip : IpAddr) :=
    .ready (if addrAllowed ip then .ok ⟨ip, port⟩ else .error .address)
  match host with
  | .ipv4 v4 => literal (.v4 v4)
  | .ipv6 v6 => literal (.v6 v6)
  | .domain name => .lookupHost name port

/-- The rest of `resolve_allowed`. `none` is a lookup that failed. -/
def retain : Option (List SocketAddr) → Except Refusal SocketAddr
  | none => .error .host
  | some candidates =>
    match candidates.find? (addrAllowed ·.ip) with
    | some candidate => .ok candidate
    | none => .error .address

/-- What a fetch awaits. `left` is the number of turns the loop of `follow` still has. -/
inductive Fetch (Url : Type u) where
  | resolving (left : Nat) (url : Url) (name : String) (port : UInt16)
  | sending (left : Nat) (url : Url) (client : ClientBuilder)
  | reading (url : Url) (body : Bytes)
  | finished (result : Except String (Url × Bytes))
  deriving DecidableEq

def Fetch.refused (refusal : Refusal) : Fetch Url := .finished (.error refusal.message)

/-- The rest of `hop`, up to where it is sent. -/
def pin (left : Nat) (url : Url) : Except Refusal SocketAddr → Fetch Url
  | .error refusal => .refused refusal
  | .ok addr =>
    match urls.hostStr url with
    | none => .refused .host
    | some pinned =>
      let client : ClientBuilder :=
        { resolveToAddrs := (pinned, [addr])
          redirect := .none
          connectTimeout := CONNECT_TIMEOUT
          userAgent := USER_AGENT
          referer := false
          noProxy := false }
      if reqwest.build client then .sending left url client
      else .finished (.error "This link could not be contacted.")

/-- One hop: validate, resolve, pin, send. -/
def hop (left : Nat) (url : Url) : Fetch Url :=
  match urls.host url with
  | none => .refused .host
  | some host =>
    match resolveAllowed host ((urls.portOrKnownDefault url).getD 443) with
    | .ready answer => pin urls reqwest left url answer
    | .lookupHost name port => .resolving left url name port

/-- Where a `Location` header actually points, re-validated from scratch. -/
def redirectTarget (current : Url) (location : String) : Except Refusal Url :=
  match urls.join current location with
  | none => .error .host
  | some candidate => validate urls (urls.asStr candidate)

/-- The loop of `follow`, from the head of a turn. -/
def turn : Nat → Url → Fetch Url
  | 0, _ => .refused .redirects
  | left + 1, url => hop urls reqwest left url

def follow (start : String) : Fetch Url :=
  match validate urls start with
  | .error refusal => .refused refusal
  | .ok url => turn urls reqwest (MAX_REDIRECTS + 1) url

/-- The rest of a turn. `none` is a request that failed. -/
def answered (left : Nat) (url : Url) : Option Response → Fetch Url
  | none => .finished (.error "This site did not answer.")
  | some response =>
    if response.isRedirection then
      match response.location with
      | none => .finished (.error "This site redirected to nowhere.")
      | some location =>
        match redirectTarget urls url location with
        | .error refusal => .refused refusal
        | .ok next => turn urls reqwest left next
    else .reading url []

/-- A turn of the loop of `read_bounded`. `none` is a body that fails, `some none` its end. -/
def readBounded (limit : Nat) (url : Url) (body : Bytes) : Option (Option Bytes) → Fetch Url
  | none => .finished (.error "This site stopped answering.")
  | some none => .finished (.ok (url, body))
  | some (some chunk) =>
    let room := limit - body.length
    if room = 0 then .finished (.ok (url, body))
    else .reading url (body ++ chunk.take (min chunk.length room))

/-- `fetch_preview` and `fetch_image`, up to what they make of the body. -/
structure Command where
  limit : Nat
  /-- What is said past `TOTAL_TIMEOUT`. -/
  late : String

def fetchPreview : Command := ⟨MAX_BODY, "This site took too long to answer."⟩

def fetchImage : Command := ⟨MAX_IMAGE, "This image took too long to arrive."⟩

/-- A command under way, and the requests it has made. -/
structure Task (Url : Type u) where
  fetch : Fetch Url
  made : List (Request Url)
  deriving DecidableEq

inductive Event (Url : Type u) where
  | looked (answer : Option (List SocketAddr))
  | answered (made : List (Request Url)) (response : Option Response)
  | chunk (part : Option (Option Bytes))
  /-- `TOTAL_TIMEOUT` has passed, and what was awaited is dropped. -/
  | elapsed (made : List (Request Url))

def step (command : Command) (task : Task Url) : Event Url → Option (Task Url)
  | .looked answer =>
    match task.fetch with
    | .resolving left url _ _ =>
      some { task with fetch := pin urls reqwest left url (retain answer) }
    | _ => none
  | .answered made response =>
    match task.fetch with
    | .sending left url _ => some ⟨answered urls reqwest left url response, task.made ++ made⟩
    | _ => none
  | .chunk part =>
    match task.fetch with
    | .reading url body => some { task with fetch := readBounded command.limit url body part }
    | _ => none
  | .elapsed made =>
    match task.fetch with
    | .finished _ => none
    | _ => some ⟨.finished (.error command.late), task.made ++ made⟩

def start (raw : String) : Task Url := ⟨follow urls reqwest raw, []⟩

/-- Requests are made by what is being sent, and by nothing else. -/
def Sends (task : Task Url) (event : Event Url) : Prop :=
  match event with
  | .answered made _ | .elapsed made =>
    match task.fetch with
    | .sending _ url client => reqwest.sends client url made
    | _ => made = []
  | _ => True

/-- What is kept of a body. -/
def Fetch.kept : Fetch Url → Bytes
  | .reading _ body | .finished (.ok (_, body)) => body
  | _ => []

/-- What the documentation of `reqwest` promises. -/
structure Reqwest.Documented : Prop where
  /-- `Policy::none` follows no redirect. What HTTP/2 sends again is the same request. -/
  once : reqwest.sends client url made → client.redirect = .none →
    made.length ≤ 1 ∧ ∀ request ∈ made, request.url = url
  /-- Without a proxy a request is connected to the host of its URL. -/
  direct : reqwest.sends client url made → client.noProxy = true ∨ reqwest.proxy url = none →
    ∀ request ∈ made, ∀ connection ∈ request.opened, connection.peer = .origin
  /-- `resolve_to_addrs` overrides the resolution of a name. -/
  overridden : reqwest.sends client url made → request ∈ made →
    urls.host request.url = some (.domain name) →
    urls.hostStr request.url = some client.resolveToAddrs.1 →
    ∀ connection ∈ request.opened, connection.peer = .origin →
      ∃ addr ∈ client.resolveToAddrs.2, connection.addr.ip = addr.ip
  /-- An address is not resolved. -/
  literal4 : reqwest.sends client url made → request ∈ made → urls.host request.url = some (.ipv4 v4) →
    ∀ connection ∈ request.opened, connection.peer = .origin → connection.addr.ip = .v4 v4
  literal6 : reqwest.sends client url made → request ∈ made → urls.host request.url = some (.ipv6 v6) →
    ∀ connection ∈ request.opened, connection.peer = .origin → connection.addr.ip = .v6 v6
  /-- A proxy of the environment is connected to, unless the client was told not to. -/
  proxied : client.noProxy = false → reqwest.proxy url = some addr →
    reqwest.sends client url [⟨url, [⟨.proxy, addr⟩]⟩]

/-- No proxy applies to what is being sent. -/
def Direct (task : Task Url) : Prop :=
  match task.fetch with
  | .sending _ url _ => reqwest.proxy url = none
  | _ => True

/-! ## What a fetch is allowed -/

/-- A URL that `validate` returned. -/
def Accepted (url : Url) : Prop := ∃ raw, validate urls raw = .ok url

/-- The client connects to the host of the URL only at the address that was checked. -/
structure Pinned (url : Url) (client : ClientBuilder) (host : Host) (addr : SocketAddr) : Prop where
  named : urls.host url = some host
  pinned : ∃ pinned, urls.hostStr url = some pinned ∧ client.resolveToAddrs = (pinned, [addr])
  redirect : client.redirect = .none
  noProxy : client.noProxy = false
  allowed : addrAllowed addr.ip = true
  literal4 : host = .ipv4 v4 → addr.ip = .v4 v4
  literal6 : host = .ipv6 v6 → addr.ip = .v6 v6

/-- With `requests` requests made so far. -/
def Fetch.Within (limit requests : Nat) : Fetch Url → Prop
  | .resolving left url name _ =>
    Accepted urls url ∧ urls.host url = some (.domain name) ∧ requests + left ≤ MAX_REDIRECTS
  | .sending left url client =>
    Accepted urls url ∧ (∃ host addr, Pinned urls url client host addr) ∧
      requests + left ≤ MAX_REDIRECTS
  | .reading _ body => body.length ≤ limit ∧ requests ≤ MAX_REDIRECTS + 1
  | .finished (.ok (_, body)) => body.length ≤ limit ∧ requests ≤ MAX_REDIRECTS + 1
  | .finished (.error _) => requests ≤ MAX_REDIRECTS + 1

variable {urls} {reqwest} {limit requests left : Nat} {url : Url}

theorem pin_within (hurl : Accepted urls url) (hhost : urls.host url = some host)
    (hleft : requests + left ≤ MAX_REDIRECTS)
    (hanswer : ∀ addr, answer = .ok addr → addrAllowed addr.ip = true ∧
      (∀ v4, host = .ipv4 v4 → addr.ip = .v4 v4) ∧ ∀ v6, host = .ipv6 v6 → addr.ip = .v6 v6) :
    (pin urls reqwest left url answer).Within urls limit requests := by
  have hdone : requests ≤ MAX_REDIRECTS + 1 := by omega
  unfold pin
  split
  · exact hdone
  · obtain ⟨hallowed, h4, h6⟩ := hanswer _ rfl
    split
    · exact hdone
    · rename_i pinned hpinned
      dsimp only
      split
      · exact ⟨hurl, ⟨host, _, hhost, ⟨pinned, hpinned, rfl⟩, rfl, rfl, hallowed, h4 _, h6 _⟩, hleft⟩
      · exact hdone

theorem retain_ok (h : retain answer = .ok addr) : addrAllowed addr.ip = true := by
  unfold retain at h
  split at h
  · cases h
  · split at h
    · cases h
      rename_i hfind
      exact List.find?_some (p := fun candidate : SocketAddr => addrAllowed candidate.ip) hfind
    · cases h

theorem hop_within (hurl : Accepted urls url) (hleft : requests + left ≤ MAX_REDIRECTS) :
    (hop urls reqwest left url).Within urls limit requests := by
  unfold hop
  split
  · exact Nat.le_trans (by omega : requests ≤ MAX_REDIRECTS) (Nat.le_succ _)
  · rename_i host hhost
    cases host with
    | domain name => exact ⟨hurl, hhost, hleft⟩
    | ipv4 v4 =>
      refine pin_within hurl hhost hleft fun addr haddr => ?_
      split at haddr
      · cases haddr
        exact ⟨‹_›, fun _ h => congrArg _ (Host.ipv4.inj h), fun _ h => nomatch h⟩
      · cases haddr
    | ipv6 v6 =>
      refine pin_within hurl hhost hleft fun addr haddr => ?_
      split at haddr
      · cases haddr
        exact ⟨‹_›, fun _ h => (nomatch h), fun _ h => congrArg _ (Host.ipv6.inj h)⟩
      · cases haddr

theorem turn_within (hurl : Accepted urls url) (hleft : requests + left ≤ MAX_REDIRECTS + 1) :
    (turn urls reqwest left url).Within urls limit requests := by
  cases left with
  | zero => exact hleft
  | succ left => exact hop_within hurl (Nat.le_of_succ_le_succ hleft)

theorem follow_within : (follow urls reqwest raw).Within urls limit 0 := by
  unfold follow
  split
  · exact Nat.zero_le _
  · exact turn_within ⟨raw, ‹_›⟩ (Nat.zero_add _).le

theorem answered_within (hleft : requests + left ≤ MAX_REDIRECTS + 1) :
    (answered urls reqwest left url response).Within urls limit requests := by
  have hdone : requests ≤ MAX_REDIRECTS + 1 := by omega
  unfold answered
  split
  · exact hdone
  · split
    · split
      · exact hdone
      · split
        · exact hdone
        · rename_i next hnext
          refine turn_within ?_ hleft
          unfold redirectTarget at hnext
          split at hnext
          · cases hnext
          · exact ⟨_, hnext⟩
    · exact ⟨Nat.zero_le _, hdone⟩

theorem readBounded_within (hbody : body.length ≤ limit) (hdone : requests ≤ MAX_REDIRECTS + 1) :
    (readBounded limit url body part).Within urls limit requests := by
  unfold readBounded
  split
  · exact hdone
  · exact ⟨hbody, hdone⟩
  · dsimp only
    split
    · exact ⟨hbody, hdone⟩
    · refine ⟨?_, hdone⟩
      rw [List.length_append, List.length_take]
      omega

/-- What is sent with no proxy goes to the address that was checked. -/
theorem Reqwest.Documented.allowed (documented : reqwest.Documented urls)
    (hpinned : Pinned urls url client host addr) (hsends : reqwest.sends client url made)
    (hdirect : reqwest.proxy url = none) :
    ∀ request ∈ made, ∀ connection ∈ request.opened,
      connection.peer = .origin ∧ addrAllowed connection.addr.ip = true := by
  intro request hrequest connection hconnection
  have horigin := documented.direct hsends (.inr hdirect) request hrequest connection hconnection
  have hurl := (documented.once hsends hpinned.redirect).2 request hrequest
  have hhost : urls.host request.url = some host := hurl ▸ hpinned.named
  have hip : connection.addr.ip = addr.ip := by
    cases host with
    | domain name =>
      obtain ⟨pinned, hstr, hclient⟩ := hpinned.pinned
      obtain ⟨addr', haddr', hip⟩ := documented.overridden hsends hrequest hhost
        (by rw [hurl, hstr, hclient]) connection hconnection horigin
      rw [hclient] at haddr'
      rw [hip, List.mem_singleton.1 haddr']
    | ipv4 v4 =>
      rw [documented.literal4 hsends hrequest hhost connection hconnection horigin,
        hpinned.literal4 rfl]
    | ipv6 v6 =>
      rw [documented.literal6 hsends hrequest hhost connection hconnection horigin,
        hpinned.literal6 rfl]
  exact ⟨horigin, hip ▸ hpinned.allowed⟩

/-- What holds of a command under way, through whatever proxy. -/
structure Task.Inv (urls : UrlCrate Url) (limit : Nat) (task : Task Url) : Prop where
  made : ∀ request ∈ task.made, Accepted urls request.url
  fetch : task.fetch.Within urls limit task.made.length

theorem Task.Inv.next (documented : reqwest.Documented urls) {task task' : Task Url}
    (inv : task.Inv urls command.limit) (hsends : Sends reqwest task event)
    (hstep : step urls reqwest command task event = some task') : task'.Inv urls command.limit := by
  obtain ⟨fetch, made⟩ := task
  obtain ⟨hmade, hfetch⟩ := inv
  have hsent : ∀ {left url client} {more : List (Request Url)},
      (Fetch.sending left url client).Within urls command.limit made.length →
      reqwest.sends client url more → (∀ request ∈ made ++ more, Accepted urls request.url) ∧
      (made ++ more).length + left ≤ MAX_REDIRECTS + 1 := by
    intro left url client more hwithin hsends
    obtain ⟨hurl, ⟨host, addr, hpinned⟩, hleft⟩ := hwithin
    obtain ⟨honce, hsame⟩ := documented.once hsends hpinned.redirect
    refine ⟨fun request hrequest => ?_, ?_⟩
    · rcases List.mem_append.1 hrequest with hrequest | hrequest
      · exact hmade request hrequest
      · exact hsame request hrequest ▸ hurl
    · rw [List.length_append]
      omega
  cases event with
  | looked answer =>
    cases fetch <;> cases hstep
    obtain ⟨hurl, hhost, hleft⟩ := hfetch
    refine ⟨hmade, pin_within hurl hhost hleft fun addr haddr => ⟨retain_ok haddr, ?_, ?_⟩⟩
    · exact fun _ h => nomatch h
    · exact fun _ h => nomatch h
  | answered more response =>
    cases fetch <;> cases hstep
    obtain ⟨hall, hleft⟩ := hsent hfetch hsends
    exact ⟨hall, answered_within hleft⟩
  | chunk part =>
    cases fetch <;> cases hstep
    exact ⟨hmade, readBounded_within hfetch.1 hfetch.2⟩
  | elapsed more =>
    cases fetch with
    | finished => cases hstep
    | sending left url client =>
      cases hstep
      obtain ⟨hall, hleft⟩ := hsent hfetch hsends
      exact ⟨hall, Nat.le_trans (Nat.le_add_right ..) hleft⟩
    | resolving left url name port =>
      cases hstep
      cases (hsends : more = [])
      rw [List.append_nil]
      have hleft : made.length + left ≤ MAX_REDIRECTS := hfetch.2.2
      exact ⟨hmade, show made.length ≤ MAX_REDIRECTS + 1 by omega⟩
    | reading url body =>
      cases hstep
      cases (hsends : more = [])
      rw [List.append_nil]
      exact ⟨hmade, hfetch.2⟩

theorem start_inv : (start urls reqwest raw).Inv urls limit :=
  ⟨fun _ h => (nomatch h), follow_within⟩

theorem inv_of_reach (documented : reqwest.Documented urls)
    (hreach : Reach (step urls reqwest command) (Sends reqwest) (start urls reqwest raw) task) :
    Task.Inv urls command.limit task :=
  hreach.invariant start_inv fun inv hsends hstep => inv.next documented hsends hstep

/-- Every connection goes to the host of the URL it was opened for, at an allowed address. -/
def Task.Reached (task : Task Url) : Prop :=
  ∀ request ∈ task.made, ∀ connection ∈ request.opened,
    connection.peer = .origin ∧ addrAllowed connection.addr.ip = true

theorem Task.Reached.next (documented : reqwest.Documented urls) {task task' : Task Url}
    (inv : task.Inv urls command.limit) (hsends : Sends reqwest task event)
    (hdirect : Direct reqwest task) (hreached : task.Reached)
    (hstep : step urls reqwest command task event = some task') : task'.Reached := by
  obtain ⟨fetch, made⟩ := task
  have hsent : ∀ {left url client} {more : List (Request Url)},
      (Fetch.sending left url client).Within urls command.limit made.length →
      reqwest.sends client url more → reqwest.proxy url = none →
      ∀ request ∈ made ++ more, ∀ connection ∈ request.opened,
        connection.peer = .origin ∧ addrAllowed connection.addr.ip = true := by
    intro left url client more hwithin hsends hdirect request hrequest
    obtain ⟨-, ⟨host, addr, hpinned⟩, -⟩ := hwithin
    rcases List.mem_append.1 hrequest with hrequest | hrequest
    · exact hreached request hrequest
    · exact documented.allowed hpinned hsends hdirect request hrequest
  cases event with
  | looked answer | chunk part =>
    cases fetch <;> cases hstep
    exact hreached
  | answered more response =>
    cases fetch <;> cases hstep
    exact hsent inv.fetch hsends hdirect
  | elapsed more =>
    cases fetch with
    | finished => cases hstep
    | sending left url client =>
      cases hstep
      exact hsent inv.fetch hsends hdirect
    | resolving left url name port | reading url body =>
      cases hstep
      cases (hsends : more = [])
      rw [Task.Reached, List.append_nil]
      exact hreached

/-- Whatever the resolver and the sites answer, the connections that were opened go to allowed
addresses, for the hosts of URLs that were validated; at most `MAX_REDIRECTS + 1` requests were made,
and at most `limit` bytes of a body are kept. -/
structure Task.Safe (urls : UrlCrate Url) (limit : Nat) (task : Task Url) : Prop where
  validated : ∀ request ∈ task.made, ∃ raw, validate urls raw = .ok request.url
  reached : task.Reached
  made : task.made.length ≤ MAX_REDIRECTS + 1
  kept : task.fetch.kept.length ≤ limit

theorem Task.Inv.safe {task : Task Url} (inv : task.Inv urls limit) (hreached : task.Reached) :
    task.Safe urls limit := by
  have hwithin := inv.fetch
  suffices hbounds : task.made.length ≤ MAX_REDIRECTS + 1 ∧ task.fetch.kept.length ≤ limit from
    ⟨inv.made, hreached, hbounds.1, hbounds.2⟩
  match hfetch : task.fetch, hwithin with
  | .resolving left url name port, hwithin =>
    obtain ⟨-, -, hleft⟩ := hwithin
    exact ⟨by omega, Nat.zero_le _⟩
  | .sending left url client, hwithin =>
    obtain ⟨-, -, hleft⟩ := hwithin
    exact ⟨by omega, Nat.zero_le _⟩
  | .reading url body, hwithin => exact ⟨hwithin.2, hwithin.1⟩
  | .finished (.ok (url, body)), hwithin => exact ⟨hwithin.2, hwithin.1⟩
  | .finished (.error _), hwithin => exact ⟨hwithin, Nat.zero_le _⟩

/-- A command keeps to this at every moment as long as no proxy applies to a URL that it sends, and
wherever one does, the next step may be the connection to the proxy. -/
theorem fetch_safe_iff_direct (documented : reqwest.Documented urls) (raw : String) :
    (∀ task, Reach (step urls reqwest command)
        (fun task event => Sends reqwest task event ∧ Direct reqwest task) (start urls reqwest raw)
        task → task.Safe urls command.limit) ∧
      ∀ task, Reach (step urls reqwest command) (Sends reqwest) (start urls reqwest raw) task →
        ¬ Direct reqwest task → ∃ event task', Sends reqwest task event ∧
          step urls reqwest command task event = some task' ∧ ¬ task'.Safe urls command.limit := by
  refine ⟨fun task hreach => ?_, fun task hreach hproxied => ?_⟩
  · have hinv : Task.Inv urls command.limit task ∧ task.Reached := by
      induction hreach with
      | refl => exact ⟨start_inv, fun _ h => nomatch h⟩
      | tail _ hguard hstep ih =>
        exact ⟨ih.1.next documented hguard.1 hstep,
          ih.2.next documented ih.1 hguard.1 hguard.2 hstep⟩
    exact hinv.1.safe hinv.2
  · have hinv := inv_of_reach documented hreach
    obtain ⟨fetch, made⟩ := task
    cases fetch with
    | resolving | reading | finished => exact absurd trivial hproxied
    | sending left url client =>
      obtain ⟨-, ⟨host, addr, hpinned⟩, -⟩ := hinv.fetch
      obtain ⟨proxy, hproxy⟩ := Option.ne_none_iff_exists'.1 (hproxied : reqwest.proxy url ≠ none)
      refine ⟨.elapsed [⟨url, [⟨.proxy, proxy⟩]⟩], _,
        documented.proxied hpinned.noProxy hproxy, rfl, fun hsafe => ?_⟩
      have horigin := hsafe.reached _ (List.mem_append_right _ (List.mem_singleton_self _)) _
        (List.mem_singleton_self _)
      cases horigin.1

end

/-! ## A redirect -/

/-- Of two URLs, each by its text. -/
def exampleUrls : UrlCrate String where
  parse raw := if raw = "https://example.com/" ∨ raw = "https://1.1.1.1/" then some raw else none
  join _ location :=
    if location = "https://example.com/" ∨ location = "https://1.1.1.1/" then some location
    else none
  asStr url := url
  scheme _ := "https"
  port _ := none
  portOrKnownDefault _ := some 443
  username _ := ""
  password _ := none
  hostStr url := some (if url = "https://example.com/" then "example.com" else "1.1.1.1")
  host url :=
    some (if url = "https://example.com/" then .domain "example.com" else .ipv4 ⟨1, 1, 1, 1⟩)

/-- The connection to a URL that no proxy applies to: to the first address of the name, or to the one
the URL says. -/
def exampleOpened (client : ClientBuilder) (url : String) : List Connection :=
  match exampleUrls.host url with
  | some (.ipv4 v4) => [⟨.origin, .v4 v4, 443⟩]
  | some (.ipv6 v6) => [⟨.origin, .v6 v6, 443⟩]
  | _ =>
    if exampleUrls.hostStr url = some client.resolveToAddrs.1 then
      (client.resolveToAddrs.2.take 1).map (⟨.origin, ·⟩)
    else []

/-- One connection, through the proxy where there is one. -/
def exampleReqwest (proxy : String → Option SocketAddr) : Reqwest String where
  build _ := true
  proxy
  sends client url made := made = [] ∨ made = [⟨url,
    match if client.noProxy then none else proxy url with
    | some addr => [⟨.proxy, addr⟩]
    | none => exampleOpened client url⟩]

/-- What is opened to the host of a URL, through a proxy or not. -/
theorem mem_exampleOpened {proxy : String → Option SocketAddr}
    (hsends : (exampleReqwest proxy).sends client url made) (hrequest : request ∈ made)
    (hconnection : connection ∈ request.opened) (horigin : connection.peer = .origin) :
    request.url = url ∧ connection ∈ exampleOpened client url := by
  rcases hsends with rfl | rfl
  · cases hrequest
  · cases List.mem_singleton.1 hrequest
    refine ⟨rfl, ?_⟩
    dsimp only at hconnection
    split at hconnection
    · cases List.mem_singleton.1 hconnection
      cases horigin
    · exact hconnection

theorem exampleReqwest_documented (proxy : String → Option SocketAddr) :
    (exampleReqwest proxy).Documented exampleUrls where
  once := by
    rintro client url made (rfl | rfl) _
    · exact ⟨Nat.zero_le _, fun _ h => (nomatch h)⟩
    · exact ⟨le_rfl, fun request h => congrArg Request.url (List.mem_singleton.1 h)⟩
  direct := by
    rintro client url made (rfl | rfl) hnone request hrequest connection hconnection
    · cases hrequest
    · cases List.mem_singleton.1 hrequest
      have hdirect : (if client.noProxy then none else proxy url) = none := by
        rcases hnone with hnone | hnone
        · rw [hnone, if_pos rfl]
        · rw [show proxy url = none from hnone, ite_self]
      dsimp only at hconnection
      rw [hdirect] at hconnection
      change connection ∈ exampleOpened client url at hconnection
      rw [exampleOpened] at hconnection
      split at hconnection
      · exact congrArg Connection.peer (List.mem_singleton.1 hconnection)
      · exact congrArg Connection.peer (List.mem_singleton.1 hconnection)
      · split at hconnection
        · obtain ⟨addr, -, rfl⟩ := List.mem_map.1 hconnection
          rfl
        · cases hconnection
  overridden := by
    intro client url made request name hsends hrequest hhost hstr connection hconnection horigin
    obtain ⟨rfl, hopened⟩ := mem_exampleOpened hsends hrequest hconnection horigin
    rw [exampleOpened, hhost] at hopened
    dsimp only at hopened
    rw [if_pos hstr] at hopened
    obtain ⟨addr, haddr, rfl⟩ := List.mem_map.1 hopened
    exact ⟨addr, List.mem_of_mem_take haddr, rfl⟩
  literal4 := by
    intro client url made request v4 hsends hrequest hhost connection hconnection horigin
    obtain ⟨rfl, hopened⟩ := mem_exampleOpened hsends hrequest hconnection horigin
    rw [exampleOpened, hhost] at hopened
    exact congrArg (·.addr.ip) (List.mem_singleton.1 hopened)
  literal6 := by
    intro client url made request v6 hsends hrequest hhost connection hconnection horigin
    obtain ⟨rfl, hopened⟩ := mem_exampleOpened hsends hrequest hconnection horigin
    rw [exampleOpened, hhost] at hopened
    exact congrArg (·.addr.ip) (List.mem_singleton.1 hopened)
  proxied := by
    intro url addr client hclient hproxy
    refine .inr ?_
    rw [hclient, if_neg Bool.false_ne_true, show proxy url = some addr from hproxy]

/-- The name leads to this machine first, and the site redirects to an address. -/
theorem fetch_safe_iff_direct_redirected :
    Task.Safe exampleUrls fetchPreview.limit ⟨.reading "https://1.1.1.1/" [60, 97, 62],
      [⟨"https://example.com/", [⟨.origin, .v4 ⟨93, 184, 216, 34⟩, 443⟩]⟩,
        ⟨"https://1.1.1.1/", [⟨.origin, .v4 ⟨1, 1, 1, 1⟩, 443⟩]⟩]⟩ := by
  let page := "https://example.com/"
  let moved := "https://1.1.1.1/"
  let first : Request String := ⟨page, [⟨.origin, .v4 ⟨93, 184, 216, 34⟩, 443⟩]⟩
  let second : Request String := ⟨moved, [⟨.origin, .v4 ⟨1, 1, 1, 1⟩, 443⟩]⟩
  let client (pinned : String) (ip : Ipv4Addr) : ClientBuilder :=
    ⟨(pinned, [⟨.v4 ip, 443⟩]), .none, CONNECT_TIMEOUT, USER_AGENT, false, false⟩
  let unproxied := exampleReqwest fun _ => none
  let reaches := Reach (step exampleUrls unproxied fetchPreview)
    (fun task event => Sends unproxied task event ∧ Direct unproxied task)
    (start exampleUrls unproxied page)
  have hlooked : reaches ⟨.sending 3 page (client "example.com" ⟨93, 184, 216, 34⟩), []⟩ :=
    .tail .refl (a := .looked (some [⟨.v4 ⟨127, 0, 0, 1⟩, 443⟩, ⟨.v4 ⟨93, 184, 216, 34⟩, 443⟩]))
      (by exact ⟨trivial, trivial⟩) (by decide +kernel)
  have hredirected : reaches ⟨.sending 2 moved (client "1.1.1.1" ⟨1, 1, 1, 1⟩), [first]⟩ :=
    .tail hlooked (a := .answered [first] (some ⟨302, [("location", asBytes moved)]⟩))
      (by exact ⟨.inr (by decide +kernel), rfl⟩) (by decide +kernel)
  have hanswered : reaches ⟨.reading moved [], [first, second]⟩ :=
    .tail hredirected (a := .answered [second] (some ⟨200, []⟩))
      (by exact ⟨.inr (by decide +kernel), rfl⟩) (by decide +kernel)
  have hread : reaches ⟨.reading moved [60, 97, 62], [first, second]⟩ :=
    .tail hanswered (a := .chunk (some (some [60, 97, 62]))) (by exact ⟨trivial, trivial⟩)
      (by decide +kernel)
  exact (fetch_safe_iff_direct (exampleReqwest_documented _) page).1 _ hread

/-- With a proxy on this machine in the environment, the preview of a page connects to this machine. -/
theorem preview_through_loopback :
    (exampleReqwest fun _ => some ⟨.v4 ⟨127, 0, 0, 1⟩, 3128⟩).Documented exampleUrls ∧
      ∃ task, Reach (step exampleUrls (exampleReqwest fun _ => some ⟨.v4 ⟨127, 0, 0, 1⟩, 3128⟩)
          fetchPreview) (Sends (exampleReqwest fun _ => some ⟨.v4 ⟨127, 0, 0, 1⟩, 3128⟩))
          (start exampleUrls (exampleReqwest fun _ => some ⟨.v4 ⟨127, 0, 0, 1⟩, 3128⟩)
            "https://example.com/") task ∧
        ∃ request ∈ task.made, ∃ connection ∈ request.opened,
          addrAllowed connection.addr.ip = false := by
  let page := "https://example.com/"
  let proxied := exampleReqwest fun _ => some ⟨.v4 ⟨127, 0, 0, 1⟩, 3128⟩
  let request : Request String := ⟨page, [⟨.proxy, .v4 ⟨127, 0, 0, 1⟩, 3128⟩]⟩
  let client : ClientBuilder := ⟨("example.com", [⟨.v4 ⟨93, 184, 216, 34⟩, 443⟩]), .none,
    CONNECT_TIMEOUT, USER_AGENT, false, false⟩
  let reaches := Reach (step exampleUrls proxied fetchPreview) (Sends proxied)
    (start exampleUrls proxied page)
  have hlooked : reaches ⟨.sending 3 page client, []⟩ :=
    .tail .refl (a := .looked (some [⟨.v4 ⟨93, 184, 216, 34⟩, 443⟩])) (by trivial)
      (by decide +kernel)
  have hanswered : reaches ⟨.reading page [], [request]⟩ :=
    .tail hlooked (a := .answered [request] (some ⟨200, []⟩)) (by exact .inr (by decide +kernel))
      (by decide +kernel)
  exact ⟨exampleReqwest_documented _, _, hanswered, request, List.mem_singleton_self _, _,
    List.mem_singleton_self _, by decide +kernel⟩

end Whispee.Link
