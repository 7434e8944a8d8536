import Whispee.Account.Attest

/-!
# Reading a rotation chain

`walk` of `apps/web/src/lib/chain.ts`: the first key has to fingerprint to the account id, and each
later key has to be signed by the one before it. `walk_append` says what one more link does to an
accepted chain.
-/

namespace Whispee.Account

/-- One published key of an account, as the server serves it. -/
structure Link where
  seq : Nat
  identityKey : Bytes
  /-- Absent on the genesis entry, which has no predecessor to be authorised by. -/
  rotation : Option Bytes
  rotatedAt : Option Nat
  deriving DecidableEq, Repr

/-- What a chain turned out to be. -/
inductive Verdict where
  | ok (current : Bytes)
  /-- The server claims an account with no published key. -/
  | empty
  /-- The first key does not fingerprint to the id. -/
  | wrongAnchor
  /-- A link is missing its signature, or the signature does not verify. -/
  | brokenLink (position : Nat)
  deriving DecidableEq, Repr

section
variable (P : Primitives) (account : String)

/-- `verifyRotation` as it crosses the wasm boundary. -/
def isSigned (previous : Bytes) (newIdentityKey : Bytes) (rotatedAt : Nat) (rotation : Bytes) :
    Bool :=
  match verifyRotation P previous ⟨account, newIdentityKey, rotatedAt⟩ rotation with
  | .ok () => true
  | .error _ => false

/-- The link is signed by the key before it. -/
def Link.follows (link : Link) (previous : Bytes) : Bool :=
  match link.rotation, link.rotatedAt with
  | some rotation, some rotatedAt =>
    isSigned P account previous link.identityKey rotatedAt rotation
  | _, _ => false

/-- The loop of `walk`, from the link at position `position` on. -/
def walkFrom : Bytes → Nat → List Link → Verdict
  | previous, _, [] => .ok previous
  | previous, position, link :: links =>
    if link.follows P account previous then walkFrom link.identityKey (position + 1) links
    else .brokenLink position

def walk (links : List Link) : Verdict :=
  match links with
  | [] => .empty
  | first :: links =>
    if accountId P first.identityKey ≠ account then .wrongAnchor
    else walkFrom P account first.identityKey 1 links

end

variable {P : Primitives} {account : String}

theorem walkFrom_append (h : walkFrom P account previous position links = .ok current)
    (hl : link.follows P account current) :
    walkFrom P account previous position (links ++ [link]) = .ok link.identityKey := by
  induction links generalizing previous position with
  | nil =>
    cases h
    simp [walkFrom, hl]
  | cons head links ih =>
    simp only [walkFrom, List.cons_append] at h ⊢
    split at h
    · rw [if_pos ‹_›, ih h]
    · cases h

/-- A link signed by the last key extends an accepted chain. -/
theorem walk_append (h : walk P account links = .ok current) (hl : link.follows P account current) :
    walk P account (links ++ [link]) = .ok link.identityKey := by
  cases links with
  | nil => cases h
  | cons first links =>
    simp only [walk, List.cons_append] at h ⊢
    split at h
    · cases h
    · rw [if_neg ‹_›, walkFrom_append h hl]

/-- The walk of an accepted chain ends on its last key. -/
theorem walk_current (h : walk P account links = .ok current) :
    ∃ last, links.getLast? = some last ∧ last.identityKey = current := by
  have from_last : ∀ {previous position rest}, walkFrom P account previous position rest
      = .ok current → ∀ first : Link, first.identityKey = previous →
      ∃ last, (first :: rest).getLast? = some last ∧ last.identityKey = current := by
    intro previous position rest hw
    induction rest generalizing previous position with
    | nil =>
      cases hw
      intro first hf
      exact ⟨first, rfl, hf⟩
    | cons link rest ih =>
      simp only [walkFrom] at hw
      split at hw
      · intro first _
        rw [List.getLast?_cons_cons]
        exact ih hw link rfl
      · cases hw
  cases links with
  | nil => cases h
  | cons first links =>
    simp only [walk] at h
    split at h
    · cases h
    · exact from_last h first rfl

end Whispee.Account
