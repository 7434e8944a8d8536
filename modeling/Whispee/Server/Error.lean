import Mathlib.Logic.Basic

/-!
# Refusals of the server

`crates/server/src/error.rs`.
-/

namespace Whispee.Server

inductive ApiError where
  | badRequest (reason : String)
  | unauthorized
  | forbidden
  | notFound
  | conflict (reason : String)
  | gone
  | tooManyRequests
  | insufficientStorage
  | unavailable
  /-- The database refuses the statement, or does not answer. -/
  | database
  deriving DecidableEq, Repr

end Whispee.Server
