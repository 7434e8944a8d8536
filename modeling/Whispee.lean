import Whispee.Lib.HashTree
import Whispee.Lib.SplitTree
import Whispee.Lib.Base64
import Whispee.Lib.Json
import Whispee.Lib.Transition
import Whispee.Lib.Fallible
import Whispee.Lib.Tasks
import Whispee.Lib.Mvcc
import Whispee.Lib.LastWriter
import Whispee.Lib.Dictionary
import Whispee.Transparency.Log
import Whispee.Transparency.Inclusion
import Whispee.Transparency.Consistency
import Whispee.Transparency.Head
import Whispee.Transparency.Service
import Whispee.Transparency.Served
import Whispee.Transparency.Client
import Whispee.Transparency.Honest
import Whispee.Transparency.Witness
import Whispee.Bytes
import Whispee.Session.Storage
import Whispee.Session.Codec
import Whispee.Session.RoundTrip
import Whispee.Session.RotateAccount
import Whispee.Account.Attest
import Whispee.Account.Chain
import Whispee.Account.RotateRequests
import Whispee.Account.RotateChains
import Whispee.Group.Mailbox
import Whispee.Group.NoFork
import Whispee.Group.Roles
import Whispee.Group.Conversation
import Whispee.Group.Rfc9420
import Whispee.Group.Admin
import Whispee.Group.HonestCommits
import Whispee.Server.Envelopes
import Whispee.Server.NoGap
import Whispee.Session.Discover
import Whispee.Server.Storage
import Whispee.Server.Accounting
import Whispee.Session.Outbox
import Whispee.Session.Persist
import Whispee.Session.Snapshot
import Whispee.Preferences.Undecided
import Whispee.Server.Auth
import Whispee.Server.Membership
import Whispee.Server.Handles
import Whispee.Ratchet.DoubleRatchet
import Whispee.Ratchet.Failure
import Whispee.Ratchet.Party
import Whispee.Ratchet.Delivery
import Whispee.Ratchet.Session
import Whispee.Calls.Calls
import Whispee.Calls.Isolation
import Whispee.Calls.Rooms
import Whispee.Calls.Effect
import Whispee.Calls.Conclusion
import Whispee.Migration.Migration
import Whispee.Migration.Handover
import Whispee.Session.Expiry
import Whispee.Session.Receipts
import Whispee.Session.Acknowledge
import Whispee.Vault.Switch
import Whispee.Vault.Erasure
import Whispee.Group.Policing
import Whispee.Lib.FixedWindow
import Whispee.Server.Throttle
import Whispee.Session.Lockbox
import Whispee.Session.StartConversation
import Whispee.Session.Naming
import Whispee.Lib.Delimited
import Whispee.Account.Canonical
import Whispee.Lib.JsonText
import Whispee.Lib.View
import Whispee.Session.Content
import Whispee.Session.Hydrate
import Whispee.Session.Reopen
import Whispee.Session.Course
import Whispee.Server.Stream
import Whispee.Server.Gateway
import Whispee.Server.CatchUp
import Whispee.Group.RosterCodec
import Whispee.Session.Padding
import Whispee.Account.Resolve
import Whispee.Session.Absorb
import Whispee.Transparency.Width
import Whispee.Group.ProviderState
import Whispee.Calls.Timeouts
import Whispee.Lib.Subnet
import Whispee.Link.Address
import Whispee.Link.Fetch
import Whispee.Lib.Utf8
import Whispee.Link.Metadata
import Whispee.Session.RemoveAccount
import Whispee.Session.Publish
import Whispee.Link.Clean
import Whispee.Ratchet.Held
import Whispee.Calls.Frames
import Whispee.Lib.CodeUnits
import Whispee.Text.Highlight
import Whispee.Text.Mention
import Whispee.Server.Presence
import Whispee.Text.Link
import Whispee.Text.Markdown
import Whispee.Text.Drawn
import Whispee.Session.History
import Whispee.Vault.Restore
import Whispee.Lib.Paging
import Whispee.Lib.Disk
import Whispee.Server.KeyPackages
import Whispee.Server.Pairings
import Whispee.Account.Pairing
import Whispee.Server.Recovery
import Whispee.Account.Escrow
import Whispee.Desktop.Store
import Whispee.Ratchet.Session
