import CloudAccess.Cache.Session
import CloudAccess.Cancellation
import CloudAccess.Codec.Credential
import CloudAccess.Codec.Listing
import CloudAccess.Codec.Provider
import CloudAccess.Enumeration.Listing
import CloudAccess.Proofs.Enumeration.Ways
import CloudAccess.Provider.Session
import CloudAccess.Time.Clock
import CloudAccess.Proofs.Enumeration.Permits
import CloudAccess.Proofs.Enumeration.Paging
import CloudAccess.Proofs.Enumeration.Workers
import CloudAccess.Proofs.Enumeration.Failures
import CloudAccess.Proofs.Enumeration.Progress
import CloudAccess.Proofs.ArgOption
import CloudAccess.Proofs.Enumeration.Exact
import CloudAccess.Proofs.Enumeration.Turns
import CloudAccess.Proofs.Cache.Effects
import CloudAccess.Proofs.Cache.Handoff
import CloudAccess.Proofs.Cache.Flight
import CloudAccess.Proofs.Cache.Provenance
import CloudAccess.Proofs.Enumeration.Tasks
import CloudAccess.Proofs.Enumeration.Load
import CloudAccess.Proofs.Enumeration.FirstError
import CloudAccess.Proofs.Cache.Serve
import CloudAccess.Proofs.Enumeration.Barrier
import CloudAccess.Proofs.Rehearsal
import CloudAccess.Proofs.Cache.Batches
import CloudAccess.Proofs.Cache.Linear
import CloudAccess.Proofs.Cache.Slot
import CloudAccess.Proofs.Cancellation
import CloudAccess.Proofs.Enumeration.Events
import CloudAccess.Proofs.Enumeration.Tales
import CloudAccess.Proofs.Provider.Calls
import CloudAccess.Proofs.Provider.Endings
import CloudAccess.Proofs.Provider.Listing
import CloudAccess.Proofs.Enumeration.Closing
import CloudAccess.Proofs.Enumeration.Caller
import CloudAccess.Proofs.Enumeration.Moves
import CloudAccess.Proofs.Enumeration.Pending
import CloudAccess.Proofs.Enumeration.Horizon
import CloudAccess.Proofs.Enumeration.Descent
import CloudAccess.Proofs.Enumeration.Planned
import CloudAccess.Proofs.Enumeration.Prompt
import CloudAccess.Proofs.Cache.Leaving
import CloudAccess.Proofs.NoDeadlock
import CloudAccess.Proofs.Cache.Masked
import CloudAccess.Proofs.Cache.Secrecy
import CloudAccess.Proofs.Operations
import CloudAccess.Proofs.Cache.Counts
import CloudAccess.Proofs.Provider.Desk
import CloudAccess.Proofs.Balance
import CloudAccess.Proofs.Cache.Rush
import CloudAccess.Proofs.Cache.Coalesce
import CloudAccess.Proofs.Json.RoundTrip
import CloudAccess.Proofs.Time.Fields
import CloudAccess.Proofs.Codec.Lossless
import CloudAccess.Proofs.Codec.RoundTrip
import CloudAccess.Proofs.Enumeration.Order
import CloudAccess.Proofs.Cache.Window
import CloudAccess.Proofs.Enumeration.GivenUp
import CloudAccess.Proofs.Enumeration.Limit
import CloudAccess.Proofs.Enumeration.Undivided
import CloudAccess.Proofs.Enumeration.Unlimited
import CloudAccess.Proofs.Enumeration.PageLimit
import CloudAccess.Proofs.Identifier
import CloudAccess.Proofs.Text.Digits
import CloudAccess.Proofs.SessionName
import CloudAccess.Proofs.Request
import CloudAccess.Proofs.Cache.Crashes
import CloudAccess.Proofs.Enumeration.Figures
import CloudAccess.Proofs.Provider.TagLookup
import CloudAccess.Proofs.Provider.Accounts
import CloudAccess.Proofs.Json.Reading
import CloudAccess.Proofs.Codec.Members
import CloudAccess.Proofs.Provider.Configuration
