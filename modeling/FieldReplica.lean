import FieldReplica.Collection.Basic
import FieldReplica.Collection.Tables
import FieldReplica.Console.Arguments
import FieldReplica.Console.Failure
import FieldReplica.Console.Listing
import FieldReplica.Console.Output
import FieldReplica.Console.Run
import FieldReplica.Error
import FieldReplica.Http.Exchange
import FieldReplica.Http.Live
import FieldReplica.Http.Rows
import FieldReplica.Http.Shape
import FieldReplica.Http.Status
import FieldReplica.Json.Basic
import FieldReplica.Json.Decoder
import FieldReplica.Json.Document
import FieldReplica.Json.Printer
import FieldReplica.Json.Reader
import FieldReplica.Main
import FieldReplica.Mutation.Basic
import FieldReplica.Mutation.Patch
import FieldReplica.Mutation.Response
import FieldReplica.Number.Binary64
import FieldReplica.Number.Shortest
import FieldReplica.Proofs.Acceptance
import FieldReplica.Proofs.BadAddress
import FieldReplica.Proofs.Batches
import FieldReplica.Proofs.Boards
import FieldReplica.Proofs.Calendar
import FieldReplica.Proofs.Classification
import FieldReplica.Proofs.Closing
import FieldReplica.Proofs.Codec
import FieldReplica.Proofs.Coherence
import FieldReplica.Proofs.Columns
import FieldReplica.Proofs.Completion
import FieldReplica.Proofs.Confinement
import FieldReplica.Proofs.Confirmation
import FieldReplica.Proofs.Counter
import FieldReplica.Proofs.Departure
import FieldReplica.Proofs.Documents
import FieldReplica.Proofs.Effects
import FieldReplica.Proofs.Endpoints
import FieldReplica.Proofs.Escapes
import FieldReplica.Proofs.Gathering
import FieldReplica.Proofs.Grounds
import FieldReplica.Proofs.Hearing
import FieldReplica.Proofs.History
import FieldReplica.Proofs.Image
import FieldReplica.Proofs.InstantText
import FieldReplica.Proofs.Ledger
import FieldReplica.Proofs.Lifetime
import FieldReplica.Proofs.Loss
import FieldReplica.Proofs.Merging
import FieldReplica.Proofs.Moves
import FieldReplica.Proofs.Objects
import FieldReplica.Proofs.Observed
import FieldReplica.Proofs.Octets
import FieldReplica.Proofs.Offsets
import FieldReplica.Proofs.Opening
import FieldReplica.Proofs.Overlay
import FieldReplica.Proofs.Ownership
import FieldReplica.Proofs.Patch
import FieldReplica.Proofs.Patching
import FieldReplica.Proofs.Queries
import FieldReplica.Proofs.Quotes
import FieldReplica.Proofs.Reach
import FieldReplica.Proofs.Readiness
import FieldReplica.Proofs.Reconciler
import FieldReplica.Proofs.Reconnection
import FieldReplica.Proofs.Redelivery
import FieldReplica.Proofs.Reflection
import FieldReplica.Proofs.Registrations
import FieldReplica.Proofs.Rendering
import FieldReplica.Proofs.Replication
import FieldReplica.Proofs.Requests
import FieldReplica.Proofs.Resolution
import FieldReplica.Proofs.Resumption
import FieldReplica.Proofs.Revalidation
import FieldReplica.Proofs.Roster
import FieldReplica.Proofs.RowAddresses
import FieldReplica.Proofs.Run
import FieldReplica.Proofs.Saving
import FieldReplica.Proofs.Scalars
import FieldReplica.Proofs.Search
import FieldReplica.Proofs.ServerLog
import FieldReplica.Proofs.Slips
import FieldReplica.Proofs.Spelling
import FieldReplica.Proofs.Staging
import FieldReplica.Proofs.Store
import FieldReplica.Proofs.Submission
import FieldReplica.Proofs.Table
import FieldReplica.Proofs.Teardown
import FieldReplica.Proofs.Telling
import FieldReplica.Proofs.Tracking
import FieldReplica.Proofs.Unreadable
import FieldReplica.Proofs.Values
import FieldReplica.Proofs.Verdicts
import FieldReplica.Proofs.Versions
import FieldReplica.Proofs.Waiting
import FieldReplica.Proofs.Watching
import FieldReplica.Proofs.Wire
import FieldReplica.Reconciler.Basic
import FieldReplica.Reconciler.Desk
import FieldReplica.Reconciler.ObservedTxids
import FieldReplica.Reconciler.Pending
import FieldReplica.Registry.Basic
import FieldReplica.Report.Activity
import FieldReplica.Report.Failure
import FieldReplica.Report.Settings
import FieldReplica.Row.Basic
import FieldReplica.Row.Entity
import FieldReplica.Row.Names
import FieldReplica.Row.TaskEvent
import FieldReplica.Session.Basic
import FieldReplica.Session.Projects
import FieldReplica.Session.Script
import FieldReplica.Settings.ApiUrl
import FieldReplica.Settings.Basic
import FieldReplica.Settings.File
import FieldReplica.Store.Basic
import FieldReplica.Store.Channel
import FieldReplica.Stream.Message
import FieldReplica.Stream.Offset
import FieldReplica.Subscription.Backoff
import FieldReplica.Subscription.Basic
import FieldReplica.Table
import FieldReplica.Text.Base64
import FieldReplica.Text.Blank
import FieldReplica.Text.Decimal
import FieldReplica.Text.Quoted
import FieldReplica.Text.Search
import FieldReplica.Text.Unprintable
import FieldReplica.Text.Utf8
import FieldReplica.Time.Calendar
import FieldReplica.Time.Instant
import FieldReplica.Toml.Decoder
import FieldReplica.Toml.Document
import FieldReplica.Toml.Fault
import FieldReplica.Toml.Numbers
import FieldReplica.Toml.Quoted
import FieldReplica.Toml.Reader
import FieldReplica.Toml.Strings
import FieldReplica.Toml.Trouble
import FieldReplica.Toml.Value
import FieldReplica.Url.Address
import FieldReplica.Url.Basic
import FieldReplica.Url.Domain
import FieldReplica.Url.Encoding
import FieldReplica.Url.Endpoint
import FieldReplica.Url.Host
