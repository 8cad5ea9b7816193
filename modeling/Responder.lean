import Responder.Agent.Basic
import Responder.Agent.Dispatch
import Responder.Agent.Drive
import Responder.Agent.Submission
import Responder.Ber.Size
import Responder.Binding
import Responder.Community
import Responder.Counters
import Responder.Error
import Responder.Message.Address
import Responder.Message.Envelope
import Responder.Message.Reply
import Responder.Message.Security
import Responder.Object.Basic
import Responder.Object.Constant
import Responder.Object.Instrument
import Responder.Object.Scalar
import Responder.Object.Scripted
import Responder.Object.Table
import Responder.Oid.Basic
import Responder.Oid.Text
import Responder.OidMap
import Responder.Pdu
import Responder.Proxy
import Responder.Region.Basic
import Responder.Region.Priority
import Responder.Region.Range
import Responder.Registry.Basic
import Responder.Registry.Locks
import Responder.Registry.Lookup
import Responder.Registry.Query
import Responder.Request.Basic
import Responder.Request.Item
import Responder.Request.Outstanding
import Responder.Request.Repetition
import Responder.Service.Basic
import Responder.Service.Bulk
import Responder.Service.Canned
import Responder.Service.Get
import Responder.Service.Next
import Responder.Service.Set
import Responder.Settings
import Responder.State
import Responder.Status
import Responder.Text.Decimal
import Responder.Text.Hexadecimal
import Responder.Text.Octets
import Responder.Text.Split
import Responder.Time
import Responder.Vacm.Tables
import Responder.Vacm.View
import Responder.Value
import Responder.Waiting.Progress
import Responder.Waiting.Schedule
import Responder.Written.Access
import Responder.Written.Agent
import Responder.Written.Document
import Responder.Written.Error
import Responder.Written.Instrument
import Responder.Written.Json.Reader
import Responder.Written.Json.Token
import Responder.Written.Json.Writer
import Responder.Written.Message
import Responder.Written.Settings
import Responder.Written.Value
import Responder.Proofs.Interference
import Responder.Proofs.History
import Responder.Proofs.Set.Discipline
import Responder.Proofs.Agent
import Responder.Proofs.Next.Successor
import Responder.Proofs.Get.Answer
import Responder.Proofs.Set.Ledger
import Responder.Proofs.Set.Outcome
import Responder.Proofs.Set.Rollback
import Responder.Proofs.View
import Responder.Proofs.Reading
import Responder.Proofs.Schedule
import Responder.Proofs.Next.Disclosure
import Responder.Proofs.Next.Decline
import Responder.Proofs.Secrecy
import Responder.Proofs.Mediation.Charter
import Responder.Proofs.Mediation.Reading
import Responder.Proofs.Mediation.Writing
import Responder.Proofs.Mediation.Dispatch
import Responder.Proofs.Mediation.Run
import Responder.Proofs.Registration
import Responder.Proofs.Size
import Responder.Proofs.Bulk.Sheet
import Responder.Proofs.Bulk.Filling
import Responder.Proofs.Bulk.Stopping
import Responder.Proofs.Bulk.Iteration
import Responder.Proofs.Bulk.Truncation
import Responder.Proofs.Bulk.Cursor
import Responder.Proofs.Lookup.Scan
import Responder.Proofs.Registration.Live
import Responder.Proofs.Drive
import Responder.Proofs.Conduct
import Responder.Proofs.Isolation.Sight
import Responder.Proofs.Isolation.Blind
import Responder.Proofs.Isolation.Schedule
import Responder.Proofs.Isolation.Run
import Responder.Proofs.Custody.Table
import Responder.Proofs.Custody.Alone
import Responder.Proofs.Custody.Touch
import Responder.Proofs.Custody.Story
import Responder.Proofs.Custody.Roster
import Responder.Proofs.Custody.Settled
import Responder.Proofs.Custody.Release
import Responder.Proofs.Custody.Grip
import Responder.Proofs.Custody.Writing
import Responder.Proofs.Custody.Exclusion
import Responder.Proofs.Pursuit
import Responder.Proofs.Custody.Upkeep
import Responder.Proofs.Custody.Account
import Responder.Proofs.Custody.Contention
import Responder.Proofs.Lookup.Locking
import Responder.Proofs.Next.Contention
import Responder.Proofs.Custody.Searching
import Responder.Proofs.Set.Tending
import Responder.Proofs.Custody.Failing
import Responder.Proofs.Legacy.Vouched
import Responder.Proofs.Legacy.Legible
import Responder.Proofs.Posting.Letter
import Responder.Proofs.Posting.Answering
import Responder.Proofs.Posting.Correspondence
import Responder.Proofs.Posting.Index
import Responder.Proofs.Resuming.Solo
import Responder.Proofs.Resuming.Reading
import Responder.Proofs.Resuming.Bulk
import Responder.Proofs.Resuming.Writing
import Responder.Proofs.Resuming.Recall
import Responder.Proofs.Hesitating.Objects
import Responder.Proofs.Hesitating.Course
import Responder.Proofs.Hesitating.Reading
import Responder.Proofs.Hesitating.Writing
import Responder.Proofs.Hesitating.Transparency
import Responder.Proofs.Next.Skipping
import Responder.Proofs.Encoding.Octets
import Responder.Proofs.Encoding.Size
import Responder.Proofs.Vacm.Greatest
import Responder.Proofs.Vacm.Membership
import Responder.Proofs.Vacm.Preference
import Responder.Proofs.Next.Laps
import Responder.Proofs.Region
import Responder.Proofs.Range.Inclusion
import Responder.Proofs.OidMap.Changes
import Responder.Proofs.Store.Undo
import Responder.Proofs.Locks.Reentrancy
import Responder.Proofs.Oid.Dotted
import Responder.Proofs.Oid.RoundTrip
import Responder.Proofs.Oid.Peer
import Responder.Proofs.Region.Order
import Responder.Proofs.Region.Priority
import Responder.Proofs.Outstanding
import Responder.Proofs.Outstanding.Deposits
