import Soroticket.Machine.Checked
import Soroticket.Machine.Reentrancy
import Soroticket.Machine.Agreement
import Soroticket.Ledger.Runs
import Soroticket.Machine.Table
import Soroticket.Ledger.Accounting
import Soroticket.Ledger.Persistence
import Soroticket.Ledger.Redemption
import Soroticket.Ledger.Settlement
import Soroticket.Ledger.Authority
import Soroticket.Ledger.Integrity
import Soroticket.Ledger.Payouts
import Soroticket.Ledger.Index
import Soroticket.Ledger.Availability
import Soroticket.Ledger.Payable
import Soroticket.Ledger.Mirror
import Soroticket.Ledger.Isolation
import Soroticket.Machine.HashTree
import Soroticket.Cloud.Merkle
import Soroticket.Cloud.Receipts
import Soroticket.Cloud.Store
import Soroticket.Machine.Interleaving
import Soroticket.Cloud.Handlers
import Soroticket.Cloud.Service
import Soroticket.Cloud.Steps
import Soroticket.Cloud.Books
import Soroticket.Cloud.Consistency
import Soroticket.Cloud.Anchoring
import Soroticket.Cloud.Resolve
import Soroticket.Machine.Pool
import Soroticket.Cloud.Connections
import Soroticket.Cloud.Credits
import Soroticket.Cloud.Idempotency
import Soroticket.Cloud.Replay
import Soroticket.Cloud.Entries
import Soroticket.Cloud.Rewards
import Soroticket.Cloud.Vouchers
import Soroticket.Machine.Layers
import Soroticket.Cloud.References
import Soroticket.Cloud.Journal
import Soroticket.Ledger.Owners
import Soroticket.Ledger.Upkeep
import Soroticket.Ledger.Replica
import Soroticket.Machine.Compact
import Soroticket.Cloud.Payloads
import Soroticket.Cloud.Audit
import Soroticket.Cloud.Publication
import Soroticket.Cloud.Live
import Soroticket.Cloud.Auditability
import Soroticket.Sdk.Scval
import Soroticket.Cloud.Grants
import Soroticket.Cloud.Organizations
import Soroticket.Cloud.Separation
import Soroticket.Cloud.Throttle
import Soroticket.Ledger.Issuance
import Soroticket.Machine.Patterns
import Soroticket.Scanner.Typing
import Soroticket.Scanner.Scans
import Soroticket.Scanner.Truthful
import Soroticket.Cloud.Migration
import Soroticket.Cloud.Secrets
import Soroticket.Machine.Lockstep
import Soroticket.Cloud.Disclosure
import Soroticket.Cloud.Periods
import Soroticket.Cloud.RateLimit
import Soroticket.Cloud.Sessions
import Soroticket.Cloud.Units
import Soroticket.Sdk.Native
import Soroticket.Cloud.Egress
import Soroticket.Cloud.Deliveries
import Soroticket.Cloud.Legacy
import Soroticket.Cloud.Acceptance
import Soroticket.Cloud.Billing
import Soroticket.Cloud.Metering
import Soroticket.Machine.Conversations
import Soroticket.Ledger.Changes
import Soroticket.Cloud.Counters
import Soroticket.Cloud.Mirroring
import Soroticket.Cloud.Mirrored
import Soroticket.Ledger.Amounts
import Soroticket.Ledger.Sheet
import Soroticket.Cloud.Settling
import Soroticket.Cloud.Settled
import Soroticket.Cloud.Enrolling
import Soroticket.Cloud.Coining
import Soroticket.Cloud.Coinciding
import Soroticket.Machine.Holders
import Soroticket.Cloud.Custody
import Soroticket.Cloud.Tenancy
