import Cindral.Adapters.RoundTrip
import Cindral.Agent.Ownership
import Cindral.Agent.PoolToken
import Cindral.Archive.Acknowledged
import Cindral.Archive.Failure
import Cindral.Archive.Pack
import Cindral.Archive.Quota
import Cindral.Base.Run
import Cindral.Base.Table
import Cindral.Base.Outbox
import Cindral.Base.Crew
import Cindral.Cache.Consistency
import Cindral.Check.Agreement
import Cindral.Check.Live
import Cindral.Check.Sole
import Cindral.Check.Verdict
import Cindral.Device.Conserved
import Cindral.Device.LogTail
import Cindral.Device.Attempts
import Cindral.Executor.Orderly
import Cindral.Dispatch.AllowList
import Cindral.Dispatch.Ceiling
import Cindral.Dispatch.Containment
import Cindral.Dispatch.Discipline
import Cindral.Dispatch.Charges
import Cindral.Dispatch.Ledger
import Cindral.Dispatch.HandOver
import Cindral.Dispatch.MergeCommit
import Cindral.Dispatch.Preview
import Cindral.Dispatch.Retry
import Cindral.Dispatch.Once
import Cindral.Dispatch.Payment
import Cindral.Dispatch.Placement
import Cindral.Dispatch.Rejected
import Cindral.Dispatch.Reservations
import Cindral.Dispatch.Starvation
import Cindral.Pool.Occupancy
import Cindral.Pool.Stall
import Cindral.Queue.Delivery
import Cindral.Queue.Fencing
import Cindral.Queue.Ledger
import Cindral.Queue.Lease
import Cindral.Queue.Lifecycle
import Cindral.Queue.Scheduling
import Cindral.Status.Debt
import Cindral.Status.Pending
import Cindral.Status.Recovery
import Cindral.Workflow.Guards
import Cindral.Workflow.Inputs
import Cindral.Workflow.Monotone
import Cindral.Github.Provenance
import Cindral.Github.Careful
import Cindral.Actions.Resolution
import Cindral.Actions.Fallback
import Cindral.Actions.Discovery
import Cindral.Workflow.Recursion
