import Hataori.Algorithms.Batch
import Hataori.Algorithms.Capacities
import Hataori.Algorithms.Codecs
import Hataori.Algorithms.Depth
import Hataori.Algorithms.Ordered
import Hataori.Algorithms.Wire
import Hataori.Lib.Batches
import Hataori.Lib.Bytes
import Hataori.Lib.Confluence
import Hataori.Lib.Counting
import Hataori.Lib.FifoCache
import Hataori.Lib.Layouts
import Hataori.Lib.Machine
import Hataori.Lib.Maps
import Hataori.Lib.Ranks
import Hataori.Lib.Tallies
import Hataori.Local.MapIn
import Hataori.Migration.Base
import Hataori.Migration.Contests
import Hataori.Migration.Decided
import Hataori.Migration.Freezes
import Hataori.Migration.Held
import Hataori.Migration.LateWrites
import Hataori.Migration.Reports
import Hataori.Object.Admission
import Hataori.Object.Counters
import Hataori.Object.Creation
import Hataori.Object.LeaseTimes
import Hataori.Object.Leases
import Hataori.Object.Mailbox
import Hataori.Object.Redelivered
import Hataori.Object.Redelivery
import Hataori.Object.Refusals
import Hataori.Object.Removals
import Hataori.Object.Renewals
import Hataori.Object.Resolver
import Hataori.Object.Rests
import Hataori.Object.Retirements
import Hataori.Object.Waiting
import Hataori.Placement.Agreement
import Hataori.Placement.Ending
import Hataori.Placement.Outcome
import Hataori.Pmap.Agreement
import Hataori.Pmap.Composed
import Hataori.Pmap.Failures
import Hataori.Pmap.Keys
import Hataori.Pmap.Protocol
import Hataori.Pmap.Refined
import Hataori.Pmap.Root
import Hataori.Pmap.System
import Hataori.Pmap.Values
import Hataori.Pmap.Verdict
import Hataori.Pmap.Worker
import Hataori.Runtime.Answered
import Hataori.Runtime.Budget
import Hataori.Runtime.Builder
import Hataori.Runtime.ControlReserve
import Hataori.Runtime.Domain
import Hataori.Runtime.Formats
import Hataori.Runtime.Frames
import Hataori.Runtime.Held
import Hataori.Runtime.Lifecycle
import Hataori.Runtime.Node
import Hataori.Runtime.Outbox
import Hataori.Runtime.Placement
import Hataori.Runtime.Redirects
import Hataori.Runtime.Registered
import Hataori.Runtime.Retry
import Hataori.Runtime.Wire
import Hataori.Scheduler.Automaton
import Hataori.Scheduler.Coordinator
import Hataori.Scheduler.Invariant
import Hataori.Scheduler.Mutations
import Hataori.Scheduler.Partition
import Hataori.Scheduler.Results
import Hataori.Scheduler.Steps
import Hataori.Scheduler.Transactions
import Hataori.Transport.Accounts
import Hataori.Transport.Bootstrap
import Hataori.Transport.Canonical
import Hataori.Transport.Chunks
import Hataori.Transport.Completion
import Hataori.Transport.Cuts
import Hataori.Transport.Delivery
import Hataori.Transport.Failing
import Hataori.Transport.MemoryCharges
import Hataori.Transport.MemoryScript
import Hataori.Transport.Reservations
