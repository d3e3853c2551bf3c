import Rafty.Theory.Run
import Rafty.Kernel.Election
import Rafty.Theory.Ledger
import Rafty.Kernel.Replication
import Rafty.Kernel.Change
import Rafty.Kernel.Cluster
import Rafty.Election.Tenure
import Rafty.Election.Votes
import Rafty.Election.Safety
import Rafty.Replication.Provenance
import Rafty.Replication.Sorted
import Rafty.Kernel.Bounds
import Rafty.Commit.Apply
import Rafty.Replication.Matching
import Rafty.Replication.Identity
import Rafty.Replication.Evidence
import Rafty.Commit.Completeness
import Rafty.Commit.Safety
import Rafty.Kernel.Waiters
import Rafty.Commit.Sync
import Rafty.Replication.Delivery
import Rafty.Replication.Repair
import Rafty.Replication.Indices
import Rafty.Election.Office
import Rafty.Replication.Sender
import Rafty.Replication.Monotone
import Rafty.Commit.Scan
import Rafty.Election.Requests
import Rafty.Kernel.Notify
import Rafty.Commit.Wakeup
import Rafty.Replication.Stale
import Rafty.Kernel.Ranges
import Rafty.Election.Timers
import Rafty.Theory.Monitor
import Rafty.Toolings.Fifo
import Rafty.Toolings.Wakeup
import Rafty.Theory.Delimited
import Rafty.Toolings.Peers
import Rafty.Theory.Refinement
import Rafty.Theory.Replica
import Rafty.Commit.Refinement
import Rafty.Election.Possible
import Rafty.Theory.Reach
import Rafty.Commit.Possible
import Rafty.Network.NetIntercepter
import Rafty.Network.Isolation
import Rafty.Network.Intercepted
import Rafty.Toolings.TestConfig
import Rafty.Toolings.TestRun
import Rafty.Network.Silence
import Rafty.Commit.Order
import Rafty.Toolings.LeaderCheck
import Rafty.Toolings.Agreement
import Rafty.Replication.Counters
import Rafty.Election.Deposition
import Rafty.Toolings.Closing
import Rafty.Toolings.Deployment
