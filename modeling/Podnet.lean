import Podnet.Word
import Podnet.Maps
import Podnet.Resequencer
import Podnet.OrderStatistic
import Podnet.FairLocks
import Podnet.Framing
import Podnet.Proto3
import Podnet.Broadcast
import Podnet.Funnel
import Podnet.Utf8
import Podnet.Client.Votes
import Podnet.Client.Updater
import Podnet.Client.Lanes
import Podnet.Client.Runs
import Podnet.Client.Arrival
import Podnet.Client.Feed
import Podnet.Client.Read
import Podnet.Client.Forward
import Podnet.Client.ReadBounds
import Podnet.Client.ReadHistory
import Podnet.Client.ReadLocks
import Podnet.Client.Deadlock
import Podnet.Client.Writes
import Podnet.Replica.Log
import Podnet.Replica.Schema
import Podnet.Replica.Appender
import Podnet.Replica.Follow
import Podnet.Replica.Voting
import Podnet.Replica.Persistence
import Podnet.Replica.Connection
import Podnet.Replica.Serving
import Podnet.CatchUp
import Podnet.EndToEnd
import Podnet.TimeOrder
import Podnet.Gaps
import Podnet.Client.Vetted
import Podnet.Signed
import Podnet.Client.Config
import Podnet.Client.Rejects
import Podnet.Client.Evidence
import Podnet.Client.WalkOrder
import Podnet.Replica.Parser
import Podnet.Client.Equivocation
import Podnet.Recorded
import Podnet.Client.Snapshot
import Podnet.Ledger
import Podnet.Replica.Intake
import Podnet.Agreement
import Podnet.Delivery
import Podnet.Client.Lifecycle
import Podnet.Deployment
import Podnet.Client.Rpccli
import Podnet.Texts
import Podnet.Convergence
import Podnet.Cluster
