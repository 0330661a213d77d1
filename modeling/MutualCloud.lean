import MutualCloud.Library.Execution
import MutualCloud.Library.KeyedTable
import MutualCloud.Library.Interaction
import MutualCloud.Go.Integers
import MutualCloud.Store.Schema
import MutualCloud.Store.Statements
import MutualCloud.Store.Runs
import MutualCloud.Store.Exclusivity
import MutualCloud.Library.FencedLease
import MutualCloud.Store.Refinement
import MutualCloud.Store.Fencing
import MutualCloud.Control.Handlers
import MutualCloud.Store.Terminal
import MutualCloud.Control.Replies
import MutualCloud.Control.Mirror
import MutualCloud.Agent.Candidate
import MutualCloud.Agent.System
import MutualCloud.Control.Quiescence
import MutualCloud.Store.Progress
import MutualCloud.Control.Recovery
import MutualCloud.Dht.Cas
import MutualCloud.Dht.Lease
import MutualCloud.Dht.Faults
import MutualCloud.Dht.Concurrent
import MutualCloud.Dht.LastWriter
import MutualCloud.Agent.Report
import MutualCloud.Agent.Fetch
import MutualCloud.Control.Creation
import MutualCloud.Control.Requeue
import MutualCloud.Control.Announce
import MutualCloud.Control.Restart
import MutualCloud.Control.Index
import MutualCloud.Control.Recreate
import MutualCloud.Library.WakeUp
import MutualCloud.Control.Manager
import MutualCloud.Agent.Confinement
import MutualCloud.Dht.Json
import MutualCloud.Dht.Replicas
import MutualCloud.Go.ServeMux
import MutualCloud.Control.Routes
import MutualCloud.Agent.FirstHeartbeat
import MutualCloud.Control.Server
import MutualCloud.Library.Noninterference
import MutualCloud.Control.Secrecy
import MutualCloud.Control.Grace
import MutualCloud.Control.Upload
import MutualCloud.Control.Paging
import MutualCloud.Control.Versions
import MutualCloud.Control.Tokens
import MutualCloud.Control.Keys
import MutualCloud.Control.Retries
import MutualCloud.Library.Provenance
import MutualCloud.Library.Interference
import MutualCloud.Agent.TokenTrip
import MutualCloud.Agent.Discover
import MutualCloud.Agent.Moves
import MutualCloud.Agent.Ledger
import MutualCloud.Agent.Outcomes
import MutualCloud.Agent.Exclusion
import MutualCloud.Agent.Acknowledgement
import MutualCloud.Control.Answers
import MutualCloud.Control.Authorization
import MutualCloud.Agent.Outsiders
import MutualCloud.Agent.Body
import MutualCloud.Control.Pace
import MutualCloud.Agent.Completion
import MutualCloud.Agent.Discovery
import MutualCloud.Agent.Startup
