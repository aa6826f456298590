import Cmu440.Core.LTS
import Cmu440.Core.Quorum
import Cmu440.Core.Ballot
import Cmu440.Core.Calls
import Cmu440.Core.Answers
import Cmu440.Core.Chan
import Cmu440.Core.Conduct
import Cmu440.Core.Exchange
import Cmu440.Core.Flow
import Cmu440.Core.Lease
import Cmu440.Core.Mutexes
import Cmu440.Core.Threads
import Cmu440.Core.Work
import Cmu440.Paxos.Peer
import Cmu440.Paxos.Slots
import Cmu440.Paxos.SeqNum
import Cmu440.Paxos.World
import Cmu440.Paxos.Admin
import Cmu440.Paxos.Refine
import Cmu440.Paxos.Rounds
import Cmu440.Paxos.Agreement
import Cmu440.Paxos.Decided
import Cmu440.Paxos.Moves
import Cmu440.Paxos.Lone
import Cmu440.Paxos.LoneRounds
import Cmu440.Paxos.Restart
import Cmu440.Paxos.Reconfig
import Cmu440.Paxos.Conduct
import Cmu440.Paxos.Sync
import Cmu440.Paxos.Views
import Cmu440.Paxos.Joining
import Cmu440.Paxos.Deadlock
import Cmu440.Airline.State
import Cmu440.Airline.Service
import Cmu440.Airline.Linear
import Cmu440.Airline.PaxosLog
import Cmu440.Airline.Replicas
import Cmu440.Airline.Ledger
import Cmu440.Airline.Quiesce
import Cmu440.Lsp.Common
import Cmu440.Lsp.Buffer
import Cmu440.Lsp.BufferRuns
import Cmu440.Lsp.Window
import Cmu440.Lsp.Client
import Cmu440.Lsp.ClientRuns
import Cmu440.Lsp.Server
import Cmu440.Lsp.ServerRuns
import Cmu440.Lsp.ServerSends
import Cmu440.Lsp.ServerReceives
import Cmu440.Lsp.NoLoss
import Cmu440.Lsp.Link
import Cmu440.Lsp.Delivery
import Cmu440.Lsp.Received
import Cmu440.Lsp.Recovery
import Cmu440.Lsp.ServerMaps
import Cmu440.Lsp.ServerCrash
import Cmu440.Lsp.ServerTimeouts
import Cmu440.Lsp.Wakeups
import Cmu440.Lsp.Answers
import Cmu440.Lsp.Goroutines
import Cmu440.Lsp.Sources
import Cmu440.Lsp.Session
import Cmu440.Lsp.Closing
import Cmu440.Tribbler.Libstore
import Cmu440.Tribbler.Storage
import Cmu440.Tribbler.System
import Cmu440.Tribbler.Events
import Cmu440.Tribbler.Locks
import Cmu440.Tribbler.Coherence
import Cmu440.Tribbler.Freshness
import Cmu440.Tribbler.Ring
import Cmu440.Tribbler.Lists
import Cmu440.Tribbler.Store
import Cmu440.Tribbler.Register
import Cmu440.Tribbler.Startup
import Cmu440.Tribbler.Queries
import Cmu440.Tribbler.Tribserver
import Cmu440.Tribbler.Users
import Cmu440.Tribbler.Timeline
import Cmu440.Tribbler.Posts
import Cmu440.Bitcoin.Scheduler
import Cmu440.Bitcoin.Mining
import Cmu440.Bitcoin.Conserve
import Cmu440.Bitcoin.Partition
import Cmu440.Bitcoin.Miner
import Cmu440.Bitcoin.Peers
import Cmu440.Bitcoin.Pool
import Cmu440.Bitcoin.PoolRuns
import Cmu440.Bitcoin.PoolSteady
import Cmu440.Bitcoin.PoolProgress
import Cmu440.Echo.Server
import Cmu440.Echo.Queues
