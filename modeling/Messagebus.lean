import Messagebus.Lib.SortedMap
import Messagebus.Lib.Framing
import Messagebus.Lib.Frame
import Messagebus.Lib.Runs
import Messagebus.Lib.CondVar
import Messagebus.Lib.Ledger
import Messagebus.Lib.Format
import Messagebus.Lib.Handles
import Messagebus.Lib.Printf
import Messagebus.Lib.Potential
import Messagebus.Lib.Tagged
import Messagebus.Lib.GetOpt
import Messagebus.Lib.Parts
import Messagebus.Message
import Messagebus.Zmsg
import Messagebus.Frames
import Messagebus.Bus
import Messagebus.Loop
import Messagebus.Entries
import Messagebus.Threads
import Messagebus.Callbacks
import Messagebus.Locks
import Messagebus.Network
import Messagebus.Streams
import Messagebus.Queues
import Messagebus.Service
import Messagebus.Exchange
import Messagebus.PoolWorker
import Messagebus.WorkUnits
import Messagebus.JobTrees
import Messagebus.Cli
import Messagebus.Tool
import Messagebus.Interrupt
import Messagebus.Dispatcher
import Messagebus.Proofs.Codec
import Messagebus.Proofs.Calls
import Messagebus.Proofs.HostileFrames
import Messagebus.Proofs.Publish
import Messagebus.Proofs.Requests
import Messagebus.Proofs.Correlation
import Messagebus.Proofs.Dispatch
import Messagebus.Proofs.Concurrent
import Messagebus.Proofs.Nodes
import Messagebus.Proofs.Stages
import Messagebus.Proofs.RoundTrip
import Messagebus.Proofs.Pool
import Messagebus.Proofs.PoolBooks
import Messagebus.Proofs.Progress
import Messagebus.Proofs.Offload
import Messagebus.Proofs.Grammar
import Messagebus.Proofs.Lookups
import Messagebus.Proofs.Kinds
import Messagebus.Proofs.Registrations
import Messagebus.Proofs.EventLoop
import Messagebus.Proofs.Responses
import Messagebus.Proofs.Callbacks
import Messagebus.Proofs.Locks
import Messagebus.Proofs.JobTrees
import Messagebus.Proofs.Replies
import Messagebus.Proofs.Levels
import Messagebus.Proofs.Forwarding
import Messagebus.Proofs.FrameLedger
import Messagebus.Proofs.Refusals
import Messagebus.Proofs.Atomicity
import Messagebus.Proofs.WorkUnits
import Messagebus.Proofs.Dump
import Messagebus.Proofs.Entries
import Messagebus.Proofs.Registry
import Messagebus.Proofs.Streams
import Messagebus.Proofs.Queues
import Messagebus.Proofs.Origins
import Messagebus.Proofs.Service
import Messagebus.Proofs.Availability
import Messagebus.Proofs.Settling
import Messagebus.Proofs.Turns
import Messagebus.Proofs.Futures
import Messagebus.Proofs.Refinement
import Messagebus.Proofs.CommandLine
import Messagebus.Proofs.Tool
import Messagebus.Proofs.Interrupt
import Messagebus.Proofs.Dispatcher
