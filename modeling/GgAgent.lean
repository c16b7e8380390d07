import GgAgent.Lib.Table
import GgAgent.Lib.Program
import GgAgent.Lib.Pool
import GgAgent.Backend.Types
import GgAgent.Backend.Ledger
import GgAgent.Backend.Calls
import GgAgent.Backend.Lifecycle
import GgAgent.Backend.Manager
import GgAgent.Backend.Scheduler
import GgAgent.Backend.Service
import GgAgent.Backend.System
import GgAgent.Backend.Effects
import GgAgent.Backend.Footprint
import GgAgent.Checkpoint.Coordinator
import GgAgent.Checkpoint.Safety
import GgAgent.Records.Store
import GgAgent.Records.Admission
import GgAgent.Records.Capacity
import GgAgent.Safety.Basic
import GgAgent.Safety.Terminal
import GgAgent.Safety.Settlement
import GgAgent.Safety.Cancel
import GgAgent.Safety.Prompts
import GgAgent.Safety.Reservation
import GgAgent.Safety.Rounds
import GgAgent.Safety.Termination
import GgAgent.Recovery.Shutdown
import GgAgent.Safety.Loss
import GgAgent.Safety.Receipts
import GgAgent.Safety.Cleanup
import GgAgent.Records.Replay
import GgAgent.Records.Evidence
import GgAgent.Records.Retention
import GgAgent.Events.Mirror
import GgAgent.Sandbox.Execution
import GgAgent.Sandbox.Conversation
import GgAgent.Sandbox.Supervisor
import GgAgent.Sandbox.Ownership
import GgAgent.Sandbox.Pipeline
import GgAgent.Sandbox.Settling
import GgAgent.Sandbox.Phases
import GgAgent.Sandbox.Restart
import GgAgent.Sessions.Local
import GgAgent.Sessions.Durability
import GgAgent.Lib.Sequence
import GgAgent.Sandbox.Stream
import GgAgent.Sandbox.Secrets
import GgAgent.Lib.Json
import GgAgent.Storage.Artifact
import GgAgent.Storage.LogCap
import GgAgent.Sandbox.Control
import GgAgent.Sandbox.Steering
import GgAgent.Github.Connections
import GgAgent.Github.Status
import GgAgent.Sandbox.PiAgent
import GgAgent.Sandbox.PiSecrets
import GgAgent.Sessions.Logins
import GgAgent.Sandbox.Masking
import GgAgent.Frontend.TaskDetail
import GgAgent.Sandbox.Framing
import GgAgent.Lib.Calendar
import GgAgent.Records.Deadlines
import GgAgent.Records.Timestamps
import GgAgent.Publication.Publisher
import GgAgent.Publication.Safety
import GgAgent.Storage.Patch
import GgAgent.Events.TaskSocket
import GgAgent.Sandbox.Socket
import GgAgent.Storage.Migrations
import GgAgent.Backend.Reads
import GgAgent.Lib.Twin
import GgAgent.Backend.Rows
import GgAgent.Safety.Isolation
