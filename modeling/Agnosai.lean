import Agnosai.Orchestrator.CrewRunner.Linear
import Agnosai.Orchestrator.CrewRunner.Watch
import Agnosai.Orchestrator.Approval.Delivery
import Agnosai.Orchestrator.Registry.Compaction
import Agnosai.Orchestrator.Audit.Tamper
import Agnosai.Orchestrator.Answer.Authority
import Agnosai.Orchestrator.Answer.Messages
import Agnosai.Orchestrator.Answer.Calls
import Agnosai.Orchestrator.CrewRunner.Billing
import Agnosai.Definitions.Packaging
import Agnosai.Server.Crews
import Agnosai.ToolLoop.Unmark
import Agnosai.ToolLoop.Render
import Agnosai.ToolLoop.Window
import Agnosai.Server.Ssrf.Safe
import Agnosai.Server.Serve
import Agnosai.Server.A2a
import Agnosai.Sandbox.Cx
import Agnosai.Tools.Gate
import Agnosai.GuardedFetch
import Agnosai.Orchestrator.Scheduler.Greedy
import Agnosai.Orchestrator.Scheduler.Queues
import Agnosai.Orchestrator.Scheduler.Ready
import Agnosai.Orchestrator.Pubsub
import Agnosai.Orchestrator.PlanCache.Key
import Agnosai.Orchestrator.PlanCache.Cache
import Agnosai.Server.Subscriptions.Isolation
import Agnosai.Server.Subscriptions.Lag
import Agnosai.ModelCatalog.Reads
import Agnosai.Server.RateLimit
import Agnosai.Fleet.State.Terminal
import Agnosai.Fleet.Gpu
import Agnosai.Fleet.Federation
import Agnosai.Fleet.Coordinator
import Agnosai.Orchestrator.Ipc
import Agnosai.Orchestrator.DurableState
import Agnosai.Sandbox.Oci
import Agnosai.Definitions.Versioning
import Agnosai.Server.Mcp
import Agnosai.Telemetry.Exporter
import Agnosai.CrewPool
import Agnosai.Learning.Replay.Sample
import Agnosai.Orchestrator.Approval.Keys
import Agnosai.Core.Timestamp
import Agnosai.Orchestrator.Scoring
