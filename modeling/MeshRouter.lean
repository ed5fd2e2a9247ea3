import MeshRouter.A2A.Isolation
import MeshRouter.Adapters.Http
import MeshRouter.Backpressure.Draining
import MeshRouter.Backpressure.Faults
import MeshRouter.Backpressure.Pressure
import MeshRouter.Backpressure.Waiting
import MeshRouter.Broker.Attempts
import MeshRouter.Broker.Delivery
import MeshRouter.Broker.Drain
import MeshRouter.Broker.Joining
import MeshRouter.Broker.NoLoss
import MeshRouter.Broker.Nowait
import MeshRouter.Broker.Overtaking
import MeshRouter.Broker.QueueRuns
import MeshRouter.Broker.Resolution
import MeshRouter.Broker.Retention
import MeshRouter.Broker.Settling
import MeshRouter.Consensus.Plurality
import MeshRouter.Consensus.Tolerance
import MeshRouter.Deadlock.Canonical
import MeshRouter.Deadlock.Reports
import MeshRouter.Deadlock.SearchLoop
import MeshRouter.Fleet.Health
import MeshRouter.Fleet.Safety
import MeshRouter.Messages.Conversation
import MeshRouter.Messages.Untrusted
import MeshRouter.Operator.AgentController
import MeshRouter.Operator.Isolation
import MeshRouter.Operator.Ticks
import MeshRouter.PubSub.Publishing
import MeshRouter.PubSub.Wildcards
import MeshRouter.Quotas.Atomicity
import MeshRouter.Quotas.Isolation
import MeshRouter.Quotas.Overshoot
import MeshRouter.Resilience.ConsecutiveProbes
import MeshRouter.Resilience.FairTurns
import MeshRouter.Resilience.HealthRecovery
import MeshRouter.Resilience.HealthThreshold
import MeshRouter.Resilience.Integrity
import MeshRouter.Resilience.LeastConnections
import MeshRouter.Resilience.Opening
import MeshRouter.Resilience.Outage
import MeshRouter.Resilience.Recovery
import MeshRouter.Resilience.RecoveryTester
import MeshRouter.Resilience.RetriedBreaker
import MeshRouter.Resilience.Retry
import MeshRouter.Resilience.Slots
import MeshRouter.Routing.Composite
import MeshRouter.Routing.Robustness
import MeshRouter.Routing.RoundRobin
import MeshRouter.Routing.Updates
import MeshRouter.Workflows.Agreement
import MeshRouter.Workflows.Commuting
import MeshRouter.Workflows.Completeness
import MeshRouter.Workflows.Completion
import MeshRouter.Workflows.Depths
import MeshRouter.Workflows.Race
import MeshRouter.Workflows.Sequential
