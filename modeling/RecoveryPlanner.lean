import RecoveryPlanner.Accounting
import RecoveryPlanner.Alternatives
import RecoveryPlanner.AtomicSave
import RecoveryPlanner.AuditTrail
import RecoveryPlanner.Checksum
import RecoveryPlanner.ComparatorContract
import RecoveryPlanner.CoordinatorMain
import RecoveryPlanner.CrashSafety
import RecoveryPlanner.Deadlines
import RecoveryPlanner.DecisionDigest
import RecoveryPlanner.DeclaredLengths
import RecoveryPlanner.DispatchExit
import RecoveryPlanner.Durability
import RecoveryPlanner.EvidenceGaps
import RecoveryPlanner.Exchanges
import RecoveryPlanner.Expiry
import RecoveryPlanner.Explanations
import RecoveryPlanner.Fencing
import RecoveryPlanner.Guards
import RecoveryPlanner.HandOffs
import RecoveryPlanner.Incarnations
import RecoveryPlanner.Independence
import RecoveryPlanner.Mailbox
import RecoveryPlanner.MsgBuffer
import RecoveryPlanner.NetworkExecutor
import RecoveryPlanner.Objectives
import RecoveryPlanner.ReaderRuns
import RecoveryPlanner.ReferenceExecutor
import RecoveryPlanner.Referential
import RecoveryPlanner.Relaxation
import RecoveryPlanner.ReloadedEvidence
import RecoveryPlanner.Replicas
import RecoveryPlanner.Revalidation
import RecoveryPlanner.Sha256
import RecoveryPlanner.StaleReports
import RecoveryPlanner.StoreListing
import RecoveryPlanner.Stores
import RecoveryPlanner.Tournament
import RecoveryPlanner.WorkerProcess
import RecoveryPlanner.WorldView
