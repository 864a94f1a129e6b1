import Faktor.CircuitExecutor
import Faktor.LedgerReads
import Faktor.LedgerInterleaving
import Faktor.SessionLifetime
import Faktor.SessionClock
import Faktor.SessionQueue
import Faktor.SessionRecovery
import Faktor.AdmissionTable
import Faktor.VerificationAttempts
import Faktor.StorageWalDebt
import Faktor.StoragePrefix
import Faktor.BillingReconcile
import Faktor.BillingDunning
import Faktor.BillingOrder
import Faktor.BillingProration
import Faktor.ApprovalExact
import Faktor.BillingReceipt
import Faktor.EditCrash
import Faktor.SupplyExplosion
import Faktor.CostSettlement
import Faktor.CostCompletion
import Faktor.StorageLosses
import Faktor.CostSpent
import Faktor.CostQuote
import Faktor.BudgetCap
import Faktor.BillingPeriods
import Faktor.CircuitBoard
import Faktor.OwnershipGrammar
import Faktor.ContextPointers
import Faktor.ApprovalFile
import Faktor.LandingGuarantee
import Faktor.WireAccounting
import Faktor.WireEvidence
import Faktor.WireMarkers
import Faktor.ContextKeep
import Faktor.InformationOrder
import Faktor.InformationSound
import Faktor.InformationMinimal
import Faktor.DiffPatch
import Faktor.EditOps
import Faktor.CapabilityTtl
import Faktor.TournamentGuarantee
import Faktor.CancelCascade
import Faktor.TaskRederive
import Faktor.WorkPlan
import Faktor.SupplyAllocation
import Faktor.PaymentRounding
import Faktor.MoneyText
import Faktor.ChunkRows
import Faktor.ChildComposition
import Faktor.SupplyIndex
import Faktor.SchedulerTermination
import Faktor.ChildIntegration
