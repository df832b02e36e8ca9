import DhKit.IndexEdgeFrame
import DhKit.IndexForcedRuns
import DhKit.IndexRelinking
import DhKit.VectorRuns
import DhKit.CallSearches
import DhKit.ImpactDistances
import DhKit.ProjectionFreshness
import DhKit.SessionFaults
import DhKit.DeliveryWorkflow
import DhKit.McpVerdicts
import DhKit.WorkerHeartbeats
import DhKit.WorkerLaunch
import DhKit.BridgeResponses
import DhKit.HookLogs
import DhKit.BridgeChildren
import DhKit.FullWorkflowGates
import DhKit.SessionForkReverts
import DhKit.SessionSanitize
import DhKit.EmbeddingUniqueness
import DhKit.ContextCache
import DhKit.PatchRuns
import DhKit.ModuleProbing
import DhKit.Chunker
import DhKit.CommentStripping
import DhKit.ShellOutput
import DhKit.GraphAdjacency
import DhKit.ProjectionSearches
import DhKit.LexicalPaths
import DhKit.PathPatterns
import DhKit.VectorTableNames
import DhKit.FileMentions
import DhKit.EnclosingSymbols
import DhKit.DiffSummaries
import DhKit.SearchHeaps
import DhKit.RootAssignments
import DhKit.SessionRunGuard
import DhKit.WorkspaceFreshness
