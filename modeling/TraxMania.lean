import TraxMania.Corridor.ShortestRoute
import TraxMania.Corridor.Signals
import TraxMania.Generation.IntervalChain
import TraxMania.Constraints.RigidTurn
import TraxMania.Constraints.NoEvidenceLost
import TraxMania.Ingestion.Provenance
import TraxMania.Ingestion.ParserValues
import TraxMania.Driven.Footprints
import TraxMania.Generation.GbxWriter
import TraxMania.Generation.LlmFallback
import TraxMania.Generation.SupportsClear
import TraxMania.Driven.CoverageStore
import TraxMania.Learning.RoundTrip
import TraxMania.RemoteTest.SharedQueue
import TraxMania.RemoteTest.MalformedReport
import TraxMania.RemoteTest.Inbox
import TraxMania.Storage.ExactlyOnce
import TraxMania.Constraints.AllOrNothing
import TraxMania.Constraints.AttributedBlocks
import TraxMania.Ingestion.JudgedByCapture
import TraxMania.Evaluation.DryRun
import TraxMania.Corridor.TrainSplit
import TraxMania.Corridor.WithinCap
import TraxMania.Corridor.PathsOnce
import TraxMania.Generation.RecencyMemory
import TraxMania.Generation.MinedGrammar
import TraxMania.Constraints.EvidenceLabel
import TraxMania.Constraints.AdjacencyExact
import TraxMania.Corridor.Inductive
import TraxMania.Corridor.Scoring
import TraxMania.Corridor.PatternWeights
import TraxMania.Corridor.SnapHome
import TraxMania.Generation.ValidatorCap
import TraxMania.Generation.IntervalIndex
import TraxMania.Generation.AiOccupancy
import TraxMania.Generation.Scenery
import TraxMania.Generation.UTurn
import TraxMania.Generation.RouteVocabulary
import TraxMania.Driven.CoveragePasses
import TraxMania.Constraints.RouteMacros
import TraxMania.Constraints.FaceTransitions
import TraxMania.Driven.FaceContact
import TraxMania.Learning.DecodedRoute
import TraxMania.Learning.LinkLabels
import TraxMania.Route.Projection
import TraxMania.Replay.Cohorts
import TraxMania.Ingestion.RateLimit
import TraxMania.Evaluation.RankStats
import TraxMania.Route.PerSegment
import TraxMania.Ingestion.HttpClient
import TraxMania.Ingestion.TmxListing
import TraxMania.Storage.SplitStatements
import TraxMania.Dashboard.ActionWorker
import TraxMania.Driven.TiltedBox
import TraxMania.Replay.RuleVerdicts
import TraxMania.Corridor.IntervalStats
import TraxMania.Corridor.RidgeFit
