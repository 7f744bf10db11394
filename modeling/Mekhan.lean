import Mekhan.Properties.TaskList
import Mekhan.Properties.ProcessTags
import Mekhan.Properties.RoomEdits
import Mekhan.Properties.IngestRedelivery
import Mekhan.Properties.QueryPanics
import Mekhan.Properties.MarkingCache
import Mekhan.Properties.MemoSuppression
import Mekhan.Properties.DecisionBranch
import Mekhan.Properties.Hibernation
import Mekhan.Properties.EventHash
import Mekhan.Properties.PublishChain
import Mekhan.Properties.ReadYourWrite
import Mekhan.Properties.MessageIds
import Mekhan.Properties.BridgeIds
import Mekhan.Properties.Timers
import Mekhan.Properties.ServiceReset
import Mekhan.Properties.StatusDelivery
import Mekhan.Properties.MetaTags
import Mekhan.Properties.ScopeResolution
import Mekhan.Properties.TokenInjection
import Mekhan.Properties.AtomicFiring
import Mekhan.Properties.PermanentFailure
import Mekhan.Properties.PoolConservation
import Mekhan.Properties.LeaseOrder
import Mekhan.Properties.MapGather
import Mekhan.Properties.ChannelGather
import Mekhan.Properties.LoopLaw
import Mekhan.Properties.TimeoutIsolation
import Mekhan.Properties.LifecycleSettles
import Mekhan.Properties.RetriedJob
import Mekhan.Properties.PresenceExpiry
import Mekhan.Properties.OfferClaims
import Mekhan.Properties.CronCatchup
import Mekhan.Properties.TriggerRegistry
import Mekhan.Properties.SingleActive
import Mekhan.Properties.LaunchRollback
import Mekhan.Properties.NodeRollupExact
import Mekhan.Properties.AllocationRows
import Mekhan.Properties.IncrementalFold
import Mekhan.Properties.Compaction
import Mekhan.Properties.LiveRoom
import Mekhan.Properties.TerminalEffects
import Mekhan.Properties.WaiterOutcome
import Mekhan.Properties.BorrowOrder
import Mekhan.Properties.HumanTaskRefs
import Mekhan.Properties.SurfacePaths
import Mekhan.Properties.JobSettled
import Mekhan.Properties.CancelReaches
import Mekhan.Properties.CrawlOnce
import Mekhan.Properties.ObjectAccess
import Mekhan.Properties.NothingForgotten
import Mekhan.Properties.OneEvaluator
import Mekhan.Properties.FolderTree
import Mekhan.Properties.MergePatch
import Mekhan.Properties.JoinSoundness
import Mekhan.Properties.RoutingMerge
import Mekhan.Properties.MemoInvalidation
import Mekhan.Properties.BaseTail
import Mekhan.Properties.SelectionOrder
import Mekhan.Properties.TokenUse
import Mekhan.Properties.PlacementSpread
import Mekhan.Properties.BatchReconcile
import Mekhan.Properties.ContainmentMerge
import Mekhan.Properties.QueryRoundtrip
import Mekhan.Properties.LaunchRebinding
import Mekhan.Properties.WalkEnds
import Mekhan.Properties.SlugNames
import Mekhan.Properties.SecretSubstitution
