import Krishiv.Dataflow.BarrierAlign
import Krishiv.Dataflow.TemporalJoin
import Krishiv.Delta.JoinPaths
import Krishiv.Delta.JoinRestored
import Krishiv.Delta.ViewBaseline
import Krishiv.Executor.Rescaled
import Krishiv.Ivm.Admission
import Krishiv.Ivm.ChainRestore
import Krishiv.Ivm.DeltaCheckpoint
import Krishiv.Ivm.InputDedup
import Krishiv.Ivm.LateStream
import Krishiv.Ivm.Recovery
import Krishiv.Ivm.RelationDelta
import Krishiv.Ivm.ShardedReader
import Krishiv.Ivm.SnapshotFeed
import Krishiv.Scheduler.AckGenerations
import Krishiv.Scheduler.AckedPositions
import Krishiv.Scheduler.CheckpointQuorum
import Krishiv.Scheduler.CommitVerdict
import Krishiv.Scheduler.CrashSafety
import Krishiv.Scheduler.OneWriter
import Krishiv.Scheduler.RestoreCost
import Krishiv.Scheduler.SavepointFlags
import Krishiv.Scheduler.SavepointHistory
import Krishiv.Scheduler.SinkCoordinator
import Krishiv.Scheduler.ThreePhaseCommit
import Krishiv.Scheduler.WalRecovery
import Krishiv.State.Timers
