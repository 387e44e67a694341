import ServiceLib.Pool.Dequeue
import ServiceLib.Pool.PriorityOrder
import ServiceLib.Pool.Accounting
import ServiceLib.Pool.TimerRefinement
import ServiceLib.Pool.StateMachine
import ServiceLib.Pool.Wakeups
import ServiceLib.Pool.AddFailure
import ServiceLib.DelayPool.SchedulerWakes
import ServiceLib.Environment.DrainGate
import ServiceLib.Environment.DrainHandshake
import ServiceLib.Service.StopOrdering
import ServiceLib.Service.StartRollback
import ServiceLib.Source.AdmissionStop
import ServiceLib.Source.Finalization
import ServiceLib.Source.Duplicates
import ServiceLib.Source.StartFailure
import ServiceLib.Source.Limiter
import ServiceLib.Store.MapRefinement
import ServiceLib.Store.JoinRepresentation
import ServiceLib.Store.JoinCancellation
import ServiceLib.Store.JoinGuarantee
import ServiceLib.SubStream.Protocol
import ServiceLib.Stream.Case
import ServiceLib.Stream.Split
import ServiceLib.Kafka.Commit
import ServiceLib.Kafka.Context
import ServiceLib.Kafka.SinkStop
import ServiceLib.Cron.Drain
import ServiceLib.Cron.Trigger
import ServiceLib.Cron.ResultWaiter
import ServiceLib.Cron.LocalInterval
import ServiceLib.Config.Watch
import ServiceLib.Config.DeepMerge
import ServiceLib.Config.Runtime
import ServiceLib.Serde.Order
import ServiceLib.Serde.RoundTrip
import ServiceLib.Runtime.ContextGate
import ServiceLib.Runtime.ShutdownGuard
