import Trick.Lib.Run
import Trick.Lib.UpperBound
import Trick.Lib.Cycle
import Trick.Lib.Tiling
import Trick.Lib.Earliest
import Trick.Lib.Modify
import Trick.Lib.Bytes
import Trick.Lib.NextFit
import Trick.Lib.BitPrefix
import Trick.Lib.Fields
import Trick.Lib.Forall2
import Trick.Lib.Scale
import Trick.Lib.RingQueue
import Trick.Lib.Rounds
import Trick.Executive.JobData
import Trick.Executive.ScheduledJobQueue
import Trick.Executive.QueueOrder
import Trick.Executive.Traversal
import Trick.Executive.QueueDrain
import Trick.Executive.Zones
import Trick.Executive.Executive
import Trick.Executive.LoopSingleThread
import Trick.Executive.RunFrame
import Trick.Executive.CommandInvariant
import Trick.Executive.PassInvariant
import Trick.Executive.StartOfRun
import Trick.Executive.NoStrandedJob
import Trick.Executive.ClockInvariant
import Trick.Executive.ClockStep
import Trick.Executive.StaticRun
import Trick.Executive.StaticPass
import Trick.Executive.StaticStart
import Trick.Integrator.IntegLoop
import Trick.Integrator.IntegLoopManager
import Trick.Integrator.IntegLoopOwnership
import Trick.Integrator.MultiDtIntegLoop
import Trick.Integrator.DynamicEvents
import Trick.MonteCarlo.Master
import Trick.MonteCarlo.Queue
import Trick.MonteCarlo.Accounting
import Trick.MonteCarlo.Dispersions
import Trick.MonteCarlo.ReducedRuns
import Trick.MonteCarlo.MonteVarFile
import Trick.MonteCarlo.SlaveProcess
import Trick.VariableServer.ScheduledCopy
import Trick.VariableServer.CopyInvariant
import Trick.VariableServer.VariableReference
import Trick.VariableServer.RecoverReference
import Trick.VariableServer.EscapedString
import Trick.VariableServer.AsciiPackets
import Trick.VariableServer.WriteData
import Trick.VariableServer.Snapshots
import Trick.VariableServer.CheckIp
import Trick.VariableServer.CopyAndWriteModes
import Trick.VarBinaryParser.ParsedBinaryMessage
import Trick.Connections.ClientConnection
import Trick.Connections.TCPConnection
import Trick.Connections.UDPConnection
import Trick.EventManager.EventManager
import Trick.EventManager.EventQueue
import Trick.EventManager.EventTiming
import Trick.EventManager.TimedCalls
import Trick.EventManager.TimedPasses
import Trick.Executive.FreezeInvariant
import Trick.Executive.FreezeSchedule
import Trick.Executive.Restart
import Trick.Executive.TimeTic
import Trick.Executive.MultiThread
import Trick.Executive.ChildFrame
import Trick.Executive.AmfFrame
import Trick.Executive.AsyncFrame
import Trick.Executive.FreezeLoop
import Trick.CheckPoint.QuotedString
import Trick.Lib.Words
import Trick.Lib.TreeContext
import Trick.RealtimeInjector.Injections
import Trick.DataProducts.MatchedTimes
import Trick.TrickAdt.BstOrder
import Trick.TrickAdt.Dllist
import Trick.TrickAdt.MapIterator
import Trick.Unicode.RoundTrip
import Trick.Unicode.WideStrings
import Trick.Comm.StreamTransfer
import Trick.DataRecord.LogRoundTrip
import Trick.DataRecord.ChangeRecording
import Trick.DataRecord.LoggingRates
import Trick.InputProcessor.UserEvent
import Trick.MonteCarloGeneration.DataFile
import Trick.MonteCarloGeneration.VariableFile
import Trick.MonteCarloGeneration.MonteCarloMaster
import Trick.MonteCarloGeneration.GeneratedRuns
import Trick.Executive.JobCycle
import Trick.Executive.SimObjectOnOff
import Trick.CheckPointRestart.ScheduledCheckpoint
import Trick.CheckPointRestart.SafestorePeriod
import Trick.Executive.RestartMatching
import Trick.Executive.RemovedJobs
import Trick.Executive.DeleteSimObject
import Trick.Executive.DeletionRuns
import Trick.DataRecord.DataRecordGroup
import Trick.DataRecord.RecordedRows
import Trick.Comm.MultiConnect
import Trick.Lib.WordMemory
import Trick.MemoryManager.Bitfields
import Trick.Lib.Grid
import Trick.Interpolator.Interpolator
import Trick.Lib.Splits
import Trick.MemoryManager.WcsExt
import Trick.MemoryManager.Attributes
import Trick.MemoryManager.AllocInfoMap
import Trick.Lib.RowMajor
import Trick.MemoryManager.AttributesUtils
import Trick.MemoryManager.ObjectMemory
import Trick.CheckPoint.NilValued
import Trick.MemoryManager.ClearMemory
import Trick.Lib.ArrayCopy
import Trick.MemoryManager.ResizeArray
import Trick.CheckPoint.StlNames
import Trick.MemoryManager.AllocDepends
import Trick.ThreadBase.SysThread
import Trick.VariableServer.CheckpointReload
import Trick.VariableServer.ReloadInvariant
import Trick.VariableServer.SuspendedSessions
import Trick.MasterSlave.Exchange
import Trick.MasterSlave.Words
import Trick.MasterSlave.Lockstep
import Trick.MasterSlave.Progress
import Trick.Lib.ShuntingYard
import Trick.DataProducts.EquationParse
import Trick.DataProducts.Expression
import Trick.DataProducts.EquationText
import Trick.DataProducts.EquationValue
import Trick.Comm.ByteSwap
