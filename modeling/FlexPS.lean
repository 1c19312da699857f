import FlexPS.Lib.Machine
import FlexPS.Server.SparseSSP.RecorderSteps
import FlexPS.Server.SparseSSP.ModelSteps
import FlexPS.Server.SparseSSP.Runs
import FlexPS.Server.SparseSSP.Mirror
import FlexPS.Server.SparseSSP.Lockstep
import FlexPS.Server.SparseSSP.Coupled
import FlexPS.Server.SparseSSP.Guarantees
import FlexPS.Server.SparseSSP.Refinement
import FlexPS.Server.SparseSSP.Startup
import FlexPS.Server.SSP.Guarantees
import FlexPS.Server.BSP.Model
import FlexPS.Lib.SortedList
import FlexPS.Worker.Slice
import FlexPS.Comm.Barrier
import FlexPS.Comm2.Barrier
import FlexPS.Comm.Stop
import FlexPS.Comm2.Channel
import FlexPS.Comm2.Exchange
import FlexPS.Input.BlockAssigner
import FlexPS.Rapid.Reassignment
import FlexPS.Rapid.Conservation
import FlexPS.Input.LineInput
import FlexPS.Server.BSP.Guarantees
import FlexPS.Server.SparseSSP.Replay
import FlexPS.Worker.TableBox
import FlexPS.Base.Serialization
import FlexPS.Base.RoundTrip
import FlexPS.Worker.AppBlocker
import FlexPS.Worker.Release
import FlexPS.Driver.SimpleIdMapper
import FlexPS.Driver.WorkerSpec
import FlexPS.Driver.Allocation
import FlexPS.Input.LineOwnership
import FlexPS.Driver.Engine
import FlexPS.Driver.EngineTasks
import FlexPS.Driver.TaskIsolation
import FlexPS.Server.Reset
import FlexPS.Lib.Gather
import FlexPS.System.SparseAnswers
import FlexPS.Server.SparseSSP.Failures
import FlexPS.System.SparseFailures
import FlexPS.System.SparseStaleness
import FlexPS.Lib.Marks
import FlexPS.Server.ASP.Model
import FlexPS.Server.BSP.Histories
import FlexPS.Server.SSP.Histories
import FlexPS.System.TableAnswers
import FlexPS.System.TableConsistency
import FlexPS.System.TableProgress
