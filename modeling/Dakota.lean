import Dakota.Lib.Numerals
import Dakota.Parallel.ResolveInputs
import Dakota.Parallel.Split
import Dakota.Lib.IntMap
import Dakota.Lib.Ledger
import Dakota.Lib.EnvLoop
import Dakota.Lib.Outcome
import Dakota.Sched.State
import Dakota.Sched.Blocking
import Dakota.Sched.LocalLoops
import Dakota.Sched.BlockingLocal
import Dakota.Sched.Messages
import Dakota.Sched.BlockingMaster
import Dakota.Sched.BlockingPeers
import Dakota.Sched.Tests
import Dakota.Sched.BlockingDynamic
import Dakota.Sched.Nowait
import Dakota.Sched.Gaps
import Dakota.Sched.NowaitInv
import Dakota.Sched.FillGaps
import Dakota.Sched.NowaitSchedulers
import Dakota.Response.Update
import Dakota.Response.CacheHit
import Dakota.Response.Mapping
import Dakota.Lib.XorColumns
import Dakota.Lib.GrayCode
import Dakota.LowDiscrepancy.BitUtils
import Dakota.LowDiscrepancy.DigitalNet
import Dakota.LowDiscrepancy.Rank1Lattice
import Dakota.LowDiscrepancy.Scramble
import Dakota.Lib.FindIdxs
import Dakota.Variables.Counts
import Dakota.Variables.Views
import Dakota.Variables.IndexMaps
import Dakota.Variables.AllOrder
import Dakota.Lib.HashedIndex
import Dakota.Variables.Hash
import Dakota.Response.PRPMultiIndex
import Dakota.Lib.Window
import Dakota.Variables.TabularCalls
import Dakota.Variables.TabularRefs
import Dakota.Variables.TabularWrite
import Dakota.Variables.TabularRead
import Dakota.Variables.TabularParts
import Dakota.Variables.TabularRoundTrip
import Dakota.Lib.PollLoop
import Dakota.Servers.Synch
import Dakota.Servers.Asynch
import Dakota.Servers.Analyses
import Dakota.Servers.Protocol
import Dakota.Lib.IndexLoop
import Dakota.Scaling.Types
import Dakota.Scaling.TransformSet
import Dakota.Scaling.ResponseMap
import Dakota.Scaling.ChainRule
import Dakota.Scaling.RoundTrip
import Dakota.Scaling.Compute
import Dakota.Scaling.Feasible
import Dakota.Lib.Words
import Dakota.Variables.TabularHeader
import Dakota.Lib.Codec
import Dakota.Transport.MPIBuffer
import Dakota.Transport.Annotated
import Dakota.Transport.ResponseData
import Dakota.Transport.VariablesData
import Dakota.Lib.RunCounter
import Dakota.Nested.VariableTypes
import Dakota.Nested.VariableMaps
import Dakota.Nested.MapRuns
import Dakota.Nested.MapsCorrect
import Dakota.Nested.ResponseMaps
import Dakota.Nested.ResponseMapsCorrect
import Dakota.Lib.Bound
import Dakota.Lib.Quadratic
import Dakota.Derivatives.Steps
import Dakota.Derivatives.ManageAsv
import Dakota.Derivatives.Estimate
import Dakota.Derivatives.Exact
import Dakota.Lib.Secant
import Dakota.Derivatives.QuasiHessian
import Dakota.Failure.Continuation
import Dakota.Lib.Slice
import Dakota.Surrogate.Rebuild
import Dakota.Surrogate.RebuildCorrect
import Dakota.Surrogate.RebuildRuns
import Dakota.Surrogate.DiscrepancyCorrect
import Dakota.Lib.Scatter
import Dakota.Optimizer.Adapters
import Dakota.Optimizer.VariableTransfer
import Dakota.Optimizer.ConstraintTransfer
import Dakota.Lib.LittleEndian
import Dakota.Restart.Version
import Dakota.Restart.Archive
import Dakota.Restart.OutputManager
import Dakota.Restart.Utilities
import Dakota.Restart.Survival
import Dakota.LowDiscrepancy.Refinement
import Dakota.SurrBased.ParetoFilter
import Dakota.SurrBased.MeritDerivatives
import Dakota.SurrBased.Multipliers
import Dakota.Convergence.RelChange
import Dakota.ParamStudy.Validation
import Dakota.ParamStudy.CenteredLayout
import Dakota.Sampling.LatinHypercube
import Dakota.Sensitivity.Ranks
import Dakota.Sensitivity.PickAndFreeze
import Dakota.Interfacing.Tiles
import Dakota.Analyzer.Batches
import Dakota.Analyzer.BestTracking
import Dakota.Lib.Splice
import Dakota.Calibration.Hyperparams
import Dakota.SurrBased.TrustRegion
import Dakota.Objective.Derivatives
import Dakota.Objective.Reduction
import Dakota.Objective.ReductionCorrect
import Dakota.Lib.BlockLoop
import Dakota.Lib.BlockDiagonal
import Dakota.Response.RealArrays
import Dakota.Calibration.Cholesky
import Dakota.Calibration.Covariance
import Dakota.Calibration.CovarianceStore
import Dakota.Calibration.CovarianceViews
import Dakota.Calibration.CovarianceCorrect
import Dakota.Calibration.ExperimentData
import Dakota.Calibration.Multipliers
import Dakota.Calibration.LogDeterminant
import Dakota.Calibration.Misfit
import Dakota.Lib.PiecewiseLinear
import Dakota.Calibration.FieldInterpolation
import Dakota.Calibration.FieldInterpolant
import Dakota.Response.Rekey
import Dakota.Response.RekeyCorrect
import Dakota.Response.DerivMapping
import Dakota.Response.DerivMappingCorrect
import Dakota.Transport.PackBuffer
import Dakota.Interface.Nonblocking
import Dakota.Interface.NonblockingRuns
import Dakota.Interface.NonblockingSchedulers
import Dakota.Interface.Polling
import Dakota.Interface.Responses
import Dakota.Derivatives.Asynch
import Dakota.Derivatives.AsynchCorrect
import Dakota.Derivatives.ModelRuns
import Dakota.Derivatives.ModelRunsCorrect
import Dakota.Recast.Books
import Dakota.Recast.LayerCorrect
import Dakota.Recast.Runs
