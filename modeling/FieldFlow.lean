import FieldFlow.Analysis.Convergence
import FieldFlow.Analysis.Cycle
import FieldFlow.Analysis.Derivative
import FieldFlow.Analysis.Summary
import FieldFlow.Decode.Field
import FieldFlow.Decode.Record
import FieldFlow.Decode.Registry
import FieldFlow.Decode.Run
import FieldFlow.Ensemble.Distribution
import FieldFlow.Ensemble.Draw
import FieldFlow.Ensemble.Generator
import FieldFlow.Ensemble.Sampler
import FieldFlow.Error
import FieldFlow.Field.Basic
import FieldFlow.Field.Declaration
import FieldFlow.Field.Expression
import FieldFlow.Field.Function
import FieldFlow.Field.Kind
import FieldFlow.Field.Value
import FieldFlow.Json.Number
import FieldFlow.Json.Reader
import FieldFlow.Json.Value
import FieldFlow.Model.Auxiliary
import FieldFlow.Model.Basic
import FieldFlow.Model.Dependency
import FieldFlow.Model.Description
import FieldFlow.Model.Load
import FieldFlow.Model.Order
import FieldFlow.Operation
import FieldFlow.OrderedMap
import FieldFlow.Proofs.Model.Assignment
import FieldFlow.Proofs.Model.EvaluationOrder
import FieldFlow.Proofs.Model.Graph
import FieldFlow.Proofs.Model.Cycles
import FieldFlow.Proofs.Model.Countdown
import FieldFlow.Proofs.Model.Canonical
import FieldFlow.Proofs.Model.VerifiedOrder
import FieldFlow.Proofs.Model.Reads
import FieldFlow.Proofs.Model.Soundness
import FieldFlow.Proofs.System.Buffers
import FieldFlow.Proofs.System.Consistency
import FieldFlow.Proofs.System.Layout
import FieldFlow.Proofs.System.Progress
import FieldFlow.Registry
import FieldFlow.Run.Grid
import FieldFlow.Run.Integrate
import FieldFlow.Run.Recording
import FieldFlow.Scalar
import FieldFlow.Scalar.Double
import FieldFlow.Simulation
import FieldFlow.Solver.Adaptive
import FieldFlow.Solver.Control
import FieldFlow.Solver.Cursor
import FieldFlow.Solver.Equation
import FieldFlow.Solver.Method
import FieldFlow.Solver.RungeKutta
import FieldFlow.Solver.Tableau
import FieldFlow.System.Basic
import FieldFlow.System.Bind
import FieldFlow.System.Evaluate
import FieldFlow.Tensor.Basic
import FieldFlow.Tensor.Broadcast
import FieldFlow.Tensor.Capacity
import FieldFlow.Tensor.History
import FieldFlow.Tensor.Index
import FieldFlow.Tensor.Inverse
import FieldFlow.Tensor.Sectors
import FieldFlow.Text.Decimal
import FieldFlow.Text.Printable
import FieldFlow.Text.Quoted
import FieldFlow.Proofs.Tensor.Extent
import FieldFlow.Proofs.Tensor.Member
import FieldFlow.Proofs.Tensor.Inverse
import FieldFlow.Proofs.Field.Member
import FieldFlow.Proofs.Solver.Pick
import FieldFlow.Proofs.System.Place
import FieldFlow.Proofs.System.Member
import FieldFlow.Proofs.System.BindMember
import FieldFlow.Proofs.Run.Member
import FieldFlow.Proofs.Run.Ensemble
import FieldFlow.Proofs.Run.Steps
import FieldFlow.Proofs.Run.Recorded
import FieldFlow.Proofs.System.Part
import FieldFlow.Proofs.System.Seat
import FieldFlow.Proofs.System.BindPart
import FieldFlow.Proofs.Run.Part
import FieldFlow.Proofs.Model.Rearranged
import FieldFlow.Proofs.Run.Rearranged
import FieldFlow.Proofs.Model.Auxiliary
import FieldFlow.Proofs.Model.Needed
import FieldFlow.Proofs.Run.Initials
import FieldFlow.Proofs.Run.Auxiliary
import FieldFlow.Proofs.Run.Restart
import FieldFlow.Proofs.Field.Value
import FieldFlow.Proofs.Model.Names
import FieldFlow.Proofs.Run.Shortened
import FieldFlow.Proofs.Run.Start
import FieldFlow.Proofs.Simulation.Calls
import FieldFlow.Proofs.Simulation.Failed
import FieldFlow.Proofs.Simulation.Presets
import FieldFlow.Proofs.Simulation.Settings
import FieldFlow.Proofs.Simulation.Origin
import FieldFlow.Proofs.Simulation.Analysis
import FieldFlow.Proofs.System.Parameters
import FieldFlow.Proofs.Solver.Adaptive
import FieldFlow.Proofs.Solver.Finite
import FieldFlow.Proofs.Scalar.Exact
import FieldFlow.Proofs.Scalar.Ordered
import FieldFlow.Proofs.Solver.Interval
import FieldFlow.Proofs.Solver.Attempts
import FieldFlow.Proofs.Solver.Failed
import FieldFlow.Proofs.Solver.Clock
import FieldFlow.Proofs.Run.Trajectory
import FieldFlow.Proofs.Run.Finite
import FieldFlow.Proofs.Run.TimeAxis
import FieldFlow.Proofs.Solver.Balance
import FieldFlow.Proofs.Solver.InPlace
import FieldFlow.Proofs.Solver.Linear
import FieldFlow.Proofs.Solver.Embedded
import FieldFlow.Proofs.Scalar.Partial
import FieldFlow.Proofs.Scalar.Extended
import FieldFlow.Proofs.Solver.Retry
import FieldFlow.Proofs.Solver.Equilibrium
import FieldFlow.Proofs.Model.Attributes
import FieldFlow.Proofs.Model.BareParameter
import FieldFlow.Proofs.Run.RunAxis
import FieldFlow.Proofs.Tensor.OuterAxes
import FieldFlow.Proofs.Tensor.Slices
import FieldFlow.Proofs.Tensor.ResultShape
import FieldFlow.Proofs.Tensor.Slicewise
import FieldFlow.Proofs.Tensor.MatrixAlgebra
import FieldFlow.Proofs.Analysis.Histories
import FieldFlow.Proofs.Analysis.InRange
import FieldFlow.Proofs.Analysis.Orderly
import FieldFlow.Proofs.Scalar.Comparison
import FieldFlow.Proofs.Analysis.Summary
import FieldFlow.Proofs.Analysis.Cycles
import FieldFlow.Proofs.Analysis.Moments
import FieldFlow.Proofs.Analysis.Figures
import FieldFlow.Proofs.Analysis.Statistics
import FieldFlow.Proofs.Analysis.Distances
import FieldFlow.Proofs.Analysis.LeastSquares
import FieldFlow.Proofs.Analysis.Rates
import FieldFlow.Proofs.Analysis.Decay
import FieldFlow.Proofs.Run.Divergence
import FieldFlow.Proofs.Solver.Clocks
import FieldFlow.Proofs.Analysis.Timing
import FieldFlow.Proofs.Ensemble.Validation
import FieldFlow.Proofs.Ensemble.Generator
import FieldFlow.Proofs.Ensemble.LogNormal
import FieldFlow.Proofs.Analysis.Harmonics
import FieldFlow.Proofs.Analysis.Differences
import FieldFlow.Proofs.System.Stretches
import FieldFlow.Proofs.System.Writing
import FieldFlow.Proofs.Run.Recorder
import FieldFlow.Proofs.Run.FlatState
