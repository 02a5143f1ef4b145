import Dataflow.Analysis.Json
import Dataflow.Config.Json
import Dataflow.Json.Writer
import Dataflow.Lattice.Json
import Dataflow.Main
import Dataflow.Program.ScriptJson
import Dataflow.Proofs.Graph.Reachability
import Dataflow.Proofs.Solver.PostFixpoint
import Dataflow.Proofs.Lattice.Absorption
import Dataflow.Proofs.Variables.Walk
import Dataflow.Proofs.Visit.Ensures
import Dataflow.Proofs.Variables.Solution
import Dataflow.Proofs.State.Writes
import Dataflow.Proofs.Variables.Boundary
import Dataflow.Proofs.Copies.Partition
import Dataflow.Proofs.Copies.Soundness
import Dataflow.Proofs.Contents.Soundness
import Dataflow.Proofs.Contents.Requests
import Dataflow.Proofs.PointsTo.Values
import Dataflow.Proofs.PointsTo.Soundness
import Dataflow.Proofs.Taint.Soundness
import Dataflow.Proofs.Lattice.Laws
import Dataflow.Proofs.Lattice.Bounds
import Dataflow.Proofs.Settling.Analyses
import Dataflow.Proofs.Copies.States
import Dataflow.Proofs.Contracts.Requests
import Dataflow.Proofs.Taint.Sinks
import Dataflow.Proofs.Taint.Evidence
import Dataflow.Proofs.Taint.Contributions
import Dataflow.Proofs.Session.Sharing
import Dataflow.Proofs.Session.Transparency
import Dataflow.Proofs.Calls.Memo
import Dataflow.Proofs.Calls.Afresh
import Dataflow.Proofs.Calls.Standalone
import Dataflow.Proofs.Calls.Summaries
import Dataflow.Proofs.Calls.Agreement
import Dataflow.Proofs.Session.Work
import Dataflow.Proofs.Calls.Order
import Dataflow.Proofs.Calls.Refused
import Dataflow.Proofs.Calls.Sealed
import Dataflow.Proofs.Taint.Rules
import Dataflow.Proofs.State.Aliases
import Dataflow.Proofs.Json.Decoding
import Dataflow.Proofs.Json.Operations
import Dataflow.Proofs.Json.Programs
import Dataflow.Proofs.Visit.Names
import Dataflow.Proofs.Calls.Escape
import Dataflow.Proofs.Arrays.Requests
import Dataflow.Proofs.Calls.Everything
import Dataflow.Proofs.Calls.Leaks
import Dataflow.Proofs.Calls.Recall
import Dataflow.Proofs.Calls.Runs
import Dataflow.Proofs.Copies.Unknown
import Dataflow.Proofs.Calls.ByReference
import Dataflow.Proofs.Locals.Joins
import Dataflow.Proofs.Lattice.Extremes
import Dataflow.Proofs.State.Merging
import Dataflow.Proofs.PointsTo.Representation
import Dataflow.Proofs.Entity.Identity
import Dataflow.Proofs.Solver.Passes
import Dataflow.Proofs.Solver.Coverage
import Dataflow.Proofs.Calls.Rounds
import Dataflow.Proofs.Calls.Spared
import Dataflow.Proofs.Calls.Reservations
import Dataflow.Proofs.Assembly.Scripts
