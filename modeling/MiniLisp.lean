import MiniLisp.Value.Text
import MiniLisp.Error
import MiniLisp.Operator.Unary
import MiniLisp.Operator.Binary
import MiniLisp.Operator.Variadic
import MiniLisp.Syntax.Same
import MiniLisp.Interner
import MiniLisp.Factory
import MiniLisp.CallStack
import MiniLisp.FunctionTable
import MiniLisp.Scope.Place
import MiniLisp.Eval.Basic
import MiniLisp.Session
import MiniLisp.Depth
import MiniLisp.Inspect
import MiniLisp.Proofs.Fuel
import MiniLisp.Proofs.Store
import MiniLisp.Proofs.Footprint
import MiniLisp.Proofs.Locality
import MiniLisp.Proofs.Backtrace
import MiniLisp.Proofs.DepthLimit
import MiniLisp.Proofs.Execution
import MiniLisp.Proofs.Step
import MiniLisp.Proofs.Termination
import MiniLisp.Proofs.Simulation
import MiniLisp.Proofs.Correspondence
import MiniLisp.Proofs.Similarity
import MiniLisp.Proofs.Interner
import MiniLisp.Proofs.Returns
import MiniLisp.Proofs.Renaming
import MiniLisp.Proofs.Integers
import MiniLisp.Proofs.Assignment
import MiniLisp.Proofs.Commutation
import MiniLisp.Proofs.Sessions
import MiniLisp.Proofs.Printing
import MiniLisp.Proofs.ReadBack
import MiniLisp.Proofs.Convergence
import MiniLisp.Proofs.Bodies
import MiniLisp.Proofs.BranchPath
import MiniLisp.Proofs.CountedLoops
import MiniLisp.Proofs.Definers
import MiniLisp.Proofs.Places
import MiniLisp.Proofs.Sequencing
import MiniLisp.Proofs.Updates
import MiniLisp.Proofs.Operands
import MiniLisp.Proofs.Arithmetic
import MiniLisp.Proofs.Failures
import MiniLisp.Proofs.FloatOrder
import MiniLisp.Proofs.Promotion
import MiniLisp.Proofs.Extremum
import MiniLisp.Proofs.Comparison
import MiniLisp.Proofs.Regrouping
import MiniLisp.Proofs.Equality
import MiniLisp.Proofs.History
import MiniLisp.Proofs.Building
