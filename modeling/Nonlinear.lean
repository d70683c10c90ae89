import Nonlinear.Formula
import Nonlinear.Json.Printer
import Nonlinear.Json.Reader
import Nonlinear.Log.Events
import Nonlinear.Storage.Record
import Nonlinear.Proofs.Minimum.Unimodal
import Nonlinear.Proofs.Newton.Verdict
import Nonlinear.Proofs.Root.Containment
import Nonlinear.Proofs.Root.SignChange
import Nonlinear.Proofs.Newton.Scratch
import Nonlinear.Proofs.Root.Narrowing
import Nonlinear.Proofs.Root.Bisection
import Nonlinear.Proofs.FloatingPoint.Nearest
import Nonlinear.Proofs.FloatingPoint.Rounding
import Nonlinear.Proofs.FloatingPoint.Arithmetic
import Nonlinear.Proofs.FloatingPoint.Infinity
import Nonlinear.Proofs.JacobianCheck
import Nonlinear.Proofs.Search.Rounded
import Nonlinear.Proofs.Root.Rounded
import Nonlinear.Proofs.Minimum.Rounded
import Nonlinear.Proofs.Search.Containment
import Nonlinear.Proofs.Loop.Continuation
import Nonlinear.Proofs.Search.Budget
import Nonlinear.Proofs.Root.Tightening
import Nonlinear.Proofs.Factorization.Elimination
import Nonlinear.Proofs.Newton.Tightening
import Nonlinear.Proofs.Factorization.Substitution
import Nonlinear.Proofs.Factorization.Solver
import Nonlinear.Proofs.Minimum.Enclosure
import Nonlinear.Proofs.Minimum.Ends
import Nonlinear.Proofs.Minimum.Ranking
import Nonlinear.Proofs.JacobianCheck.Affine
import Nonlinear.Proofs.Newton.Affine
import Nonlinear.Proofs.Root.Reversal
import Nonlinear.Proofs.Propagation
import Nonlinear.Proofs.Search.Bookkeeping
import Nonlinear.Proofs.Newton.Bookkeeping
import Nonlinear.Proofs.Minimum.Shrinking
import Nonlinear.Proofs.Newton.LineSearch
import Nonlinear.Proofs.Agreement
import Nonlinear.Proofs.Root.Rescaling
import Nonlinear.Proofs.Minimum.Rescaling
import Nonlinear.Proofs.Newton.EquationOrder
import Nonlinear.Proofs.Storage.RoundTrip
import Nonlinear.Proofs.Toml.Keys
import Nonlinear.Proofs.ForwardDifference.Divisor
import Nonlinear.Proofs.Storage.Loading
import Nonlinear.Proofs.Newton.Halving
import Nonlinear.Proofs.Minimum.GoldenSection
import Nonlinear.Proofs.Newton.Convex
import Nonlinear.Proofs.ForwardDifference.Frame
import Nonlinear.Proofs.Root.Line
import Nonlinear.Proofs.Scalar.Largest
import Nonlinear.Proofs.JacobianCheck.WorstEntry
import Nonlinear.Proofs.JacobianCheck.Bookkeeping
import Nonlinear.Proofs.ResidualNorm.Rounded
import Nonlinear.Proofs.Config.Constructors
import Nonlinear.Proofs.ForwardDifference.Sizes
import Nonlinear.Proofs.Root.Interpolation
import Nonlinear.Proofs.Minimum.Parabola
