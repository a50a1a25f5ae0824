import ExprCalculus.Calculus.Antiderivative
import ExprCalculus.Calculus.Derivative
import ExprCalculus.Expr.Operand
import ExprCalculus.Expr.Traversal
import ExprCalculus.Grid.Evaluation
import ExprCalculus.Polynomial.Expansion
import ExprCalculus.Polynomial.Factorization
import ExprCalculus.Text.Quoted
import ExprCalculus.Workspace
import ExprCalculus.Proofs.Grammar.Derivation
import ExprCalculus.Proofs.Grammar.ReaderSteps
import ExprCalculus.Proofs.Grammar.Soundness
import ExprCalculus.Proofs.Grammar.Completeness
import ExprCalculus.Proofs.Grammar.Recognition
import ExprCalculus.Proofs.Grammar.FirstError
import ExprCalculus.Proofs.Simplification.Idempotence
import ExprCalculus.Proofs.Simplification.Preservation
import ExprCalculus.Proofs.Calculus.FundamentalTheorem
import ExprCalculus.Proofs.Calculus.Markers
import ExprCalculus.Proofs.Calculus.Refusals
import ExprCalculus.Proofs.Calculus.Slopes
import ExprCalculus.Proofs.Calculus.Substitution
import ExprCalculus.Proofs.Grid.Refinement
import ExprCalculus.Proofs.Factoring.Totality
import ExprCalculus.Proofs.Polynomial.Factorization
import ExprCalculus.Proofs.Printing.RoundTrip
import ExprCalculus.Proofs.Printing.Transformations
import ExprCalculus.Proofs.Evaluation.Overflows
import ExprCalculus.Proofs.Linear.Simplification
import ExprCalculus.Proofs.Simplification.Undefined
import ExprCalculus.Proofs.Expansion.Rewriting
import ExprCalculus.Proofs.Expansion.RingReading
import ExprCalculus.Proofs.Combinatorics.Bindings
import ExprCalculus.Proofs.Evaluation.Substitution
import ExprCalculus.Proofs.Comparison.Equality
import ExprCalculus.Proofs.Scanning.Lossless
import ExprCalculus.Proofs.Calculus.AffineValues
import ExprCalculus.Proofs.Simplification.TermLists
import ExprCalculus.Proofs.Rebuilding.Variables
import ExprCalculus.Proofs.Journal.Delivery
import ExprCalculus.Proofs.Traversal
import ExprCalculus.Proofs.Polynomial.LinearFactors
import ExprCalculus.Proofs.Factoring.CommonFactors
import ExprCalculus.Proofs.Factoring.ReadBack
