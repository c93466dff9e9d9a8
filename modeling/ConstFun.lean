import ConstFun.Main
import ConstFun.Proofs.Classes
import ConstFun.Proofs.SolverStep
import ConstFun.Proofs.Tables
import ConstFun.Proofs.Narrowing
import ConstFun.Proofs.Points
import ConstFun.Proofs.Consistency
import ConstFun.Proofs.Order
import ConstFun.Proofs.Termination
import ConstFun.Proofs.Sessions
import ConstFun.Proofs.Literals
import ConstFun.Proofs.Fixpoint
import ConstFun.Proofs.Obligations
import ConstFun.Proofs.Equalities
import ConstFun.Proofs.Colors
import ConstFun.Proofs.LiteralClasses
import ConstFun.Proofs.Verdict
import ConstFun.Proofs.Decision
import ConstFun.Proofs.SharedKinds
import ConstFun.Proofs.Declarations
import ConstFun.Proofs.Resolution
import ConstFun.Proofs.Analyses
import ConstFun.Proofs.Constants
import ConstFun.Proofs.Lowering
import ConstFun.Proofs.Compilation
import ConstFun.Proofs.Lexemes
import ConstFun.Proofs.Gaps
import ConstFun.Proofs.Scanning
import ConstFun.Proofs.Recognition
import ConstFun.Proofs.Grammar
import ConstFun.Proofs.Parsing
import ConstFun.Proofs.Acceptance
import ConstFun.Proofs.Outcomes
import ConstFun.Proofs.Rounding
import ConstFun.Proofs.IntegerConstants
import ConstFun.Proofs.Naming
import ConstFun.Proofs.ModuleText
import ConstFun.Proofs.Logging
import ConstFun.Proofs.Paths
import ConstFun.Proofs.Exits
import ConstFun.Proofs.Messages
import ConstFun.Proofs.Refusals
import ConstFun.Proofs.Places
import ConstFun.Proofs.Spans
import ConstFun.Proofs.Comments
import ConstFun.Proofs.FloatConstants
import ConstFun.Proofs.Requests
import ConstFun.Proofs.Lines
import ConstFun.Proofs.Snippets
import ConstFun.Proofs.PathCompression
import ConstFun.Proofs.Origins
import ConstFun.Proofs.Delivery
import ConstFun.Proofs.Identifiers
import ConstFun.Proofs.Progress
import ConstFun.Proofs.IntegerKinds
