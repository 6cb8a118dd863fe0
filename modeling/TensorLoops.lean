import TensorLoops.Attempt
import TensorLoops.Certificate
import TensorLoops.CommandLine.Amount
import TensorLoops.CommandLine.Arguments
import TensorLoops.CommandLine.Options
import TensorLoops.CommandLine.Session
import TensorLoops.CommandLine.UsageError
import TensorLoops.Compilation
import TensorLoops.Diagnostic
import TensorLoops.ElementType
import TensorLoops.Event
import TensorLoops.Extent
import TensorLoops.Graph
import TensorLoops.Hash.Sha256
import TensorLoops.Layout
import TensorLoops.Listing
import TensorLoops.LoopTable
import TensorLoops.Lowering
import TensorLoops.Lowering.Checked
import TensorLoops.Lowering.Expressions
import TensorLoops.Lowering.Loops
import TensorLoops.Main
import TensorLoops.Offset
import TensorLoops.Operation
import TensorLoops.Pointer
import TensorLoops.Port
import TensorLoops.Problem
import TensorLoops.Proofs.Assembly
import TensorLoops.Proofs.Attempts
import TensorLoops.Proofs.Backtracking
import TensorLoops.Proofs.Blanking
import TensorLoops.Proofs.Broadcast
import TensorLoops.Proofs.CallResults
import TensorLoops.Proofs.Calls
import TensorLoops.Proofs.Certified
import TensorLoops.Proofs.Classification
import TensorLoops.Proofs.Compiled
import TensorLoops.Proofs.Concatenation
import TensorLoops.Proofs.Consistency
import TensorLoops.Proofs.Continuations
import TensorLoops.Proofs.DeclarationOrder
import TensorLoops.Proofs.Declarations
import TensorLoops.Proofs.DeclaredAmounts
import TensorLoops.Proofs.Delimiting
import TensorLoops.Proofs.Denotation
import TensorLoops.Proofs.Displacement
import TensorLoops.Proofs.Expectations
import TensorLoops.Proofs.FirstClash
import TensorLoops.Proofs.Forms
import TensorLoops.Proofs.History
import TensorLoops.Proofs.Interruption
import TensorLoops.Proofs.JsonReading
import TensorLoops.Proofs.KernelForms
import TensorLoops.Proofs.KernelPlaces
import TensorLoops.Proofs.KernelReading
import TensorLoops.Proofs.Lexemes
import TensorLoops.Proofs.LinesAndColumns
import TensorLoops.Proofs.ListingKernel
import TensorLoops.Proofs.ListingRoundTrip
import TensorLoops.Proofs.ListingTokens
import TensorLoops.Proofs.Lookups
import TensorLoops.Proofs.LoweredProgram
import TensorLoops.Proofs.Mentions
import TensorLoops.Proofs.Mirroring
import TensorLoops.Proofs.Nodes
import TensorLoops.Proofs.Overriding
import TensorLoops.Proofs.ParsedKernels
import TensorLoops.Proofs.Permutations
import TensorLoops.Proofs.PhysicalAxes
import TensorLoops.Proofs.Pieces
import TensorLoops.Proofs.PortOrder
import TensorLoops.Proofs.Prediction
import TensorLoops.Proofs.ProblemPlaces
import TensorLoops.Proofs.Refreshes
import TensorLoops.Proofs.Relowering
import TensorLoops.Proofs.Rendering
import TensorLoops.Proofs.ReportReading
import TensorLoops.Proofs.Reporting
import TensorLoops.Proofs.Rerun
import TensorLoops.Proofs.Rewinding
import TensorLoops.Proofs.RowMajor
import TensorLoops.Proofs.Runs
import TensorLoops.Proofs.Scanning
import TensorLoops.Proofs.Settled
import TensorLoops.Proofs.Shifting
import TensorLoops.Proofs.Slices
import TensorLoops.Proofs.Spacing
import TensorLoops.Proofs.Specialization
import TensorLoops.Proofs.Spelling
import TensorLoops.Proofs.StageRules
import TensorLoops.Proofs.SyntaxErrors
import TensorLoops.Proofs.TimedRuns
import TensorLoops.Proofs.TokenPlaces
import TensorLoops.Proofs.Topology
import TensorLoops.Proofs.Trials
import TensorLoops.Proofs.UndefinedValues
import TensorLoops.Proofs.WalkedExtents
import TensorLoops.Proofs.WellFormed
import TensorLoops.Provenance
import TensorLoops.Report
import TensorLoops.Resolution
import TensorLoops.Source.Grammar
import TensorLoops.Source.KernelGrammar
import TensorLoops.Source.Parse
import TensorLoops.Source.Position
import TensorLoops.Source.Scan
import TensorLoops.Source.Span
import TensorLoops.Source.Token
import TensorLoops.Source.Tree
import TensorLoops.Stage
import TensorLoops.Stride
import TensorLoops.Text.Blank
import TensorLoops.Text.Bracketed
import TensorLoops.Text.Decimal
import TensorLoops.Text.Integer
import TensorLoops.Text.Invisible
import TensorLoops.Text.Json
import TensorLoops.Text.Quoted
import TensorLoops.Text.Similarity
import TensorLoops.Text.Terminal
import TensorLoops.Walk
import TensorLoops.WorkAmount
