import BlockIR.Command
import BlockIR.Decode
import BlockIR.Decode.Failure
import BlockIR.Editor.Diagnostic
import BlockIR.Editor.Highlight
import BlockIR.Editor.Session
import BlockIR.Editor.Uri
import BlockIR.Editor.Uri.Address
import BlockIR.Failure
import BlockIR.FlowGraph
import BlockIR.Folder
import BlockIR.Instr
import BlockIR.Instr.Shape
import BlockIR.Listing
import BlockIR.Listing.Cursor
import BlockIR.Listing.Failure
import BlockIR.Listing.Grammar
import BlockIR.Listing.Render
import BlockIR.Listing.Rule
import BlockIR.Listing.Token
import BlockIR.Listing.Tree
import BlockIR.Main
import BlockIR.Number.Binary64
import BlockIR.Number.Binary64.Display
import BlockIR.Number.Decimal
import BlockIR.Number.Elapsed
import BlockIR.Number.Hex
import BlockIR.Number.Ratio
import BlockIR.Pass.DeadStore
import BlockIR.Pass.DeadVariable
import BlockIR.Pass.Pipeline
import BlockIR.Pass.Thinning
import BlockIR.Pass.Worklist
import BlockIR.Program
import BlockIR.Program.Builder
import BlockIR.Program.File
import BlockIR.Program.Source
import BlockIR.Proofs.Decode.Schema
import BlockIR.Proofs.Listing.Completeness
import BlockIR.Proofs.Listing.Derivation
import BlockIR.Proofs.Listing.Lexing
import BlockIR.Proofs.Listing.RoundTrip
import BlockIR.Proofs.Listing.Rule
import BlockIR.Proofs.Listing.Spelling
import BlockIR.Proofs.Number.Decimal
import BlockIR.Proofs.Pass.Counting
import BlockIR.Proofs.Pass.NormalForm
import BlockIR.Proofs.Pass.Observation
import BlockIR.Proofs.Pass.Pruning
import BlockIR.Proofs.Pass.Support
import BlockIR.Proofs.Program.Building
import BlockIR.Proofs.Program.Lowering
import BlockIR.Proofs.Program.RoundTrip
import BlockIR.Repl
import BlockIR.Report
import BlockIR.Report.Code
import BlockIR.Table
import BlockIR.Text
import BlockIR.Text.Blank
import BlockIR.Text.Lines
import BlockIR.Text.Order
import BlockIR.Text.Position
import BlockIR.Text.Printable
import BlockIR.Text.Quoted
import BlockIR.Text.Utf8
import BlockIR.Tree
import BlockIR.Tree.Json
import BlockIR.Tree.Json.Strict
import BlockIR.Tree.Json.Window
import BlockIR.Tree.Native
import BlockIR.Proofs.Instr.Shape
import BlockIR.Proofs.Program.Flow
import BlockIR.Proofs.Pass.ControlFlow
import BlockIR.Proofs.Decode.Acceptance
import BlockIR.Proofs.Listing.Acceptance
import BlockIR.Proofs.Decode.Path
import BlockIR.Proofs.Editor.Diagnostic
import BlockIR.Proofs.Editor.Session
import BlockIR.Proofs.Listing.Bodies
import BlockIR.Proofs.Listing.Lines
import BlockIR.Proofs.Listing.Relocation
import BlockIR.Proofs.Repl.Buffer
import BlockIR.Proofs.Repl.Agreement
import BlockIR.Proofs.Pass.Deletion
import BlockIR.Proofs.Pass.Settling
import BlockIR.Proofs.Pass.Survival
import BlockIR.Proofs.Program.Cutting
import BlockIR.Proofs.Program.Successors
import BlockIR.Proofs.Decode.FirstFailure
import BlockIR.Proofs.Listing.Places
import BlockIR.Proofs.Editor.Highlight
import BlockIR.Proofs.Editor.Location
import BlockIR.Proofs.Listing.Scanning
import BlockIR.Proofs.Listing.Blame
import BlockIR.Proofs.Report.Excerpt
import BlockIR.Proofs.Number.LeadingZero
import BlockIR.Proofs.Listing.Integers
import BlockIR.Proofs.Instr.Display
import BlockIR.Proofs.Program.Predecessors
import BlockIR.Proofs.Program.Display
import BlockIR.Proofs.Pass.Bookkeeping
import BlockIR.Proofs.Decode.Threading
