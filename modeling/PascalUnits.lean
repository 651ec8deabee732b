import PascalUnits.Literal
import PascalUnits.Main
import PascalUnits.Proofs.Scan.Lexeme
import PascalUnits.Proofs.Scan.Run
import PascalUnits.Proofs.Scan.Tiling
import PascalUnits.Proofs.Scan.Trace
import PascalUnits.Proofs.Scan.Comments
import PascalUnits.Proofs.Scan.Lookahead
import PascalUnits.Proofs.Scan.Call
import PascalUnits.Proofs.Scan.Blank
import PascalUnits.Proofs.Scan.LexemeFault
import PascalUnits.Proofs.Scan.Faults
import PascalUnits.Proofs.Scan.Shadow
import PascalUnits.Proofs.Scan.WhiteSpace
import PascalUnits.Proofs.Source.LineTable
import PascalUnits.Proofs.Source.AddressSpace
import PascalUnits.Proofs.Source.Places
import PascalUnits.Proofs.Checked
import PascalUnits.Proofs.Source.LineSearch
import PascalUnits.Proofs.Scan.Rescan
import PascalUnits.Proofs.Scan.Grammar
import PascalUnits.Proofs.Scan.LongestMatch
import PascalUnits.Proofs.Scan.Reading
import PascalUnits.Proofs.Scan.GrammaticalRun
import PascalUnits.Proofs.Index.Registration
import PascalUnits.Proofs.Index.Mentions
import PascalUnits.Proofs.Index.Reading
import PascalUnits.Proofs.Index.Load
import PascalUnits.Proofs.Index.Expansion
import PascalUnits.Proofs.Index.Closure
import PascalUnits.Proofs.Index.History
import PascalUnits.Proofs.Index.Persistence
import PascalUnits.Proofs.Graph.Basic
import PascalUnits.Proofs.Graph.Chains
import PascalUnits.Proofs.Graph.Search
import PascalUnits.Proofs.Graph.Components
import PascalUnits.Proofs.Graph.Groups
import PascalUnits.Proofs.Graph.Cycles
import PascalUnits.Proofs.Graph.Projection
import PascalUnits.Proofs.Index.Words
import PascalUnits.Proofs.Index.Parts
import PascalUnits.Proofs.Index.Resumption
import PascalUnits.Proofs.Path
import PascalUnits.Proofs.Writing
import PascalUnits.Proofs.SourceTree
import PascalUnits.Proofs.Text.Bytes
import PascalUnits.Proofs.Literal
import PascalUnits.Proofs.Scan.Unnamed
import PascalUnits.Proofs.Scan.Drain
import PascalUnits.Proofs.Text.Rewriting
import PascalUnits.Proofs.Text.Latin
import PascalUnits.Proofs.Index.IncludeName
import PascalUnits.Proofs.Scan.Directive
import PascalUnits.Proofs.Index.Contributions
import PascalUnits.Proofs.Index.Inclusion
import PascalUnits.Proofs.Text.LetterCase
import PascalUnits.Proofs.Scan.View
import PascalUnits.Proofs.Scan.LetterCase
import PascalUnits.Proofs.Workspace
import PascalUnits.Proofs.Index.LetterCase
import PascalUnits.Proofs.Graph.LetterCase
import PascalUnits.Proofs.Graph.Explanation
import PascalUnits.Proofs.Report
import PascalUnits.Proofs.Index.Naming
import PascalUnits.Proofs.Program
import PascalUnits.Proofs.Index.Depth
import PascalUnits.Proofs.Precedence
import PascalUnits.Proofs.Scan.Malformed
import PascalUnits.Proofs.Scan.Delivery
import PascalUnits.Proofs.Scan.Progress
import PascalUnits.Proofs.Scan.Quotation
import PascalUnits.Proofs.Text.Quoted
import PascalUnits.Proofs.Listing.Line
import PascalUnits.Proofs.Listing.Files
import PascalUnits.Proofs.Literal.Printable
import PascalUnits.Proofs.Text.Order
import PascalUnits.Proofs.SourceDirectories
import PascalUnits.Proofs.Reader.Basic
import PascalUnits.Proofs.Reader.Lexeme
import PascalUnits.Proofs.Reader.Place
import PascalUnits.Proofs.Reader.Token
import PascalUnits.Proofs.Reader.Run
import PascalUnits.Proofs.Reader.InPlace
import PascalUnits.Proofs.Bisection
import PascalUnits.Proofs.UnitName.Insertion
import PascalUnits.Proofs.Graph.Numbering
import PascalUnits.Proofs.Graph.Content
