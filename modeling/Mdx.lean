import Mdx.Editor.Server
import Mdx.Proofs.Tree.Block
import Mdx.Proofs.Tree.Document
import Mdx.Proofs.Tree.Nesting
import Mdx.Proofs.RangeSet
import Mdx.Proofs.Regions.Marks
import Mdx.Proofs.Tree.Coverage
import Mdx.Proofs.Regions.Parsed
import Mdx.Proofs.Generated
import Mdx.Proofs.View.Prose
import Mdx.Proofs.View.Faithful
import Mdx.Proofs.View.Routing
import Mdx.Proofs.Shadow
import Mdx.Proofs.View.Script
import Mdx.Proofs.Script.Identifier
import Mdx.Proofs.Script.Lookahead
import Mdx.Proofs.MappedSpan
import Mdx.Proofs.View.Identifier
import Mdx.Proofs.Blame.Tag
import Mdx.Proofs.Blame.Document
import Mdx.Proofs.Feature.Bounds
import Mdx.Proofs.Editor.History
import Mdx.Proofs.View.Line
import Mdx.Proofs.Text.Utf16
import Mdx.Proofs.Progress.Document
import Mdx.Proofs.Trace.Inline
import Mdx.Proofs.Trace.Document
import Mdx.Proofs.Trace.Paragraph
import Mdx.Proofs.Tree.Pairing
import Mdx.Proofs.Tree.Fence
import Mdx.Proofs.Tree.Paragraph
import Mdx.Proofs.Script.Matching
import Mdx.Proofs.Tag.ReadBack
import Mdx.Proofs.Script.Balance
import Mdx.Proofs.Tree.Statement
import Mdx.Proofs.Script.Dyck
import Mdx.Proofs.Regions.Lineage
import Mdx.Proofs.RangeSet.Canonical
import Mdx.Proofs.Mapping.Enclosing
import Mdx.Proofs.Mapping.Search
import Mdx.Proofs.Generated.Parts
import Mdx.Proofs.Shadow.Sweep
import Mdx.Proofs.View.Exact
import Mdx.Proofs.Script.Property
import Mdx.Proofs.Service.Reference
import Mdx.Proofs.Script.Export
import Mdx.Proofs.Tree.Content
import Mdx.Proofs.Regions.Start
import Mdx.Proofs.View.Indent
import Mdx.Proofs.View.Dedent
import Mdx.Proofs.View.Literal
import Mdx.Proofs.Script.Run
import Mdx.Proofs.Script.Binding
import Mdx.Proofs.Script.Embedded
import Mdx.Proofs.View.Scaffold
import Mdx.Proofs.Service.Declaration
import Mdx.Proofs.Service.Unused
import Mdx.Proofs.Regions.Border
import Mdx.Proofs.View.Cursor
import Mdx.Proofs.Service.Rename
import Mdx.Proofs.Feature.Rename
import Mdx.Proofs.Feature.Outline
import Mdx.Proofs.Feature.Fold
import Mdx.Proofs.Service.Outline
import Mdx.Proofs.Feature.Cursor
import Mdx.Proofs.Script.Tiling
import Mdx.Proofs.Script.Words
import Mdx.Proofs.Settings.Pragma
