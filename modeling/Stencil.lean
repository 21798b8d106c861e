import Stencil.Command.Arguments
import Stencil.Command.Execution
import Stencil.Command.Inputs
import Stencil.Command.Invocation
import Stencil.Command.Program
import Stencil.Data.Condition
import Stencil.Data.Context
import Stencil.Data.Datum
import Stencil.Data.Fields
import Stencil.Data.Format
import Stencil.Data.Json.Numeral
import Stencil.Data.Json.Reader
import Stencil.Data.Json.Writer
import Stencil.Data.Path
import Stencil.Data.Toml.Moment
import Stencil.Data.Toml.Quoted
import Stencil.Data.Toml.Reader
import Stencil.Data.Toml.Scalar
import Stencil.Data.Toml.Table
import Stencil.Data.Value
import Stencil.Data.Yaml.BlockScalar
import Stencil.Data.Yaml.Cursor
import Stencil.Data.Yaml.FlowScalar
import Stencil.Data.Yaml.Gap
import Stencil.Data.Yaml.Graph
import Stencil.Data.Yaml.Node
import Stencil.Data.Yaml.Reader
import Stencil.Data.Yaml.Scalar
import Stencil.Data.Yaml.Tag
import Stencil.Data.Yaml.Token
import Stencil.Files.Fault
import Stencil.Files.FilePath
import Stencil.Files.FileTree
import Stencil.Files.Host
import Stencil.Main
import Stencil.Number.Arithmetic
import Stencil.Number.Basic
import Stencil.Number.Decimal
import Stencil.Number.Shortest
import Stencil.Number.Word
import Stencil.Proofs.Agreement
import Stencil.Proofs.Allotment
import Stencil.Proofs.Branches
import Stencil.Proofs.Clean
import Stencil.Proofs.Clearing
import Stencil.Proofs.Commuting
import Stencil.Proofs.Comparing
import Stencil.Proofs.Concatenation
import Stencil.Proofs.Dependence
import Stencil.Proofs.Descent
import Stencil.Proofs.Digits
import Stencil.Proofs.Dispatch
import Stencil.Proofs.Edits
import Stencil.Proofs.Enclosure
import Stencil.Proofs.Escaping
import Stencil.Proofs.Excerpts
import Stencil.Proofs.Fills
import Stencil.Proofs.Footprint
import Stencil.Proofs.Grammar
import Stencil.Proofs.Growth
import Stencil.Proofs.Integers
import Stencil.Proofs.Layers
import Stencil.Proofs.Leftmost
import Stencil.Proofs.Legible
import Stencil.Proofs.Lookup
import Stencil.Proofs.Offers
import Stencil.Proofs.Outlines
import Stencil.Proofs.Overriding
import Stencil.Proofs.Parsing
import Stencil.Proofs.Partition
import Stencil.Proofs.Passes
import Stencil.Proofs.Positions
import Stencil.Proofs.Printing
import Stencil.Proofs.ReadBack
import Stencil.Proofs.Refinement
import Stencil.Proofs.Refusal
import Stencil.Proofs.Reordering
import Stencil.Proofs.Resolution
import Stencil.Proofs.Rounding
import Stencil.Proofs.Scan
import Stencil.Proofs.SingleRow
import Stencil.Proofs.Spelling
import Stencil.Proofs.Surroundings
import Stencil.Proofs.TagKinds
import Stencil.Proofs.TagReading
import Stencil.Proofs.Tokens
import Stencil.Proofs.Trees
import Stencil.Proofs.Untouched
import Stencil.Proofs.Validation
import Stencil.Render.Expansion
import Stencil.Render.Placeholder
import Stencil.Render.Renderer
import Stencil.Report.Explanation
import Stencil.Report.Listing
import Stencil.Report.Positioned
import Stencil.Report.Problem
import Stencil.Settings
import Stencil.Template.Block
import Stencil.Template.Fault
import Stencil.Template.Location
import Stencil.Template.Node
import Stencil.Template.Outline
import Stencil.Template.Tag
import Stencil.Template.Token
import Stencil.Text.Blank
import Stencil.Text.Bytes
import Stencil.Text.Distance
import Stencil.Text.Hexadecimal
import Stencil.Text.Lines
import Stencil.Text.Occurrence
import Stencil.Text.Quoted
import Stencil.Text.Reader
import Stencil.Text.Scan
import Stencil.Text.Separated
import Stencil.Text.Unprintable
import Stencil.Widget.Callback
import Stencil.Widget.ClassNames
import Stencil.Widget.Exception
import Stencil.Widget.Fault
import Stencil.Widget.Placement
import Stencil.Widget.Selector
