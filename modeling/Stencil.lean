import Stencil.Builder
import Stencil.Command
import Stencil.Compile
import Stencil.Component
import Stencil.Decimal.Binary64
import Stencil.Decimal.Shortest
import Stencil.Diagnostic
import Stencil.Directory
import Stencil.Expression.Basic
import Stencil.Expression.Token
import Stencil.Json.Basic
import Stencil.Json.Printer
import Stencil.Json.Reader
import Stencil.Main
import Stencil.Options.Basic
import Stencil.Options.Reader
import Stencil.Options.Toml
import Stencil.Source.Attribute
import Stencil.Source.BlockComment
import Stencil.Source.Delimited
import Stencil.Source.Lexeme
import Stencil.Text.Blank
import Stencil.Text.Bytes
import Stencil.Text.Digit
import Stencil.Text.Escaped
import Stencil.Text.LetterCase
import Stencil.Text.Printable
import Stencil.Text.Quoted
import Stencil.Toml.Document
import Stencil.Toml.Scalar
import Stencil.Toml.Table
import Stencil.Toml.Text
import Stencil.Toml.Value
import Stencil.Tree.Basic
import Stencil.Tree.Json
import Stencil.Tree.Outline
import Stencil.Proofs.Forest
import Stencil.Proofs.Findings
import Stencil.Proofs.Nesting
import Stencil.Proofs.Positions
import Stencil.Proofs.Reading
import Stencil.Proofs.RoundTrip
import Stencil.Proofs.Development
import Stencil.Proofs.Extent
import Stencil.Proofs.WellFormed
import Stencil.Proofs.Boundary
import Stencil.Proofs.Closing
import Stencil.Proofs.Spacing
import Stencil.Proofs.Flags
import Stencil.Proofs.Regex
import Stencil.Proofs.Pattern
import Stencil.Proofs.JsonText
import Stencil.Proofs.TreeJson
import Stencil.Proofs.Resolution
import Stencil.Proofs.TokenShapes
import Stencil.Proofs.TokenRows
import Stencil.Proofs.Scoping
import Stencil.Proofs.Rewritten
import Stencil.Proofs.BlockComments
import Stencil.Proofs.LiteralBody
import Stencil.Proofs.Locality
import Stencil.Proofs.SelfClosing
import Stencil.Proofs.BareValues
import Stencil.Proofs.Outlines
import Stencil.Proofs.ElementNames
import Stencil.Proofs.OptionForms
import Stencil.Proofs.Cursor
import Stencil.Proofs.Progress
