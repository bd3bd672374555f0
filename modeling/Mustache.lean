import Mustache.Text.Blank
import Mustache.Text.Search
import Mustache.Delimiters
import Mustache.Template.Token
import Mustache.Template.Error
import Mustache.Template.Tag
import Mustache.Template.Scanner
import Mustache.Template.Standalone
import Mustache.Template.Section
import Mustache.Escape
import Mustache.Entries
import Mustache.Decimal.Shortest
import Mustache.Decimal.Float
import Mustache.Context.Basic
import Mustache.Context.Lookup
import Mustache.Settings
import Mustache.Context.Width
import Mustache.Render.Machine
import Mustache.Render.Progress
import Mustache.Render.Run
import Mustache.Text.Reader
import Mustache.Text.Digits
import Mustache.Json.Value
import Mustache.Json.Number
import Mustache.Json.Text
import Mustache.Toml.Datetime
import Mustache.Toml.Value
import Mustache.Toml.Settled
import Mustache.Toml.Table
import Mustache.Toml.Text
import Mustache.Settings.Toml
import Mustache.Dialect
import Mustache.Files.Path
import Mustache.Files.Error
import Mustache.Files.Store
import Mustache.Error
import Mustache.Data
import Mustache.Command.Arguments
import Mustache.Command.Run
import Mustache.Main
import Mustache.Proofs.Reading
import Mustache.Proofs.Reading.Improper
import Mustache.Proofs.Reading.Scan
import Mustache.Proofs.Reading.Progress
import Mustache.Proofs.Indenters
import Mustache.Proofs.Reading.Lines
import Mustache.Proofs.Reading.Calls
import Mustache.Proofs.Cuts
import Mustache.Proofs.Reading.Literal
import Mustache.Proofs.Reading.Append
import Mustache.Proofs.Reading.Blanks
import Mustache.Proofs.Reading.LoneTag
import Mustache.Proofs.Reading.Starts
import Mustache.Proofs.Sections
import Mustache.Proofs.Sections.Balance
import Mustache.Proofs.Sections.Pairing
import Mustache.Proofs.Run
import Mustache.Proofs.Run.Moves
import Mustache.Proofs.Run.Failure
import Mustache.Proofs.Run.Indentation
import Mustache.Proofs.Run.OwnLine
import Mustache.Proofs.Tree
import Mustache.Proofs.Tree.Evaluate
import Mustache.Proofs.Tree.Run
import Mustache.Proofs.Tree.Compare
import Mustache.Proofs.Run.Swap
import Mustache.Proofs.Composition
import Mustache.Proofs.DelimiterChange
import Mustache.Proofs.HiddenSection
import Mustache.Proofs.Inlining
import Mustache.Proofs.IndentedPartial
import Mustache.Proofs.Layers
import Mustache.Proofs.Layers.Nesting
import Mustache.Proofs.LineNumbers
import Mustache.Proofs.Markup
import Mustache.Proofs.Depth
import Mustache.Proofs.Run.Stacks
import Mustache.Proofs.Influence
import Mustache.Proofs.Command.View
import Mustache.Proofs.Command
import Mustache.Proofs.Command.Partials
import Mustache.Proofs.Entities
import Mustache.Proofs.Scopes
import Mustache.Proofs.Complements
import Mustache.Proofs.Conversion.Structured
import Mustache.Proofs.Conversion.Numbers
import Mustache.Proofs.Conversion.Ordered
import Mustache.Proofs.Conversion
