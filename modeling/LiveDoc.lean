import LiveDoc.Decimal.Binary64
import LiveDoc.Decimal.Shortest
import LiveDoc.Document.Basic
import LiveDoc.Document.Fault
import LiveDoc.Document.JsonForm
import LiveDoc.Document.Printer
import LiveDoc.Document.Reader
import LiveDoc.Edit.Apply
import LiveDoc.Edit.Batch
import LiveDoc.Edit.Failure
import LiveDoc.Edit.JsonForm
import LiveDoc.Edit.Operation
import LiveDoc.Edit.Paths
import LiveDoc.Edit.Reader
import LiveDoc.Finding
import LiveDoc.Grammar.Basic
import LiveDoc.Grammar.Reach
import LiveDoc.Grammar.Rule
import LiveDoc.Grammar.Standard
import LiveDoc.IdSupply
import LiveDoc.Inline.Basic
import LiveDoc.Inline.JsonForm
import LiveDoc.Inline.Printer
import LiveDoc.Inline.Reader
import LiveDoc.Inline.Style
import LiveDoc.Json.Basic
import LiveDoc.Json.Number
import LiveDoc.Json.Printer
import LiveDoc.Json.Reader
import LiveDoc.Json.Record
import LiveDoc.Json.Schema
import LiveDoc.Json.Token
import LiveDoc.Json.Written
import LiveDoc.Markup.Attribute
import LiveDoc.Markup.Element
import LiveDoc.Markup.Escape
import LiveDoc.Markup.Event
import LiveDoc.Markup.Fault
import LiveDoc.Markup.Layout
import LiveDoc.Markup.Token
import LiveDoc.Node.Basic
import LiveDoc.Node.Check
import LiveDoc.Node.Forest
import LiveDoc.Node.JsonForm
import LiveDoc.Node.Printer
import LiveDoc.Node.Reader
import LiveDoc.Node.Search
import LiveDoc.Proofs.Decimal.Digits
import LiveDoc.Proofs.Decimal.Rounding
import LiveDoc.Proofs.Decimal.Shortest
import LiveDoc.Proofs.Document.DiffRoundTrip
import LiveDoc.Proofs.Document.Edited
import LiveDoc.Proofs.Document.Faults
import LiveDoc.Proofs.Document.Ids
import LiveDoc.Proofs.Document.JsonForm
import LiveDoc.Proofs.Document.RoundTrip
import LiveDoc.Proofs.Document.Values
import LiveDoc.Proofs.Edit.Applicable
import LiveDoc.Proofs.Edit.Batch
import LiveDoc.Proofs.Edit.Composition
import LiveDoc.Proofs.Edit.DistinctIds
import LiveDoc.Proofs.Edit.Effect
import LiveDoc.Proofs.Edit.FieldEdit
import LiveDoc.Proofs.Edit.Frame
import LiveDoc.Proofs.Edit.JsonForm
import LiveDoc.Proofs.Edit.Kept
import LiveDoc.Proofs.Edit.Move
import LiveDoc.Proofs.Edit.MoveAgain
import LiveDoc.Proofs.Edit.OpaqueIds
import LiveDoc.Proofs.Edit.Outline
import LiveDoc.Proofs.Edit.Paths
import LiveDoc.Proofs.Edit.Relabel
import LiveDoc.Proofs.Edit.Selection
import LiveDoc.Proofs.Edit.Sound
import LiveDoc.Proofs.Edit.Undo
import LiveDoc.Proofs.Forest.Check
import LiveDoc.Proofs.Forest.Findings
import LiveDoc.Proofs.Forest.Hole
import LiveDoc.Proofs.Forest.Paths
import LiveDoc.Proofs.Forest.Relabel
import LiveDoc.Proofs.Forest.Searches
import LiveDoc.Proofs.Forest.Siblings
import LiveDoc.Proofs.Forest.Traversal
import LiveDoc.Proofs.Forest.Without
import LiveDoc.Proofs.Grammar.Attributes
import LiveDoc.Proofs.Grammar.Editable
import LiveDoc.Proofs.Grammar.Ids
import LiveDoc.Proofs.Grammar.Operable
import LiveDoc.Proofs.Grammar.Placing
import LiveDoc.Proofs.Grammar.Printable
import LiveDoc.Proofs.Grammar.Reachable
import LiveDoc.Proofs.Grammar.Search
import LiveDoc.Proofs.Grammar.Shaping
import LiveDoc.Proofs.Grammar.Standard
import LiveDoc.Proofs.IdSupply
import LiveDoc.Proofs.Inline.Canonical
import LiveDoc.Proofs.Inline.JsonForm
import LiveDoc.Proofs.Inline.Leaves
import LiveDoc.Proofs.Inline.Outline
import LiveDoc.Proofs.Inline.Style
import LiveDoc.Proofs.Inline.Values
import LiveDoc.Proofs.Json.Float
import LiveDoc.Proofs.Json.Number
import LiveDoc.Proofs.Json.Reading
import LiveDoc.Proofs.Json.Record
import LiveDoc.Proofs.Json.Reread
import LiveDoc.Proofs.Json.Token
import LiveDoc.Proofs.Json.Value
import LiveDoc.Proofs.Markup.Elements
import LiveDoc.Proofs.Markup.EventTree
import LiveDoc.Proofs.Markup.Insignificant
import LiveDoc.Proofs.Markup.Joined
import LiveDoc.Proofs.Markup.Naming
import LiveDoc.Proofs.Markup.Parameters
import LiveDoc.Proofs.Markup.Scanning
import LiveDoc.Proofs.Markup.Sections
import LiveDoc.Proofs.Markup.Spelling
import LiveDoc.Proofs.Markup.Tags
import LiveDoc.Proofs.Markup.Written
import LiveDoc.Proofs.Node.Canonical
import LiveDoc.Proofs.Node.JsonForm
import LiveDoc.Proofs.Node.Outline
import LiveDoc.Proofs.Node.Reread
import LiveDoc.Proofs.Node.Sound
import LiveDoc.Proofs.Node.Values
import LiveDoc.Proofs.Outcome
import LiveDoc.Proofs.Reading.Account
import LiveDoc.Proofs.Reading.Flatten
import LiveDoc.Proofs.Reading.InlineForm
import LiveDoc.Proofs.Reading.Insignificant
import LiveDoc.Proofs.Reading.Joined
import LiveDoc.Proofs.Reading.JsonForm
import LiveDoc.Proofs.Reading.Node
import LiveDoc.Proofs.Reading.NodeForm
import LiveDoc.Proofs.Reading.NodeIds
import LiveDoc.Proofs.Reading.NodeShape
import LiveDoc.Proofs.Reading.NodeSound
import LiveDoc.Proofs.Reading.Operation
import LiveDoc.Proofs.Reading.OperationForm
import LiveDoc.Proofs.Reading.Origin
import LiveDoc.Proofs.Reading.Place
import LiveDoc.Proofs.Reading.Refusal
import LiveDoc.Proofs.Reading.Steps
import LiveDoc.Proofs.Reading.TextTable
import LiveDoc.Proofs.Run.Account
import LiveDoc.Proofs.Run.Course
import LiveDoc.Proofs.Run.Replay
import LiveDoc.Proofs.Run.Stopping
import LiveDoc.Proofs.Session.Counter
import LiveDoc.Proofs.Session.Reader
import LiveDoc.Proofs.Session.Writer
import LiveDoc.Proofs.Table
import LiveDoc.Proofs.Text.Commas
import LiveDoc.Proofs.Text.NamePattern
import LiveDoc.Proofs.Variable.Declaration
import LiveDoc.Proofs.Variable.Values
import LiveDoc.Run.Event
import LiveDoc.Run.Execution
import LiveDoc.Run.Function
import LiveDoc.Run.Registry
import LiveDoc.Run.Result
import LiveDoc.Run.Scripted
import LiveDoc.Run.Settings
import LiveDoc.Run.Timestamp
import LiveDoc.Session.Counter
import LiveDoc.Session.Reader
import LiveDoc.Session.Writer
import LiveDoc.Table
import LiveDoc.Text.Blank
import LiveDoc.Text.CaseFolding
import LiveDoc.Text.CharSet
import LiveDoc.Text.Checksum
import LiveDoc.Text.Digits
import LiveDoc.Text.Pattern.Atom
import LiveDoc.Text.Pattern.Basic
import LiveDoc.Text.Pattern.Bracket
import LiveDoc.Text.Pattern.Reader
import LiveDoc.Text.Property.Basic
import LiveDoc.Text.Property.Category
import LiveDoc.Text.Property.Script
import LiveDoc.Text.Property.Trait
import LiveDoc.Text.Ranges
import LiveDoc.Variable.Basic
import LiveDoc.Variable.Resolution
import LiveDoc.Variable.Value
