import Harvest.Batch.Basic
import Harvest.Batch.Run
import Harvest.Calendar.Date
import Harvest.Calendar.Embedded
import Harvest.Calendar.Format
import Harvest.Calendar.Iso
import Harvest.Calendar.Layout
import Harvest.Calendar.Mail
import Harvest.Calendar.Names
import Harvest.Calendar.Recognize
import Harvest.Command.Basic
import Harvest.Command.Line
import Harvest.Command.Reach
import Harvest.Command.Run
import Harvest.Config
import Harvest.Config.Documents
import Harvest.Decimal.Arithmetic
import Harvest.Decimal.Binary64
import Harvest.Decimal.Layout
import Harvest.Decimal.Reader
import Harvest.Decimal.Shortest
import Harvest.Digest
import Harvest.Extract
import Harvest.FileName
import Harvest.Files.Error
import Harvest.Files.Glob
import Harvest.Files.System
import Harvest.Files.Wildcard
import Harvest.Form
import Harvest.Issue
import Harvest.Journal
import Harvest.Json.Printer
import Harvest.Json.Reader
import Harvest.Json.Value
import Harvest.Main
import Harvest.Markup.Builder
import Harvest.Markup.Content
import Harvest.Markup.Document
import Harvest.Markup.Html.Entity
import Harvest.Markup.Html.Token
import Harvest.Markup.Html.Tree
import Harvest.Markup.Name
import Harvest.Markup.Outline
import Harvest.Markup.Shape
import Harvest.Markup.Source
import Harvest.Markup.Xml.Token
import Harvest.Markup.Xml.Tree
import Harvest.Match
import Harvest.Path
import Harvest.Pattern.Basic
import Harvest.Pattern.Match
import Harvest.Pattern.Reader
import Harvest.Pattern.Replace
import Harvest.Power
import Harvest.Schema.Compile
import Harvest.Schema.Error
import Harvest.Schema.Load
import Harvest.Schema.Rule
import Harvest.Store.Basic
import Harvest.Store.Documents
import Harvest.Store.Record
import Harvest.Store.Records
import Harvest.Text.Blank
import Harvest.Text.Case
import Harvest.Text.Digit
import Harvest.Text.Printable
import Harvest.Text.Quoted
import Harvest.Text.Range
import Harvest.Text.Utf8
import Harvest.Text.Word
import Harvest.Transform
import Harvest.Workplace
import Harvest.XPath.Basic
import Harvest.XPath.Eval
import Harvest.XPath.Function
import Harvest.XPath.Node
import Harvest.XPath.Number
import Harvest.XPath.Reader
import Harvest.XPath.Value
import Harvest.Proofs.Batch.Counts
import Harvest.Proofs.Batch.Isolation
import Harvest.Proofs.Batch.Orders
import Harvest.Proofs.Batch.Results
import Harvest.Proofs.Calendar.Stable
import Harvest.Proofs.Command.Status
import Harvest.Proofs.Config.Documents
import Harvest.Proofs.Config.Repeated
import Harvest.Proofs.Config.Settled
import Harvest.Proofs.Extract.Conforms
import Harvest.Proofs.Extract.EachMatch
import Harvest.Proofs.Extract.Failures
import Harvest.Proofs.Extract.Refusal
import Harvest.Proofs.Extract.Unpruned
import Harvest.Proofs.Extract.Wrapping
import Harvest.Proofs.Markup.Declaration
import Harvest.Proofs.Markup.Page
import Harvest.Proofs.Markup.Reread
import Harvest.Proofs.Prune.Elements
import Harvest.Proofs.Store.Accepts
import Harvest.Proofs.Store.Documents
import Harvest.Proofs.Store.Lengths
import Harvest.Proofs.XPath.Steady
import Harvest.Proofs.Extract.Checked
import Harvest.Proofs.Schema.Compiled
import Harvest.Proofs.Schema.Older
import Harvest.Proofs.Schema.Reflected
import Harvest.Proofs.Json.Decoded
import Harvest.Proofs.Json.Lines
import Harvest.Proofs.Text.Utf8
import Harvest.Proofs.Store.ReadBack
import Harvest.Proofs.Batch.Flushes
import Harvest.Proofs.Files.Directory
import Harvest.Proofs.Files.Glob
import Harvest.Proofs.Files.Names
import Harvest.Proofs.Text.Blanks
import Harvest.Proofs.Calendar.Timestamp
import Harvest.Proofs.Text.Runs
import Harvest.Proofs.Calendar.MailNumbers
import Harvest.Proofs.Pattern.Language
import Harvest.Proofs.Calendar.Reading
import Harvest.Proofs.Calendar.Normal
import Harvest.Proofs.Calendar.DatePatterns
import Harvest.Proofs.Calendar.Inside
import Harvest.Proofs.Text.Letters
import Harvest.Proofs.Calendar.Words
import Harvest.Proofs.Calendar.Spelling
import Harvest.Proofs.Calendar.Spelled
import Harvest.Proofs.FileName.Normal
import Harvest.Proofs.Decimal.Plain
import Harvest.Proofs.Batch.Reuse
import Harvest.Proofs.Json.Limits
import Harvest.Proofs.Text.Decoded
import Harvest.Proofs.Schema.Loading
