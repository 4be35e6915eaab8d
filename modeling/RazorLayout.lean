import RazorLayout.AsciiSet
import RazorLayout.Attribute.Basic
import RazorLayout.Attribute.Reader
import RazorLayout.Block.Basic
import RazorLayout.Block.Reader
import RazorLayout.Block.Switch
import RazorLayout.Collaborator.Basic
import RazorLayout.Collaborator.Script
import RazorLayout.Config.Basic
import RazorLayout.Config.Options
import RazorLayout.Config.Value
import RazorLayout.Directive
import RazorLayout.Document.Format
import RazorLayout.Document.Region
import RazorLayout.Journal
import RazorLayout.Layout.Block
import RazorLayout.Layout.Item
import RazorLayout.Layout.Markup
import RazorLayout.Layout.Sheet
import RazorLayout.Main
import RazorLayout.Proofs.Attribute.ReadBack
import RazorLayout.Proofs.Attribute.Reading
import RazorLayout.Proofs.Block.Canonical
import RazorLayout.Proofs.Block.Sections
import RazorLayout.Proofs.Block.Span
import RazorLayout.Proofs.Block.Spelling
import RazorLayout.Proofs.Config.Entries
import RazorLayout.Proofs.Config.Merging
import RazorLayout.Proofs.Config.Validity
import RazorLayout.Proofs.Config.Values
import RazorLayout.Proofs.Document.Agreement
import RazorLayout.Proofs.Document.Downgrade
import RazorLayout.Proofs.Document.FinalNewline
import RazorLayout.Proofs.Document.Idempotence
import RazorLayout.Proofs.Document.Indentation
import RazorLayout.Proofs.Document.LineEndings
import RazorLayout.Proofs.Document.NestingLimit
import RazorLayout.Proofs.Document.OwnedLines
import RazorLayout.Proofs.Document.Regions
import RazorLayout.Proofs.Document.Search
import RazorLayout.Proofs.Document.SideBySide
import RazorLayout.Proofs.Document.Verbatim
import RazorLayout.Proofs.Document.Wrapping
import RazorLayout.Proofs.Forest.Basic
import RazorLayout.Proofs.Forest.Drift
import RazorLayout.Proofs.Forest.Layout
import RazorLayout.Proofs.Forest.Lines
import RazorLayout.Proofs.Forest.Members
import RazorLayout.Proofs.Forest.Reading
import RazorLayout.Proofs.Forest.Rows
import RazorLayout.Proofs.Forest.Shift
import RazorLayout.Proofs.Forest.Source
import RazorLayout.Proofs.Forest.Spelling
import RazorLayout.Proofs.Forest.Structure
import RazorLayout.Proofs.Layout.BlankLines
import RazorLayout.Proofs.Layout.BlankTexts
import RazorLayout.Proofs.Layout.Clauses
import RazorLayout.Proofs.Layout.Content
import RazorLayout.Proofs.Layout.Entries
import RazorLayout.Proofs.Layout.Hanging
import RazorLayout.Proofs.Layout.Ink
import RazorLayout.Proofs.Layout.NestedBodies
import RazorLayout.Proofs.Layout.SolidLines
import RazorLayout.Proofs.Layout.Tree
import RazorLayout.Proofs.Scan.Delimited
import RazorLayout.Proofs.Scan.Passing
import RazorLayout.Proofs.Scan.Positions
import RazorLayout.Proofs.Scan.QuotedRuns
import RazorLayout.Proofs.Scan.Walk
import RazorLayout.Proofs.Tag.Printing
import RazorLayout.Proofs.Tag.Rows
import RazorLayout.Proofs.Tag.Spelling
import RazorLayout.Proofs.Text.LeftMargin
import RazorLayout.Proofs.Text.Margin
import RazorLayout.Proofs.Text.Rows
import RazorLayout.Proofs.Text.Unblanked
import RazorLayout.Proofs.Token.Alone
import RazorLayout.Proofs.Token.Kinds
import RazorLayout.Proofs.Token.Pass
import RazorLayout.Proofs.Token.Pieces
import RazorLayout.Proofs.Token.Resume
import RazorLayout.Scan.Expression
import RazorLayout.Scan.Group
import RazorLayout.Tag
import RazorLayout.Text.Basic
import RazorLayout.Text.Blank
import RazorLayout.Text.CodeRange
import RazorLayout.Text.Digit
import RazorLayout.Text.LineBreak
import RazorLayout.Text.Margin
import RazorLayout.Text.Printable
import RazorLayout.Text.Quoted
import RazorLayout.Text.Utf8
import RazorLayout.Text.Word
import RazorLayout.Token.Basic
import RazorLayout.Token.Lexer
import RazorLayout.Tool.Clock
import RazorLayout.Tool.CommandLine
import RazorLayout.Tool.Draw
import RazorLayout.Tool.FileTree
import RazorLayout.Tool.Inspect
import RazorLayout.Tool.Numeral
import RazorLayout.Tool.Ratio
import RazorLayout.Tool.Stress.Report
import RazorLayout.Tool.Stress.Sample
import RazorLayout.Tool.Timing.Report
import RazorLayout.Tool.Timing.Templates
import RazorLayout.Total
import RazorLayout.Vocabulary
import RazorLayout.Warning
