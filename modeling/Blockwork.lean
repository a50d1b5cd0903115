import Blockwork.Archive.Basic
import Blockwork.Archive.Checksum
import Blockwork.Archive.Inflate
import Blockwork.Archive.Line
import Blockwork.Archive.PrefixCode
import Blockwork.Archive.Read
import Blockwork.Archive.Write
import Blockwork.Block.Basic
import Blockwork.Block.Kind
import Blockwork.Block.Slots
import Blockwork.Bundle.Manifest
import Blockwork.Bundle.Pack
import Blockwork.Bundle.Packer
import Blockwork.Bundle.Read
import Blockwork.Bytes
import Blockwork.Command.Arguments
import Blockwork.Command.Progress
import Blockwork.Command.Run
import Blockwork.Command.Session
import Blockwork.Digest
import Blockwork.Emission
import Blockwork.Error
import Blockwork.Files.Disk
import Blockwork.Files.Path
import Blockwork.Form
import Blockwork.Json.Read
import Blockwork.Json.Token
import Blockwork.Json.Value
import Blockwork.Language
import Blockwork.Main
import Blockwork.Markup.Char
import Blockwork.Markup.Declaration
import Blockwork.Markup.Doctype
import Blockwork.Markup.Document
import Blockwork.Markup.Encoding
import Blockwork.Markup.Name
import Blockwork.Markup.Node
import Blockwork.Markup.Reader
import Blockwork.Markup.Reference
import Blockwork.Markup.Tag
import Blockwork.Markup.Token
import Blockwork.Markup.Value
import Blockwork.Names
import Blockwork.Number.Binary64
import Blockwork.Number.Decimal
import Blockwork.Number.Literal
import Blockwork.Number.Numeral
import Blockwork.Number.Power
import Blockwork.Pass
import Blockwork.Program
import Blockwork.Proofs.Aftermath
import Blockwork.Proofs.Allocation
import Blockwork.Proofs.ArchiveLayout
import Blockwork.Proofs.Backing
import Blockwork.Proofs.Balance
import Blockwork.Proofs.BareReceivers
import Blockwork.Proofs.Bounds
import Blockwork.Proofs.Brackets
import Blockwork.Proofs.Capture
import Blockwork.Proofs.Chains
import Blockwork.Proofs.Characters
import Blockwork.Proofs.Chronicle
import Blockwork.Proofs.Coding
import Blockwork.Proofs.Constructs
import Blockwork.Proofs.Contents
import Blockwork.Proofs.DecimalValues
import Blockwork.Proofs.Declared
import Blockwork.Proofs.Decoding
import Blockwork.Proofs.Deflation
import Blockwork.Proofs.Disk
import Blockwork.Proofs.Faults
import Blockwork.Proofs.Formula
import Blockwork.Proofs.Fragments
import Blockwork.Proofs.FreeNames
import Blockwork.Proofs.FunctionLines
import Blockwork.Proofs.Grammar
import Blockwork.Proofs.Growth
import Blockwork.Proofs.Hoisting
import Blockwork.Proofs.Hosts
import Blockwork.Proofs.Imports
import Blockwork.Proofs.Indentation
import Blockwork.Proofs.IntegerLiterals
import Blockwork.Proofs.Interference
import Blockwork.Proofs.JsonText
import Blockwork.Proofs.Layout
import Blockwork.Proofs.Limits
import Blockwork.Proofs.LineTerminators
import Blockwork.Proofs.LiteralValues
import Blockwork.Proofs.Literals
import Blockwork.Proofs.Naming
import Blockwork.Proofs.Nesting
import Blockwork.Proofs.NumberPrefixes
import Blockwork.Proofs.Numerals
import Blockwork.Proofs.Operands
import Blockwork.Proofs.Outlines
import Blockwork.Proofs.Outside
import Blockwork.Proofs.Packing
import Blockwork.Proofs.Perform
import Blockwork.Proofs.Phrases
import Blockwork.Proofs.Placement
import Blockwork.Proofs.Precedence
import Blockwork.Proofs.RandomBounds
import Blockwork.Proofs.ReadBack
import Blockwork.Proofs.Rearrangement
import Blockwork.Proofs.Receivers
import Blockwork.Proofs.Regeneration
import Blockwork.Proofs.Registration
import Blockwork.Proofs.RoundTrip
import Blockwork.Proofs.Rounding
import Blockwork.Proofs.Routes
import Blockwork.Proofs.RowTemplates
import Blockwork.Proofs.Rows
import Blockwork.Proofs.SafeTemplates
import Blockwork.Proofs.Sections
import Blockwork.Proofs.ShortestDigits
import Blockwork.Proofs.Spelling
import Blockwork.Proofs.Splices
import Blockwork.Proofs.Suites
import Blockwork.Proofs.Survey
import Blockwork.Proofs.TextLoading
import Blockwork.Proofs.Vouched
import Blockwork.Proofs.Words
import Blockwork.Registry
import Blockwork.Selector
import Blockwork.Target.Brace
import Blockwork.Target.Dart
import Blockwork.Target.JavaScript
import Blockwork.Target.Python
import Blockwork.Target.Table
import Blockwork.Template.Basic
import Blockwork.Template.Piece
import Blockwork.Template.Run
import Blockwork.Text.Blank
import Blockwork.Text.Digit
import Blockwork.Text.Lines
import Blockwork.Text.Quote
import Blockwork.Text.Word
import Blockwork.Workspace
