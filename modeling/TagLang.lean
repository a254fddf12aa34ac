import TagLang.Span
import TagLang.Tag
import TagLang.Tag.Lattice
import TagLang.Tag.Marked
import TagLang.Base
import TagLang.Operator
import TagLang.Operator.Rule
import TagLang.Symbol
import TagLang.Text.Printable
import TagLang.Text.Quoted
import TagLang.Text.Location
import TagLang.Token
import TagLang.Token.Lexeme
import TagLang.Token.Writer
import TagLang.Tree
import TagLang.Tree.Precedence
import TagLang.Tree.Expectation
import TagLang.Tree.Draft
import TagLang.Tree.Printer
import TagLang.Nesting
import TagLang.Diagnostic.Code
import TagLang.Diagnostic
import TagLang.Finding
import TagLang.Scopes
import TagLang.Resolution
import TagLang.Analysis
import TagLang.Session
import TagLang.Check
import TagLang.CommandLine.Arguments
import TagLang.CommandLine.Directory
import TagLang.CommandLine.Run
import TagLang.Main
import TagLang.Proofs.Scoping
import TagLang.Proofs.Plans
import TagLang.Proofs.Typing
import TagLang.Proofs.Members
import TagLang.Proofs.Joins
import TagLang.Proofs.WellTyped
import TagLang.Proofs.Grammar
import TagLang.Proofs.Precedence
import TagLang.Proofs.DraftComplete
import TagLang.Proofs.DraftSound
import TagLang.Proofs.Parsing
import TagLang.Proofs.Stages
import TagLang.Proofs.Writing
import TagLang.Proofs.Printing
import TagLang.Proofs.Absorption
import TagLang.Proofs.Nesting
import TagLang.Proofs.Limits
import TagLang.Proofs.Positions
import TagLang.Proofs.Outline
import TagLang.Proofs.Labels
import TagLang.Proofs.Cascades
import TagLang.Proofs.Causes
import TagLang.Proofs.Histories
import TagLang.Proofs.Reports
import TagLang.Proofs.Verdicts
import TagLang.Proofs.Relocation
import TagLang.Proofs.RelocatedReports
import TagLang.Proofs.Lookahead
import TagLang.Proofs.Spacing
import TagLang.Proofs.Places
import TagLang.Proofs.Walk
import TagLang.Proofs.Undefined
import TagLang.Proofs.Depth
import TagLang.Proofs.Silence
import TagLang.Proofs.Expectations
import TagLang.Proofs.Comments
import TagLang.Proofs.Spellings
import TagLang.Proofs.NestingCount
import TagLang.Proofs.NestingBound
import TagLang.Proofs.Mentions
import TagLang.Proofs.Spots
import TagLang.Proofs.Notices
import TagLang.Proofs.Slots
import TagLang.Proofs.Redeclarations
import TagLang.Proofs.EarlierReports
import TagLang.Proofs.CodeWords
import TagLang.Proofs.Records
