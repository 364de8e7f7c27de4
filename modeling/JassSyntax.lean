import JassSyntax.Decimal.Shortest
import JassSyntax.Files.Path
import JassSyntax.Files.Store
import JassSyntax.Files.System
import JassSyntax.Grammar.Block
import JassSyntax.Grammar.Complaint
import JassSyntax.Grammar.Counted
import JassSyntax.Grammar.Expression
import JassSyntax.Grammar.Frame
import JassSyntax.Grammar.Item
import JassSyntax.Grammar.Level
import JassSyntax.Grammar.Loop
import JassSyntax.Grammar.Parser
import JassSyntax.Grammar.Program
import JassSyntax.Grammar.Statement
import JassSyntax.Grammar.Vocabulary
import JassSyntax.Index.NameSet
import JassSyntax.Index.Names
import JassSyntax.Index.Outline
import JassSyntax.Json.Encode
import JassSyntax.Json.Fault
import JassSyntax.Json.Reader
import JassSyntax.Json.Value
import JassSyntax.Main
import JassSyntax.Parse
import JassSyntax.Problem.Basic
import JassSyntax.Problem.Excerpt
import JassSyntax.Proofs.Derivation.Build
import JassSyntax.Proofs.Derivation.Expressions
import JassSyntax.Proofs.Derivation.Faultless
import JassSyntax.Proofs.Derivation.Grouping
import JassSyntax.Proofs.Derivation.Production
import JassSyntax.Proofs.Derivation.Statements
import JassSyntax.Proofs.Nesting.Constructs
import JassSyntax.Proofs.Nesting.Frames
import JassSyntax.Proofs.Nesting.Programs
import JassSyntax.Proofs.Reading.Conservation
import JassSyntax.Proofs.Reading.Constructs
import JassSyntax.Proofs.Reading.Items
import JassSyntax.Proofs.Reading.Later
import JassSyntax.Proofs.Reading.Moves
import JassSyntax.Proofs.Reading.Progress
import JassSyntax.Proofs.Reading.Rounds
import JassSyntax.Proofs.Reading.Tidy
import JassSyntax.Proofs.Reading.Trace
import JassSyntax.Proofs.Tree.Comments
import JassSyntax.Proofs.Tree.Everywhere
import JassSyntax.Proofs.Tree.Leaves
import JassSyntax.Proofs.Writing.Expressions
import JassSyntax.Proofs.Writing.Following
import JassSyntax.Proofs.Writing.Legible
import JassSyntax.Proofs.Writing.Openings
import JassSyntax.Proofs.Writing.Parts
import JassSyntax.Proofs.Writing.Programs
import JassSyntax.Proofs.Writing.Spelling
import JassSyntax.Proofs.Writing.Statements
import JassSyntax.Proofs.Writing.Syntax
import JassSyntax.Settings.Basic
import JassSyntax.Settings.File
import JassSyntax.Source.Position
import JassSyntax.Text.Blank
import JassSyntax.Text.Hidden
import JassSyntax.Text.Lines
import JassSyntax.Text.Quoted
import JassSyntax.Text.Utf8
import JassSyntax.Token.Basic
import JassSyntax.Token.Kind
import JassSyntax.Token.Lexeme
import JassSyntax.Token.Numeral
import JassSyntax.Token.Scanner
import JassSyntax.Tool.Arguments
import JassSyntax.Tool.Run
import JassSyntax.Tree.Basic
import JassSyntax.Tree.Dump
import JassSyntax.Tree.Kind
import JassSyntax.Tree.Sexp
import JassSyntax.Tree.Walk
import JassSyntax.Proofs.Faults.Accounting
import JassSyntax.Proofs.Faults.Agreement
import JassSyntax.Proofs.Faults.Anchors
import JassSyntax.Proofs.Faults.Reports
import JassSyntax.Proofs.Spans.Laid
import JassSyntax.Proofs.Spans.Scanning
import JassSyntax.Proofs.Spans.Programs
import JassSyntax.Proofs.Spans.Reporting
import JassSyntax.Proofs.Spans.Slicing
import JassSyntax.Proofs.Simulation.Basic
import JassSyntax.Proofs.Simulation.Expressions
import JassSyntax.Proofs.Simulation.Statements
import JassSyntax.Proofs.Simulation.Levels
import JassSyntax.Proofs.Limit.Balance
import JassSyntax.Proofs.Limit.Chains
import JassSyntax.Proofs.Limit.Severable
import JassSyntax.Proofs.Limit.Lockstep
import JassSyntax.Proofs.Limit.Skipping
import JassSyntax.Proofs.Limit.Bottom
import JassSyntax.Proofs.Limit.Levels
import JassSyntax.Proofs.Limit.Programs
import JassSyntax.Proofs.Limit.Unreported
import JassSyntax.Proofs.Views.Trees
import JassSyntax.Proofs.Views.Parsers
import JassSyntax.Proofs.Views.Programs
import JassSyntax.Proofs.Views.Comments
import JassSyntax.Proofs.Layout.Pieces
import JassSyntax.Proofs.Layout.Numerals
import JassSyntax.Proofs.Layout.Lexemes
import JassSyntax.Proofs.Layout.Rescanning
import JassSyntax.Proofs.Layout.Programs
import JassSyntax.Proofs.Sequence.Streams
import JassSyntax.Proofs.Sequence.Continuing
import JassSyntax.Proofs.Sequence.Noticing
import JassSyntax.Proofs.Sequence.Restarting
import JassSyntax.Proofs.Sequence.Programs
import JassSyntax.Proofs.Layout.Literals
import JassSyntax.Proofs.Tree.Paths
import JassSyntax.Proofs.Tree.Unclosed
import JassSyntax.Proofs.Recovery.Courses
import JassSyntax.Proofs.Recovery.Constructs
import JassSyntax.Proofs.Recovery.Sparing
import JassSyntax.Proofs.Recovery.Unclosed
import JassSyntax.Proofs.Recovery.Blame
import JassSyntax.Proofs.Recovery.Literals
import JassSyntax.Proofs.Tree.Roles
import JassSyntax.Proofs.Shape.Attachment
import JassSyntax.Proofs.Shape.Constructs
import JassSyntax.Proofs.Faults.Charges
import JassSyntax.Proofs.Faults.Budget
import JassSyntax.Proofs.Faults.Pointing
import JassSyntax.Proofs.Derivation.Commas
import JassSyntax.Proofs.Scanning.Counting
import JassSyntax.Proofs.Scanning.Itemizing
import JassSyntax.Proofs.Scanning.Showing
import JassSyntax.Proofs.Scanning.Locating
import JassSyntax.Proofs.Scanning.Patterns
import JassSyntax.Proofs.Scanning.Numerals
import JassSyntax.Proofs.Scanning.Munching
import JassSyntax.Proofs.Tree.Nodes
import JassSyntax.Proofs.Views.Names
import JassSyntax.Proofs.Recovery.Words
import JassSyntax.Proofs.Shape.Names
import JassSyntax.Proofs.Spans.Outlines
import JassSyntax.Proofs.Recovery.Named
import JassSyntax.Proofs.Views.Collections
import JassSyntax.Proofs.Spans.Heads
import JassSyntax.Proofs.Scanning.LineEnds
import JassSyntax.Proofs.Faults.Excerpts
import JassSyntax.Proofs.Json.Printed
import JassSyntax.Proofs.Settings.Saved
import JassSyntax.Proofs.Tree.Skeletons
import JassSyntax.Proofs.Tree.Places
import JassSyntax.Proofs.Spans.Dumps
import JassSyntax.Proofs.Discipline.Checks
import JassSyntax.Proofs.Discipline.Levels
import JassSyntax.Proofs.Discipline.Functions
import JassSyntax.Proofs.Derivation.Phrases
import JassSyntax.Proofs.Limit.Phrases
import JassSyntax.Proofs.Limit.Bodies
import JassSyntax.Proofs.Discipline.Bodies
import JassSyntax.Proofs.Tree.Preorder
