import Metagen.Bindings
import Metagen.CommandLine.Arguments
import Metagen.CommandLine.Command
import Metagen.Diagnostic.Basic
import Metagen.Diagnostic.Render
import Metagen.Directive.Basic
import Metagen.Directive.Compilation
import Metagen.Directive.Header
import Metagen.Directive.Resolution
import Metagen.Directive.Scan
import Metagen.Directive.Schedule
import Metagen.Emission.Action
import Metagen.Emission.Chain
import Metagen.Emission.Definition
import Metagen.Emission.Emitter
import Metagen.Emission.Enumeration
import Metagen.Emission.Error
import Metagen.Emission.Scope
import Metagen.Emission.Table
import Metagen.Eval.Arguments
import Metagen.Eval.Call
import Metagen.Eval.Expression
import Metagen.Eval.Fault
import Metagen.Eval.Functions
import Metagen.Eval.Generator
import Metagen.Eval.Level
import Metagen.Eval.Machine
import Metagen.Eval.Methods
import Metagen.Eval.Operators
import Metagen.Eval.Run
import Metagen.Eval.Statement
import Metagen.Files.Path
import Metagen.Files.Tree
import Metagen.Grouping
import Metagen.Json.Reading
import Metagen.Json.Writing
import Metagen.Main
import Metagen.Numeral.Binary64
import Metagen.Numeral.Reading
import Metagen.Numeral.Shortest
import Metagen.Options
import Metagen.Run.Execution
import Metagen.Run.Host
import Metagen.Run.Manifest
import Metagen.Run.Plan
import Metagen.Run.Symbols
import Metagen.Script.Cursor
import Metagen.Script.Grammar
import Metagen.Script.Lexeme
import Metagen.Script.Lexer
import Metagen.Script.TextScan
import Metagen.Script.Token
import Metagen.Script.Tree
import Metagen.Sha256
import Metagen.Source.File
import Metagen.Source.Problem
import Metagen.Source.Span
import Metagen.Text.Blank
import Metagen.Text.CaseTable
import Metagen.Text.Casing
import Metagen.Text.Columns
import Metagen.Text.GlyphTable
import Metagen.Text.Lines
import Metagen.Text.Quoted
import Metagen.Text.Ranges
import Metagen.Text.Search
import Metagen.Text.Similarity
import Metagen.Text.WordTable
import Metagen.Value.Builtin
import Metagen.Value.Copy
import Metagen.Value.Environment
import Metagen.Value.Order
import Metagen.Value.Render
import Metagen.Value.Store
import Metagen.Proofs.Directive.Declarations
import Metagen.Proofs.Bindings
import Metagen.Proofs.Directive.Conflict
import Metagen.Proofs.Directive.Order
import Metagen.Proofs.Directive.Resolution
import Metagen.Proofs.Directive.Schedule
import Metagen.Proofs.Run.Execution
import Metagen.Proofs.Run.Symbols
import Metagen.Proofs.Eval.Arguments
import Metagen.Proofs.Eval.Functions
import Metagen.Proofs.Eval.Generator
import Metagen.Proofs.Run.Imports
import Metagen.Proofs.Run.Isolation
import Metagen.Proofs.Value.Alike
import Metagen.Proofs.Emission.Target
import Metagen.Proofs.Run.Effects
import Metagen.Proofs.Run.Failures
import Metagen.Proofs.Run.Independence
import Metagen.Proofs.Parallel.Generator
import Metagen.Proofs.Eval.CallStack
import Metagen.Proofs.Script.Accepted
import Metagen.Proofs.Script.Completeness
import Metagen.Proofs.Script.Nesting
import Metagen.Proofs.Emission.Runs
import Metagen.Proofs.Text.Lines
import Metagen.Proofs.Emission.Lines
import Metagen.Proofs.Emission.Headers
import Metagen.Proofs.Emission.Closing
import Metagen.Proofs.Emission.ChainText
import Metagen.Proofs.Emission.Continuation
import Metagen.Proofs.Emission.Dispatch
import Metagen.Proofs.Emission.Variants
import Metagen.Proofs.Emission.Restart
import Metagen.Proofs.Eval.Locality
import Metagen.Proofs.Value.Shape
import Metagen.Proofs.Directive.Coverage
import Metagen.Proofs.Directive.Globals
import Metagen.Proofs.Eval.Parameters
import Metagen.Proofs.Script.Payloads
import Metagen.Proofs.Script.Advancing
import Metagen.Proofs.Script.Progress
import Metagen.Proofs.Script.Scanning
import Metagen.Proofs.Script.Reading
import Metagen.Proofs.Script.Order
import Metagen.Proofs.Script.Extents
import Metagen.Proofs.Script.Forward
import Metagen.Proofs.Script.Enclosure
import Metagen.Proofs.Directive.FirstProblem
import Metagen.Proofs.Source.Lines
import Metagen.Proofs.Source.Report
import Metagen.Proofs.Grouping
import Metagen.Proofs.Emission.Refusals
import Metagen.Proofs.Text.Indentation
import Metagen.Proofs.Emission.Fragments
import Metagen.Proofs.Text.Columns
import Metagen.Proofs.Emission.Blocks
import Metagen.Proofs.Emission.Enumerations
import Metagen.Proofs.Emission.Tables
import Metagen.Proofs.Text.Dedenting
import Metagen.Proofs.Eval.Ranges
import Metagen.Proofs.Eval.Arithmetic
import Metagen.Proofs.Value.CString
import Metagen.Proofs.Diagnostic.Listing
