import QueryPipeline.Assembly
import QueryPipeline.Assignment
import QueryPipeline.Callback
import QueryPipeline.CommandLine.File
import QueryPipeline.CommandLine.Options
import QueryPipeline.CommandLine.Program
import QueryPipeline.Config
import QueryPipeline.Description.Expr
import QueryPipeline.Description.Pipeline
import QueryPipeline.Description.Query
import QueryPipeline.DocumentText
import QueryPipeline.Error
import QueryPipeline.Expr
import QueryPipeline.FieldList
import QueryPipeline.Filter
import QueryPipeline.Json.Basic
import QueryPipeline.Json.Draft
import QueryPipeline.Json.Printer
import QueryPipeline.Json.Reader
import QueryPipeline.Main
import QueryPipeline.NameTable
import QueryPipeline.Number.Binary
import QueryPipeline.Number.Numeral
import QueryPipeline.Number.Shortest
import QueryPipeline.Number.Style
import QueryPipeline.Operand
import QueryPipeline.Operator
import QueryPipeline.Placeholder.Resolver
import QueryPipeline.Placeholder.Table
import QueryPipeline.Projection
import QueryPipeline.Proofs.Assignment.Direct
import QueryPipeline.Proofs.Assignment.LateBinding
import QueryPipeline.Proofs.Assignment.Overwriting
import QueryPipeline.Proofs.Description.Compilation
import QueryPipeline.Proofs.Description.Expressions
import QueryPipeline.Proofs.Description.Queries
import QueryPipeline.Proofs.DocumentText
import QueryPipeline.Proofs.FieldList
import QueryPipeline.Proofs.Filter.AnyOrder
import QueryPipeline.Proofs.Filter.Decoys
import QueryPipeline.Proofs.Filter.Direct
import QueryPipeline.Proofs.Filter.Document
import QueryPipeline.Proofs.Filter.DoubleNegation
import QueryPipeline.Proofs.Filter.Finalization
import QueryPipeline.Proofs.Filter.Grammar
import QueryPipeline.Proofs.Filter.Inlining
import QueryPipeline.Proofs.Filter.LateBinding
import QueryPipeline.Proofs.Filter.LostLiterals
import QueryPipeline.Proofs.Filter.Meaning
import QueryPipeline.Proofs.Filter.OperandOrder
import QueryPipeline.Proofs.Filter.Outline
import QueryPipeline.Proofs.Filter.Pieces
import QueryPipeline.Proofs.Filter.Remaining
import QueryPipeline.Proofs.Filter.SideBySide
import QueryPipeline.Proofs.Filter.Spelling
import QueryPipeline.Proofs.FirstFailure
import QueryPipeline.Proofs.Fragment.Documents
import QueryPipeline.Proofs.Fragment.Nesting
import QueryPipeline.Proofs.Fragment.Phases
import QueryPipeline.Proofs.Fragment.Pieces
import QueryPipeline.Proofs.Fragment.Resolution
import QueryPipeline.Proofs.Fragment.Scan
import QueryPipeline.Proofs.Fragment.Template
import QueryPipeline.Proofs.Fragment.ValueText
import QueryPipeline.Proofs.Fragment.Visibility
import QueryPipeline.Proofs.LastWriter
import QueryPipeline.Proofs.Leaves
import QueryPipeline.Proofs.Lockstep
import QueryPipeline.Proofs.Numbering
import QueryPipeline.Proofs.Pipeline.Grouping
import QueryPipeline.Proofs.Pipeline.LateBinding
import QueryPipeline.Proofs.Pipeline.Stages
import QueryPipeline.Proofs.Pipeline.Texts
import QueryPipeline.Proofs.Placeholder.Calls
import QueryPipeline.Proofs.Placeholder.Clause
import QueryPipeline.Proofs.Placeholder.Joining
import QueryPipeline.Proofs.Placeholder.Outcome
import QueryPipeline.Proofs.Projection.AnyOrder
import QueryPipeline.Proofs.Projection.Direct
import QueryPipeline.Proofs.Projection.Offences
import QueryPipeline.Proofs.Refusal
import QueryPipeline.Proofs.Rewriting
import QueryPipeline.Proofs.Session.Acceptance
import QueryPipeline.Proofs.Session.Clauses
import QueryPipeline.Proofs.Session.History
import QueryPipeline.Proofs.Session.Steps
import QueryPipeline.Proofs.Session.Transcript
import QueryPipeline.Proofs.Traversal
import QueryPipeline.Run
import QueryPipeline.Segment
import QueryPipeline.Session
import QueryPipeline.Stage
import QueryPipeline.Value
