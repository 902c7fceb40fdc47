import QueryTree.Calendar
import QueryTree.Compiled.Query
import QueryTree.Compiled.Step
import QueryTree.Error
import QueryTree.Expr.Basic
import QueryTree.Expr.Equality
import QueryTree.Expr.Traverse
import QueryTree.Json.Basic
import QueryTree.LogicalType
import QueryTree.Memory.Interpreter
import QueryTree.Memory.Provider
import QueryTree.Memory.Relation
import QueryTree.Number.Binary64
import QueryTree.Number.Checked
import QueryTree.Number.Decimal
import QueryTree.Pass.Basic
import QueryTree.Pass.DeadColumns
import QueryTree.Pass.Lowering
import QueryTree.Pass.OrderLifting
import QueryTree.Pipeline
import QueryTree.Postgres.Certificate
import QueryTree.Postgres.Connection
import QueryTree.Postgres.ConnectionString
import QueryTree.Postgres.Provider
import QueryTree.Postgres.Statement
import QueryTree.Postgres.Type
import QueryTree.Postgres.Wire
import QueryTree.Proofs.Attempt
import QueryTree.Proofs.Equality
import QueryTree.Proofs.Evaluation
import QueryTree.Proofs.KeyExposure
import QueryTree.Proofs.OrderNormalization
import QueryTree.Proofs.OrderPlacement
import QueryTree.Proofs.Rows
import QueryTree.Proofs.StableSort
import QueryTree.Proofs.Tree
import QueryTree.Proofs.ValueOrder
import QueryTree.Provider.Callable
import QueryTree.Provider.Resolve
import QueryTree.Provider.Scripted
import QueryTree.Registry
import QueryTree.Scalar.Builtin
import QueryTree.Scalar.Eval
import QueryTree.Scalar.Fold
import QueryTree.Scalar.Like
import QueryTree.Scalar.Substitute
import QueryTree.Settings
import QueryTree.Sql.Block
import QueryTree.Sql.ColumnType
import QueryTree.Sql.Command
import QueryTree.Sql.Dialect
import QueryTree.Sql.Formatter
import QueryTree.Sql.Render
import QueryTree.Text.CharClass
import QueryTree.Text.LetterCase
import QueryTree.Text.Quoted
import QueryTree.Toml.Basic
import QueryTree.Toml.Document
import QueryTree.Toml.Lexical
import QueryTree.Value.Basic
import QueryTree.Value.Text
import QueryTree.Proofs.CompileOnce
import QueryTree.Proofs.DeadColumns
import QueryTree.Proofs.Rebuild
import QueryTree.Proofs.Improvement
import QueryTree.Proofs.Folding
import QueryTree.Proofs.LoweredAnswers
import QueryTree.Proofs.FoldedAnswers
import QueryTree.Proofs.Rendering
import QueryTree.Proofs.Formatting
import QueryTree.Proofs.LeafChange
import QueryTree.Proofs.Redaction
import QueryTree.Proofs.Scope
import QueryTree.Proofs.Placeholders
import QueryTree.Proofs.ScalarSpelling
import QueryTree.Proofs.Readability
import QueryTree.Proofs.ArgumentBinding
import QueryTree.Proofs.OutputColumns
import QueryTree.Proofs.OperatorResults
import QueryTree.Proofs.FloatFree
import QueryTree.Proofs.SetBranches
import QueryTree.Proofs.ReadingOrder
import QueryTree.Proofs.SlotNumbers
import QueryTree.Proofs.Assembly
import QueryTree.Proofs.NumberText
import QueryTree.Proofs.MarkFree
import QueryTree.Proofs.SlotRendering
import QueryTree.Proofs.DayCount
import QueryTree.Proofs.WireRoundTrip
import QueryTree.Proofs.FixedInvocation
import QueryTree.Proofs.PluginLoading
import QueryTree.Proofs.RowBounds
import QueryTree.Proofs.RepeatedNormalization
import QueryTree.Proofs.FilterMerging
import QueryTree.Proofs.LimitHoisting
import QueryTree.Proofs.LikeMatching
import QueryTree.Proofs.NullTests
import QueryTree.Proofs.ColumnLiveness
import QueryTree.Proofs.Grouping
import QueryTree.Proofs.DistinctGrouping
import QueryTree.Proofs.Substitution
import QueryTree.Proofs.FoldedForm
import QueryTree.Proofs.CommentOpeners
import QueryTree.Proofs.QuestionMarks
import QueryTree.Proofs.Multiplicities
import QueryTree.Proofs.RunningSums
import QueryTree.Proofs.AggregateOrder
import QueryTree.Proofs.NamedPlaceholders
import QueryTree.Proofs.Outline
import QueryTree.Proofs.SortKeys
import QueryTree.Proofs.Ordinals
import QueryTree.Proofs.EqualValues
import QueryTree.Proofs.Joins
import QueryTree.Proofs.SetAlgebra
import QueryTree.Proofs.Partition
import QueryTree.Proofs.RoundedIntegers
import QueryTree.Proofs.SortOrder
import QueryTree.Proofs.ConnectionFields
import QueryTree.Proofs.ExactIntegers
import QueryTree.Proofs.BackendSearch
import QueryTree.Proofs.BackendOrigin
import QueryTree.Proofs.QuotedIdentifiers
import QueryTree.Proofs.RegistryHistory
import QueryTree.Proofs.SuccessiveSorts
import QueryTree.Proofs.ClosedExpressions
import QueryTree.Proofs.BlockSplitting
import QueryTree.Proofs.FreshNames
import QueryTree.Proofs.Traversals
