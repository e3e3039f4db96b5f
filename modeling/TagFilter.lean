import TagFilter.Builder
import TagFilter.Calendar.Date
import TagFilter.Calendar.TimeOfDay
import TagFilter.CommandLine.Environment
import TagFilter.CommandLine.Libraries
import TagFilter.CommandLine.Outcome
import TagFilter.CommandLine.Request
import TagFilter.CommandLine.Run
import TagFilter.CommandLine.Warnings
import TagFilter.Config.Basic
import TagFilter.Config.Creation
import TagFilter.Config.Report
import TagFilter.Evaluation
import TagFilter.FileTree.Basic
import TagFilter.FileTree.Making
import TagFilter.FileTree.Route
import TagFilter.Filter.Basic
import TagFilter.Filter.Outline
import TagFilter.Filter.Partial
import TagFilter.Filter.Text
import TagFilter.Implied
import TagFilter.Json
import TagFilter.Log
import TagFilter.Loop
import TagFilter.Lowering
import TagFilter.Name
import TagFilter.NameMap
import TagFilter.Namespace.Basic
import TagFilter.Namespace.Related
import TagFilter.Namespace.Subtype
import TagFilter.Namespace.Suggestion
import TagFilter.Number.Basic
import TagFilter.Number.Decimal
import TagFilter.Number.Magnitude
import TagFilter.Number.Shortest
import TagFilter.Path
import TagFilter.Reachability
import TagFilter.Resolver
import TagFilter.Store
import TagFilter.SyntaxError
import TagFilter.Taxonomy
import TagFilter.Text.CharClass
import TagFilter.Text.EditDistance
import TagFilter.Text.Padded
import TagFilter.Text.Pieces
import TagFilter.Text.Quoted
import TagFilter.Token.Basic
import TagFilter.Token.Progress
import TagFilter.Token.Reading
import TagFilter.Token.Scanner
import TagFilter.Value.Basic
import TagFilter.Value.Order
import TagFilter.Value.Text
import TagFilter.Proofs.Boundary
import TagFilter.Proofs.BuilderGroups
import TagFilter.Proofs.BuilderTexts
import TagFilter.Proofs.BuilderTokens
import TagFilter.Proofs.CanonicalText
import TagFilter.Proofs.CharClass
import TagFilter.Proofs.CommandLine.JsonRequests
import TagFilter.Proofs.CommandLine.Warnings
import TagFilter.Proofs.Config.Defs
import TagFilter.Proofs.Evaluation.Chain
import TagFilter.Proofs.Evaluation.Composition
import TagFilter.Proofs.Evaluation.Growth
import TagFilter.Proofs.Evaluation.Hops
import TagFilter.Proofs.ExpressibleValues
import TagFilter.Proofs.Filter.Equivalence
import TagFilter.Proofs.Filter.Groups
import TagFilter.Proofs.Filter.Interchange
import TagFilter.Proofs.Filter.LexesBack
import TagFilter.Proofs.Filter.Meaning
import TagFilter.Proofs.Filter.SameTests
import TagFilter.Proofs.Filter.Sameness
import TagFilter.Proofs.Filter.Spelling
import TagFilter.Proofs.Filter.Terms
import TagFilter.Proofs.Filter.Tests
import TagFilter.Proofs.Filter.Unreadable
import TagFilter.Proofs.Grammar.Acceptance
import TagFilter.Proofs.Grammar.Continuation
import TagFilter.Proofs.Grammar.Derivation
import TagFilter.Proofs.Grammar.Nesting
import TagFilter.Proofs.Grammar.Reading
import TagFilter.Proofs.Grammar.Streaming
import TagFilter.Proofs.Grammar.Unambiguous
import TagFilter.Proofs.Implied.Derivable
import TagFilter.Proofs.Implied.Expansion
import TagFilter.Proofs.Implied.Negation
import TagFilter.Proofs.Implied.Texts
import TagFilter.Proofs.Lowering.Covering
import TagFilter.Proofs.Lowering.KnownTypes
import TagFilter.Proofs.Lowering.PlainDialect
import TagFilter.Proofs.Lowering.Readable
import TagFilter.Proofs.Lowering.StrayNames
import TagFilter.Proofs.Lowering.Tests
import TagFilter.Proofs.Lowering.Tightness
import TagFilter.Proofs.Lowering.Types
import TagFilter.Proofs.Lowering.Wildcards
import TagFilter.Proofs.NameSets
import TagFilter.Proofs.Namespace.Related
import TagFilter.Proofs.Namespace.Supertypes
import TagFilter.Proofs.Namespace.Terms
import TagFilter.Proofs.Number.DecimalText
import TagFilter.Proofs.Number.Ranks
import TagFilter.Proofs.Number.ShortestDecimal
import TagFilter.Proofs.Precedence
import TagFilter.Proofs.Reachability
import TagFilter.Proofs.Removal
import TagFilter.Proofs.RewrittenTexts
import TagFilter.Proofs.RoundTrip
import TagFilter.Proofs.Scanner.Blanks
import TagFilter.Proofs.Scanner.CalendarText
import TagFilter.Proofs.Scanner.Closing
import TagFilter.Proofs.Scanner.Cursor
import TagFilter.Proofs.Scanner.Literals
import TagFilter.Proofs.Scanner.PathTexts
import TagFilter.Proofs.Scanner.Quoted
import TagFilter.Proofs.Scanner.Scanned
import TagFilter.Proofs.Scanner.Separation
import TagFilter.Proofs.Scanner.Stops
import TagFilter.Proofs.Scanner.Words
import TagFilter.Proofs.StoreHistory
import TagFilter.Proofs.Success
import TagFilter.Proofs.Text.EditDistance
import TagFilter.Proofs.Value.Order
import TagFilter.Proofs.Value.Sameness
