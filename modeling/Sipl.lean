import Sipl.Main
import Sipl.NameTable
import Sipl.Proofs.Token.Tokenization
import Sipl.Proofs.Token.Pieces
import Sipl.Proofs.Token.Composition
import Sipl.Proofs.Text.Graphic
import Sipl.Proofs.Text.Brackets
import Sipl.Proofs.Text.Depths
import Sipl.Proofs.Text.ByteOrder
import Sipl.Tree.Arena
import Sipl.Proofs.Tree.Stored
import Sipl.Proofs.Reader.Grammar
import Sipl.Proofs.Reader.Reads
import Sipl.Proofs.Reader.Soundness
import Sipl.Proofs.Reader.Builds
import Sipl.Proofs.Reader.Completeness
import Sipl.Proofs.Reader.Acceptance
import Sipl.Proofs.Reader.Predictive
import Sipl.Proofs.Reader.Tried
import Sipl.Proofs.Reader.FirstError
import Sipl.Proofs.Reader.Ahead
import Sipl.Proofs.Reader.Recovery
import Sipl.Proofs.Reader.Passes
import Sipl.Proofs.Reader.Watched
import Sipl.Proofs.Reader.Tracks
import Sipl.Proofs.Reader.Progress
import Sipl.Proofs.Tree.Spans
import Sipl.Proofs.Reader.SpansRead
import Sipl.Proofs.Format.Legible
import Sipl.Proofs.Format.Unplaced
import Sipl.Proofs.Format.Writable
import Sipl.Proofs.Format.ReadTrees
import Sipl.Proofs.Format.Reread
import Sipl.Proofs.Format.RoundTrip
import Sipl.Proofs.Format.Canonical
import Sipl.Proofs.Format.Meaning
import Sipl.Proofs.Format.Printable
import Sipl.Proofs.Tree.Indentation
import Sipl.Proofs.Tree.NodeTexts
import Sipl.Proofs.Tree.OutlineReading
import Sipl.Proofs.Run.FinalReport
import Sipl.Proofs.Concrete.Faithfulness
import Sipl.Proofs.Reader.Elsewhere
import Sipl.Proofs.Reader.Drafts
import Sipl.Proofs.Reader.Precision
import Sipl.Proofs.Run.Reference
import Sipl.Proofs.Run.Scopes
import Sipl.Proofs.Run.Declarations
import Sipl.Proofs.Run.DeclarationOrder
import Sipl.Proofs.Run.FinalBindings
import Sipl.Proofs.Run.NumberedNames
import Sipl.Proofs.Run.Operators
import Sipl.Proofs.Run.Outcomes
import Sipl.Proofs.Run.Expressions
import Sipl.Proofs.Run.Statements
import Sipl.Proofs.Run.Agreement
import Sipl.Proofs.Run.Unplaced
import Sipl.Proofs.Run.ScopeArena
import Sipl.Proofs.Run.Blocks
import Sipl.Proofs.Run.Steps
import Sipl.Proofs.Run.Discipline
import Sipl.Proofs.Run.CallDepth
import Sipl.Proofs.Run.Endings
import Sipl.Proofs.Run.Divergence
import Sipl.Proofs.Run.Trails
import Sipl.Proofs.Run.Failures
import Sipl.Proofs.Run.Unwinding
import Sipl.Proofs.Run.Placement
import Sipl.Proofs.Run.LiveCalls
import Sipl.Proofs.Run.Reported
import Sipl.Proofs.Run.Mentions
import Sipl.Proofs.Run.ScopeHistory
import Sipl.Proofs.Run.StoredRun
import Sipl.Proofs.Run.StoredAgreement
import Sipl.Proofs.Run.Causes
import Sipl.Proofs.Run.Wording
import Sipl.Proofs.Text.JsonGrammar
import Sipl.Proofs.Text.JsonReading
import Sipl.Proofs.Text.JsonLiteral
import Sipl.Proofs.Diagnostic.JsonDocument
import Sipl.Proofs.Diagnostic.TerminalLines
import Sipl.Proofs.Analysis.Problems
import Sipl.Proofs.Analysis.Ends
import Sipl.Proofs.Analysis.Positions
import Sipl.Proofs.Concrete.Nesting
import Sipl.Proofs.Concrete.ReadBack
import Sipl.Proofs.Concrete.Brackets
import Sipl.Proofs.Concrete.Shown
import Sipl.Proofs.Concrete.Copies
import Sipl.Proofs.Concrete.Parts
import Sipl.Proofs.Analysis.Stretches
import Sipl.Proofs.Analysis.Excerpts
import Sipl.Proofs.Analysis.OneLine
import Sipl.Proofs.Format.Words
import Sipl.Proofs.Concrete.Mirrors
import Sipl.Proofs.Format.Parentheses
import Sipl.Proofs.Format.Slots
import Sipl.Proofs.Concrete.Filled
import Sipl.Proofs.Format.Adjacent
import Sipl.Proofs.Format.Necessity
import Sipl.Proofs.Token.Interner
import Sipl.Proofs.Run.ScopeLinks
import Sipl.Proofs.CommandLine.LastGiven
import Sipl.Proofs.Tree.Tidy
import Sipl.Proofs.Tree.Forest
import Sipl.Proofs.Tree.StoredTexts
import Sipl.Proofs.Tree.TextAgreement
import Sipl.Proofs.Reader.Storing
import Sipl.Proofs.Reader.Stores
import Sipl.Proofs.Reader.StoringAgreement
import Sipl.Proofs.Reader.BuiltForest
import Sipl.Proofs.Reader.Seeking
