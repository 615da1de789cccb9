import Flattener.Main
import Flattener.Grammar.Session
import Flattener.Flattening.Session
import Flattener.Token.Display
import Flattener.Files.Tree
import Flattener.Proofs.Grammar.Reading
import Flattener.Proofs.Grammar.Views
import Flattener.Proofs.Grammar.Brackets
import Flattener.Proofs.Grammar.Spelling
import Flattener.Proofs.Grammar.Scoping
import Flattener.Proofs.Grammar.Declarations
import Flattener.Proofs.Grammar.Movement
import Flattener.Proofs.Grammar.Aggregates
import Flattener.Proofs.Grammar.Scopes
import Flattener.Proofs.Grammar.Rounds
import Flattener.Proofs.Grammar.Soundness
import Flattener.Proofs.Grammar.Trials
import Flattener.Proofs.Grammar.Preorder
import Flattener.Proofs.Grammar.Rejection
import Flattener.Proofs.Grammar.Continuation
import Flattener.Proofs.Grammar.Concatenation
import Flattener.Proofs.Grammar.Completeness
import Flattener.Proofs.Grammar.Writing
import Flattener.Proofs.Token.Composition
import Flattener.Proofs.Token.Tiling
import Flattener.Proofs.Flattening.Levels
import Flattener.Proofs.Flattening.Pages
import Flattener.Proofs.Flattening.Words
import Flattener.Proofs.Grammar.Keeping
import Flattener.Proofs.Flattening.Lexemes
import Flattener.Proofs.Flattening.Rendering
import Flattener.Proofs.Flattening.Nesting
import Flattener.Proofs.Grammar.Places
import Flattener.Proofs.Flattening.Spacing
import Flattener.Proofs.Flattening.Pieces
import Flattener.Proofs.Flattening.References
import Flattener.Proofs.Grammar.Balance
import Flattener.Proofs.Flattening.Colors
import Flattener.Proofs.CommandLine.Outputs
import Flattener.Proofs.Token.Conversion
import Flattener.Proofs.Grammar.Cursor
import Flattener.Proofs.Flattening.Visiting
import Flattener.Proofs.Flattening.Misuse
import Flattener.Proofs.Flattening.FlatTree
import Flattener.Proofs.Flattening.FlatLayout
import Flattener.Proofs.Flattening.FlatForm
import Flattener.Proofs.Flattening.FlatScoping
import Flattener.Proofs.Flattening.FixedPoint
import Flattener.Proofs.Tree.Blocks
import Flattener.Proofs.Flattening.Lookup
import Flattener.Proofs.Grammar.Halting
import Flattener.Proofs.Flattening.Excerpts
import Flattener.Proofs.Token.Breaks
import Flattener.Proofs.Token.Digits
import Flattener.Proofs.Grammar.Ambiguity
import Flattener.Proofs.Grammar.Unambiguity
import Flattener.Proofs.Grammar.Access
import Flattener.Proofs.Flattening.Frame
import Flattener.Proofs.Grammar.Savepoints
import Flattener.Proofs.Token.Literals
import Flattener.Proofs.Flattening.Sizes
import Flattener.Proofs.Grammar.Endings
import Flattener.Proofs.Flattening.Titles
import Flattener.Proofs.Files.Paths
import Flattener.Proofs.CommandLine.Arguments
import Flattener.Proofs.CommandLine.Outcomes
