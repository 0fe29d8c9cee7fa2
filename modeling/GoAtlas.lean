import GoAtlas.Codec.Declaration
import GoAtlas.Codec.Graph
import GoAtlas.Codec.Source
import GoAtlas.Command.Arguments
import GoAtlas.Command.Run
import GoAtlas.Config
import GoAtlas.ConfigFile
import GoAtlas.Declaration.Basic
import GoAtlas.Declaration.Candidate
import GoAtlas.Declaration.Embedded
import GoAtlas.Declaration.Fields
import GoAtlas.Declaration.Reference
import GoAtlas.Declaration.Shaping
import GoAtlas.Diagnostic
import GoAtlas.Extraction
import GoAtlas.Files.Glob
import GoAtlas.Files.IgnoreRules
import GoAtlas.Files.Path
import GoAtlas.Files.Scan
import GoAtlas.Files.Tree
import GoAtlas.Files.Walk
import GoAtlas.Graph.Basic
import GoAtlas.Graph.Build
import GoAtlas.Graph.Cycles
import GoAtlas.Graph.Resolution
import GoAtlas.Graph.Stats
import GoAtlas.Graph.Walk
import GoAtlas.Json.Basic
import GoAtlas.Json.Printer
import GoAtlas.Json.Reader
import GoAtlas.Main
import GoAtlas.Proofs.Codec.Graph
import GoAtlas.Proofs.Codec.Sizes
import GoAtlas.Proofs.Codec.Source
import GoAtlas.Proofs.Codec.Texts
import GoAtlas.Proofs.Codec.Views
import GoAtlas.Proofs.Command.Agreement
import GoAtlas.Proofs.Command.Arguments
import GoAtlas.Proofs.Declaration.Grouping
import GoAtlas.Proofs.Declaration.Instances
import GoAtlas.Proofs.Declaration.Lines
import GoAtlas.Proofs.Declaration.Reports
import GoAtlas.Proofs.Declaration.Truncation
import GoAtlas.Proofs.Declaration.Typeless
import GoAtlas.Proofs.Extraction.Batches
import GoAtlas.Proofs.Extraction.Fates
import GoAtlas.Proofs.Extraction.Numbers
import GoAtlas.Proofs.Extraction.Settings
import GoAtlas.Proofs.Extraction.Units
import GoAtlas.Proofs.Files.Canonical
import GoAtlas.Proofs.Files.Once
import GoAtlas.Proofs.Files.Order
import GoAtlas.Proofs.Files.Places
import GoAtlas.Proofs.Files.Walks
import GoAtlas.Proofs.Firsts
import GoAtlas.Proofs.Graph.AliasChains
import GoAtlas.Proofs.Graph.Aliases
import GoAtlas.Proofs.Graph.Build
import GoAtlas.Proofs.Graph.Components
import GoAtlas.Proofs.Graph.Counters
import GoAtlas.Proofs.Graph.Cycles
import GoAtlas.Proofs.Graph.Embedding
import GoAtlas.Proofs.Graph.Entries
import GoAtlas.Proofs.Graph.Erasure
import GoAtlas.Proofs.Graph.Extension
import GoAtlas.Proofs.Graph.History
import GoAtlas.Proofs.Graph.Likeness
import GoAtlas.Proofs.Graph.Merge
import GoAtlas.Proofs.Graph.Rearrangement
import GoAtlas.Proofs.Graph.Register
import GoAtlas.Proofs.Graph.Searches
import GoAtlas.Proofs.Graph.Walk
import GoAtlas.Proofs.Json.Layout
import GoAtlas.Proofs.Json.Reading
import GoAtlas.Proofs.Json.Scalars
import GoAtlas.Proofs.Json.Writable
import GoAtlas.Proofs.Printing.Printer
import GoAtlas.Proofs.Printing.Structured
import GoAtlas.Proofs.Printing.Types
import GoAtlas.Proofs.Printing.Units
import GoAtlas.Proofs.Source.AddedComments
import GoAtlas.Proofs.Source.Certificates
import GoAtlas.Proofs.Source.CommentRuns
import GoAtlas.Proofs.Source.CommentedTypes
import GoAtlas.Proofs.Source.Declarations
import GoAtlas.Proofs.Source.Derivations
import GoAtlas.Proofs.Source.Docs
import GoAtlas.Proofs.Source.Entries
import GoAtlas.Proofs.Source.GroupedUnits
import GoAtlas.Proofs.Source.Interfaces
import GoAtlas.Proofs.Source.Likeness
import GoAtlas.Proofs.Source.Meanings
import GoAtlas.Proofs.Source.PhraseLikeness
import GoAtlas.Proofs.Source.Placing
import GoAtlas.Proofs.Source.Sketches
import GoAtlas.Proofs.Source.Tokens
import GoAtlas.Proofs.Source.TypeEquation
import GoAtlas.Proofs.Text.Blank
import GoAtlas.Proofs.View.Bounds
import GoAtlas.Proofs.View.Chains
import GoAtlas.Proofs.View.Cycles
import GoAtlas.Proofs.View.Embeds
import GoAtlas.Proofs.View.Expansion
import GoAtlas.Proofs.View.Extension
import GoAtlas.Proofs.View.FieldTree
import GoAtlas.Proofs.View.Flattened
import GoAtlas.Proofs.View.Levels
import GoAtlas.Proofs.View.Likeness
import GoAtlas.Proofs.View.Marks
import GoAtlas.Proofs.View.Methods
import GoAtlas.Proofs.View.Paths
import GoAtlas.Proofs.View.Rearrangement
import GoAtlas.Proofs.View.Unresolved
import GoAtlas.Source.Comment
import GoAtlas.Source.Extent
import GoAtlas.Source.Grammar
import GoAtlas.Source.Lexeme
import GoAtlas.Source.Lowering
import GoAtlas.Source.Phrase
import GoAtlas.Source.Position
import GoAtlas.Source.Reader
import GoAtlas.Source.Tree
import GoAtlas.Source.TypeExpr
import GoAtlas.Source.Unit
import GoAtlas.Source.Unit.Parser
import GoAtlas.Source.Vocabulary
import GoAtlas.Text.Alphanumeric
import GoAtlas.Text.Blank
import GoAtlas.Text.Identifier
import GoAtlas.Text.Lines
import GoAtlas.Toml.Basic
import GoAtlas.Toml.Reader
import GoAtlas.Toml.Scalar
import GoAtlas.View.FieldPaths
import GoAtlas.View.Flattened
import GoAtlas.View.Lookup
import GoAtlas.View.MethodSet
