import TaggedUnion.Main
import TaggedUnion.OneOf.Deferred
import TaggedUnion.Proofs.Emit.FunctionNames
import TaggedUnion.Proofs.Schema.RoundTrip
import TaggedUnion.Status
import TaggedUnion.Proofs.Emit.References
import TaggedUnion.Proofs.Xml.Locality
import TaggedUnion.Proofs.Xml.Reads
import TaggedUnion.Proofs.Schema.Moves
import TaggedUnion.Proofs.Schema.Nesting
import TaggedUnion.Proofs.Xml.Tags
import TaggedUnion.Proofs.Schema.Pieces
import TaggedUnion.Proofs.Schema.Spelling
import TaggedUnion.Proofs.Schema.Definitions
import TaggedUnion.Proofs.Schema.Undocumented
import TaggedUnion.Proofs.Schema.Unclosed
import TaggedUnion.Proofs.Schema.Roots
import TaggedUnion.Proofs.Xml.WellFormed
import TaggedUnion.Proofs.Schema.Malformed
import TaggedUnion.Proofs.Xml.Filler
import TaggedUnion.Proofs.Schema.Padding
import TaggedUnion.Proofs.Schema.Bindings
import TaggedUnion.Proofs.Schema.AliasPositions
import TaggedUnion.Proofs.Xml.ElementTag
import TaggedUnion.Proofs.Schema.Descriptions
import TaggedUnion.Proofs.Schema.InlineDocumentation
import TaggedUnion.Proofs.Text.Lines
import TaggedUnion.Proofs.Emit.Lines
import TaggedUnion.Proofs.Emit.ParameterEntries
import TaggedUnion.Proofs.Schema.Checks
import TaggedUnion.Proofs.Schema.UndocumentedUnions
import TaggedUnion.Proofs.Emit.Documentation
import TaggedUnion.Proofs.Emit.Variants
import TaggedUnion.Proofs.Emit.Methods
import TaggedUnion.Proofs.Emit.PendingForms
import TaggedUnion.Proofs.Emit.Exhaustive
import TaggedUnion.Proofs.Text.Brackets
import TaggedUnion.Proofs.Emit.Bracketing
import TaggedUnion.Proofs.Emit.NeatShape
import TaggedUnion.Proofs.Emit.NestedCode
import TaggedUnion.Proofs.Text.Numerals
import TaggedUnion.Proofs.Emit.Sweep
import TaggedUnion.Proofs.Emit.SweepNames
import TaggedUnion.Proofs.Files.Places
import TaggedUnion.Proofs.Files.Effects
import TaggedUnion.Proofs.Files.Growth
import TaggedUnion.Proofs.Files.Writing
import TaggedUnion.Proofs.Emit.ArtifactPaths
import TaggedUnion.Proofs.Command.Runs
import TaggedUnion.Proofs.Command.Checking
import TaggedUnion.Proofs.Command.Refusals
import TaggedUnion.Proofs.OneOf.Awaiting
import TaggedUnion.Proofs.OneOf.Records
import TaggedUnion.Proofs.OneOf.Laws
import TaggedUnion.Proofs.Emit.Running
import TaggedUnion.Proofs.Emit.Forms
import TaggedUnion.Proofs.Emit.Dispatching
import TaggedUnion.Proofs.Emit.OneHandler
import TaggedUnion.Proofs.Emit.TransformLaws
import TaggedUnion.Proofs.Schema.FirstOccurrences
import TaggedUnion.Proofs.Schema.Findings
import TaggedUnion.Proofs.Schema.FindingOrder
import TaggedUnion.Proofs.Emit.FreshNames
import TaggedUnion.Proofs.Emit.TypeParameters
import TaggedUnion.Proofs.Emit.Ordinals
import TaggedUnion.Proofs.Emit.OneCase
import TaggedUnion.Proofs.Schema.Selection
import TaggedUnion.Proofs.Emit.ConstructorFunctions
import TaggedUnion.Proofs.Emit.TypeNames
import TaggedUnion.Proofs.Emit.ArgumentNames
import TaggedUnion.Proofs.Text.SnakeCase
import TaggedUnion.Proofs.Schema.Populating
import TaggedUnion.Proofs.Emit.KeywordNames
import TaggedUnion.Proofs.Text.ByteOrder
import TaggedUnion.Proofs.Emit.ImportPaths
import TaggedUnion.Proofs.Emit.UnbrokenCode
import TaggedUnion.Proofs.Emit.UnbrokenShape
import TaggedUnion.Proofs.Emit.Imports
import TaggedUnion.Proofs.Text.WrittenNumbers
import TaggedUnion.Proofs.Command.Asking
import TaggedUnion.Proofs.Files.Passable
import TaggedUnion.Proofs.Files.PlainPaths
import TaggedUnion.Proofs.Files.Exactness
import TaggedUnion.Proofs.OneOf.Looking
import TaggedUnion.Proofs.Emit.Answers
import TaggedUnion.Proofs.Emit.OneStory
import TaggedUnion.Proofs.OneOf.Splitting
import TaggedUnion.Proofs.Emit.Collecting
import TaggedUnion.Proofs.OneOf.Demanding
import TaggedUnion.Proofs.Emit.Demanding
import TaggedUnion.Proofs.Xml.Pulling
import TaggedUnion.Proofs.Schema.Descent
import TaggedUnion.Proofs.Schema.DescentAgrees
import TaggedUnion.Proofs.Schema.EndTags
