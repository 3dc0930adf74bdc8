import ResolverKit.Command.Run
import ResolverKit.Main
import ResolverKit.Proofs.Accepted
import ResolverKit.Proofs.Links
import ResolverKit.Proofs.Loader
import ResolverKit.Proofs.Run
import ResolverKit.Proofs.Presence
import ResolverKit.Proofs.Repeat
import ResolverKit.Proofs.Rooted
import ResolverKit.Proofs.Fates
import ResolverKit.Proofs.Outline
import ResolverKit.Proofs.TypesReading
import ResolverKit.Proofs.FileReading
import ResolverKit.Proofs.FileBlocks
import ResolverKit.Proofs.Names
import ResolverKit.Proofs.References
import ResolverKit.Proofs.ScaffoldReading
import ResolverKit.Proofs.Agreement
import ResolverKit.Proofs.ParsedNames
import ResolverKit.Proofs.ModelNames
import ResolverKit.Proofs.Distinct
import ResolverKit.Proofs.Rows
import ResolverKit.Proofs.Brackets
import ResolverKit.Proofs.Nesting
import ResolverKit.Proofs.CleanPlans
import ResolverKit.Proofs.Relayout
import ResolverKit.Proofs.Undescribed
import ResolverKit.Proofs.Commented
import ResolverKit.Proofs.Descriptions
import ResolverKit.Proofs.Reordered
import ResolverKit.Proofs.EarlyFailure
import ResolverKit.Proofs.RecordReading
import ResolverKit.Proofs.FileRecords
import ResolverKit.Proofs.Nullability
import ResolverKit.Proofs.BlockStrings
import ResolverKit.Proofs.Lexemes
import ResolverKit.Proofs.PrintedLexemes
import ResolverKit.Proofs.Rereading
import ResolverKit.Proofs.RoundTrip
import ResolverKit.Proofs.FieldNames
import ResolverKit.Proofs.Arrangement
import ResolverKit.Proofs.Decisions
import ResolverKit.Proofs.Worklist
import ResolverKit.Proofs.LocalNames
import ResolverKit.Proofs.RelativePath
import ResolverKit.Proofs.Specifiers
import ResolverKit.Proofs.CommentImports
import ResolverKit.Proofs.CheckedReferences
import ResolverKit.Proofs.RelativeSpecifiers
import ResolverKit.Proofs.ScaffoldPaths
import ResolverKit.Proofs.Placeholders
import ResolverKit.Proofs.EmptyDirectory
import ResolverKit.Proofs.WrittenImports
import ResolverKit.Proofs.CodePositions
import ResolverKit.Proofs.CommentTexts
