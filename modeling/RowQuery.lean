import RowQuery.Session
import RowQuery.Proofs.Lexing
import RowQuery.Proofs.Legibility
import RowQuery.Proofs.Compilation
import RowQuery.Proofs.Plainness
import RowQuery.Proofs.Placeholders
import RowQuery.Proofs.Reading
import RowQuery.Proofs.Semantics
import RowQuery.Proofs.StandardForm
import RowQuery.Proofs.RelationFilters
import RowQuery.Proofs.ValueIndependence
import RowQuery.Proofs.Outline
import RowQuery.Proofs.WhereStructure
import RowQuery.Proofs.OwnerRestriction
import RowQuery.Proofs.JoinBases
import RowQuery.Proofs.EntityJoins
import RowQuery.Proofs.JoinSemantics
import RowQuery.Proofs.JoinedFilters
import RowQuery.Proofs.RegisteredPaths
import RowQuery.Proofs.JoinedRelations
import RowQuery.Proofs.Discriminators
import RowQuery.Proofs.QueryCore
import RowQuery.Proofs.RowPreservation
import RowQuery.Proofs.TableNames
import RowQuery.Proofs.Requoting
import RowQuery.Proofs.Dialects
import RowQuery.Proofs.SortText
import RowQuery.Proofs.WellFormedSchemas
import RowQuery.Proofs.Failures
import RowQuery.Proofs.SearchWalks
import RowQuery.Proofs.SearchCoverage
import RowQuery.Proofs.PathResolution
import RowQuery.Proofs.ListedPaths
import RowQuery.Proofs.ReportedFailures
import RowQuery.Proofs.SessionSteps
import RowQuery.Proofs.RegistryHistory
import RowQuery.Proofs.Traces
import RowQuery.Proofs.CacheTransparency
import RowQuery.Proofs.Correlation
import RowQuery.Proofs.RootAlias
import RowQuery.Proofs.FilterGrammar
import RowQuery.Proofs.FilterPrinting
import RowQuery.Proofs.PathNames
import RowQuery.Proofs.Projection
import RowQuery.Proofs.Concatenation
import RowQuery.Proofs.LanguageSegments
import RowQuery.Proofs.WrittenTags
import RowQuery.Proofs.TypeLayers
import RowQuery.Proofs.LikePatterns
import RowQuery.Proofs.LanguagePaths
import RowQuery.Proofs.Rounding
import RowQuery.Proofs.CalendarDays
import RowQuery.Proofs.IntegerNumerals
import RowQuery.Proofs.EpochMillis
import RowQuery.Proofs.DecimalNumerals
import RowQuery.Proofs.QuotedTokens
import RowQuery.Proofs.IntegerValues
