import FilterClause.Main
import FilterClause.Proofs.Scanning
import FilterClause.Proofs.Texts
import FilterClause.Proofs.Letters
import FilterClause.Proofs.Lifting
import FilterClause.Proofs.Balance
import FilterClause.Proofs.Keywords
import FilterClause.Proofs.Lexemes
import FilterClause.Proofs.Grouping
import FilterClause.Proofs.Pieces
import FilterClause.Proofs.Renumbering
import FilterClause.Proofs.Fragments
import FilterClause.Proofs.Words
import FilterClause.Proofs.Joining
import FilterClause.Proofs.RowLimits
import FilterClause.Proofs.Runs
import FilterClause.Proofs.WholeClauses
import FilterClause.Proofs.Composition
import FilterClause.Proofs.LooseClauses
import FilterClause.Proofs.LooseWords
import FilterClause.Proofs.LooseConditions
import FilterClause.Proofs.LooseRendering
import FilterClause.Proofs.LooseNormalForm
import FilterClause.Proofs.Retention
import FilterClause.Proofs.Skeletons
import FilterClause.Proofs.Slots
import FilterClause.Proofs.Uniformity
import FilterClause.Proofs.Columns
import FilterClause.Proofs.Containment
import FilterClause.Proofs.Subselects
import FilterClause.Proofs.Nesting
import FilterClause.Proofs.LooseBrackets
import FilterClause.Proofs.Padding
import FilterClause.Proofs.Bracketing
import FilterClause.Proofs.Spellings
import FilterClause.Proofs.Endings
import FilterClause.Proofs.KeptLimits
import FilterClause.Proofs.FoundLimits
import FilterClause.Proofs.SqlLiterals
import FilterClause.Proofs.QuotedValues
import FilterClause.Proofs.GreedyGrouping
import FilterClause.Proofs.LosslessLifting
import FilterClause.Proofs.SqlBrackets
import FilterClause.Proofs.WellFormedClauses
import FilterClause.Proofs.UnquotedValues
import FilterClause.Proofs.Visible
import FilterClause.Proofs.ReadBack
import FilterClause.Proofs.KeptItems
import FilterClause.Proofs.Verbatim
import FilterClause.Proofs.Agreement
import FilterClause.Proofs.Outlines
import FilterClause.Proofs.Rereading
import FilterClause.Proofs.WrittenConditions
import FilterClause.Proofs.Idempotence
import FilterClause.Proofs.BracketPairs
import FilterClause.Proofs.Warnings
import FilterClause.Proofs.NestingLimit
import FilterClause.Proofs.DepthCounter
import FilterClause.Proofs.Respacing
import FilterClause.Proofs.Spacing
import FilterClause.Proofs.Requoting
import FilterClause.Proofs.WrittenCalls
import FilterClause.Proofs.JsonScalars
import FilterClause.Proofs.WrittenJson
import FilterClause.Proofs.JsonGrammar
import FilterClause.Proofs.WireFormats
import FilterClause.Proofs.DoubledWhere
import FilterClause.Proofs.StandingAlone
import FilterClause.Proofs.Subclauses
import FilterClause.Proofs.Inputs
import FilterClause.Proofs.PlannedRuns
import FilterClause.Proofs.Errors
import FilterClause.Proofs.WholeRuns
import FilterClause.Proofs.JsonLayouts
import FilterClause.Proofs.WrittenReports
import FilterClause.Proofs.Provenance
import FilterClause.Proofs.OutputLines
import FilterClause.Proofs.WrittenSettings
import FilterClause.Proofs.ExactLimits
import FilterClause.Proofs.TokenPlaces
import FilterClause.Proofs.OperatorSpellings
import FilterClause.Proofs.Extraction
import FilterClause.Proofs.LowerCase
import FilterClause.Proofs.FirstSpellings
import FilterClause.Proofs.DateFields
import FilterClause.Proofs.ColumnLists
import FilterClause.Proofs.SilentClauses
import FilterClause.Proofs.FinalSigma
import FilterClause.Proofs.Partners
import FilterClause.Proofs.UntornGroups
