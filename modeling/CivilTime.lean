import CivilTime.Instant
import CivilTime.Layout.Pattern
import CivilTime.Locale.Registry
import CivilTime.Zone.Directory
import CivilTime.Proofs.Calendar.Dates
import CivilTime.Proofs.Calendar.DateTimes
import CivilTime.Proofs.Locale.Legibility
import CivilTime.Proofs.Layout.Cursors
import CivilTime.Proofs.Layout.Items
import CivilTime.Proofs.Layout.Shown
import CivilTime.Proofs.Layout.RoundTrip
import CivilTime.Proofs.Layout.TwoDigitYears
import CivilTime.Proofs.Zone.HistoricTables
import CivilTime.Proofs.Zone.RecurringRules
import CivilTime.Proofs.Tzif.SwitchDays
import CivilTime.Proofs.Tzif.OffsetHistory
import CivilTime.Proofs.Zone.LatestTransitions
import CivilTime.Proofs.Zone.ClampedTransitions
import CivilTime.Proofs.Layout.Exactness
import CivilTime.Proofs.Layout.StandardLayouts
import CivilTime.Proofs.Text.Positions
import CivilTime.Proofs.Layout.Readers
import CivilTime.Proofs.Layout.ErrorPlaces
import CivilTime.Proofs.Layout.Spans
import CivilTime.Proofs.Instants
import CivilTime.Proofs.Calendar.Order
import CivilTime.Proofs.Layout.TextOrder
import CivilTime.Proofs.Text.Order
import CivilTime.Proofs.Text.Bytes
import CivilTime.Proofs.Locale.NaiveSearch
import CivilTime.Proofs.Locale.WholeNames
import CivilTime.Proofs.Layout.Quotes
import CivilTime.Proofs.Layout.PatternItems
import CivilTime.Proofs.Layout.WrittenPatterns
import CivilTime.Proofs.Layout.JoinedPatterns
import CivilTime.Proofs.Layout.NumberRanges
import CivilTime.Proofs.Layout.ZoneIdentifiers
import CivilTime.Proofs.Zone.OffsetLiterals
import CivilTime.Proofs.Zone.OffsetGrammar
import CivilTime.Proofs.Layout.OffsetTimes
import CivilTime.Proofs.Layout.Reshown
import CivilTime.Proofs.Layout.Lookahead
import CivilTime.Proofs.Layout.LetterCase
import CivilTime.Proofs.Layout.BarredTexts
import CivilTime.Proofs.Layout.EraLabels
import CivilTime.Proofs.Calendar.Additions
import CivilTime.Proofs.Calendar.MonthAdditions
import CivilTime.Proofs.Calendar.Differences
import CivilTime.Proofs.Calendar.Units
import CivilTime.Proofs.Calendar.Roundings
import CivilTime.Proofs.Calendar.Months
import CivilTime.Proofs.Calendar.Readings
import CivilTime.Proofs.Calendar.WeekdayMoves
import CivilTime.Proofs.Tzif.ZoneStrings
import CivilTime.Proofs.Zone.CalendarOrder
import CivilTime.Proofs.Zone.Catalogues
import CivilTime.Proofs.Layout.InvalidSpans
import CivilTime.Proofs.Tzif.KeptTransitions
import CivilTime.Proofs.Locale.LanguageFallback
import CivilTime.Proofs.Zone.FileTrees
import CivilTime.Proofs.Calendar.WordYears
import CivilTime.Proofs.Zone.RuleSteps
import CivilTime.Proofs.Zone.LookupBounds
