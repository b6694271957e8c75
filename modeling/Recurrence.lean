import Recurrence.Calendar.Iso
import Recurrence.Calendar.Label
import Recurrence.Console.Report
import Recurrence.Crontab.Breakdown
import Recurrence.Crontab.Line
import Recurrence.Crontab.Sentence
import Recurrence.Crontab.Validation
import Recurrence.Defaults
import Recurrence.Interpretation
import Recurrence.Main
import Recurrence.Proofs.Calendar.Order
import Recurrence.Proofs.Crontab.NextRun
import Recurrence.Proofs.Crontab.Walk
import Recurrence.Proofs.Crontab.Grammar
import Recurrence.Proofs.Crontab.Spread
import Recurrence.Proofs.Crontab.Agreement
import Recurrence.Proofs.Pattern.Apart
import Recurrence.Proofs.Pattern.Search
import Recurrence.Proofs.Phrase.Weekdays
import Recurrence.Proofs.Crontab.Line
import Recurrence.Proofs.Phrase.Senses
import Recurrence.Proofs.Schedules
import Recurrence.Proofs.Phrase.Canonical
import Recurrence.Proofs.Phrase.CanonicalForm
import Recurrence.Proofs.Answers
import Recurrence.Proofs.Complaints
import Recurrence.Proofs.Pattern.Preferred
import Recurrence.Proofs.Unambiguity
import Recurrence.Proofs.Crontab.Refusal
import Recurrence.Proofs.Crontab.Items
import Recurrence.Proofs.Crontab.Extensions
import Recurrence.Proofs.Crontab.Seconds
import Recurrence.Proofs.Crontab.Blame
import Recurrence.Proofs.Crontab.Layouts
import Recurrence.Proofs.Crontab.Verdicts
import Recurrence.Proofs.Crontab.FieldOutcomes
import Recurrence.Proofs.Console.Commands
import Recurrence.Proofs.Coherence
import Recurrence.Proofs.Confirmations
import Recurrence.Proofs.WeekdaySchedules
import Recurrence.Proofs.Crontab.PointRanges
import Recurrence.Proofs.IntervalSchedules
import Recurrence.Proofs.Crontab.Breakdown
import Recurrence.Proofs.Phrase.WeekdayMentions
import Recurrence.Proofs.TimeSuffixes
import Recurrence.Proofs.Calendar.LabelContent
import Recurrence.Proofs.Calendar.Distance
import Recurrence.Proofs.Mention.CertainTime
import Recurrence.Proofs.DigitScripts
import Recurrence.Proofs.Defaults
