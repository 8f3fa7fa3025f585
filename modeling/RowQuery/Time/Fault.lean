import RowQuery.Text.Quoted
import RowQuery.Time.Moment

/-!
# What can be wrong with the text of a time
-/

namespace RowQuery.Time

/-- Why a text denotes no moment. -/
inductive TimeFault where
  | malformed (text : String)
  | offsetTooLarge (offset : Int)
  | yearOutOfRange (year : Int)
  | monthOutOfRange
  | dayOutOfRange
  | hourOutOfRange
  | minuteOutOfRange
  | secondOutOfRange
  | quotientTooLarge
  | secondsOutOfRange
  | yearTooLarge
  deriving DecidableEq, Repr

/-- The wording of a fault. -/
def TimeFault.message : TimeFault → String
  | .malformed text => "Invalid isoformat string: " ++ Text.display text
  | .offsetTooLarge offset =>
    "offset must be a timedelta strictly between -timedelta(hours=24) and timedelta(hours=24), not " ++
      displaySpan offset ++ "."
  | .yearOutOfRange year => "year " ++ toString year ++ " is out of range"
  | .monthOutOfRange => "month must be in 1..12"
  | .dayOutOfRange => "day is out of range for month"
  | .hourOutOfRange => "hour must be in 0..23"
  | .minuteOutOfRange => "minute must be in 0..59"
  | .secondOutOfRange => "second must be in 0..59"
  | .quotientTooLarge => "integer division result too large for a float"
  | .secondsOutOfRange => "timestamp out of range for platform time_t"
  | .yearTooLarge => "[Errno 75] Value too large for defined data type"

end RowQuery.Time
