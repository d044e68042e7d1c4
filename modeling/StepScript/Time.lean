/-!
Times by the Gregorian calendar, told as seconds since the start of 1970 at Greenwich and written
as `2024-02-29 23:59:59`.
-/

set_option autoImplicit false
set_option relaxedAutoImplicit false

namespace StepScript.Time

/-- A day of the calendar. -/
structure Day where
  year : Int
  month : Int
  day : Int
  deriving DecidableEq, Repr

/-- The day that lies some days after the first of January 1970. Years are counted from March on, so
that a leap day ends its year, and in eras of 400 years, which have 146097 days each. -/
def Day.ofCount (days : Int) : Day :=
  let shifted := days + 719468
  let era := shifted.fdiv 146097
  let dayOfEra := shifted.fmod 146097
  let yearOfEra := (dayOfEra - dayOfEra / 1460 + dayOfEra / 36524 - dayOfEra / 146096) / 365
  let dayOfYear := dayOfEra - (365 * yearOfEra + yearOfEra / 4 - yearOfEra / 100)
  let monthFromMarch := (5 * dayOfYear + 2) / 153
  let month := if monthFromMarch < 10 then monthFromMarch + 3 else monthFromMarch - 9
  { year := yearOfEra + era * 400 + (if month ≤ 2 then 1 else 0)
    month := month
    day := dayOfYear - (153 * monthFromMarch + 2) / 5 + 1 }

def padded (width : Nat) (n : Int) : String :=
  let digits := toString n
  String.ofList (List.replicate (width - digits.length) '0') ++ digits

def text (seconds : Int) : String :=
  let day := Day.ofCount (seconds.fdiv 86400)
  let second := seconds.fmod 86400
  padded 4 day.year ++ "-" ++ padded 2 day.month ++ "-" ++ padded 2 day.day ++ " " ++
    padded 2 (second / 3600) ++ ":" ++ padded 2 (second / 60 % 60) ++ ":" ++ padded 2 (second % 60)

end StepScript.Time
