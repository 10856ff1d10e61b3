import StreamOperator.Time.Instant

/-! Instants as dates and times of day in the proleptic Gregorian calendar, without leap
seconds. Days are counted from the first of March of year 0, so a leap day ends its year. -/

namespace StreamOperator

structure CalendarTime where
  year : Int
  month : Int
  day : Int
  hour : Int
  minute : Int
  second : Int
  millisecond : Int
deriving DecidableEq

namespace CalendarTime

/-- Days from the first of March of year 0 to the first of January 1970. -/
def epochDay : Int := 719468

/-- Days from the epoch to a date. A month counts from March, and a year holds the January and
February that follow its December. -/
def dayNumber (year month day : Int) : Int :=
  let y := if month ≤ 2 then year - 1 else year
  let era := y / 400
  let yearOfEra := y - era * 400
  let shifted := if month > 2 then month - 3 else month + 9
  let dayOfYear := (153 * shifted + 2) / 5 + day - 1
  let dayOfEra := yearOfEra * 365 + yearOfEra / 4 - yearOfEra / 100 + dayOfYear
  era * 146097 + dayOfEra - epochDay

/-- The date `n` days after the epoch, as year, month and day. -/
def dateOfDay (n : Int) : Int × Int × Int :=
  let z := n + epochDay
  let era := z / 146097
  let dayOfEra := z - era * 146097
  let yearOfEra := (dayOfEra - dayOfEra / 1460 + dayOfEra / 36524 - dayOfEra / 146096) / 365
  let dayOfYear := dayOfEra - (365 * yearOfEra + yearOfEra / 4 - yearOfEra / 100)
  let shifted := (5 * dayOfYear + 2) / 153
  let day := dayOfYear - (153 * shifted + 2) / 5 + 1
  let month := if shifted < 10 then shifted + 3 else shifted - 9
  let year := yearOfEra + era * 400 + (if month ≤ 2 then 1 else 0)
  (year, month, day)

def millisPerDay : Int := 86400000

def ofMillis (n : Int) : CalendarTime :=
  let (year, month, day) := dateOfDay (n / millisPerDay)
  let rest := n % millisPerDay
  { year, month, day
    hour := rest / 3600000
    minute := rest / 60000 % 60
    second := rest / 1000 % 60
    millisecond := rest % 1000 }

def toMillis (c : CalendarTime) : Int :=
  dayNumber c.year c.month c.day * millisPerDay
    + c.hour * 3600000 + c.minute * 60000 + c.second * 1000 + c.millisecond

end CalendarTime

namespace Instant

/-- First millisecond of the year -262143, the earliest one with a date. -/
def firstDated : Int := -8334601228800000

/-- Last millisecond of the year 262142, the latest one with a date. -/
def lastDated : Int := 8210266876799999

/-- The date and time of an instant; instants outside the dated range have none. -/
def toCalendar? (t : Instant) : Option CalendarTime :=
  let n := t.millis.toInt
  if firstDated ≤ n ∧ n ≤ lastDated then some (.ofMillis n) else none

def ofCalendar (c : CalendarTime) : Instant := clamp c.toMillis

end Instant

end StreamOperator
