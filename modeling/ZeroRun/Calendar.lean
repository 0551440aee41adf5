/-!
Days and moments of the calendar, with the written forms in which they appear in messages. A moment
may have a zone, which is known by its distance from universal time in minutes.
-/
namespace ZeroRun

/-- Why figures make no day or moment. -/
inductive CalendarFault where
  | year (value : Nat)
  | month
  | day
  | hour
  | minute
  | second
  | zone (minutes : Int)
deriving DecidableEq, Repr

/-- A day. -/
structure Date where
  year : Nat
  month : Nat
  day : Nat
deriving DecidableEq, Repr

/-- A moment of a day. -/
structure Moment where
  date : Date
  hour : Nat
  minute : Nat
  second : Nat
  microsecond : Nat
  zone : Option Int
deriving DecidableEq, Repr

namespace Calendar

/-- A number filled up with zeros to a width. -/
def padded (width n : Nat) : String :=
  let digits := toString n
  String.ofList (List.replicate (width - digits.length) '0') ++ digits

/-- Has the year a day more than others? -/
def isLeap (year : Nat) : Bool :=
  year % 4 = 0 && (year % 100 ≠ 0 || year % 400 = 0)

/-- The number of days of a month. -/
def daysIn (year month : Nat) : Nat :=
  if month = 2 then (if isLeap year then 29 else 28)
  else if month = 4 || month = 6 || month = 9 || month = 11 then 30
  else 31

/-- A span of so many minutes, in whole days and the seconds that are left. -/
def span (minutes : Int) : String :=
  let seconds := minutes * 60
  let days := Int.fdiv seconds 86400
  let left := Int.fmod seconds 86400
  let parts :=
    (if days = 0 then [] else ["days=" ++ toString days])
      ++ if left = 0 then [] else ["seconds=" ++ toString left]
  "datetime.timedelta(" ++ (if parts.isEmpty then "0" else ", ".intercalate parts) ++ ")"

/-- A zone. -/
def zone (minutes : Int) : String :=
  if minutes = 0 then "datetime.timezone.utc" else "datetime.timezone(" ++ span minutes ++ ")"

/-- A zone as hours and minutes with a sign. -/
def zoneSuffix (minutes : Int) : String :=
  let size := minutes.natAbs
  (if minutes < 0 then "-" else "+") ++ padded 2 (size / 60) ++ ":" ++ padded 2 (size % 60)

end Calendar

/-- The wording of a fault. -/
def CalendarFault.message : CalendarFault → String
  | .year value => "year " ++ toString value ++ " is out of range"
  | .month => "month must be in 1..12"
  | .day => "day is out of range for month"
  | .hour => "hour must be in 0..23"
  | .minute => "minute must be in 0..59"
  | .second => "second must be in 0..59"
  | .zone minutes =>
    "offset must be a timedelta strictly between -timedelta(hours=24) and timedelta(hours=24), not "
      ++ Calendar.span minutes ++ "."

namespace Date

/-- The day with the given figures. -/
def make (year month day : Nat) : Except CalendarFault Date :=
  if year < 1 || 9999 < year then .error (.year year)
  else if month < 1 || 12 < month then .error .month
  else if day < 1 || Calendar.daysIn year month < day then .error .day
  else .ok ⟨year, month, day⟩

/-- The form in a message. -/
def quoted (date : Date) : String :=
  "datetime.date(" ++ toString date.year ++ ", " ++ toString date.month ++ ", "
    ++ toString date.day ++ ")"

/-- The form in running text. -/
def plain (date : Date) : String :=
  Calendar.padded 4 date.year ++ "-" ++ Calendar.padded 2 date.month ++ "-"
    ++ Calendar.padded 2 date.day

end Date

namespace Moment

/-- The moment with the given figures. The zone is looked at first. -/
def make (year month day hour minute second microsecond : Nat) (zone : Option Int) :
    Except CalendarFault Moment := do
  match zone with
  | some minutes => if 1440 ≤ minutes.natAbs then .error (.zone minutes) else .ok ()
  | none => .ok ()
  let date ← Date.make year month day
  if 24 ≤ hour then .error .hour
  else if 60 ≤ minute then .error .minute
  else if 60 ≤ second then .error .second
  else .ok ⟨date, hour, minute, second, microsecond, zone⟩

/-- The form in a message. Seconds and their parts are left out where they are zero to the end. -/
def quoted (moment : Moment) : String :=
  let figures := [moment.date.year, moment.date.month, moment.date.day, moment.hour, moment.minute]
  let figures :=
    if moment.microsecond ≠ 0 then figures ++ [moment.second, moment.microsecond]
    else if moment.second ≠ 0 then figures ++ [moment.second]
    else figures
  let zone :=
    match moment.zone with
    | some minutes => ", tzinfo=" ++ Calendar.zone minutes
    | none => ""
  "datetime.datetime(" ++ ", ".intercalate (figures.map fun n => toString n) ++ zone ++ ")"

/-- The form in running text. -/
def plain (moment : Moment) : String :=
  let fraction :=
    if moment.microsecond = 0 then "" else "." ++ Calendar.padded 6 moment.microsecond
  moment.date.plain ++ " " ++ Calendar.padded 2 moment.hour ++ ":"
    ++ Calendar.padded 2 moment.minute ++ ":" ++ Calendar.padded 2 moment.second ++ fraction
    ++ ((moment.zone.map Calendar.zoneSuffix).getD "")

end Moment
end ZeroRun
