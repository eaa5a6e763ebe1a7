import Phrasebook.Text.Basic

/-!
# Dates and times

Dates of the calendar, alone or with a time of day, and how they are shown.
-/

namespace Phrasebook

/-- A calendar date. -/
structure Date where
  year : Nat
  month : Nat
  day : Nat
  deriving DecidableEq, Repr

/-- A date with a time. -/
structure Moment where
  date : Date
  hour : Nat
  minute : Nat
  second : Nat
  /-- The millionths of a second. -/
  micros : Nat
  /-- How many minutes the time is ahead of the universal time, if it is known. -/
  offset : Option Int
  deriving DecidableEq, Repr

/-- A length of time, given in minutes, as days and seconds. The seconds are not negative. -/
def spanText (minutes : Int) : Text :=
  let days := minutes / (24 * 60)
  let seconds := minutes % (24 * 60) * 60
  let parts := [("days=", days), ("seconds=", seconds)].filter (·.2 ≠ 0)
  "datetime.timedelta(".toList ++
    Text.join ", ".toList (parts.map fun part => part.1.toList ++ Text.ofInt part.2) ++ ")".toList

/-- The numbers of a date. -/
def Date.numbers (d : Date) : List Nat :=
  [d.year, d.month, d.day]

/-- A kind of date with its numbers and further texts. -/
def dateText (kind : String) (numbers : List Nat) (more : List Text) : Text :=
  "datetime.".toList ++ kind.toList ++ "(".toList ++
    Text.join ", ".toList (numbers.map Text.ofNat ++ more) ++ ")".toList

/-- A date as it is shown. -/
def Date.text (d : Date) : Text :=
  dateText "date" d.numbers []

/-- How far a time is ahead of the universal time, as it is shown. -/
def zoneText (minutes : Int) : Text :=
  if minutes = 0 then "tzinfo=datetime.timezone.utc".toList
  else "tzinfo=datetime.timezone(".toList ++ spanText minutes ++ ")".toList

/-- A date with a time as it is shown. Seconds and their millionths are left out where they are
zero. -/
def Moment.text (m : Moment) : Text :=
  let seconds := if m.second = 0 && m.micros = 0 then [] else [m.second]
  let micros := if m.micros = 0 then [] else [m.micros]
  dateText "datetime" (m.date.numbers ++ [m.hour, m.minute] ++ seconds ++ micros)
    (m.offset.map zoneText).toList

end Phrasebook
