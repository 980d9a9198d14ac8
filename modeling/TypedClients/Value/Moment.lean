import TypedClients.Number.Digits

/-!
# Dates and times of day

A date of the proleptic Gregorian calendar with an optional time of day, as data formats with
a timestamp type give it. `Moment.valid` says which ones exist; `isoText` writes one; `same`
compares.
-/

namespace TypedClients

open Number (natText intText)

/-- A time of day with microseconds; `offset` is the distance to universal time in minutes. -/
structure Clock where
  hour : Nat
  minute : Nat
  second : Nat
  micro : Nat
  offset : Option Int
  deriving DecidableEq, Repr

/-- A date, or a date with a time of day. -/
structure Moment where
  year : Nat
  month : Nat
  day : Nat
  clock : Option Clock
  deriving DecidableEq, Repr

namespace Moment

/-- Whether a year has a 29th of February. -/
def isLeap (year : Nat) : Bool := year % 4 == 0 && (year % 100 != 0 || year % 400 == 0)

/-- The number of days of a month, zero for a month that does not exist. -/
def daysIn (year month : Nat) : Nat :=
  match month with
  | 1 | 3 | 5 | 7 | 8 | 10 | 12 => 31
  | 4 | 6 | 9 | 11 => 30
  | 2 => if isLeap year then 29 else 28
  | _ => 0

/-- Whether the date exists and the time of day, if any, is one of a day of 24 hours with an
offset of less than a day. -/
def valid (m : Moment) : Bool :=
  0 < m.year && m.year ≤ 9999 && 0 < m.day && m.day ≤ daysIn m.year m.month &&
    match m.clock with
    | none => true
    | some c => c.hour < 24 && c.minute < 60 && c.second < 60 && c.micro < 1000000 &&
        match c.offset with
        | none => true
        | some o => o.natAbs < 1440

/-- The number of days from the first day of the calendar on. -/
def dayNumber (year month day : Nat) : Nat :=
  let years := year - 1
  365 * years + years / 4 - years / 100 + years / 400 +
    (List.range month).foldl (fun days earlier => days + daysIn year earlier) 0 + day

/-- The minute of universal time that a time of day with an offset lies in. -/
def universalMinute (m : Moment) (c : Clock) (offset : Int) : Int :=
  1440 * dayNumber m.year m.month m.day + 60 * c.hour + c.minute - offset

/-- Whether two moments are the same: two times with an offset if they are the same instant,
any others if they agree in all their fields. -/
def same (m n : Moment) : Bool :=
  match m.clock, n.clock with
  | some c, some d =>
    match c.offset, d.offset with
    | some o, some p =>
      m.universalMinute c o == n.universalMinute d p && c.second == d.second && c.micro == d.micro
    | _, _ => m == n
  | _, _ => m == n

/-- A number with leading zeros up to a width. -/
def padded (width n : Nat) : String :=
  let ds := Number.digits n
  String.ofList (List.replicate (width - ds.length) '0' ++ ds)

/-- The offset from universal time in the form `+hh:mm`. -/
def offsetText (o : Int) : String :=
  (if o < 0 then "-" else "+") ++ padded 2 (o.natAbs / 60) ++ ":" ++ padded 2 (o.natAbs % 60)

/-- The ISO 8601 text, with a given separator between date and time. -/
def isoText (separator : String) (m : Moment) : String :=
  let date := padded 4 m.year ++ "-" ++ padded 2 m.month ++ "-" ++ padded 2 m.day
  match m.clock with
  | none => date
  | some c =>
    date ++ separator ++ padded 2 c.hour ++ ":" ++ padded 2 c.minute ++ ":" ++ padded 2 c.second ++
      (if c.micro = 0 then "" else "." ++ padded 6 c.micro) ++
      (match c.offset with | none => "" | some o => offsetText o)

/-- The text that names the fields one by one, as a moment is shown inside a list or map. -/
def fieldText (m : Moment) : String :=
  let date := natText m.year ++ ", " ++ natText m.month ++ ", " ++ natText m.day
  match m.clock with
  | none => "datetime.date(" ++ date ++ ")"
  | some c =>
    let seconds :=
      if c.micro ≠ 0 then ", " ++ natText c.second ++ ", " ++ natText c.micro
      else if c.second ≠ 0 then ", " ++ natText c.second
      else ""
    let zone := match c.offset with
      | none => ""
      | some 0 => ", tzinfo=datetime.timezone.utc"
      | some o =>
        let days := if o < 0 then "days=-1, " else ""
        ", tzinfo=datetime.timezone(datetime.timedelta(" ++ days ++ "seconds=" ++
          intText (o * 60 % 86400) ++ "))"
    "datetime.datetime(" ++ date ++ ", " ++ natText c.hour ++ ", " ++ natText c.minute ++ seconds ++
      zone ++ ")"

end Moment

end TypedClients
