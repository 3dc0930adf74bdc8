import ResolverKit.ConfigText.Fault
import ResolverKit.Number.Decimal

/-!
# Dates and times of configuration texts

A date, perhaps with a time and the distance of its zone from universal time.  A text of the right
form may still denote no day or time, which is told only when its value is wanted.
-/

namespace ResolverKit.ConfigText

open Number (digitsValue)
open Text (CodeText)

/-! ## Written dates -/

/-- A time of day in seconds and millionths, and the distance of its zone in minutes. -/
structure ClockTime where
  hour : Nat
  minute : Nat
  second : Nat
  micro : Nat
  zone : Option Int
  deriving DecidableEq, Repr

/-- A date with an optional time. -/
structure Timestamp where
  year : Nat
  month : Nat
  day : Nat
  time : Option ClockTime
  deriving DecidableEq, Repr

/-- The number of at least `least` and at most `most` digits in front, and what follows it. -/
def digits? (least most : Nat) (cs : List Char) : Option (Nat × List Char) :=
  let ds := cs.takeWhile Char.isDigit
  if least ≤ ds.length ∧ ds.length ≤ most then some (digitsValue ds, cs.drop ds.length) else none

/-- What follows this character in front. -/
def behind? (c : Char) : List Char → Option (List Char)
  | x :: r => if x = c then some r else none
  | [] => none

/-- What follows the mark between date and time. -/
def behindDate? : List Char → Option (List Char)
  | c :: r =>
    if c == 'T' || c == 't' then some r
    else if c == ' ' || c == '\t' then some (r.dropWhile fun c => c == ' ' || c == '\t')
    else none
  | [] => none

/-- The fraction of a second in millionths, and what follows it. -/
def fraction : List Char → Nat × List Char
  | '.' :: r =>
    let ds := r.takeWhile Char.isDigit
    (digitsValue ((ds ++ List.replicate 6 '0').take 6), r.drop ds.length)
  | cs => (0, cs)

def zone? (cs : List Char) : Option (Option Int) :=
  match cs.dropWhile fun c => c == ' ' || c == '\t' with
  | [] => if cs.isEmpty then some none else none
  | 'Z' :: r => if r.isEmpty then some (some 0) else none
  | s :: r =>
    if s == '+' || s == '-' then do
      let (hours, rest) ← digits? 1 2 r
      let minutes ←
        match rest with
        | [] => some 0
        | _ =>
          match digits? 2 2 (← behind? ':' rest) with
          | some (minutes, []) => some minutes
          | _ => none
      let distance : Int := 60 * hours + minutes
      return some (if s == '-' then -distance else distance)
    else none

def clockTime? (cs : List Char) : Option ClockTime := do
  let (hour, cs) ← digits? 1 2 cs
  let (minute, cs) ← digits? 2 2 (← behind? ':' cs)
  let (second, cs) ← digits? 2 2 (← behind? ':' cs)
  let (micro, cs) := fraction cs
  return ⟨hour, minute, second, micro, ← zone? cs⟩

/-- The date and time that a text is. -/
def timestamp? (cs : List Char) : Option Timestamp := do
  let (year, cs) ← digits? 4 4 cs
  let (month, cs) ← digits? 1 2 (← behind? '-' cs)
  let (day, cs) ← digits? 1 2 (← behind? '-' cs)
  if cs.isEmpty then return ⟨year, month, day, none⟩
  return ⟨year, month, day, some (← clockTime? (← behindDate? cs))⟩

/-- A plain text that is a date: month and day need two digits unless a time follows. -/
def isTimestamp (cs : List Char) : Bool :=
  (timestamp? cs).any fun t => t.time.isSome || cs.length == 10

/-! ## The calendar -/

def isLeapYear (y : Nat) : Bool := y % 4 == 0 && (y % 100 != 0 || y % 400 == 0)

def daysIn (year month : Nat) : Nat :=
  if month == 2 then (if isLeapYear year then 29 else 28)
  else if [4, 6, 9, 11].contains month then 30
  else 31

/-- A length of time as days and seconds of a day. -/
def durationText (minutes : Int) : String :=
  let days := minutes / 1440
  let seconds := minutes % 1440 * 60
  let parts := (if days = 0 then [] else ["days=" ++ toString days]) ++
    (if seconds = 0 then [] else ["seconds=" ++ toString seconds])
  "datetime.timedelta(" ++ (if parts.isEmpty then "0" else ", ".intercalate parts) ++ ")"

/-- A zone is less than a day away. -/
def checkZone (z : Int) : Except BadScalar Unit :=
  if z.natAbs < 1440 then .ok ()
  else .error (.calendar
    ("offset must be a timedelta strictly between -timedelta(hours=24) and timedelta(hours=24)" ++
      ", not " ++ durationText z ++ "."))

/-- The day is in the calendar. -/
def checkDate (t : Timestamp) : Except BadScalar Unit :=
  if t.year = 0 then .error (.calendar "year 0 is out of range")
  else if t.month = 0 || 12 < t.month then .error (.calendar "month must be in 1..12")
  else if t.day = 0 || daysIn t.year t.month < t.day then
    .error (.calendar "day is out of range for month")
  else .ok ()

def checkTime (c : ClockTime) : Except BadScalar Unit :=
  if 23 < c.hour then .error (.calendar "hour must be in 0..23")
  else if 59 < c.minute then .error (.calendar "minute must be in 0..59")
  else if 59 < c.second then .error (.calendar "second must be in 0..59")
  else .ok ()

def withoutLineFeed (cs : List Char) : List Char :=
  if cs.getLast? = some '\n' then cs.dropLast else cs

/-- The date and time that a text denotes; a line feed may end it. -/
def readTimestamp (text : CodeText) : Except BadScalar Timestamp := do
  match text.chars?.bind fun cs => timestamp? (withoutLineFeed cs) with
  | none => throw .timestamp
  | some t =>
    match t.time.bind (·.zone) with
    | some z => checkZone z
    | none => pure ()
    checkDate t
    match t.time with
    | some c => checkTime c
    | none => pure ()
    return t

/-! ## Moments -/

/-- The number of days from the first day of the year 1 to the first day of a year. -/
def daysBefore (year : Nat) : Nat :=
  let y := year - 1
  365 * y + y / 4 - y / 100 + y / 400

/-- The number of a day, from the first day of the year 1 on. -/
def dayNumber (year month day : Nat) : Nat :=
  (List.range (month - 1)).foldl (fun days m => days + daysIn year (m + 1)) (daysBefore year) +
    day - 1

/-- The moment of a date and time with a zone, in millionths of a second. -/
def moment? (t : Timestamp) : Option Int := do
  let c ← t.time
  let z ← c.zone
  let minutes : Int := (dayNumber t.year t.month t.day * 24 + c.hour : Nat) * 60 + c.minute - z
  return (minutes * 60 + c.second) * 1000000 + c.micro

/-- Two dates and times are the same: they denote one moment, or if there is no zone are written
alike. -/
def Timestamp.same (s t : Timestamp) : Bool :=
  match moment? s, moment? t with
  | some a, some b => a == b
  | none, none => s == t
  | _, _ => false

/-! ## Text -/

def zoneText (z : Int) : String :=
  if z = 0 then "datetime.timezone.utc" else "datetime.timezone(" ++ durationText z ++ ")"

/-- A date and time as messages show it. -/
def Timestamp.text (t : Timestamp) : String :=
  let numbers (ns : List Nat) := ", ".intercalate (ns.map toString)
  match t.time with
  | none => "datetime.date(" ++ numbers [t.year, t.month, t.day] ++ ")"
  | some c =>
    let small := if c.micro ≠ 0 then [c.second, c.micro]
      else if c.second ≠ 0 then [c.second]
      else []
    let zone := match c.zone with
      | some z => ", tzinfo=" ++ zoneText z
      | none => ""
    "datetime.datetime(" ++ numbers ([t.year, t.month, t.day, c.hour, c.minute] ++ small) ++
      zone ++ ")"

end ResolverKit.ConfigText
