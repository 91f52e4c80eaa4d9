import LiveDoc.Text.Blank
import LiveDoc.Text.Digits

/-!
# Timestamps

Moments in time, read from dates with a time of day and an offset and written in universal time.
Reading is generous: numbers need not fill their width, blanks may stand around them, and a year may
have a sign and any number of digits.
-/

set_option autoImplicit false
set_option relaxedAutoImplicit false

namespace LiveDoc.Run

/-- A moment: days since the year zero began, seconds of the day and a fraction of a second in
nanoseconds. The last second of a minute may be a leap second, whose fraction is a whole second
more. -/
structure Timestamp where
  day : Int
  second : Nat
  nanosecond : Nat
deriving DecidableEq, Repr

namespace Timestamp

def isLeapYear (year : Nat) : Bool :=
  year % 4 = 0 && (year % 100 ≠ 0 || year % 400 = 0)

def monthLengths (year : Nat) : List Nat :=
  [31, if isLeapYear year then 29 else 28, 31, 30, 31, 30, 31, 31, 30, 31, 30, 31]

def cycleYears : Nat := 400

def cycleDays : Nat := 146097

def daysBefore (year : Nat) : Nat :=
  if year = 0 then 0
  else 365 * year + (year - 1) / 4 - (year - 1) / 100 + (year - 1) / 400 + 1

def dayOf? (year : Int) (month date : Nat) : Option Int := do
  if month = 0 ∨ date = 0 then none
  let inCycle := (year % cycleYears).toNat
  let lengths := monthLengths inCycle
  let length ← lengths[month - 1]?
  if date ≤ length then
    let dayOfYear := (lengths.take (month - 1)).foldl (· + ·) 0 + (date - 1)
    some (year / cycleYears * cycleDays + (daysBefore inCycle + dayOfYear : Nat))
  else none

/-- The month and date of a day of a year, by the lengths of the months left. -/
def monthAndDate (month : Nat) : List Nat → Nat → Nat × Nat
  | [], day => (month, day + 1)
  | length :: rest, day =>
    if day < length then (month, day + 1) else monthAndDate (month + 1) rest (day - length)

def yearInCycle (day : Nat) : Nat :=
  if daysBefore (day / 365) ≤ day then day / 365 else day / 365 - 1

def dateOf (day : Int) : Int × Nat × Nat :=
  let inCycle := (day % cycleDays).toNat
  let year := yearInCycle inCycle
  let (month, date) := monthAndDate 1 (monthLengths year) (inCycle - daysBefore year)
  (day / cycleDays * cycleYears + year, month, date)

def firstYear : Int := -262143

def lastYear : Int := 262142

def isTold (day : Int) : Bool :=
  let year := (dateOf day).1
  firstYear ≤ year && year ≤ lastYear

/-- A number at the front of a text behind blanks, of at least one digit and of at most so many. -/
def number? (most : Nat) (cs : List Char) : Option (Nat × List Char) :=
  let cs := cs.dropWhile Text.isBlank
  let ds := (cs.take most).takeWhile Char.isDigit
  (Text.number? 10 ds).map (·, cs.drop ds.length)

/-- A year at the front of a text: of at most four digits, or behind a sign of any number. -/
def year? (cs : List Char) : Option (Int × List Char) :=
  match cs.dropWhile Text.isBlank with
  | '-' :: rest => (signless? rest).map fun (n, after) => (-(n : Int), after)
  | '+' :: rest => (signless? rest).map fun (n, after) => ((n : Int), after)
  | cs => (number? 4 cs).map fun (n, after) => ((n : Int), after)
where
  /-- The digits behind a sign, which no blank may precede. -/
  signless? (cs : List Char) : Option (Nat × List Char) :=
    if (cs.takeWhile Char.isDigit).isEmpty then none else number? cs.length cs

def behind? (mark : Char) (cs : List Char) : Option (List Char) :=
  match cs.dropWhile Text.isBlank with
  | c :: rest => if c = mark then some rest else none
  | [] => none

def behindDate? : List Char → Option (List Char)
  | c :: rest => if c = 'T' ∨ c = 't' ∨ c = ' ' then some rest else none
  | [] => none

/-- A fraction of a second in nanoseconds; digits beyond them do not count. -/
def fraction? : List Char → Option (Nat × List Char)
  | '.' :: rest =>
    let ds := rest.takeWhile Char.isDigit
    if ds.isEmpty then none
    else
      (Text.number? 10 ((ds ++ List.replicate 9 '0').take 9)).map (·, rest.dropWhile Char.isDigit)
  | rest => some (0, rest)

def twoDigits? : List Char → Option (Nat × List Char)
  | a :: b :: rest => (Text.number? 10 [a, b]).map (·, rest)
  | _ => none

/-- Hours and minutes of an offset, with colons and blanks between them, in minutes. -/
def hoursAndMinutes? (cs : List Char) : Option (Nat × List Char) := do
  let (hours, cs) ← twoDigits? cs
  let (minutes, cs) ← twoDigits? (cs.dropWhile fun c => c = ':' || Text.isBlank c)
  if hours < 24 ∧ minutes < 60 then some (hours * 60 + minutes, cs) else none

/-- An offset from universal time in minutes: a name of universal time, or hours and minutes behind
a sign. -/
def offset? (cs : List Char) : Option (Int × List Char) :=
  if (cs.take 3).map Char.toUpper = ['U', 'T', 'C'] then some (0, cs.drop 3)
  else
    match cs with
    | mark :: rest =>
      if mark = 'Z' ∨ mark = 'z' then some (0, rest)
      else if mark = '+' then (hoursAndMinutes? rest).map fun (n, after) => ((n : Int), after)
      else if mark = '-' ∨ mark = '−' then
        (hoursAndMinutes? rest).map fun (n, after) => (-(n : Int), after)
      else none
    | [] => none

def ofText? (s : String) : Option Timestamp := do
  let (year, cs) ← year? s.toList
  let cs ← behind? '-' cs
  let (month, cs) ← number? 2 cs
  let cs ← behind? '-' cs
  let (date, cs) ← number? 2 cs
  let day ← dayOf? year month date
  let cs ← behindDate? cs
  let (hour, cs) ← number? 2 cs
  let cs ← behind? ':' cs
  let (minute, cs) ← number? 2 cs
  let cs ← behind? ':' cs
  let (second, cs) ← number? 2 cs
  let (nanosecond, cs) ← fraction? cs
  let (offset, cs) ← offset? (cs.dropWhile Text.isBlank)
  let (second, nanosecond) :=
    if second = 60 then (59, nanosecond + 1000000000) else (second, nanosecond)
  let total := day * 86400 + hour * 3600 + minute * 60 + second - offset * 60
  if hour < 24 ∧ minute < 60 ∧ second < 60 ∧ cs.all Text.isBlank ∧ isTold day ∧
      isTold (total / 86400) then
    some ⟨total / 86400, (total % 86400).toNat, nanosecond⟩
  else none

def padded (width n : Nat) : String :=
  let ds := Nat.toDigits 10 n
  String.ofList (List.replicate (width - ds.length) '0' ++ ds)

/-- A year in at least four digits, with a sign if there are more or if it lies before the year
zero. -/
def yearText (year : Int) : String :=
  (if year < 0 then "-" else if 9999 < year then "+" else "") ++ padded 4 year.natAbs

/-- A fraction of a second in as few groups of three digits as it takes. -/
def fractionText (n : Nat) : String :=
  if n = 0 then ""
  else if n % 1000000 = 0 then "." ++ padded 3 (n / 1000000)
  else if n % 1000 = 0 then "." ++ padded 6 (n / 1000)
  else "." ++ padded 9 n

def text (t : Timestamp) : String :=
  let (year, month, date) := dateOf t.day
  let leap := t.nanosecond / 1000000000
  yearText year ++ "-" ++ padded 2 month ++ "-" ++ padded 2 date ++ "T" ++
    padded 2 (t.second / 3600) ++ ":" ++ padded 2 (t.second / 60 % 60) ++ ":" ++
    padded 2 (t.second % 60 + leap) ++ fractionText (t.nanosecond % 1000000000) ++ "Z"

end Timestamp

end LiveDoc.Run
