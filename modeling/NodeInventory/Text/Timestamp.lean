import NodeInventory.Text.Blank

/-!
# Points in time as text

A point in time is a day of the calendar, a minute of the day, and what has passed of the minute. It
is written as a date, the letter `T`, a time of day and the letter `Z`; the fraction of a second is
left out. It is read more freely: blanks may stand between its parts, numbers may come without
zeros, the fraction may be there, and so may the difference from the common time instead of the `Z`.
What is read is then moved to the common time.

Every minute may end in a leap second, and a year that needs more or fewer than four digits has a
sign.
-/

namespace NodeInventory.Text

/-! ## Dates -/

/-- The number of days of a month. -/
def monthLength (year : Int) (month : Nat) : Nat :=
  if month = 2 then
    if year % 4 = 0 ∧ (year % 100 ≠ 0 ∨ year % 400 = 0) then 29 else 28
  else if month = 4 ∨ month = 6 ∨ month = 9 ∨ month = 11 then 30
  else 31

/-- Whether there is such a day, in the years that are counted. -/
def IsDate (year : Int) (month day : Nat) : Prop :=
  -262143 ≤ year ∧ year ≤ 262142 ∧ 1 ≤ month ∧ month ≤ 12 ∧ 1 ≤ day ∧ day ≤ monthLength year month

instance (year : Int) (month day : Nat) : Decidable (IsDate year month day) :=
  inferInstanceAs (Decidable (_ ∧ _))

/-- A day of the calendar. -/
structure Date where
  year : Int
  month : Nat
  day : Nat
  isDate : IsDate year month day
deriving DecidableEq, Repr

namespace Date

/-- The day of the given numbers, if there is one. -/
def ofNumbers (year : Int) (month day : Nat) : Option Date :=
  if h : IsDate year month day then some ⟨year, month, day, h⟩ else none

/-- The day after. -/
def next (d : Date) : Option Date :=
  if d.day < monthLength d.year d.month then ofNumbers d.year d.month (d.day + 1)
  else if d.month < 12 then ofNumbers d.year (d.month + 1) 1
  else ofNumbers (d.year + 1) 1 1

/-- The day before. -/
def previous (d : Date) : Option Date :=
  if 1 < d.day then ofNumbers d.year d.month (d.day - 1)
  else if 1 < d.month then ofNumbers d.year (d.month - 1) (monthLength d.year (d.month - 1))
  else ofNumbers (d.year - 1) 12 31

end Date

/-- A point in time. -/
structure Timestamp where
  date : Date
  /-- The minute of the day. -/
  minute : Fin 1440
  /-- The second of the minute, the last of which is a leap second. -/
  second : Fin 61
  nanosecond : Fin 1000000000
deriving DecidableEq, Repr

namespace Timestamp

/-! ## Reading -/

/-- The number that the next digits spell, of which there are `most` at most, and what follows. -/
def readNumber (most : Nat) (cs : List Char) : Option (Nat × List Char) :=
  let ds := (cs.take most).takeWhile Char.isDigit
  if ds.isEmpty then none else some (Nat.ofDigitChars 10 ds 0, cs.drop ds.length)

/-- Reads a number of at most two digits, with blanks before it. -/
def readPart (cs : List Char) : Option (Nat × List Char) := readNumber 2 (cs.dropWhile isBlank)

/-- Reads a year, with blanks before it. Without a sign it has no more than four digits. -/
def readYear (cs : List Char) : Option (Int × List Char) :=
  match cs.dropWhile isBlank with
  | '-' :: cs => (readNumber cs.length cs).map fun r ↦ (-r.1, r.2)
  | '+' :: cs => (readNumber cs.length cs).map fun r ↦ (r.1, r.2)
  | cs => (readNumber 4 cs).map fun r ↦ (r.1, r.2)

/-- Takes a mark between two numbers, with blanks before it. -/
def readMark (mark : Char) (cs : List Char) : Option (List Char) :=
  match cs.dropWhile isBlank with
  | c :: cs => if c = mark then some cs else none
  | [] => none

/-- Takes what stands between the date and the time of day. -/
def readBetween : List Char → Option (List Char)
  | 'T' :: cs | 't' :: cs | ' ' :: cs => some cs
  | _ => none

/-- Reads the fraction of a second, in nanoseconds. Digits beyond these do not count. -/
def readFraction : List Char → Option (Nat × List Char)
  | '.' :: cs =>
    let ds := cs.takeWhile Char.isDigit
    if ds.isEmpty then none
    else some (Nat.ofDigitChars 10 ((ds ++ List.replicate 9 '0').take 9) 0,
      cs.dropWhile Char.isDigit)
  | cs => some (0, cs)

/-- Reads two digits. -/
def readPair : List Char → Option (Nat × List Char)
  | a :: b :: cs =>
    if a.isDigit && b.isDigit then some (Nat.ofDigitChars 10 [a, b] 0, cs) else none
  | _ => none

/-- Reads hours and minutes, in minutes. -/
def readAmount (cs : List Char) : Option (Int × List Char) := do
  let (hours, cs) ← readPair cs
  let (minutes, cs) ← readPair (cs.dropWhile fun c ↦ c == ':' || isBlank c)
  if hours < 24 && minutes < 60 then some (hours * 60 + minutes, cs) else none

/-- Reads the difference from the common time, in minutes. -/
def readDifference (cs : List Char) : Option (Int × List Char) :=
  if (cs.take 3).map Char.toUpper = ['U', 'T', 'C'] then some (0, cs.drop 3)
  else
    match cs with
    | 'Z' :: cs | 'z' :: cs => some (0, cs)
    | '+' :: cs => readAmount cs
    | '-' :: cs | '\u2212' :: cs => (readAmount cs).map fun r ↦ (-r.1, r.2)
    | _ => none

/-- The point in time with the given numbers, which differ from the common time by the given
number of minutes. -/
def ofNumbers (year : Int) (month day hour minute second nanosecond : Nat) (difference : Int) :
    Option Timestamp := do
  let date ← Date.ofNumbers year month day
  if h : second < 61 ∧ nanosecond < 1000000000 then
    if hour < 24 && minute < 60 then
      let minutes : Int := hour * 60 + minute - difference
      let date ← if minutes < 0 then date.previous else if minutes < 1440 then some date
        else date.next
      some ⟨date, .ofNat 1440 (minutes % 1440).toNat, ⟨second, h.1⟩, ⟨nanosecond, h.2⟩⟩
    else none
  else none

/-- Reads a point in time. -/
def parse (s : String) : Option Timestamp := do
  let (year, cs) ← readYear s.toList
  let cs ← readMark '-' cs
  let (month, cs) ← readPart cs
  let cs ← readMark '-' cs
  let (day, cs) ← readPart cs
  let cs ← readBetween cs
  let (hour, cs) ← readPart cs
  let cs ← readMark ':' cs
  let (minute, cs) ← readPart cs
  let cs ← readMark ':' cs
  let (second, cs) ← readPart cs
  let (nanosecond, cs) ← readFraction cs
  let (difference, cs) ← readDifference (cs.dropWhile isBlank)
  if cs.all isBlank then ofNumbers year month day hour minute second nanosecond difference else none

/-! ## Writing -/

/-- The digits of a number, with zeros before them up to a width. -/
def padded (width n : Nat) : List Char :=
  List.replicate (width - (Nat.toDigits 10 n).length) '0' ++ Nat.toDigits 10 n

/-- A year of four digits, or with a sign. -/
def writeYear (year : Int) : List Char :=
  if 0 ≤ year ∧ year ≤ 9999 then padded 4 year.natAbs
  else (if year < 0 then '-' else '+') :: padded 4 year.natAbs

/-- The text of a point in time. -/
def render (t : Timestamp) : String :=
  String.ofList (writeYear t.date.year ++ '-' :: (padded 2 t.date.month ++ '-' ::
    (padded 2 t.date.day ++ 'T' :: (padded 2 (t.minute.val / 60) ++ ':' ::
      (padded 2 (t.minute.val % 60) ++ ':' :: (padded 2 t.second ++ ['Z']))))))

example : (parse "2024-02-29T23:59:58.5+01:30").map render = some "2024-02-29T22:29:58Z" := by
  decide +kernel

end Timestamp

end NodeInventory.Text
