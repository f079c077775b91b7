import ImageBuild.Text.Blank
import ImageBuild.Text.Decimal
/-!
# Moments

Whether a text tells a moment: a date of the calendar, a time of the day and an offset from the time
at Greenwich, as in `2024-02-29T23:59:60.5+01:00`.  Blanks may stand between the parts.
-/

namespace ImageBuild.Text.Moment

/-- Reads a part of a text, and answers what comes after it. -/
abbrev Part (α : Type) := List Char → Option (α × List Char)

def skipBlanks (cs : List Char) : List Char :=
  cs.dropWhile isBlank

/-- Reads a number of one to `places` digits. -/
def number (places : Nat) : Part Nat := fun cs =>
  let run := (cs.take places).takeWhile Char.isDigit
  (digits? run).map fun n => (n, cs.drop run.length)

/-- Reads a character, with or without blanks in front. -/
def mark (c : Char) (cs : List Char) : Option (List Char) :=
  match skipBlanks cs with
  | d :: rest => if d = c then some rest else none
  | [] => none

/-- Reads a year: four digits at most, or any number of them after a sign. -/
def year : Part Int := fun cs =>
  match skipBlanks cs with
  | '-' :: cs => (number cs.length cs).map fun (n, rest) => (-Int.ofNat n, rest)
  | '+' :: cs => (number cs.length cs).map fun (n, rest) => (Int.ofNat n, rest)
  | cs => (number 4 cs).map fun (n, rest) => (Int.ofNat n, rest)

/-- Reads two digits at most. -/
def short : Part Nat := fun cs => number 2 (skipBlanks cs)

def isLeapYear (y : Int) : Bool :=
  y % 4 = 0 && (y % 100 ≠ 0 || y % 400 = 0)

/-- The number of days of a month. -/
def daysIn (y : Int) (month : Nat) : Nat :=
  if month = 2 then (if isLeapYear y then 29 else 28)
  else if month = 4 ∨ month = 6 ∨ month = 9 ∨ month = 11 then 30
  else 31

/-- A day of the calendar. -/
structure Day where
  year : Int
  month : Nat
  day : Nat
deriving Repr, DecidableEq

def firstDay : Day := ⟨-262143, 1, 1⟩

def lastDay : Day := ⟨262142, 12, 31⟩

/-- Whether there is such a day in the calendar. -/
def Day.exists? (d : Day) : Bool :=
  firstDay.year ≤ d.year && d.year ≤ lastDay.year && 1 ≤ d.month && d.month ≤ 12 &&
    1 ≤ d.day && d.day ≤ daysIn d.year d.month

def date : Part Day := fun cs => do
  let (y, cs) ← year cs
  let (month, cs) ← short (← mark '-' cs)
  let (day, cs) ← short (← mark '-' cs)
  let d : Day := ⟨y, month, day⟩
  if d.exists? then some (d, cs) else none

/-- Skips the fraction of a second, if there is one. -/
def fraction (cs : List Char) : Option (List Char) :=
  match cs with
  | '.' :: cs => (number cs.length cs).map Prod.snd
  | cs => some cs

/-- Reads a time of the day, and answers the minute of the day.  A minute may have a second too many. -/
def time : Part Nat := fun cs => do
  let (hour, cs) ← short cs
  let (minute, cs) ← short (← mark ':' cs)
  let (second, cs) ← short (← mark ':' cs)
  if hour < 24 ∧ minute < 60 ∧ second ≤ 60 then
    (fraction cs).map fun cs => (hour * 60 + minute, cs)
  else none

/-- Reads the hours and minutes of an offset, and answers its minutes. -/
def hoursAndMinutes : Part Nat
  | h₁ :: h₂ :: cs =>
    match cs.dropWhile fun c => c = ':' || isBlank c with
    | m₁ :: m₂ :: cs => do
      let hours ← digits? [h₁, h₂]
      let minutes ← digits? [m₁, m₂]
      if hours < 24 ∧ minutes < 60 then some (hours * 60 + minutes, cs) else none
    | _ => none
  | _ => none

/-- Reads an offset, in minutes. -/
def offset : Part Int
  | c :: cs =>
    if ((c :: cs).take 3).map Char.toLower = ['u', 't', 'c'] then some (0, cs.drop 2)
    else if c = 'Z' ∨ c = 'z' then some (0, cs)
    else if c = '+' then (hoursAndMinutes cs).map fun (m, cs) => (Int.ofNat m, cs)
    else if c = '-' ∨ c = '−' then (hoursAndMinutes cs).map fun (m, cs) => (-Int.ofNat m, cs)
    else none
  | [] => none

def minutesOfDay : Nat := 24 * 60

/-- Whether a minute of a day lies in the calendar also by the time at Greenwich. -/
def isInCalendar (d : Day) (minute : Nat) (offset : Int) : Bool :=
  let there := Int.ofNat minute - offset
  (0 ≤ there || d ≠ firstDay) && (there < Int.ofNat minutesOfDay || d ≠ lastDay)

/-- Skips a moment. -/
def skip (cs : List Char) : Option (List Char) :=
  match date cs with
  | some (d, c :: cs) => do
    if !(c = 'T' || c = 't' || c = ' ') then none
    let (minute, cs) ← time cs
    let (offset, cs) ← offset (skipBlanks cs)
    if isInCalendar d minute offset then some cs else none
  | _ => none

end ImageBuild.Text.Moment

namespace ImageBuild.Text

/-- Whether a text tells a moment. -/
def isMoment (s : String) : Bool :=
  match Moment.skip s.toList with
  | some rest => rest.all isBlank
  | none => false

end ImageBuild.Text
