import PackageExports.Yaml.Cursor
import PackageExports.Yaml.Fault

/-!
# Moments

A moment is a date, a date with a time of day, or such a time with its offset from universal time. Moments of
different kinds are never the same; two with offsets are the same if they are the same in universal time.

Main definitions: `Yaml.Moment`, `Yaml.Moment.ofText?`, `Yaml.Moment.isPlain`, `Yaml.Moment.instant`.
-/

namespace PackageExports.Yaml

/-- A time of day. -/
structure TimeOfDay where
  hour : Nat
  minute : Nat
  second : Nat
  microsecond : Nat
  /-- How many minutes the time is ahead of universal time. -/
  offset : Option Int

/-- A moment as it is written, which need not exist. -/
structure Moment where
  year : Nat
  month : Nat
  day : Nat
  time : Option TimeOfDay := none

/-- A moment that exists: a day, a time of day there, or a point of universal time in microseconds. -/
inductive Instant where
  | day (n : Nat)
  | clock (microseconds : Int)
  | universal (microseconds : Int)
deriving DecidableEq

/-- A number of so many digits, and the rest. -/
def digitsOf (least most : Nat) (t : Text) : Option (Nat × Text) :=
  let digits := (t.takeWhile CodePoint.isDigit).take most
  if digits.length < least then none else some (Text.natOfDigits digits, t.drop digits.length)

/-- A number of so many digits after a mark, and the rest. -/
def digitsAfter (mark : CodePoint) (least most : Nat) (t : Text) : Option (Nat × Text) :=
  match t with
  | c :: rest => if c = mark then digitsOf least most rest else none
  | [] => none

/-- The offset in minutes that stands after the time of day, if the rest is one or nothing. -/
def offset? (t : Text) : Option (Option Int) :=
  match t.dropWhile isTabOrSpace with
  | [] => if t.isEmpty then some none else none
  | c :: after =>
    let sign : Int := if c = '-' then -1 else 1
    if c = 'Z' then (if after.isEmpty then some (some 0) else none)
    else if c = '+' ∨ c = '-' then
      match digitsOf 1 2 after with
      | some (hours, []) => some (some (sign * (60 * hours)))
      | some (hours, rest) =>
        match digitsAfter ':' 2 2 rest with
        | some (minutes, []) => some (some (sign * (60 * hours + minutes)))
        | _ => none
      | none => none
    else none

/-- The microseconds that the digits of a fraction of a second write; further digits are dropped. -/
def microseconds (digits : Text) : Nat :=
  let kept := digits.take 6
  Text.natOfDigits kept * Nat.pow 10 (6 - kept.length)

namespace TimeOfDay

/-- The time of day that stands after a date. -/
def ofText? (t : Text) : Option TimeOfDay := do
  let t ←
    match t with
    | c :: rest =>
      if c = 'T' ∨ c = 't' then some rest
      else if isTabOrSpace c then some (rest.dropWhile isTabOrSpace)
      else none
    | [] => none
  let (hour, t) ← digitsOf 1 2 t
  let (minute, t) ← digitsAfter ':' 2 2 t
  let (second, t) ← digitsAfter ':' 2 2 t
  let (fraction, t) :=
    match t with
    | c :: rest => if c = '.' then (rest.takeWhile CodePoint.isDigit, rest.dropWhile CodePoint.isDigit) else ([], t)
    | [] => ([], t)
  let offset ← offset? t
  return { hour, minute, second, microsecond := microseconds fraction, offset }

/-- The first part that is out of range, apart from the offset. -/
def fault? (t : TimeOfDay) : Option MomentPart :=
  if 24 ≤ t.hour then some .hour
  else if 60 ≤ t.minute then some .minute
  else if 60 ≤ t.second then some .second
  else none

/-- The microseconds since midnight. -/
def sinceMidnight (t : TimeOfDay) : Nat :=
  1000000 * (60 * (60 * t.hour + t.minute) + t.second) + t.microsecond

end TimeOfDay

def daysIn (year month : Nat) : Nat :=
  if month = 2 then (if year % 4 = 0 ∧ (year % 100 ≠ 0 ∨ year % 400 = 0) then 29 else 28)
  else if month ∈ [4, 6, 9, 11] then 30
  else 31

namespace Moment

/-- The moment that a text has the form of. -/
def ofText? (t : Text) : Option Moment := do
  let (year, rest) ← digitsOf 4 4 t
  let (month, rest) ← digitsAfter '-' 1 2 rest
  let (day, rest) ← digitsAfter '-' 1 2 rest
  if rest.isEmpty then return { year, month, day }
  let time ← TimeOfDay.ofText? rest
  return { year, month, day, time := some time }

/-- Whether a plain scalar is a moment: a date by itself must have two digits for month and day. -/
def isPlain (t : Text) : Bool :=
  match ofText? t with
  | some m => m.time.isSome || t.length == 10
  | none => false

/-- The first part that is out of range; the offset comes first, for the time is placed by it. -/
def fault? (m : Moment) : Option MomentPart :=
  let offset := (m.time.bind TimeOfDay.offset).getD 0
  if 1440 ≤ offset.natAbs then some (.offset offset)
  else if m.year = 0 then some (.year 0)
  else if m.month = 0 ∨ 12 < m.month then some .month
  else if m.day = 0 ∨ daysIn m.year m.month < m.day then some .day
  else m.time.bind TimeOfDay.fault?

/-- The number of the day of an existing moment. -/
def dayNumber (m : Moment) : Nat :=
  let before := m.year - 1
  let earlierMonths := (List.range (m.month - 1)).foldl (fun n k => n + daysIn m.year (k + 1)) 0
  365 * before + before / 4 - before / 100 + before / 400 + earlierMonths + m.day

/-- When an existing moment is. -/
def instant (m : Moment) : Instant :=
  match m.time with
  | none => .day m.dayNumber
  | some time =>
    let reached : Int := 86400000000 * m.dayNumber + time.sinceMidnight
    match time.offset with
    | none => .clock reached
    | some minutes => .universal (reached - 60000000 * minutes)

end Moment

end PackageExports.Yaml
