/-!
# Dates and times in TOML

A moment is a date, a time of day, or both; a moment with both may have an offset from universal
time. The seconds of a time may be missing. A moment has one text in normal form: it has a `T`
between date and time, at most nine digits of a fraction without needless zeros, and capital
letters.

Main definitions: `Moment.ofChars?` and `Moment.text`.
-/

namespace CloudTemplate
namespace Toml

/-- A day of the calendar. -/
structure Date where
  year : Nat
  month : Nat
  day : Nat
deriving DecidableEq, Repr

/-- A time of day. -/
structure TimeOfDay where
  hour : Nat
  minute : Nat
  second : Option Nat
  /-- The digits behind the point. -/
  fraction : Option (List Char)
deriving DecidableEq, Repr

/-- The distance from universal time. -/
inductive Offset where
  | zero
  /-- A count of minutes that was written with a sign. -/
  | minutes (ahead : Int)
deriving DecidableEq, Repr

/-- A date, a time, or both. -/
inductive Moment where
  | day (date : Date)
  | clock (time : TimeOfDay)
  | full (date : Date) (time : TimeOfDay) (offset : Option Offset)
deriving DecidableEq, Repr

/-- The number that a given count of digits spells, and what follows. -/
def fixedNumber? (count : Nat) (cs : List Char) : Option (Nat × List Char) :=
  let digits := cs.take count
  if digits.length = count && digits.all Char.isDigit then
    some (digits.foldl (fun n c => n * 10 + (c.toNat - '0'.toNat)) 0, cs.drop count)
  else none

/-- A number with at least a given count of digits. -/
def paddedNumber (count n : Nat) : String :=
  let digits := Nat.toDigits 10 n
  String.ofList (List.replicate (count - digits.length) '0' ++ digits)

/-- What follows an expected character. -/
def behind? (expected : Char) : List Char → Option (List Char)
  | c :: rest => if c = expected then some rest else none
  | [] => none

namespace Date

/-- The number of days of a month. -/
def daysOf (year month : Nat) : Nat :=
  if month = 2 then
    if year % 4 = 0 && (year % 100 ≠ 0 || year % 400 = 0) then 29 else 28
  else if [4, 6, 9, 11].contains month then 30
  else 31

/-- A date, and what follows. -/
def ofChars? (cs : List Char) : Option (Date × List Char) := do
  let (year, cs) ← fixedNumber? 4 cs
  let (month, cs) ← fixedNumber? 2 (← behind? '-' cs)
  let (day, cs) ← fixedNumber? 2 (← behind? '-' cs)
  if 1 ≤ month && month ≤ 12 && 1 ≤ day && day ≤ daysOf year month then
    some (⟨year, month, day⟩, cs)
  else none

/-- The text of a date. -/
def text (d : Date) : String :=
  paddedNumber 4 d.year ++ "-" ++ paddedNumber 2 d.month ++ "-" ++ paddedNumber 2 d.day

end Date

namespace TimeOfDay

/-- The fraction of a second, which may be missing, and what follows. -/
def fraction? : List Char → Option (Option (List Char) × List Char)
  | '.' :: rest =>
    let digits := rest.takeWhile Char.isDigit
    if digits.isEmpty then none else some (some digits, rest.drop digits.length)
  | cs => some (none, cs)

/-- The seconds, which may be missing, with their fraction, and what follows. A second of index 60
is a leap second. -/
def second? : List Char → Option ((Option Nat × Option (List Char)) × List Char)
  | ':' :: rest => do
    let (second, rest) ← fixedNumber? 2 rest
    let (fraction, rest) ← fraction? rest
    if second ≤ 60 then some ((some second, fraction), rest) else none
  | cs => some ((none, none), cs)

/-- A time, and what follows. -/
def ofChars? (cs : List Char) : Option (TimeOfDay × List Char) := do
  let (hour, cs) ← fixedNumber? 2 cs
  let (minute, cs) ← fixedNumber? 2 (← behind? ':' cs)
  let ((second, fraction), cs) ← second? cs
  if hour ≤ 23 && minute ≤ 59 then some (⟨hour, minute, second, fraction⟩, cs) else none

/-- The digits of a fraction in normal form, at least one. -/
def fractionText (digits : List Char) : String :=
  let kept := ((digits.take 9).reverse.dropWhile (· = '0')).reverse
  if kept.isEmpty then "0" else String.ofList kept

/-- The text of a time. -/
def text (t : TimeOfDay) : String :=
  paddedNumber 2 t.hour ++ ":" ++ paddedNumber 2 t.minute ++
    (t.second.elim "" fun second => ":" ++ paddedNumber 2 second) ++
    (t.fraction.elim "" fun digits => "." ++ fractionText digits)

end TimeOfDay

namespace Offset

/-- The offset that some characters spell. -/
def ofChars? : List Char → Option Offset
  | [] => none
  | sign :: rest =>
    if sign = 'Z' || sign = 'z' then if rest.isEmpty then some .zero else none
    else if sign = '+' || sign = '-' then do
      let (hour, rest) ← fixedNumber? 2 rest
      let (minute, rest) ← fixedNumber? 2 (← behind? ':' rest)
      let size : Int := hour * 60 + minute
      if hour ≤ 23 && minute ≤ 59 && rest.isEmpty then
        some (.minutes (if sign = '-' then -size else size))
      else none
    else none

/-- The text of an offset. -/
def text : Offset → String
  | .zero => "Z"
  | .minutes ahead =>
    (if ahead < 0 then "-" else "+") ++ paddedNumber 2 (ahead.natAbs / 60) ++ ":" ++
      paddedNumber 2 (ahead.natAbs % 60)

end Offset

namespace Moment

/-- What stands behind a date: nothing, or a time with an optional offset. -/
def ofDate? (date : Date) : List Char → Option Moment
  | [] => some (.day date)
  | c :: rest =>
    if c = 'T' || c = 't' || c = ' ' then do
      let (time, rest) ← TimeOfDay.ofChars? rest
      if rest.isEmpty then some (.full date time none)
      else (Offset.ofChars? rest).map fun offset => .full date time (some offset)
    else none

/-- The moment that some characters spell. -/
def ofChars? (cs : List Char) : Option Moment :=
  match Date.ofChars? cs with
  | some (date, rest) => ofDate? date rest
  | none =>
    match TimeOfDay.ofChars? cs with
    | some (time, []) => some (.clock time)
    | _ => none

/-- The text of a moment in normal form. -/
def text : Moment → String
  | .day date => date.text
  | .clock time => time.text
  | .full date time offset => date.text ++ "T" ++ time.text ++ (offset.elim "" Offset.text)

end Moment

end Toml
end CloudTemplate
