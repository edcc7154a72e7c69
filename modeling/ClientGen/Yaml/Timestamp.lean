import ClientGen.Number.Calendar

/-! # Points in time

A date, perhaps with a time of day behind a letter or blanks. Behind the letter a
zone has to follow the time, behind blanks it may not.
-/

namespace ClientGen
namespace Yaml

structure Timestamp where
  year : Nat
  month : Nat
  day : Nat
  hour : Nat := 0
  minute : Nat := 0
  second : Nat := 0
  /-- The digits of the fraction of the second. -/
  fraction : List Char := []
  /-- The distance of the zone in minutes. -/
  zone : Int := 0
deriving DecidableEq, Repr, Inhabited

namespace Timestamp

open Number (digits? after?)

/-- The date at the start: four digits for the year, one or two for the month and
the day. -/
def date? (cs : List Char) : Option (Timestamp × List Char) := do
  if (cs.takeWhile Char.isDigit).length != 4 then none
  let (year, cs) ← digits? 4 4 cs
  let (month, cs) ← digits? 1 2 (← after? '-' cs)
  let (day, cs) ← digits? 1 2 (← after? '-' cs)
  if Number.isDay year month day then some ({ year, month, day }, cs) else none

/-- The digits of a fraction at the start, behind a point or a comma. -/
def splitFraction (cs : List Char) : List Char × List Char :=
  match cs with
  | c :: rest =>
    let digits := rest.takeWhile Char.isDigit
    if (c == '.' || c == ',') && !digits.isEmpty then (digits, rest.drop digits.length) else ([], cs)
  | [] => ([], [])

def time? (t : Timestamp) (cs : List Char) : Option (Timestamp × List Char) := do
  let (hour, cs) ← digits? 1 2 cs
  let (minute, cs) ← digits? 1 2 (← after? ':' cs)
  let (second, cs) ← digits? 1 2 (← after? ':' cs)
  let (fraction, cs) := splitFraction cs
  if hour < 24 && minute < 60 && second < 60 then some ({ t with hour, minute, second, fraction }, cs)
  else none

/-- The zone: a letter for none, or a signed distance of hours and minutes. -/
def zone? (cs : List Char) : Option Int :=
  match cs with
  | ['Z'] => some 0
  | sign :: rest => do
    let (hours, rest) ← digits? 2 2 rest
    let (minutes, rest) ← digits? 2 2 (← after? ':' rest)
    if !rest.isEmpty || hours > 24 || minutes > 60 then none
    let distance : Int := hours * 60 + minutes
    if sign == '+' then some distance else if sign == '-' then some (-distance) else none
  | [] => none

def ofText? (s : String) : Option Timestamp := do
  let (t, cs) ← date? s.toList
  match cs with
  | [] => some t
  | c :: rest =>
    if c == 'T' || c == 't' then do
      let (t, cs) ← t.time? rest
      return { t with zone := ← zone? cs }
    else if c == ' ' then do
      let (t, cs) ← t.time? (rest.dropWhile (· == ' '))
      if cs.isEmpty then some t else none
    else none

def padded (width n : Nat) : String :=
  let digits := Text.ofNat n
  Text.repeated (width - digits.length) "0" ++ digits

/-- A point in time as a text. Nine digits of the fraction count, and zeros at
their end are left out. -/
def text (t : Timestamp) : String :=
  let fraction := Text.dropTrailing (· == '0') (t.fraction.take 9)
  let distance := (if t.zone < 0 then "-" else "+") ++ padded 2 (t.zone.natAbs / 60) ++
    padded 2 (t.zone.natAbs % 60)
  padded 4 t.year ++ "-" ++ padded 2 t.month ++ "-" ++ padded 2 t.day ++ " " ++
    padded 2 t.hour ++ ":" ++ padded 2 t.minute ++ ":" ++ padded 2 t.second ++
    (if fraction.isEmpty then "" else "." ++ String.ofList fraction) ++
    " " ++ distance ++ " " ++ (if t.zone == 0 then "UTC" else distance)

end Timestamp
end Yaml
end ClientGen
