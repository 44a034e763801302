import RouteLens.Number.Decimal

/-!
# Timestamps

Days, and points of time on a day, as a settings document writes them, with their normal form.
-/

namespace RouteLens

/-- A day, possibly with a time. -/
structure Timestamp where
  year : Nat
  month : Nat
  day : Nat
  time : Option (Nat × Nat × Nat × Nat)
  offset : Option Int

namespace Timestamp

/-- The value of digits. -/
def number (cs : List Char) : Nat :=
  cs.foldl (fun n c => n * 10 + (c.toNat - '0'.toNat)) 0

/-- A number of at least `least` and at most `most` digits, as many as there are. -/
def digits? (least most : Nat) (cs : List Char) : Option (Nat × List Char) :=
  let run := (cs.takeWhile Char.isDigit).take most
  if run.length < least then none else some (number run, cs.drop run.length)

/-- A character that has to come next. -/
def expect? (c : Char) : List Char → Option (List Char)
  | d :: cs => if c == d then some cs else none
  | [] => none

/-- A blank or a tab. -/
def isBlank (c : Char) : Bool :=
  c == ' ' || c == '\t'

/-- What stands between the day and the time. -/
def separator? (cs : List Char) : Option (List Char) :=
  match cs with
  | 'T' :: rest => some rest
  | 't' :: rest => some rest
  | _ => if cs.head?.any isBlank then some (cs.dropWhile isBlank) else none

/-- A fraction of a second in millionths, and what follows it. -/
def fraction (cs : List Char) : Nat × List Char :=
  match cs with
  | '.' :: rest =>
    let run := rest.takeWhile Char.isDigit
    (number ((run ++ List.replicate 6 '0').take 6), rest.drop run.length)
  | _ => (0, cs)

/-- The distance from universal time in minutes, at the end of the text. -/
def offset? (cs : List Char) : Option (Option Int) :=
  match cs.dropWhile isBlank with
  | [] => if cs.isEmpty then some none else none
  | ['Z'] => some (some 0)
  | c :: rest =>
    if c == '+' || c == '-' then do
      let (hours, rest) ← digits? 1 2 rest
      let minutes ← match rest with
        | [] => some 0
        | ':' :: rest =>
          match digits? 2 2 rest with
          | some (m, []) => some m
          | _ => none
        | _ => none
      let distance : Int := hours * 60 + minutes
      some (some (if c == '-' then -distance else distance))
    else none

/-- Reads a timestamp. -/
def read? (s : String) : Option Timestamp := do
  let (year, rest) ← digits? 4 4 s.toList
  let rest ← expect? '-' rest
  let (month, afterMonth) ← digits? 1 2 rest
  let rest ← expect? '-' afterMonth
  let (day, afterDay) ← digits? 1 2 rest
  if afterDay.isEmpty then
    if s.length == 10 then some ⟨year, month, day, none, none⟩ else none
  else
    let rest ← separator? afterDay
    let (hour, rest) ← digits? 1 2 rest
    let (minute, rest) ← digits? 2 2 (← expect? ':' rest)
    let (second, rest) ← digits? 2 2 (← expect? ':' rest)
    let (millionths, rest) := fraction rest
    let offset ← offset? rest
    some ⟨year, month, day, some (hour, minute, second, millionths), offset⟩

/-- Whether a year has a leap day. -/
def isLeap (year : Nat) : Bool :=
  year % 4 == 0 && (year % 100 != 0 || year % 400 == 0)

/-- The number of days of a month. -/
def daysIn (year month : Nat) : Nat :=
  if month == 2 then (if isLeap year then 29 else 28)
  else if month == 4 || month == 6 || month == 9 || month == 11 then 30
  else 31

/-- Whether there is such a day and such a time. -/
def isValid (t : Timestamp) : Bool :=
  1 ≤ t.year && 1 ≤ t.month && t.month ≤ 12 && 1 ≤ t.day && t.day ≤ daysIn t.year t.month &&
    (t.time.all fun (h, m, s, _) => h < 24 && m < 60 && s < 60) &&
    (t.offset.all fun o => o.natAbs < 24 * 60)

/-- A number with leading zeros. -/
def padded (width n : Nat) : String :=
  let s := toString n
  String.ofList (List.replicate (width - s.length) '0') ++ s

/-- The distance from universal time, as it is written. -/
def offsetText (o : Int) : String :=
  (if o < 0 then "-" else "+") ++ padded 2 (o.natAbs / 60) ++ ":" ++ padded 2 (o.natAbs % 60)

/-- The normal form. -/
def toText (t : Timestamp) : String :=
  padded 4 t.year ++ "-" ++ padded 2 t.month ++ "-" ++ padded 2 t.day ++
    (match t.time with
    | none => ""
    | some (h, m, s, u) =>
      "T" ++ padded 2 h ++ ":" ++ padded 2 m ++ ":" ++ padded 2 s ++
        (if u == 0 then "" else "." ++ padded 6 u)) ++
    (match t.offset with
    | none => ""
    | some o => offsetText o)

/-- The day that is a number of days after the first of January 1970: year, month and day.  Years
are counted from March on, so that a leap day is the last day of its year. -/
def dayAfter (days : Nat) : Nat × Nat × Nat :=
  let shifted := days + 719468
  let inEra := shifted % 146097
  let yearOfEra := (inEra - inEra / 1460 + inEra / 36524 - inEra / 146096) / 365
  let dayOfYear := inEra - (365 * yearOfEra + yearOfEra / 4 - yearOfEra / 100)
  let index := (5 * dayOfYear + 2) / 153
  let month := if index < 10 then index + 3 else index - 9
  let year := yearOfEra + shifted / 146097 * 400 + (if month ≤ 2 then 1 else 0)
  (year, month, dayOfYear - (153 * index + 2) / 5 + 1)

/-- The point of universal time that is a number of millionths of a second after the start of
1970. -/
def ofMicroseconds (n : Nat) : Timestamp :=
  let seconds := n / 1000000
  let (year, month, day) := dayAfter (seconds / 86400)
  ⟨year, month, day,
    some (seconds / 3600 % 24, seconds / 60 % 60, seconds % 60, n % 1000000), some 0⟩

end Timestamp

end RouteLens
