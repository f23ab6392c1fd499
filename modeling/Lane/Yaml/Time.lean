import Lane.Number.Decimal

set_option relaxedAutoImplicit false
set_option autoImplicit false

/-!
# Times

A time is a date with a time of day in a zone. A date alone is its midnight, and without a zone the
time is universal.

## Main definitions

* `Lane.Yaml.Time`: dates with times of day.
* `Lane.Yaml.Time.ofText?`: the time that a text is written as.
* `Lane.Yaml.Time.seconds`: the moment of a time, up to parts of a second.
* `Lane.Yaml.Time.text`: a time as messages show it.
-/

namespace Lane.Yaml

/-- The zone that a time of day belongs to. -/
inductive Zone where
  | universal
  /-- The zone of the machine, which is not ahead of universal time. -/
  | machine
  /-- A zone that is some seconds ahead of universal time. -/
  | ahead (seconds : Int)
  deriving DecidableEq, Repr, Inhabited

namespace Zone

/-- How many seconds a zone is ahead of universal time. -/
def offset : Zone → Int
  | .universal | .machine => 0
  | .ahead seconds => seconds

/-- The zone that a text is written as: `Z`, or hours and minutes with a sign. -/
def ofChars? : List Char → Option Zone
  | ['Z'] => some .universal
  | [sign, a, b, ':', c, d] =>
    let hours := digitsValue [a, b]
    let minutes := digitsValue [c, d]
    let seconds : Int := 3600 * hours + 60 * minutes
    if (sign = '+' ∨ sign = '-') ∧ [a, b, c, d].all Char.isDigit ∧ hours ≤ 24 ∧ minutes ≤ 60 then
      some (if seconds = 0 then .machine else .ahead (if sign = '-' then -seconds else seconds))
    else none
  | _ => none

/-- Whether all times that name the zone mean the same one: those that are full hours ahead, as far
as there are such zones on earth. -/
def isShared : Zone → Bool
  | .universal | .machine => true
  | .ahead seconds => seconds % 3600 = 0 && -12 * 3600 ≤ seconds && seconds ≤ 14 * 3600

/-- The place of a zone in an order of zones. -/
def rank : Zone → Int × Int
  | .universal => (0, 0)
  | .machine => (1, 0)
  | .ahead seconds => (2, seconds)

/-- A zone as messages show it. -/
def text : Zone → String
  | .universal => "time.UTC"
  | .machine => "time.Local"
  | .ahead _ => "time.Location(\"\")"

end Zone

/-- A date with a time of day in a zone. -/
structure Time where
  year : Nat
  month : Nat
  day : Nat
  hour : Nat := 0
  minute : Nat := 0
  second : Nat := 0
  nanosecond : Nat := 0
  zone : Zone := .universal
  deriving DecidableEq, Repr, Inhabited

/-! ## Reading -/

/-- A number of one or two digits at the start of a text, and what follows it. -/
def shortNumber? : List Char → Option (Nat × List Char)
  | a :: b :: rest =>
    if !a.isDigit then none
    else if b.isDigit then some (digitsValue [a, b], rest)
    else some (digitsValue [a], b :: rest)
  | [a] => if a.isDigit then some (digitsValue [a], []) else none
  | [] => none

/-- The text after a character. -/
def after? (c : Char) : List Char → Option (List Char)
  | d :: rest => if d = c then some rest else none
  | [] => none

/-- The number of days of a month. -/
def daysIn (year month : Nat) : Nat :=
  if month = 2 then
    if year % 4 = 0 ∧ (year % 100 ≠ 0 ∨ year % 400 = 0) then 29 else 28
  else if [4, 6, 9, 11].contains month then 30 else 31

namespace Time

/-- The midnight of the date at the start of a text, and what follows the date. -/
def date? (cs : List Char) : Option (Time × List Char) := do
  let digits := cs.takeWhile Char.isDigit
  if digits.length ≠ 4 then none
  let year := digitsValue digits
  let (month, cs) ← shortNumber? (← after? '-' (cs.drop 4))
  let (day, cs) ← shortNumber? (← after? '-' cs)
  if 1 ≤ month ∧ month ≤ 12 ∧ 1 ≤ day ∧ day ≤ daysIn year month then
    some ({ year, month, day }, cs)
  else none

/-- A number below a limit at the start of a text, and what follows it. -/
def below? (limit : Nat) (cs : List Char) : Option (Nat × List Char) := do
  let (n, cs) ← shortNumber? cs
  if n < limit then some (n, cs) else none

/-- The parts of a second at the start of a text in nanoseconds, and what follows them. Digits
after the ninth mean nothing. -/
def nanoseconds (cs : List Char) : Nat × List Char :=
  match cs with
  | mark :: rest =>
    let digits := rest.takeWhile Char.isDigit
    if (mark = '.' ∨ mark = ',') ∧ digits ≠ [] then
      (digitsValue ((digits ++ List.replicate 9 '0').take 9), rest.dropWhile Char.isDigit)
    else (0, cs)
  | [] => (0, cs)

/-- The time of the day of `t` at the start of a text, and what follows it. -/
def clock? (t : Time) (cs : List Char) : Option (Time × List Char) := do
  let (hour, cs) ← below? 24 cs
  let (minute, cs) ← below? 60 (← after? ':' cs)
  let (second, cs) ← below? 60 (← after? ':' cs)
  let (nanosecond, cs) := nanoseconds cs
  return ({ t with hour, minute, second, nanosecond }, cs)

/-- The time that a text is written as: a date, or a date and a time of day. A letter between the
two asks for a zone, and any number of spaces between them for none. -/
def ofText? (s : String) : Option Time := do
  match ← date? s.toList with
  | (t, []) => some t
  | (t, c :: rest) =>
    if c = 'T' ∨ c = 't' then
      let (t, cs) ← t.clock? rest
      return { t with zone := ← Zone.ofChars? cs }
    else if c = ' ' then
      match ← t.clock? (rest.dropWhile (· = ' ')) with
      | (t, []) => some t
      | _ => none
    else none

/-! ## Moments -/

/-- The number of days from the start of the year `0` to a date. -/
def days (t : Time) : Nat :=
  let years := 365 * t.year + (t.year + 3) / 4 - (t.year + 99) / 100 + (t.year + 399) / 400
  let months := (List.range (t.month - 1)).foldl (fun n m => n + daysIn t.year (m + 1)) 0
  years + months + t.day - 1

/-- The number of seconds from the start of the year `0` to a time. -/
def seconds (t : Time) : Int :=
  86400 * t.days + 3600 * t.hour + 60 * t.minute + t.second - t.zone.offset

/-- The place of a time in an order of times: parts of a second come first. -/
def rank (t : Time) : List Int := [t.nanosecond, t.seconds, t.zone.rank.1, t.zone.rank.2]

/-- The names of the months. -/
def months : List String :=
  ["January", "February", "March", "April", "May", "June", "July", "August", "September",
    "October", "November", "December"]

/-- A time as messages show it. -/
def text (t : Time) : String :=
  let clock := [t.day, t.hour, t.minute, t.second, t.nanosecond].map toString
  "time.Date(" ++ ", ".intercalate ([toString t.year, "time." ++ months.getD (t.month - 1) ""]
    ++ clock ++ [t.zone.text]) ++ ")"

end Time

end Lane.Yaml
