import BytecodeAudit.Text.Basic

/-!
# Time

A point in time together with the distance from universal time it was written with, in the text form
`2006-01-02T15:04:05.999999999Z07:00`. What was written with an offset is written with it again.
-/

namespace BytecodeAudit

/-! ### Durations

The text form of a duration is `1h2m3.5s`. -/

structure Duration where
  nanos : Int
deriving DecidableEq, Repr

namespace Duration

def millis (n : Int) : Duration := ⟨n * 1000000⟩

/-- The longest duration a machine word of nanoseconds holds. -/
def maxNanos : Int := Word.span 63 - 1

def clamp (d : Duration) : Duration :=
  ⟨max (-(Word.span 63 : Int)) (min maxNanos d.nanos)⟩

/-- The nearest multiple of `unit`; halves go away from zero. -/
def round (unit : Nat) (d : Duration) : Duration :=
  let n := d.nanos.natAbs
  let r := n % unit
  let rounded := if r * 2 < unit then n - r else n - r + unit
  clamp ⟨if d.nanos < 0 then -(rounded : Int) else rounded⟩

/-- `n` units of `10 ^ -places` as a decimal without trailing zeros. -/
def decimal (n places : Nat) : String :=
  let unit := Nat.pow 10 places
  let frac := n % unit
  let digits := Nat.toDigits 10 frac
  let frac := (List.replicate (places - digits.length) '0' ++ digits).reverse.dropWhile (· == '0')
  toString (n / unit) ++ (if frac.isEmpty then "" else "." ++ String.ofList frac.reverse)

/-- Writes a duration: below a second in the largest unit with a whole part, otherwise in hours,
minutes and seconds. -/
def text (d : Duration) : String :=
  let n := d.nanos.natAbs
  let sign := if d.nanos < 0 then "-" else ""
  if n == 0 then "0s"
  else if n < 1000 then sign ++ toString n ++ "ns"
  else if n < 1000000 then sign ++ decimal n 3 ++ "µs"
  else if n < 1000000000 then sign ++ decimal n 6 ++ "ms"
  else
    let minutes := n / 60000000000
    let seconds := decimal (n % 60000000000) 9 ++ "s"
    let hours := minutes / 60
    if minutes == 0 then sign ++ seconds
    else if hours == 0 then sign ++ toString minutes ++ "m" ++ seconds
    else sign ++ toString hours ++ "h" ++ toString (minutes % 60) ++ "m" ++ seconds

/-! ### Reading -/

def unit? (name : String) : Option Nat :=
  [("ns", 1), ("us", 1000), ("µs", 1000), ("μs", 1000), ("ms", 1000000), ("s", 1000000000),
    ("m", 60000000000), ("h", 3600000000000)].lookup name

/-- A number with a unit at the front of a text: its nanoseconds and the rest. -/
def part? (cs : List Char) : Option (Nat × List Char) := do
  let (whole, fraction, rest) := Text.splitPoint Char.isDigit cs
  if whole.isEmpty && fraction.isEmpty then failure
  let isName := fun c : Char => c != '.' && !c.isDigit
  let unit ← unit? (String.ofList (rest.takeWhile isName))
  some (Nat.ofDigitChars 10 whole 0 * unit + Nat.ofDigitChars 10 fraction 0 * unit / Nat.pow 10 fraction.length,
    rest.dropWhile isName)

def parts? (fuel : Nat) (cs : List Char) : Option Nat :=
  match fuel, cs with
  | _, [] => some 0
  | 0, _ => none
  | n + 1, cs => do
    let (nanos, rest) ← part? cs
    some (nanos + (← parts? n rest))

/-- Reads a duration: a sign, if any, and numbers with units, as in `1h2m3.5s`. -/
def parse? (s : String) : Option Duration := do
  let (sign, cs) := Text.splitSign s.toList
  if cs == ['0'] then some ⟨0⟩
  else if cs.isEmpty then none
  else
    let n ← parts? cs.length cs
    let d : Duration := ⟨if sign == some '-' then -(n : Int) else n⟩
    if d.clamp == d then some d else none

end Duration

/-! ### Points in time -/

structure Instant where
  /-- Nanoseconds since the start of 1970 in universal time. -/
  nanos : Int
  /-- Seconds by which local time is ahead of universal time. -/
  offset : Int := 0
deriving DecidableEq, Repr, Inhabited

namespace Instant

def daysOfDate (year : Int) (month day : Nat) : Int :=
  let y := if month ≤ 2 then year - 1 else year
  let era := Int.fdiv y 400
  let yoe := y - era * 400
  let mp := (month + 9) % 12
  let doy := (153 * mp + 2) / 5 + day - 1
  let doe := yoe * 365 + Int.fdiv yoe 4 - Int.fdiv yoe 100 + doy
  era * 146097 + doe - 719468

/-- The date of the Gregorian calendar a number of days after the start of 1970. -/
def dateOfDays (days : Int) : Int × Nat × Nat :=
  let z := days + 719468
  let era := Int.fdiv z 146097
  let doe := z - era * 146097
  let yoe := Int.fdiv (doe - Int.fdiv doe 1460 + Int.fdiv doe 36524 - Int.fdiv doe 146096) 365
  let doy := (doe - (365 * yoe + Int.fdiv yoe 4 - Int.fdiv yoe 100)).toNat
  let mp := (5 * doy + 2) / 153
  let day := doy - (153 * mp + 2) / 5 + 1
  let month := if mp < 10 then mp + 3 else mp - 9
  let year := yoe + era * 400
  (if month ≤ 2 then year + 1 else year, month, day)

def isLeapYear (year : Nat) : Bool := year % 4 == 0 && (year % 100 != 0 || year % 400 == 0)

def daysInMonth (year month : Nat) : Nat :=
  match month with
  | 2 => if isLeapYear year then 29 else 28
  | 4 | 6 | 9 | 11 => 30
  | _ => 31

def nanosPerSecond : Int := 1000000000

/-- The first instant of the year one, which stands for a time that was never set. -/
def unset : Instant := ⟨daysOfDate 1 1 1 * 86400 * nanosPerSecond, 0⟩

/-! ### Reading -/

def fixedNumber? (n : Nat) (cs : List Char) : Option (Nat × List Char) :=
  let ds := cs.take n
  if ds.length == n && ds.all Char.isDigit then
    some (ds.foldl (fun a c => a * 10 + (c.toNat - '0'.toNat)) 0, cs.drop n)
  else none

def expect? (c : Char) : List Char → Option (List Char)
  | d :: cs => if c == d then some cs else none
  | [] => none

def hour? (cs : List Char) : Option (Nat × List Char) :=
  match fixedNumber? 2 cs with
  | some r => some r
  | none => fixedNumber? 1 cs

/-- A fraction of a second in nanoseconds; digits after the ninth are dropped. -/
def fraction (cs : List Char) : Nat × List Char :=
  match cs with
  | c :: rest =>
    if c == '.' || c == ',' then
      match rest.takeWhile Char.isDigit with
      | [] => (0, cs)
      | ds =>
        let kept := ds.take 9
        (kept.foldl (fun a c => a * 10 + (c.toNat - '0'.toNat)) 0 * Nat.pow 10 (9 - kept.length),
          rest.dropWhile Char.isDigit)
    else (0, cs)
  | [] => (0, [])

def offset? : List Char → Option Int
  | ['Z'] => some 0
  | [s, a, b, ':', c, d] => do
    let (h, _) ← fixedNumber? 2 [a, b]
    let (m, _) ← fixedNumber? 2 [c, d]
    if 24 < h || 60 < m then none
    else if s == '+' then some ((h * 60 + m) * 60)
    else if s == '-' then some (-((h * 60 + m) * 60))
    else none
  | _ => none

def date? (cs : List Char) : Option ((Nat × Nat × Nat) × List Char) := do
  let (year, cs) ← fixedNumber? 4 cs
  let cs ← expect? '-' cs
  let (month, cs) ← fixedNumber? 2 cs
  let cs ← expect? '-' cs
  let (day, cs) ← fixedNumber? 2 cs
  some ((year, month, day), cs)

def clock? (cs : List Char) : Option ((Nat × Nat × Nat × Nat) × List Char) := do
  let (hour, cs) ← hour? cs
  let cs ← expect? ':' cs
  let (minute, cs) ← fixedNumber? 2 cs
  let cs ← expect? ':' cs
  let (second, cs) ← fixedNumber? 2 cs
  let (nanos, cs) := fraction cs
  some ((hour, minute, second, nanos), cs)

def parse? (s : String) : Option Instant := do
  let ((year, month, day), cs) ← date? s.toList
  let cs ← expect? 'T' cs
  let ((hour, minute, second, nanos), cs) ← clock? cs
  let offset ← offset? cs
  if month < 1 || 12 < month || day < 1 || daysInMonth year month < day || 23 < hour ||
      59 < minute || 59 < second then none
  else
    let seconds := daysOfDate year month day * 86400 + (hour * 3600 + minute * 60 + second : Nat)
    some ⟨(seconds - offset) * nanosPerSecond + nanos, offset⟩

/-! ### Writing -/

def padded (width n : Nat) : String :=
  let ds := Nat.toDigits 10 n
  String.ofList (List.replicate (width - ds.length) '0' ++ ds)

def fractionText (nanos : Nat) : String :=
  if nanos == 0 then ""
  else "." ++ String.ofList ((padded 9 nanos).toList.reverse.dropWhile (· == '0')).reverse

def offsetText (offset : Int) : String :=
  if offset == 0 then "Z"
  else
    let minutes := offset.natAbs / 60
    (if offset < 0 then "-" else "+") ++ padded 2 (minutes / 60) ++ ":" ++ padded 2 (minutes % 60)

def localNanos (t : Instant) : Int := t.nanos + t.offset * nanosPerSecond

def localDate (t : Instant) : Int × Nat × Nat := dateOfDays (Int.fdiv (Int.fdiv t.localNanos nanosPerSecond) 86400)

def localYear (t : Instant) : Int := t.localDate.1

def localText (t : Instant) (separator : String) : String :=
  let seconds := Int.fdiv t.localNanos nanosPerSecond
  let nanos := (Int.fmod t.localNanos nanosPerSecond).toNat
  let (year, month, day) := t.localDate
  let rest := (Int.fmod seconds 86400).toNat
  padded 4 year.toNat ++ "-" ++ padded 2 month ++ "-" ++ padded 2 day ++ separator ++
    padded 2 (rest / 3600) ++ ":" ++ padded 2 (rest / 60 % 60) ++ ":" ++ padded 2 (rest % 60) ++
    fractionText nanos

def text (t : Instant) : String := t.localText "T" ++ offsetText t.offset

/-- Writes an instant for display, with the distance from universal time and the name of the zone,
or else the distance again. -/
def display (t : Instant) : String :=
  let minutes := t.offset.natAbs / 60
  let distance :=
    (if t.offset < 0 then "-" else "+") ++ padded 2 (minutes / 60) ++ padded 2 (minutes % 60)
  t.localText " " ++ " " ++ distance ++ " " ++ (if t.offset == 0 then "UTC" else distance)

/-- The time from one instant to another, as far as a machine word holds it. -/
def since (now start : Instant) : Duration := Duration.clamp ⟨now.nanos - start.nanos⟩

end Instant

end BytecodeAudit
