import BytecodeAudit.Text.Basic

/-!
# Double-precision numbers

Binary floating-point numbers with a significand of 53 bits, as exact data: a sign, a significand
and a power of two, or an infinity, or no number. Conversions from decimal text are exact and round
to the nearest number, a tie to the even significand.
-/

namespace BytecodeAudit

/-- A double-precision number. A finite one is its significand times a power of two; the significand
is below `2 ^ 53`, and at least `2 ^ 52` unless the exponent is the least one. -/
inductive Binary64 where
  | finite (negative : Bool) (significand : Nat) (exponent : Int)
  | infinite (negative : Bool)
  | notANumber
deriving DecidableEq, Repr, Inhabited

namespace Binary64

def minExponent : Int := -1074

def maxExponent : Int := 971

/-- A quotient rounded to the nearest integer, a tie to the even one. -/
def roundDiv (num den : Nat) : Nat :=
  let q := num / den
  let r := num % den
  if 2 * r < den then q
  else if den < 2 * r then q + 1
  else if q % 2 == 0 then q
  else q + 1

def scaleDown (num den : Nat) (exponent : Int) : Nat × Nat :=
  if 0 ≤ exponent then (num, den * Nat.pow 2 exponent.toNat) else (num * Nat.pow 2 (-exponent).toNat, den)

/-- The exponent with which a positive quotient has a full significand, or the least one. -/
def exponentOf (num den : Nat) : Int :=
  let guess : Int := (num.log2 : Int) - den.log2 - 52
  let (n, d) := scaleDown num den guess
  max (if n < Nat.pow 2 52 * d then guess - 1 else guess) minExponent

def ofRatio (negative : Bool) (num den : Nat) : Binary64 :=
  if num == 0 then .finite negative 0 minExponent
  else
    let exponent := exponentOf num den
    let (n, d) := scaleDown num den exponent
    let rounded := roundDiv n d
    let (significand, exponent) :=
      if rounded == Nat.pow 2 53 then (Nat.pow 2 52, exponent + 1) else (rounded, exponent)
    if maxExponent < exponent then .infinite negative else .finite negative significand exponent

/-- Decimal exponents beyond this bound decide the result alone. -/
def decimalBound : Int := 400

def ofDecimal (negative : Bool) (digits : Nat) (exponent : Int) : Binary64 :=
  if digits == 0 then .finite negative 0 minExponent
  else
    let magnitude := exponent + (Nat.toDigits 10 digits).length
    if decimalBound < magnitude then .infinite negative
    else if magnitude < -decimalBound then .finite negative 0 minExponent
    else if 0 ≤ exponent then ofRatio negative (digits * Nat.pow 10 exponent.toNat) 1
    else ofRatio negative digits (Nat.pow 10 (-exponent).toNat)

def ofInt (n : Int) : Binary64 := ofRatio (n < 0) n.natAbs 1

def exponent? (cs : List Char) : Option Int :=
  let (sign, ds) := Text.splitSign cs
  (Text.number? 10 ds).map fun n => if sign == some '-' then -n else n

def ofUnsigned? (negative : Bool) (cs : List Char) : Option Binary64 := do
  let (whole, fraction, rest) := Text.splitPoint Char.isDigit cs
  let digits ← Text.number? 10 (whole ++ fraction)
  let exponent ← match rest with
    | [] => some 0
    | e :: rest => if e == 'e' || e == 'E' then exponent? rest else none
  some (ofDecimal negative digits (exponent - fraction.length))

def ofText? (s : String) : Option Binary64 :=
  let (sign, cs) := Text.splitSign s.toList
  ofUnsigned? (sign == some '-') cs

def truncate? : Binary64 → Option Int
  | .finite negative significand exponent =>
    let (n, d) := scaleDown significand 1 (-exponent)
    let magnitude : Int := (n / d : Nat)
    some (if negative then -magnitude else magnitude)
  | _ => none

def isZero : Binary64 → Bool
  | .finite _ significand _ => significand == 0
  | _ => false

def units (negative : Bool) (significand : Nat) (exponent : Int) : Int :=
  let n : Int := (significand * Nat.pow 2 (exponent - minExponent).toNat : Nat)
  if negative then -n else n

def le : Binary64 → Binary64 → Bool
  | .notANumber, _ => true
  | _, .notANumber => false
  | .infinite true, _ => true
  | _, .infinite true => false
  | _, .infinite false => true
  | .infinite false, _ => false
  | .finite n s e, .finite m t f => units n s e ≤ units m t f

end Binary64

/-! ### Numerals

Decimal or hexadecimal digits, with underscores between them, or words, in any case. A hexadecimal
numeral has an exponent, which is one of two. -/

namespace Numeral

def isHexDigit (c : Char) : Bool := (Text.hexValue? c).isSome

def underscoresFit (isDigit : Char → Bool) : (isBehindDigit : Bool) → List Char → Bool
  | _, [] => true
  | isBehindDigit, c :: cs =>
    if c == '_' then isBehindDigit && cs.head?.any isDigit && underscoresFit isDigit false cs
    else underscoresFit isDigit (isDigit c) cs

/-- Binary exponents beyond this bound decide the result alone. -/
def binaryBound : Int := 20000

def ofBinary (isNegative : Bool) (n : Nat) (exponent : Int) : Binary64 :=
  let (num, den) := Binary64.scaleDown n 1 (-(max (-binaryBound) (min binaryBound exponent)))
  Binary64.ofRatio isNegative num den

def hexadecimal? (isNegative : Bool) (cs : List Char) : Option Binary64 := do
  let (whole, fraction, rest) := Text.splitPoint isHexDigit cs
  let n ← Text.number? 16 (whole ++ fraction)
  match rest with
  | p :: rest =>
    if p != 'p' && p != 'P' then none
    else some (ofBinary isNegative n ((← Binary64.exponent? rest) - 4 * fraction.length))
  | [] => none

def unsigned? (isNegative : Bool) (cs : List Char) : Option Binary64 :=
  match cs with
  | '0' :: x :: c :: rest =>
    if x == 'x' || x == 'X' then
      if underscoresFit isHexDigit true (c :: rest) then
        hexadecimal? isNegative ((c :: rest).filter (· != '_'))
      else none
    else decimal? cs
  | cs => decimal? cs
where
  decimal? (cs : List Char) : Option Binary64 :=
    if underscoresFit Char.isDigit false cs then
      Binary64.ofUnsigned? isNegative (cs.filter (· != '_'))
    else none

def parse? (s : String) : Option Binary64 :=
  let (sign, rest) := Text.splitSign s.toList
  let word := rest.map Char.toLower
  if word == "inf".toList || word == "infinity".toList then some (.infinite (sign == some '-'))
  else if sign.isNone && word == "nan".toList then some .notANumber
  else
    (unsigned? (sign == some '-') rest).filter fun
      | .finite .. => true
      | _ => false

end Numeral

/-! ### The shortest decimal that reads back

The nearest one with the fewest digits among those that round to a number. -/

/-- The digits of a positive decimal, read behind a point, and the power of ten to multiply them by.
Zero has no digits. -/
structure DecimalDigits where
  digits : List Char
  point : Int
deriving DecidableEq, Repr

namespace Binary64

def scaleTen (num den : Nat) (power : Int) : Nat × Nat :=
  if 0 ≤ power then (num * Nat.pow 10 power.toNat, den) else (num, den * Nat.pow 10 (-power).toNat)

/-- The least power of ten above a positive quotient, found upwards from a guess that is too low. -/
def pointFrom (num den : Nat) (fuel : Nat) (point : Int) : Int :=
  match fuel with
  | 0 => point
  | fuel + 1 =>
    let (n, d) := scaleTen num den (-point)
    if n < d then point else pointFrom num den fuel (point + 1)

/-- The position of the decimal point of a positive quotient: it is below ten to this power and not
below a tenth of that. -/
def pointOf (num den : Nat) : Int :=
  let bits : Int := (num.log2 : Int) - den.log2
  pointFrom num den 8 (Int.fdiv (bits * 30103) 100000 - 2)

/-- The numbers whose decimals round to a number: those between two quotients over one denominator,
ends included or not. -/
structure RoundingInterval where
  low : Nat
  value : Nat
  high : Nat
  den : Nat
  closed : Bool
deriving Repr

/-- The interval of a positive finite number. Below a power of two the neighbours are closer. -/
def roundingInterval (significand : Nat) (exponent : Int) : RoundingInterval :=
  let (unit, den) := if 0 ≤ exponent then (Nat.pow 2 exponent.toNat, 4) else (1, 4 * Nat.pow 2 (-exponent).toNat)
  let below := if significand == Nat.pow 2 52 && minExponent < exponent then 1 else 2
  { low := (4 * significand - below) * unit
    value := 4 * significand * unit
    high := (4 * significand + 2) * unit
    den
    closed := significand % 2 == 0 }

def RoundingInterval.holds (i : RoundingInterval) (num den : Nat) : Bool :=
  let x := num * i.den
  let low := i.low * den
  let high := i.high * den
  if i.closed then low ≤ x && x ≤ high else low < x && x < high

/-- The nearest decimal with a number of digits, if it lies in the interval. -/
def roundTo? (i : RoundingInterval) (point : Int) (count : Nat) : Option Nat :=
  let grid : Int := point - count
  let (n, d) := scaleTen i.value i.den (-grid)
  let down := n / d
  let holds (x : Nat) : Bool :=
    let (a, b) := scaleTen x 1 grid
    i.holds a b
  let near := if 2 * (n % d) ≤ d then [down, down + 1] else [down + 1, down]
  near.find? holds

/-- The first digit count, from one upwards, for which the interval holds a decimal. -/
def fewestDigits (i : RoundingInterval) (point : Int) (fuel count : Nat) : Nat × Nat :=
  match fuel with
  | 0 => (roundDiv (scaleTen i.value i.den (count - point)).1 (scaleTen i.value i.den (count - point)).2,
      count)
  | fuel + 1 =>
    match roundTo? i point count with
    | some x => (x, count)
    | none => fewestDigits i point fuel (count + 1)

def shortest (significand : Nat) (exponent : Int) : DecimalDigits :=
  if significand == 0 then ⟨[], 0⟩
  else
    let i := roundingInterval significand exponent
    let point := pointOf i.value i.den
    let (x, count) := fewestDigits i point 17 1
    let ds := Nat.toDigits 10 x
    ⟨(ds.reverse.dropWhile (· == '0')).reverse, point - count + ds.length⟩

end Binary64

/-- Digits around a point, without an exponent. -/
def DecimalDigits.positional (d : DecimalDigits) : String :=
  let whole :=
    if d.point ≤ 0 then ['0']
    else (d.digits.take d.point.toNat) ++ List.replicate (d.point.toNat - d.digits.length) '0'
  let fraction :=
    if d.point < 0 then List.replicate (-d.point).toNat '0' ++ d.digits
    else d.digits.drop d.point.toNat
  String.ofList (if fraction.isEmpty then whole else whole ++ '.' :: fraction)

/-- One digit before the point, and an exponent of at least so many digits. -/
def DecimalDigits.scientific (d : DecimalDigits) (width : Nat) : String :=
  let exponent : Int := if d.digits.isEmpty then 0 else d.point - 1
  let power := Nat.toDigits 10 exponent.natAbs
  let mantissa := match d.digits with
    | [] => ['0']
    | [c] => [c]
    | c :: cs => c :: '.' :: cs
  String.ofList (mantissa ++ 'e' :: (if exponent < 0 then '-' else '+') ::
    (List.replicate (width - power.length) '0' ++ power))

/-- The layout for display: an exponent from a million on and below a ten-thousandth. -/
def Binary64.display : Binary64 → String
  | .finite negative significand exponent =>
    let d := shortest significand exponent
    let text :=
      if d.digits.isEmpty then "0"
      else if d.point - 1 < -4 || 6 ≤ d.point - 1 then d.scientific 2
      else d.positional
    if negative then "-" ++ text else text
  | .infinite false => "+Inf"
  | .infinite true => "-Inf"
  | .notANumber => "NaN"

end BytecodeAudit
