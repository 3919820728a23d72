import RobotScript.Number.Binary

/-!
# Decimal text of binary numbers

Numbers are written positionally with the fewest digits that read back as the same number, and of
those with the closest. Reading takes a sign, digits around one point and an exponent, or one of
the words for infinities and undefined values.
-/

namespace RobotScript.Decimal

open Float.Model (UnpackedFloat Format)
open Binary

/-! ### Shortest digits -/

/-- The decimals that read back as `m · 2 ^ e`, as a range `low / den` to `high / den` around
`value / den`. The ends belong to it when `closed`. -/
structure Interval where
  low : Nat
  value : Nat
  high : Nat
  den : Nat
  closed : Bool

/-- Below the least mantissa of an exponent the numbers lie twice as dense, except at the bottom
of the range. -/
def Interval.of (format : Format) (m : Nat) (e : Int) : Interval :=
  let bottom := format.minExponent ≥ e
  let dense := m == 1 <<< format.mantissaBitsWithoutImplicit && !bottom
  let (unit, den) := fraction 1 (e - 2)
  { low := (if dense then 4 * m - 1 else 4 * m - 2) * unit
    value := 4 * m * unit
    high := (4 * m + 2) * unit
    den := den
    closed := m % 2 == 0 }

/-- Whether `digits · step`, in units of `1 / den`, reads back. -/
def Interval.holds (i : Interval) (candidate : Nat) (scale : Nat) : Bool :=
  let c := candidate
  if i.closed then i.low * scale ≤ c && c ≤ i.high * scale
  else i.low * scale < c && c < i.high * scale

/-- The closest decimal `d · 10 ^ x` that reads back, if one does. The upper one wins a tie. -/
def Interval.digitsAt? (i : Interval) (x : Int) : Option Nat :=
  -- both sides of every comparison are multiplied by `den` and by `10 ^ -x` for negative `x`
  let step := i.den * Nat.pow 10 x.toNat
  let scale := Nat.pow 10 (-x).toNat
  let below := i.value * scale / step
  let lower := below * step
  let upper := (below + 1) * step
  let lowerHit := i.holds lower scale
  let upperHit := i.holds upper scale
  if upperHit && (!lowerHit || upper - i.value * scale ≤ i.value * scale - lower) then
    some (below + 1)
  else if lowerHit then some below
  else none

/-- Tries ever finer grids, from `10 ^ x` down. -/
def Interval.search (i : Interval) : Nat → Int → Nat × Int
  | 0, x => (i.value * Nat.pow 10 (-x).toNat / i.den, x)
  | fuel + 1, x =>
    match i.digitsAt? x with
    | some d => (d, x)
    | none => i.search fuel (x - 1)

def digitCount (n : Nat) : Nat :=
  (Nat.toDigits 10 n).length

/-- The digits and decimal exponent of `m · 2 ^ e`. Seventeen significant digits tell any two
numbers of either format apart. -/
def shortest (format : Format) (m : Nat) (e : Int) : Nat × Int :=
  let i := Interval.of format m e
  i.search 20 ((digitCount i.value : Int) - digitCount i.den)

/-! ### Writing -/

/-- `digits · 10 ^ x` without an exponent and without zeros after the last digit of a fraction. -/
def positional (digits : Nat) (x : Int) : String :=
  let ds := Nat.toDigits 10 digits
  if 0 ≤ x then
    String.ofList (ds ++ List.replicate x.toNat '0')
  else
    let places := (-x).toNat
    let padded := List.replicate (places + 1 - ds.length) '0' ++ ds
    let whole := padded.take (padded.length - places)
    let part := ((padded.drop (padded.length - places)).reverse.dropWhile (· == '0')).reverse
    String.ofList (if part.isEmpty then whole else whole ++ '.' :: part)

def signText : UnpackedFloat.Sign → String
  | .positive => ""
  | .negative => "-"

def text (format : Format) : UnpackedFloat → String
  | .notANumber => "NaN"
  | .infinity s => signText s ++ "inf"
  | .zero s => signText s ++ "0"
  | .finite s m e _ =>
    let (d, x) := shortest format m e
    signText s ++ positional d x

def text32 (x : Float32) : String := text .binary32 (view32 x)

def text64 (x : Float) : String := text .binary64 (view64 x)

/-- The integer a finite number equals, if it has no fraction. -/
def whole? : UnpackedFloat → Option String
  | .zero s => some (signText s ++ "0")
  | .finite s m e _ =>
    let (n, d) := fraction m e
    if n % d == 0 then some (signText s ++ Nat.repr (n / d)) else none
  | _ => none

/-! ### Reading -/

/-- An unsigned numeral `mantissa · 10 ^ exponent`. -/
structure Numeral where
  mantissa : Nat
  exponent : Int
deriving Repr, DecidableEq

def digitsValue (ds : List Char) : Nat :=
  ds.foldl (fun n c => 10 * n + (c.toNat - '0'.toNat)) 0

def splitSign : List Char → Bool × List Char
  | '-' :: cs => (true, cs)
  | '+' :: cs => (false, cs)
  | cs => (false, cs)

/-- The exponent part of a numeral, which may be missing. -/
def readExponent? : List Char → Option Int
  | [] => some 0
  | c :: cs =>
    if c == 'e' || c == 'E' then
      let (negative, ds) := splitSign cs
      if ds.isEmpty || !ds.all Char.isDigit then none
      else some (if negative then -(digitsValue ds : Int) else digitsValue ds)
    else none

/-- Digits with at most one point among them, and an exponent. One digit is enough, on either
side of the point. -/
def Numeral.read? (cs : List Char) : Option Numeral :=
  let whole := cs.takeWhile Char.isDigit
  let rest := cs.dropWhile Char.isDigit
  let (part, rest) := match rest with
    | '.' :: cs => (cs.takeWhile Char.isDigit, cs.dropWhile Char.isDigit)
    | cs => ([], cs)
  if whole.isEmpty && part.isEmpty then none
  else (readExponent? rest).map fun x =>
    ⟨digitsValue (whole ++ part), x - part.length⟩

/-- What a word for a number stands for, its sign apart. -/
inductive Magnitude where
  | numeral (n : Numeral)
  | infinite
  | undefined

def Magnitude.read? (cs : List Char) : Option Magnitude :=
  let word := String.ofList (cs.map Char.toLower)
  if word == "inf" || word == "infinity" then some .infinite
  else if word == "nan" then some .undefined
  else (Numeral.read? cs).map .numeral

def Numeral.toFloat32 (n : Numeral) : Float32 :=
  Float32.ofScientific n.mantissa (n.exponent < 0) n.exponent.natAbs

def Numeral.toFloat (n : Numeral) : Float :=
  Float.ofScientific n.mantissa (n.exponent < 0) n.exponent.natAbs

def read32? (s : String) : Option Float32 :=
  let (negative, cs) := splitSign s.toList
  (Magnitude.read? cs).map fun magnitude =>
    let x : Float32 := match magnitude with
      | .numeral n => n.toFloat32
      | .infinite => 1.0 / 0.0
      | .undefined => 0.0 / 0.0
    if negative then -x else x

def read64? (s : String) : Option Float :=
  let (negative, cs) := splitSign s.toList
  (Magnitude.read? cs).map fun magnitude =>
    let x : Float := match magnitude with
      | .numeral n => n.toFloat
      | .infinite => 1.0 / 0.0
      | .undefined => 0.0 / 0.0
    if negative then -x else x

end RobotScript.Decimal
