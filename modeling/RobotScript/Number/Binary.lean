/-!
# Binary floating-point numbers, exactly

A finite float is `± m · 2 ^ e`. Everything here reads that value off the number and computes with
integers, so no result depends on a rounding mode: conversion to integers with a stated rounding,
the exact remainder of a division, and rounding of an exact value back into a format.
-/

namespace RobotScript.Binary

open Float.Model (UnpackedFloat)

/-- The value behind a single-precision number. -/
abbrev view32 (x : Float32) : UnpackedFloat := x.toModel.unpack

/-- The value behind a double-precision number. -/
abbrev view64 (x : Float) : UnpackedFloat := x.toModel.unpack

/-- `± m · 2 ^ e` rounded to single precision, half to even. -/
def round32 (s : UnpackedFloat.Sign) (m : Nat) (e : Int) : Float32 :=
  .ofModel (.pack (.round .binary32 s m e))

/-- `m · 2 ^ e` as a numerator and a positive denominator. -/
def fraction (m : Nat) (e : Int) : Nat × Nat :=
  if 0 ≤ e then (m <<< e.toNat, 1) else (m, 1 <<< (-e).toNat)

/-! ### To integers -/

/-- How the quotient of two naturals becomes a natural. -/
inductive Rounding where
  | towardZero
  | halfUp
  | halfEven

def Rounding.divide (n d : Nat) : Rounding → Nat
  | .towardZero => n / d
  | .halfUp => (2 * n + d) / (2 * d)
  | .halfEven =>
    let q := n / d
    match compare (2 * (n % d)) d with
    | .lt => q
    | .gt => q + 1
    | .eq => q + q % 2

/-- `scale` times the value, rounded by magnitude and kept within `lo` and `hi`; an undefined
value counts as zero. -/
def toInt (rounding : Rounding) (lo hi : Int) (x : UnpackedFloat) (scale : Nat := 1) : Int :=
  match x with
  | .notANumber | .zero _ => 0
  | .infinity .positive => hi
  | .infinity .negative => lo
  | .finite s m e _ =>
    let (n, d) := fraction (m * scale) e
    max lo (min hi (s.apply (rounding.divide n d)))

/-- The closest 64-bit integer, halves going away from zero. -/
def nearestInt64 (x : UnpackedFloat) : Int :=
  toInt .halfUp Int64.minValue.toInt Int64.maxValue.toInt x

/-- The 64-bit integer left after dropping the fraction. -/
def truncInt64 (x : UnpackedFloat) : Int :=
  toInt .towardZero Int64.minValue.toInt Int64.maxValue.toInt x

/-- The closest 32-bit count, halves going up. -/
def nearestUInt32 (x : UnpackedFloat) : UInt32 :=
  (toInt .halfUp 0 (UInt32.size - 1) x).toNat.toUInt32

/-! ### Remainders -/

/-- What is left of `a` after taking away `b` as often as it goes, with the sign of `a`. No
rounding takes place: the remainder of two representable numbers is representable. -/
def remainder32 (a b : Float32) : Float32 :=
  match view32 a, view32 b with
  | .finite s m e _, .finite _ n f _ =>
    let low := min e f
    let r := (m <<< (e - low).toNat) % (n <<< (f - low).toNat)
    round32 s r low
  | .zero _, .finite _ _ _ _ | .zero _, .infinity _ | .finite _ _ _ _, .infinity _ => a
  | _, _ => 0.0 / 0.0

/-- `a` folded into the interval from zero to `b`. A remainder that is negative and too small to
matter beside `b` lands on `b` itself. -/
def fold32 (a b : Float32) : Float32 :=
  let r := remainder32 a b
  if r < 0.0 then r + b.abs else r

/-- One, with the sign of `x`. -/
def unit32 (x : Float32) : Float32 :=
  if x.toBits < 0x80000000 then 1.0 else -1.0

/-- The total order on single-precision numbers as an order on integers: negative numbers by
falling magnitude, then `-0.0`, `0.0`, and the positive ones. -/
def orderKey32 (x : Float32) : Int :=
  let bits := x.toBits.toNat
  if bits < 0x80000000 then bits else 0x7fffffff - (bits : Int)

end RobotScript.Binary
