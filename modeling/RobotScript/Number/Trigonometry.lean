import RobotScript.Number.Binary

/-!
# Sine, cosine, tangent and the angle of a point

Single-precision trigonometry in fixed-point integer arithmetic. A value is a multiple of
`2 ^ -128`; the series are cut off far below the last bit of the rounded result.
-/

namespace RobotScript.Trigonometry

open Float.Model (UnpackedFloat)
open Binary

/-- The fixed-point number one. -/
def one : Nat := 1 <<< 128

/-- Half of π in multiples of `2 ^ -320`, enough to reduce any finite argument. -/
def quarterTurn : Nat :=
  3355200590106084457577920487110001620402097044713574475363553212175856609335902690049750194457019

/-- π as a fixed-point number. -/
def pi : Nat := quarterTurn >>> 191

/-- A fixed-point number in single precision. Bits beyond the sixtieth only decide whether the
rest is zero. -/
def ofFixed (s : UnpackedFloat.Sign) (n : Nat) : Float32 :=
  let drop := n.log2 - 60
  let top := n >>> drop
  let sticky := if top <<< drop == n then 0 else 1
  round32 s (2 * top + sticky) (drop - 1 - 128)

def ofSigned (n : Int) : Float32 :=
  ofFixed (if n < 0 then .negative else .positive) n.natAbs

/-! ### Series, innermost term first -/

/-- `1 - z / (a (a + 1)) · (1 - z / ((a + 2) (a + 3)) · …)`. -/
def alternating (z : Nat) : Nat → Nat → Nat
  | 0, _ => one
  | n + 1, a => one - z * alternating z n (a + 2) / (one * (a * (a + 1)))

/-- `1 + 2 k z / (2 k + 1) · (1 + 2 (k + 1) z / (2 k + 3) · …)`. -/
def growing (z : Nat) : Nat → Nat → Nat
  | 0, _ => one
  | n + 1, k => one + z * growing z n (k + 1) * (2 * k) / (one * (2 * k + 1))

/-- Sine and cosine of a fixed-point angle of at most an eighth of a turn. -/
def octant (r : Nat) : Nat × Nat :=
  let z := r * r / one
  (r * alternating z 18 2 / one, alternating z 18 1)

/-- Angle whose tangent is `a / b`, for `a ≤ b`. -/
def arctangent (a b : Nat) : Nat :=
  let t := a * one / b
  let s := one * one + t * t
  let z := t * t * one / s
  t * one * growing z 110 1 / s

/-! ### Functions -/

/-- Sine and cosine of `m · 2 ^ e`, by the quarter turns nearest to it and the angle left over. -/
def circle (m : Nat) (e : Int) : Int × Int :=
  let x := m <<< (e + 320).toNat
  let k := (2 * x + quarterTurn) / (2 * quarterTurn)
  let r := (x : Int) - k * quarterTurn
  let (sine, cosine) := octant (r.natAbs >>> 192)
  let s : Int := if r < 0 then -sine else sine
  let c : Int := cosine
  match k % 4 with
  | 0 => (s, c)
  | 1 => (c, -s)
  | 2 => (-s, -c)
  | _ => (-c, s)

/-- Below `2 ^ -12` an angle, its sine and its tangent round to the same number. -/
def tiny (m : Nat) (e : Int) : Bool := (m.log2 : Int) + e < -12

def sin (x : Float32) : Float32 :=
  match view32 x with
  | .finite s m e _ => if tiny m e then x else ofSigned (s.apply (circle m e).1)
  | .zero _ => x
  | _ => 0.0 / 0.0

def cos (x : Float32) : Float32 :=
  match view32 x with
  | .finite _ m e _ => ofSigned (circle m e).2
  | .zero _ => 1.0
  | _ => 0.0 / 0.0

def tan (x : Float32) : Float32 :=
  match view32 x with
  | .finite s m e _ =>
    if tiny m e then x
    else
      let (sine, cosine) := circle m e
      ofSigned (s.apply (sine.sign * cosine.sign) * (sine.natAbs * one / cosine.natAbs : Nat))
  | .zero _ => x
  | _ => 0.0 / 0.0

/-- The angle of a point from the positive `x` axis, given the magnitudes of its coordinates as
naturals of one scale. -/
def pointAngle (a b : Nat) (behind : Bool) : Nat :=
  let steep := a > b
  let acute := if steep then pi / 2 - arctangent b a else arctangent a b
  if behind then pi - acute else acute

/-- Angle of the point `(x, y)`, with the sign of `y`. -/
def atan2 (y x : Float32) : Float32 :=
  match view32 y, view32 x with
  | .notANumber, _ | _, .notANumber => 0.0 / 0.0
  | .zero _, .zero .positive | .zero _, .infinity .positive
  | .zero _, .finite .positive _ _ _ => y
  | .zero s, _ => ofFixed s pi
  | .infinity s, .infinity .positive => ofFixed s (pi / 4)
  | .infinity s, .infinity .negative => ofFixed s (3 * pi / 4)
  | .infinity s, _ | .finite s _ _ _, .zero _ => ofFixed s (pi / 2)
  | .finite s _ _ _, .infinity .positive => round32 s 0 0
  | .finite s _ _ _, .infinity .negative => ofFixed s pi
  | .finite s m e _, .finite t n f _ =>
    let low := min e f
    let a := m <<< (e - low).toNat
    let b := n <<< (f - low).toNat
    match t with
    | .negative => ofFixed s (pointAngle a b true)
    -- so flat an angle is the slope itself
    | .positive => if a <<< 30 < b then y / x else ofFixed s (pointAngle a b false)

end RobotScript.Trigonometry
