import RobotScript.Number.Scalar

/-!
# Points and rectangles

Screen coordinates: `y` grows downward, so a growing angle turns clockwise.
-/

namespace RobotScript

@[ext]
structure Vec (α : Type) where
  x : α
  y : α

namespace Vec

variable {α : Type} [Scalar α]

def add (a b : Vec α) : Vec α := ⟨a.x + b.x, a.y + b.y⟩

def sub (a b : Vec α) : Vec α := ⟨a.x - b.x, a.y - b.y⟩

def scale (a : Vec α) (k : α) : Vec α := ⟨a.x * k, a.y * k⟩

instance : Add (Vec α) := ⟨add⟩
instance : Sub (Vec α) := ⟨sub⟩

/-- The point at distance one in direction `angle`. -/
def ofAngle (angle : α) : Vec α := ⟨Scalar.cos angle, Scalar.sin angle⟩

/-- `v` turned by the angle of the unit vector `u`. -/
def rotate (u v : Vec α) : Vec α := ⟨u.x * v.x - u.y * v.y, u.y * v.x + u.x * v.y⟩

def length (a : Vec α) : α := Scalar.sqrt (a.x * a.x + a.y * a.y)

def distance (a b : Vec α) : α := (a - b).length

def upper (a b : Vec α) : Vec α := ⟨Scalar.upper a.x b.x, Scalar.upper a.y b.y⟩

def lower (a b : Vec α) : Vec α := ⟨Scalar.lower a.x b.x, Scalar.lower a.y b.y⟩

def isFinite (a : Vec α) : Bool := Scalar.isFinite a.x && Scalar.isFinite a.y

/-- `point` turned about `origin`. -/
def rotateAbout (origin point : Vec α) (angle : α) : Vec α :=
  origin + (ofAngle angle).rotate (point - origin)

/-- Displacement of a straight drive. -/
def along (heading distance : α) : Vec α := (ofAngle heading).scale distance

/-- Angle in degrees of `point` as seen from `centre`. -/
def bearing (point centre : Vec α) : α :=
  -- the angle of the opposite direction, turned round
  180.0 + Scalar.degrees (Scalar.atan2 (centre.y - point.y) (centre.x - point.x))

end Vec

structure Rect (α : Type) where
  min : Vec α
  max : Vec α

namespace Rect

variable {α : Type} [Scalar α]

/-- The rectangle with the two opposite corners given. -/
def ofCorners (a b : Vec α) : Rect α := ⟨a.lower b, a.upper b⟩

/-- Whether a point lies inside or on the border. -/
def contains (r : Rect α) (p : Vec α) : Bool :=
  r.min.x ≤ p.x && p.x ≤ r.max.x && r.min.y ≤ p.y && p.y ≤ r.max.y

/-- `p` moved to the closest place that keeps `margin` to every side. -/
def clamp (r : Rect α) (margin : α) (p : Vec α) : Vec α :=
  let low := r.min + ⟨margin, margin⟩
  let high := r.max - ⟨margin, margin⟩
  (p.upper low).lower high

end Rect

end RobotScript
