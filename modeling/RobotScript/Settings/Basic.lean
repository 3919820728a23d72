import RobotScript.Number.Scalar

/-!
# Settings

The numbers that a session, an engine and a swarm share, and the tick counts they give rise to.
-/

namespace RobotScript

structure Settings (α : Type) where
  /-- How often per second a timed motion is carried on. -/
  ticksPerSecond : UInt32
  /-- Columns of a tab in an indentation. -/
  tabWidth : Nat
  /-- How far robots keep from the walls of their arena. -/
  wallMargin : α
  wheelDiameter : α
  wheelMaxRps : α
  /-- Reach of the distance sensor. -/
  sensorRange : α
  /-- Opening angle of the distance sensor, in degrees. -/
  sensorSpread : α
  /-- Reading of the distance sensor with nobody in front of it. -/
  outOfRange : α
  /-- The random sensor reads from one to this number. -/
  randomMax : Int64
  randomSeed : Option UInt64
  /-- Length of a tone that gives none. -/
  defaultToneMillis : UInt32
  minArenaSize : α
  /-- How long a stop request waits to be acknowledged. -/
  stopTimeoutMillis : UInt64

namespace Settings

variable {α : Type} [Scalar α]

def default : Settings α :=
  { ticksPerSecond := 50
    tabWidth := 4
    wallMargin := 10.0
    wheelDiameter := 30.0
    wheelMaxRps := 10.0
    sensorRange := 100.0
    sensorSpread := 30.0
    outOfRange := 9999.0
    randomMax := 12
    randomSeed := none
    defaultToneMillis := 1000
    minArenaSize := 100.0
    stopTimeoutMillis := 100 }

/-- Nanoseconds between two ticks: the closest whole number to the quotient in double precision,
halves going to the even one. -/
def tickInterval (s : Settings α) : Nat :=
  let seconds : Float := 1.0 / Float.ofNat (max s.ticksPerSecond 1).toNat
  (Binary.toInt .halfEven 0 1_000_000_000 (Binary.view64 seconds) 1_000_000_000).toNat

/-- `amount` units of time in ticks, with `units` of them to the second, rounded to the closest
count. -/
def ticksFor (s : Settings α) (amount : UInt32) (units : Float) : UInt32 :=
  Binary.nearestUInt32 <| Binary.view64 <|
    Float.ofNat amount.toNat * Float.ofNat s.ticksPerSecond.toNat / units

/-- Ticks in `tenths` tenths of a second, at least one. -/
def ticksForTenths (s : Settings α) (tenths : UInt32) : Nat :=
  max 1 (s.ticksFor tenths 10.0).toNat

def ticksForMillis (s : Settings α) (millis : UInt32) : Nat :=
  (s.ticksFor millis 1000.0).toNat

end Settings

end RobotScript
