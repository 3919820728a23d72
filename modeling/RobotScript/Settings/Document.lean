import RobotScript.Document.Reader
import RobotScript.Settings.Basic

/-!
# Settings as documents

Settings are written as an object of named fields or as the list of their values. What a document
leaves out keeps its default; names that mean nothing are passed over.
-/

namespace RobotScript.Settings

/-- A named field: how a document sets it and how it is written. -/
structure Field where
  name : String
  read? : Document → Settings Float32 → Option (Settings Float32)
  write : Settings Float32 → Document

/-! ### Values of fields -/

def ofInt (i : Int) : Document := .number ⟨i < 0, true, ⟨i.natAbs, 0⟩⟩

/-- A number with its shortest digits; what is not finite has no written form. -/
def ofFloat32 (x : Float32) : Document :=
  match Binary.view32 x with
  | .zero s => .number ⟨s == .negative, false, ⟨0, 0⟩⟩
  | .finite s m e _ =>
    let (d, x) := Decimal.shortest .binary32 m e
    .number ⟨s == .negative, false, ⟨d, x⟩⟩
  | _ => .null

def count32? (d : Document) : Option UInt32 := (d.nat? (UInt32.size - 1)).map Nat.toUInt32

def count64? (d : Document) : Option UInt64 := (d.nat? (UInt64.size - 1)).map Nat.toUInt64

def seed? : Document → Option (Option UInt64)
  | .null => some none
  | d => (count64? d).map some

/-! ### The fields in their order -/

def fields : List Field := [
  ⟨"ticks_per_second", fun d s => (count32? d).map ({ s with ticksPerSecond := · }),
    fun s => ofInt s.ticksPerSecond.toNat⟩,
  ⟨"tab_width", fun d s => (d.nat? (UInt64.size - 1)).map ({ s with tabWidth := · }),
    fun s => ofInt s.tabWidth⟩,
  ⟨"wall_margin", fun d s => d.float32?.map ({ s with wallMargin := · }),
    fun s => ofFloat32 s.wallMargin⟩,
  ⟨"wheel_diameter", fun d s => d.float32?.map ({ s with wheelDiameter := · }),
    fun s => ofFloat32 s.wheelDiameter⟩,
  ⟨"wheel_max_rps", fun d s => d.float32?.map ({ s with wheelMaxRps := · }),
    fun s => ofFloat32 s.wheelMaxRps⟩,
  ⟨"sensor_range", fun d s => d.float32?.map ({ s with sensorRange := · }),
    fun s => ofFloat32 s.sensorRange⟩,
  ⟨"sensor_spread", fun d s => d.float32?.map ({ s with sensorSpread := · }),
    fun s => ofFloat32 s.sensorSpread⟩,
  ⟨"out_of_range", fun d s => d.float32?.map ({ s with outOfRange := · }),
    fun s => ofFloat32 s.outOfRange⟩,
  ⟨"random_max", fun d s => (d.int? Int64.minValue.toInt Int64.maxValue.toInt).map
      fun i => { s with randomMax := Int64.ofInt i },
    fun s => ofInt s.randomMax.toInt⟩,
  ⟨"random_seed", fun d s => (seed? d).map ({ s with randomSeed := · }),
    fun s => s.randomSeed.elim .null fun n => ofInt n.toNat⟩,
  ⟨"default_tone_ms", fun d s => (count32? d).map ({ s with defaultToneMillis := · }),
    fun s => ofInt s.defaultToneMillis.toNat⟩,
  ⟨"min_arena_size", fun d s => d.float32?.map ({ s with minArenaSize := · }),
    fun s => ofFloat32 s.minArenaSize⟩,
  ⟨"stop_timeout_ms", fun d s => (count64? d).map ({ s with stopTimeoutMillis := · }),
    fun s => ofInt s.stopTimeoutMillis.toNat⟩]

/-- The field called `name`, among those not set yet, and the others. -/
def takeField? (name : String) (unset : List Field) : Option (Field × List Field) :=
  match unset.partition (·.name == name) with
  | (f :: _, others) => some (f, others)
  | ([], _) => none

/-- Sets the fields that `members` name. No field can be set twice. -/
def readMembers? (unset : List Field) (s : Settings Float32) :
    List (Option String × Document) → Option (Settings Float32)
  | [] => some s
  | (none, _) :: _ => none
  | (some name, d) :: members =>
    match takeField? name unset with
    | some (f, others) => (f.read? d s).bind fun s => readMembers? others s members
    | none =>
      if fields.any (·.name == name) then none else readMembers? unset s members

/-- Sets the fields of `unset` in order, as many as there are values. -/
def readItems? (unset : List Field) (s : Settings Float32) :
    List Document → Option (Settings Float32)
  | [] => some s
  | d :: items =>
    match unset with
    | f :: others => (f.read? d s).bind fun s => readItems? others s items
    | [] => none

def ofDocument? : Document → Option (Settings Float32)
  | .object members => readMembers? fields default members
  | .list items => readItems? fields default items
  | _ => none

def toDocument (s : Settings Float32) : Document :=
  .object (fields.map fun f => (some f.name, f.write s))

/-- Whether reading the written settings gives them back. -/
def survivesWriting (s : Settings Float32) : Bool :=
  match ofDocument? s.toDocument with
  | some t =>
    t.ticksPerSecond == s.ticksPerSecond && t.tabWidth == s.tabWidth &&
      t.wallMargin == s.wallMargin && t.wheelDiameter == s.wheelDiameter &&
      t.wheelMaxRps == s.wheelMaxRps && t.sensorRange == s.sensorRange &&
      t.sensorSpread == s.sensorSpread && t.outOfRange == s.outOfRange &&
      t.randomMax == s.randomMax && t.randomSeed == s.randomSeed &&
      t.defaultToneMillis == s.defaultToneMillis && t.minArenaSize == s.minArenaSize &&
      t.stopTimeoutMillis == s.stopTimeoutMillis
  | none => false

end RobotScript.Settings
