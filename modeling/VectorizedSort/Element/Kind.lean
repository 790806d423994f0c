/-! # Element kinds

The element kinds an untyped array can hold and the numeric tags that name them. All four kinds are
declared, but only the two 32-bit ones can be sorted. -/

namespace VectorizedSort

/-- What the elements of an array are. -/
inductive Kind where
  | float32
  | float64
  | int32
  | int64
deriving DecidableEq

/-- Why a tag or a kind is refused. -/
inductive KindError where
  /-- No kind has this tag. -/
  | unknownTag (tag : Int32)
  /-- The kind is declared, but nothing sorts it. -/
  | unsupported (kind : Kind)
deriving DecidableEq

namespace Kind

/-- The name a kind is reported under. -/
def name : Kind → String
  | float32 => "Float32"
  | float64 => "Float64"
  | int32 => "Int32"
  | int64 => "Int64"

/-- The number that callers of untyped entry points pass for a kind. -/
def tag : Kind → Int32
  | float32 => 6
  | float64 => 7
  | int32 => 10
  | int64 => 11

/-- All kinds, in the order of their tags. -/
def all : List Kind := [float32, float64, int32, int64]

/-- The kind with the given tag. -/
def ofTag (tag : Int32) : Except KindError Kind :=
  match all.find? (fun kind => kind.tag == tag) with
  | some kind => .ok kind
  | none => .error (.unknownTag tag)

/-- Only the 32-bit kinds can be sorted. -/
def isSupported : Kind → Bool
  | float32 | int32 => true
  | float64 | int64 => false

/-- Whether every element of the kind is ordered, that is, the kind has no NaN. -/
def isInteger : Kind → Bool
  | int32 | int64 => true
  | float32 | float64 => false

end Kind

/-- The text a refusal is reported with. -/
def KindError.message : KindError → String
  | .unknownTag tag => s!"unknown element type tag {tag}"
  | .unsupported kind => s!"element kind {kind.name} is declared but has no sorting kernel"

end VectorizedSort
