import Illuminator.Model.Strings
import Mathlib.Data.UInt

/-! # JSON values

The values of `nlohmann::json` that the storage backend makes: objects whose members are scalars, and
arrays of such objects. A number is an integer, an unsigned integer or a `double`, by what it was made
from. An object lists its members in ascending order of their keys. The library's `dump` and `parse`
are outside the repository.
-/

namespace Illuminator

namespace Json

inductive Scalar (D : Type) where
  | null
  | boolean (value : Bool)
  | number_integer (value : Int64)
  | number_unsigned (value : UInt64)
  | number_float (value : D)
  | string (value : Bytes)
  deriving DecidableEq

abbrev Object (D : Type) := List (Bytes × Scalar D)

/-- `j[key] = value` for an object `j`. -/
def Object.set {D : Type} (key : Bytes) (value : Scalar D) : Object D → Object D
  | [] => [(key, value)]
  | (k, v) :: rest =>
    if key = k then (key, value) :: rest
    else if key < k then (key, value) :: (k, v) :: rest
    else (k, v) :: Object.set key value rest

end Json

inductive Json (D : Type) where
  | object (members : Json.Object D)
  | array (elements : List (Json.Object D))
  deriving DecidableEq

/-- The library's `dump`, which throws on a string that is not UTF-8, and `parse`, which throws on a text
that is not JSON. -/
structure Json.Library (D : Type) where
  dump : Json D → Option Bytes
  parse : Bytes → Option (Json D)

end Illuminator
