import Mathlib.Data.Rat.Defs

/-! Decoded JSON values, with the reads Python makes of one. -/

namespace Cindral.Base

inductive Json where
  | null
  | bool (value : Bool)
  | int (value : Int)
  | float (value : ℚ)
  | str (value : String)
  | arr (items : List Json)
  | obj (fields : List (String × Json))

namespace Json

/-- `dict.get`, which answers `None` for a missing key and on nothing but a mapping. -/
def get (key : String) : Json → Json
  | obj fields => ((fields.find? fun field => field.1 = key).map Prod.snd).getD null
  | _ => null

def truthy : Json → Bool
  | null => false
  | bool value => value
  | int value => value ≠ 0
  | float value => value ≠ 0
  | str value => value ≠ ""
  | arr items => !items.isEmpty
  | obj fields => !fields.isEmpty

def isObj : Json → Bool
  | obj _ => true
  | _ => false

/-- An `int` that is not a `bool`. -/
def asInt? : Json → Option Int
  | int value => some value
  | _ => none

def asStr? : Json → Option String
  | str value => some value
  | _ => none

end Json

/-- `mapping.get(key, default)` of the fields of a mapping. -/
def getOr (fields : List (String × Json)) (key : String) (default : Json) : Json :=
  ((fields.find? fun field => field.1 = key).map Prod.snd).getD default

end Cindral.Base
