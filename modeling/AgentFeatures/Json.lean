import AgentFeatures.Library.Dict

/-! JSON values as Python holds them after `json.loads`. -/

namespace AgentFeatures

open Library (Dict)

/-- A parsed JSON value. Python keeps integers and floats apart; a float is its IEEE 754
bit pattern. Object fields stand in insertion order.
-/
inductive Json where
  | null
  | bool (value : Bool)
  | int (value : Int)
  | float (bits : BitVec 64)
  | str (text : String)
  | arr (items : List Json)
  | obj (fields : List (String × Json))

namespace Json

/-- `bool(value)`: false exactly for None, False, zeros and empty containers. -/
def truthy : Json → Bool
  | null => false
  | bool value => value
  | int value => value != 0
  | float bits => bits != 0#64 && bits != 0x8000000000000000#64
  | str text => text != ""
  | arr items => !items.isEmpty
  | obj fields => !fields.isEmpty

/-- `value or {}`. -/
def orEmpty (value : Json) : Json := if value.truthy then value else obj []

/-- `isinstance(value, dict)`. -/
def isDict : Json → Bool
  | obj _ => true
  | _ => false

/-- `value.get(key)` on a dict; `none` when the value has no such method. -/
def get? (key : String) : Json → Option Json
  | obj fields => some ((fields.lookup key).getD null)
  | _ => none

/-- A dictionary of JSON values as an object. -/
def ofDict (dict : Dict String Json) : Json := obj dict.entries

end Json

end AgentFeatures
