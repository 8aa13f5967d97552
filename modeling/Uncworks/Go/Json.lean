import Mathlib.Data.List.Basic

/-!
# JSON

Values as `encoding/json` decodes them, into structs and into maps.  How a text is parsed and which
keys match the name of a field are parameters.
-/

namespace Go

inductive Json where
  | null
  | bool (b : Bool)
  /-- A number, as it was written. -/
  | num (raw : String)
  | str (s : String)
  | arr (elems : List Json)
  | obj (fields : List (String × Json))

structure JsonLib where
  /-- The value that a text denotes. -/
  parse : String → Option Json
  /-- Whether a key matches the name of a struct's field. -/
  sameKey : String → String → Bool

namespace Json

/-- What is decoded into a struct or a map: an object, or `null`, which leaves it as it is. -/
def fields : Json → Option (List (String × Json))
  | .obj fields => some fields
  | .null => some []
  | _ => none

section

variable (lib : JsonLib) (name : String) (fields : List (String × Json))

/-- The value of a struct's field of type `string`: the last one counts, `null` does not, and
another type is an error. -/
def stringField : Option String :=
  fields.foldlM (fun value field =>
    if lib.sameKey field.1 name then
      match field.2 with
      | .str s => some s
      | .null => some value
      | _ => none
    else some value) ""

def rawField : Option Json :=
  (fields.reverse.find? fun field => lib.sameKey field.1 name).map Prod.snd

end

/-! ### Maps

The values of a `map[string]interface{}` and their type assertions. -/

def value (key : String) (fields : List (String × Json)) : Option Json :=
  (fields.reverse.find? fun field => field.1 == key).map Prod.snd

def asString : Json → Option String
  | .str s => some s
  | _ => none

def asBool : Json → Option Bool
  | .bool b => some b
  | _ => none

def asArray : Json → Option (List Json)
  | .arr elems => some elems
  | _ => none

def asMap : Json → Option (List (String × Json))
  | .obj fields => some fields
  | _ => none

def stringValue (key : String) (fields : List (String × Json)) : String :=
  ((value key fields).bind asString).getD ""

end Json

end Go
