import Mathlib.Data.List.Basic

/-!
# JSON values

The values a JSON parser hands to its caller, in the reading of json-c: an
object holds one value for each key, a JSON `null` is the C pointer `NULL`,
and looking a key up in anything but an object gives `NULL`. The parser
itself is a parameter of whoever uses it.
-/
namespace JobArranger

inductive Json where
  | null
  | bool (b : Bool)
  | int (i : Int)
  | double (text : String)
  | string (text : String)
  | array (items : List Json)
  | object (fields : List (String × Json))
  deriving Repr

namespace Json

/-- The pointer json-c uses for a value: `NULL` is `none`. -/
def pointer : Json → Option Json
  | .null => none
  | j => some j

/-- `json_object_object_get`. -/
def objectGet : Json → String → Option Json
  | .object fields, key => (fields.lookup key).bind pointer
  | _, _ => none

end Json
end JobArranger
