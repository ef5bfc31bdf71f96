/-!
# JSON values

Whole numbers without sign, fraction or exponent are kept as numbers; any other
numeral is kept as it was written. Objects keep their fields in order, repeated
keys included. A string whose escapes name half of a surrogate pair alone has
no text.
-/

namespace CandleAuction

inductive Json
  | null
  | bool (value : Bool)
  | number (value : Nat)
  | numeral (text : String)
  | text (value : Option String)
  | list (items : List Json)
  | object (fields : List (Option String × Json))
  deriving Inhabited

namespace Json

def string (value : String) : Json := .text (some value)

/-- An object with keys that have a text. -/
def record (fields : List (String × Json)) : Json :=
  .object (fields.map fun (key, value) => (some key, value))

/-- An object with one key. -/
def tagged (key : String) (value : Json) : Json := record [(key, value)]

end Json

end CandleAuction
