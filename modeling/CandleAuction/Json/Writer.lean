import CandleAuction.Bytes
import CandleAuction.Json.Basic

/-!
# Writing JSON

Values are written without blanks. Quotes, backslashes and control characters
are escaped and all other characters stand for themselves.
-/

namespace CandleAuction.Json

def escape (out : String) (c : Char) : String :=
  if c = '"' then out ++ "\\\""
  else if c = '\\' then out ++ "\\\\"
  else if c < ' ' then out ++ "\\u00" ++ Hex.encode [UInt8.ofNat c.toNat]
  else out.push c

/-- A string without text is written as half of a surrogate pair. -/
def writeText (out : String) : Option String → String
  | none => out ++ "\"\\ud800\""
  | some value => (value.toList.foldl escape (out.push '"')).push '"'

mutual

/-- Write a value after what has been written already. -/
def writeTo (out : String) : Json → String
  | null => out ++ "null"
  | bool true => out ++ "true"
  | bool false => out ++ "false"
  | number value => out ++ Nat.repr value
  | numeral value => out ++ value
  | text value => writeText out value
  | list [] => out ++ "[]"
  | list (first :: rest) => writeItems (writeTo (out.push '[') first) rest
  | object [] => out ++ "\x7b\x7d"
  | object (first :: rest) => writeFields (writeField (out.push '\x7b') first) rest

def writeItems (out : String) : List Json → String
  | [] => out.push ']'
  | item :: rest => writeItems (writeTo (out.push ',') item) rest

def writeField (out : String) : Option String × Json → String
  | (key, value) => writeTo ((writeText out key).push ':') value

def writeFields (out : String) : List (Option String × Json) → String
  | [] => out.push '\x7d'
  | field :: rest => writeFields (writeField (out.push ',') field) rest

end

def render (value : Json) : String := writeTo "" value

end CandleAuction.Json
