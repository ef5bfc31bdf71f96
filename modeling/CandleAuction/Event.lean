/-!
# Events

What is logged: a level, a message and named fields. Amounts, times and
numbers are logged as numbers; digests, addresses and reasons as text.
-/

namespace CandleAuction

inductive Level
  | debug
  | info
  | warn
  deriving DecidableEq, Repr

def Level.name : Level → String
  | .debug => "DEBUG"
  | .info => "INFO"
  | .warn => "WARN"

inductive Field
  | number (value : Nat)
  | text (value : String)
  deriving DecidableEq, Repr

structure Event where
  level : Level
  message : String
  fields : List (String × Field)
  deriving DecidableEq, Repr

end CandleAuction
