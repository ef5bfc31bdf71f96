import CandleAuction.Bytes
import CandleAuction.Json.Basic

/-!
# Reading JSON

A machine takes the text one character at a time. Its state is what it is in
the middle of, above a stack of open containers, so depth costs no recursion.
-/

namespace CandleAuction.Json

/-- Part of a string: a character as it stands, or a code unit named by an escape. -/
inductive Piece
  | char (c : Char)
  | unit (value : Nat)

namespace Piece

def isHigh (unit : Nat) : Bool := 0xD800 ≤ unit && unit < 0xDC00

def isLow (unit : Nat) : Bool := 0xDC00 ≤ unit && unit < 0xE000

/-- The text of a string. A high unit must be followed by a low one; no low unit stands alone. -/
def join (done : List Char) : List Piece → Option String
  | [] => some (String.ofList done.reverse)
  | char c :: rest => join (c :: done) rest
  | [unit value] =>
      if isHigh value || isLow value then none
      else some (String.ofList (Char.ofNat value :: done).reverse)
  | unit value :: char c :: rest =>
      if isHigh value || isLow value then none else join (c :: Char.ofNat value :: done) rest
  | unit value :: unit next :: rest =>
      if isHigh value then
        if isLow next then
          join (Char.ofNat (0x10000 + (value - 0xD800) * 0x400 + (next - 0xDC00)) :: done) rest
        else none
      else if isLow value then none
      else join (Char.ofNat value :: done) (unit next :: rest)

end Piece

/-- The digits of a numeral part: whether there are any, and what follows them. -/
def spanDigits (text : List Char) : Bool × List Char :=
  ((text.head?.map Char.isDigit).getD false, text.dropWhile Char.isDigit)

/-- An exponent, if the text has one, up to the end of the numeral. -/
def isExponent : List Char → Bool
  | [] => true
  | e :: rest =>
      if e = 'e' ∨ e = 'E' then
        let digits := match rest with
          | '+' :: digits => digits
          | '-' :: digits => digits
          | digits => digits
        spanDigits digits == (true, [])
      else false

/-- A fraction and an exponent, each optional. -/
def isTail : List Char → Bool
  | '.' :: rest =>
      match spanDigits rest with
      | (true, rest) => isExponent rest
      | _ => false
  | rest => isExponent rest

/-- A numeral: an optional sign, an integer without needless zeros, fraction and exponent. -/
def isNumeral (text : List Char) : Bool :=
  let unsigned := match text with
    | '-' :: rest => rest
    | rest => rest
  match unsigned with
  | '0' :: rest => isTail rest
  | rest =>
      match spanDigits rest with
      | (true, rest) => isTail rest
      | _ => false

def digitsValue (digits : List Char) : Nat :=
  digits.foldl (fun value digit => 10 * value + (digit.toNat - 48)) 0

/-- The value of a word outside of quotes. -/
def ofWord? (word : List Char) : Option Json :=
  if word = ['n', 'u', 'l', 'l'] then some .null
  else if word = ['t', 'r', 'u', 'e'] then some (.bool true)
  else if word = ['f', 'a', 'l', 's', 'e'] then some (.bool false)
  else if isNumeral word then
    if word.all Char.isDigit then some (.number (digitsValue word))
    else some (.numeral (String.ofList word))
  else none

/-- An open container with what it holds so far, newest first. -/
inductive Frame
  | list (done : List Json)
  | object (done : List (Option String × Json))
  /-- An object in the middle of a field. -/
  | field (done : List (Option String × Json)) (key : Option String)

/-- How far into an escape a string is. -/
inductive Escape
  | plain
  | begun
  | hex (digits : Nat) (value : Nat)

/-- What the machine is in the middle of. Collected characters are newest first. -/
inductive Mode
  /-- A value, or the end of a container that has no item yet. -/
  | value (orEnd : Bool)
  | key (orEnd : Bool)
  | colon (key : Option String)
  | word (chars : List Char)
  | quoted (isKey : Bool) (pieces : List Piece) (escape : Escape)
  /-- After an item or field of the innermost container. -/
  | after
  | finished (value : Json)

structure State where
  mode : Mode
  stack : List Frame

def isBlank (c : Char) : Bool := c = ' ' || c = '\t' || c = '\n' || c = '\r'

def isWordChar (c : Char) : Bool := c.isAlphanum || c = '-' || c = '+' || c = '.'

/-- Hand a complete value to the innermost container. -/
def complete (value : Json) : List Frame → Option State
  | [] => some ⟨.finished value, []⟩
  | .list done :: rest => some ⟨.after, .list (value :: done) :: rest⟩
  | .field done key :: rest => some ⟨.after, .object ((key, value) :: done) :: rest⟩
  | .object _ :: _ => none

def stepAfter (c : Char) : List Frame → Option State
  | .list done :: rest =>
      if c = ',' then some ⟨.value false, .list done :: rest⟩
      else if c = ']' then complete (.list done.reverse) rest
      else none
  | .object done :: rest =>
      if c = ',' then some ⟨.key false, .object done :: rest⟩
      else if c = '\x7d' then complete (.object done.reverse) rest
      else none
  | _ => none

/-- A string has come to its closing quote. -/
def stepQuoted (isKey : Bool) (pieces : List Piece) (stack : List Frame) : Option State :=
  let text := Piece.join [] pieces.reverse
  if isKey then some ⟨.colon text, stack⟩ else complete (.text text) stack

def escaped? (c : Char) : Option Char :=
  if c = '"' || c = '\\' || c = '/' then some c
  else if c = 'b' then some '\x08'
  else if c = 'f' then some '\x0c'
  else if c = 'n' then some '\n'
  else if c = 'r' then some '\r'
  else if c = 't' then some '\t'
  else none

def stepText (isKey : Bool) (pieces : List Piece) (stack : List Frame) (c : Char) :
    Escape → Option State
  | .plain =>
      if c = '"' then stepQuoted isKey pieces stack
      else if c = '\\' then some ⟨.quoted isKey pieces .begun, stack⟩
      else if c < ' ' then none
      else some ⟨.quoted isKey (.char c :: pieces) .plain, stack⟩
  | .begun =>
      if c = 'u' then some ⟨.quoted isKey pieces (.hex 0 0), stack⟩
      else (escaped? c).map fun c => ⟨.quoted isKey (.char c :: pieces) .plain, stack⟩
  | .hex digits value =>
      (Hex.digitValue? c).map fun digit =>
        let value := 16 * value + digit.toNat
        if digits = 3 then ⟨.quoted isKey (.unit value :: pieces) .plain, stack⟩
        else ⟨.quoted isKey pieces (.hex (digits + 1) value), stack⟩

def stepValue (orEnd : Bool) (stack : List Frame) (c : Char) : Option State :=
  if isBlank c then some ⟨.value orEnd, stack⟩
  else if c = '[' then some ⟨.value true, .list [] :: stack⟩
  else if c = '\x7b' then some ⟨.key true, .object [] :: stack⟩
  else if c = '"' then some ⟨.quoted false [] .plain, stack⟩
  else if c = ']' && orEnd then stepAfter c stack
  else if isWordChar c then some ⟨.word [c], stack⟩
  else none

def stepKey (orEnd : Bool) (stack : List Frame) (c : Char) : Option State :=
  if isBlank c then some ⟨.key orEnd, stack⟩
  else if c = '"' then some ⟨.quoted true [] .plain, stack⟩
  else if c = '\x7d' && orEnd then stepAfter c stack
  else none

def stepColon (key : Option String) (stack : List Frame) (c : Char) : Option State :=
  if isBlank c then some ⟨.colon key, stack⟩
  else if c = ':' then
    match stack with
    | .object done :: rest => some ⟨.value false, .field done key :: rest⟩
    | _ => none
  else none

/-- A state that only awaits what may follow a value. -/
def State.follow (s : State) (c : Char) : Option State :=
  match s.mode with
  | .after => if isBlank c then some s else stepAfter c s.stack
  | .finished _ => if isBlank c then some s else none
  | _ => none

def step (s : State) (c : Char) : Option State :=
  match s.mode with
  | .value orEnd => stepValue orEnd s.stack c
  | .key orEnd => stepKey orEnd s.stack c
  | .colon key => stepColon key s.stack c
  | .quoted isKey pieces escape => stepText isKey pieces s.stack c escape
  | .word chars =>
      if isWordChar c then some ⟨.word (c :: chars), s.stack⟩
      else do
        let value ← ofWord? chars.reverse
        (← complete value s.stack).follow c
  | .after | .finished _ => s.follow c

def run : State → List Char → Option State
  | s, [] => some s
  | s, c :: rest =>
      match step s c with
      | some s => run s rest
      | none => none

/-- The value of a text that is over. -/
def State.value? (s : State) : Option Json :=
  match s.mode, s.stack with
  | .finished value, _ => some value
  | .word chars, [] => ofWord? chars.reverse
  | _, _ => none

def parse? (text : String) : Option Json := do
  (← run ⟨.value false, []⟩ text.toList).value?

theorem run_append (s : State) (first second : List Char) :
    run s (first ++ second) = (run s first).bind (run · second) := by
  induction first generalizing s with
  | nil => rfl
  | cons c rest inductionHypothesis =>
      simp only [List.cons_append, run]
      split
      · exact inductionHypothesis _
      · rfl

end CandleAuction.Json
