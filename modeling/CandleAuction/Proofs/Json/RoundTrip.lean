import CandleAuction.Json.Reader
import CandleAuction.Json.Writer
import Mathlib.Data.List.TakeWhile
import Mathlib.Tactic.SplitIfs

/-!
# What is written is read

The machine that reads JSON gives back what was written, for every value that
holds no numeral of a kind that is kept as text. A word such as a number is
over only when something else follows it, so a value is taken either whole or
up to the character that ends its word.
-/

namespace CandleAuction.Json

variable {stack : List Frame} {start : State} {out : String}

/-! Words: the names of constants, and numbers. -/

theorem stepValue_of_isWordChar {c : Char} (word : isWordChar c = true) (orEnd : Bool) :
    stepValue orEnd stack c = some ⟨.word [c], stack⟩ := by
  have ne : ∀ other, isWordChar other = false → c ≠ other := by
    rintro other other' rfl
    exact absurd word (Bool.eq_false_iff.mp other')
  simp [stepValue, isBlank, word, ne ' ' rfl, ne '\t' rfl, ne '\n' rfl, ne '\r' rfl, ne '[' rfl,
    ne '\x7b' rfl, ne '"' rfl, ne ']' rfl]

theorem run_word {word chars : List Char} (spelled : ∀ c ∈ word, isWordChar c = true) :
    run ⟨.word chars, stack⟩ word = some ⟨.word (word.reverse ++ chars), stack⟩ := by
  induction word generalizing chars with
  | nil => rfl
  | cons c rest inductionHypothesis =>
      obtain ⟨first, others⟩ := List.forall_mem_cons.mp spelled
      simp only [run, step, first, if_true, inductionHypothesis others]
      simp

theorem run_value_word {word : List Char} (spelled : ∀ c ∈ word, isWordChar c = true)
    (nonempty : word ≠ []) (orEnd : Bool) :
    run ⟨.value orEnd, stack⟩ word = some ⟨.word word.reverse, stack⟩ := by
  cases word with
  | nil => exact absurd rfl nonempty
  | cons c rest =>
      obtain ⟨first, others⟩ := List.forall_mem_cons.mp spelled
      simp only [run, step, stepValue_of_isWordChar first, run_word others]
      simp

section Numbers

variable {digits : List Char} {n : Nat}

theorem head?_toDigits_ne_zero (positive : 0 < n) : (Nat.toDigits 10 n).head? ≠ some '0' := by
  induction n using Nat.base_induction 10 (by decide) with
  | single n small =>
      rw [Nat.toDigits_of_lt_base small]
      revert n
      decide
  | digit n digit small larger inductionHypothesis =>
      obtain ⟨first, rest, split⟩ := List.exists_cons_of_ne_nil (Nat.toDigits_ne_nil (n := n))
      rw [← Nat.toDigits_append_toDigits (by decide) larger small, split]
      rw [split] at inductionHypothesis
      exact inductionHypothesis larger

theorem spanDigits_of_digits (all : ∀ c ∈ digits, c.isDigit = true) (nonempty : digits ≠ []) :
    spanDigits digits = (true, []) := by
  have rest : digits.dropWhile Char.isDigit = [] := List.dropWhile_eq_nil_iff.mpr all
  cases digits with
  | nil => exact absurd rfl nonempty
  | cons c digits => simp [spanDigits, rest, all c List.mem_cons_self]

theorem isNumeral_of_digits (all : ∀ c ∈ digits, c.isDigit = true) (nonempty : digits ≠ [])
    (first : digits.head? ≠ some '0') : isNumeral digits = true := by
  have span := spanDigits_of_digits all nonempty
  unfold isNumeral
  split
  · exact absurd (all '-' List.mem_cons_self) (by decide)
  · dsimp only
    split
    · exact absurd rfl first
    · rw [span]
      rfl

theorem isNumeral_toDigits (n : Nat) : isNumeral (Nat.toDigits 10 n) = true := by
  rcases Nat.eq_zero_or_pos n with rfl | positive
  · rfl
  · exact isNumeral_of_digits (fun _ => Nat.isDigit_of_mem_toDigits (by decide) (by decide))
      Nat.toDigits_ne_nil (head?_toDigits_ne_zero positive)

theorem ofWord?_toDigits (n : Nat) : ofWord? (Nat.toDigits 10 n) = some (.number n) := by
  have all : ∀ c ∈ Nat.toDigits 10 n, c.isDigit = true :=
    fun _ => Nat.isDigit_of_mem_toDigits (by decide) (by decide)
  have ne : ∀ word : List Char, word.all Char.isDigit = false → Nat.toDigits 10 n ≠ word := by
    rintro word other rfl
    exact absurd (List.all_eq_true.mpr all) (Bool.eq_false_iff.mp other)
  have value : digitsValue (Nat.toDigits 10 n) = n := Nat.ofDigitChars_ten_toDigits
  rw [ofWord?, if_neg (ne _ rfl), if_neg (ne _ rfl), if_neg (ne _ rfl),
    if_pos (isNumeral_toDigits n), if_pos (List.all_eq_true.mpr all), value]

end Numbers

/-! Strings. -/

namespace Piece

/-- How a character comes back from its escaped form. -/
def ofChar (c : Char) : Piece := if c < ' ' then .unit c.toNat else .char c

/-- A code unit that is no half of a pair stands for its character, whatever follows. -/
theorem join_unit {value : Nat} (whole : (isHigh value || isLow value) = false) (done : List Char)
    (rest : List Piece) :
    join done (.unit value :: rest) = join (Char.ofNat value :: done) rest := by
  have halves : isHigh value = false ∧ isLow value = false := Bool.or_eq_false_iff.mp whole
  cases rest with
  | nil => simp [join, halves]
  | cons next rest =>
      cases next <;> simp [join, halves]

theorem join_ofChar (done : List Char) (c : Char) (rest : List Piece) :
    join done (ofChar c :: rest) = join (c :: done) rest := by
  unfold ofChar
  split
  · next control =>
      have small : c.toNat < 32 := control
      rw [join_unit (by simp [isHigh, isLow]; omega), Char.ofNat_toNat]
  · rw [join]

theorem join_map_ofChar (done chars : List Char) :
    join done (chars.map ofChar) = some (String.ofList (done.reverse ++ chars)) := by
  induction chars generalizing done with
  | nil => simp [join]
  | cons c chars inductionHypothesis => simp [join_ofChar, inductionHypothesis]

end Piece

theorem digitValue?_digit {value : UInt8} (small : value < 16) :
    Hex.digitValue? (Hex.digit value) = some value := by
  have each : ∀ n < 16, Hex.digitValue? (Hex.digit (UInt8.ofNat n)) = some (UInt8.ofNat n) := by
    decide
  simpa using each value.toNat (UInt8.lt_iff_toNat_lt.mp small)

section Reached

variable {s : State} (reached : run start out.toList = some s)
include reached

theorem run_concat (more : String) : run start (out ++ more).toList = run s more.toList := by
  rw [String.toList_append, run_append, reached, Option.bind_some]

theorem run_push (c : Char) : run start (out.push c).toList = step s c := by
  rw [String.toList_push, run_append, reached, Option.bind_some]
  cases found : step s c <;> simp [run, found]

end Reached

section Strings

variable {isKey : Bool} {pieces : List Piece}

theorem run_unit {first second third fourth : Char} {a b c d : UInt8}
    (one : Hex.digitValue? first = some a) (two : Hex.digitValue? second = some b)
    (three : Hex.digitValue? third = some c) (four : Hex.digitValue? fourth = some d) :
    run ⟨.quoted isKey pieces .plain, stack⟩ ['\\', 'u', first, second, third, fourth] =
      some ⟨.quoted isKey (.unit
        (16 * (16 * (16 * a.toNat + b.toNat) + c.toNat) + d.toNat) :: pieces) .plain, stack⟩ := by
  simp [run, step, stepText, one, two, three, four]

theorem run_byte (byte : UInt8) :
    run ⟨.quoted isKey pieces .plain, stack⟩
        ['\\', 'u', '0', '0', Hex.digit (byte / 16), Hex.digit (byte % 16)] =
      some ⟨.quoted isKey (.unit byte.toNat :: pieces) .plain, stack⟩ := by
  have high : byte / 16 < 16 := by
    rw [UInt8.lt_iff_toNat_lt, UInt8.toNat_div]
    exact Nat.div_lt_of_lt_mul byte.toNat_lt
  have low : byte % 16 < 16 := UInt8.mod_lt byte (by decide)
  have value : 16 * (byte.toNat / 16) + byte.toNat % 16 = byte.toNat := Nat.div_add_mod _ _
  have zero : Hex.digitValue? '0' = some 0 := rfl
  rw [run_unit zero zero (digitValue?_digit high) (digitValue?_digit low)]
  simp [value]

theorem run_escape {c : Char}
    (reached : run start out.toList = some ⟨.quoted isKey pieces .plain, stack⟩) :
    run start (escape out c).toList =
      some ⟨.quoted isKey (Piece.ofChar c :: pieces) .plain, stack⟩ := by
  unfold escape
  split_ifs with quote backslash control
  · rw [run_concat reached, quote]
    rfl
  · rw [run_concat reached, backslash]
    rfl
  · have small : c.toNat < 32 := control
    have read := @run_byte stack isKey pieces (UInt8.ofNat c.toNat)
    rw [UInt8.toNat_ofNat_of_lt' (Nat.lt_trans small (by decide))] at read
    rw [String.append_assoc, run_concat reached, String.toList_append, Hex.encode,
      String.toList_ofList, String.toList_ofList, Piece.ofChar, if_pos control]
    exact read
  · rw [run_push reached]
    simp [step, stepText, quote, backslash, control, Piece.ofChar]

theorem run_escapes (chars : List Char)
    (reached : run start out.toList = some ⟨.quoted isKey pieces .plain, stack⟩) :
    run start (chars.foldl escape out).toList =
      some ⟨.quoted isKey ((chars.map Piece.ofChar).reverse ++ pieces) .plain, stack⟩ := by
  induction chars generalizing out pieces with
  | nil => exact reached
  | cons c chars inductionHypothesis =>
      rw [List.foldl_cons, inductionHypothesis (run_escape reached), List.map_cons,
        List.reverse_cons, List.append_assoc, List.singleton_append]

theorem run_writeText (value : Option String)
    (opened : run start (out.push '"').toList = some ⟨.quoted isKey [] .plain, stack⟩) :
    run start (writeText out value).toList =
      if isKey then some ⟨.colon value, stack⟩ else complete (.text value) stack := by
  cases value with
  | none =>
      have quoted : out ++ "\"\\ud800\"" = (out.push '"' ++ "\\ud800").push '"' := by
        simp [← String.toList_inj]
      have half : run start (out.push '"' ++ "\\ud800").toList =
          some ⟨.quoted isKey [.unit 0xD800] .plain, stack⟩ :=
        (run_concat opened _).trans
          (@run_unit stack isKey [] 'd' '8' '0' '0' 13 8 0 0 rfl rfl rfl rfl)
      rw [writeText, quoted, run_push half]
      simp [step, stepText, stepQuoted, Piece.join, Piece.isHigh]
  | some value =>
      have pieces := run_escapes value.toList opened
      rw [writeText, run_push pieces, List.append_nil]
      simp [step, stepText, stepQuoted, Piece.join_map_ofChar]

end Strings

/-! Values. -/

/-- Values without a numeral that is kept as text. -/
inductive Plain : Json → Prop
  | null : Plain null
  | bool (value : Bool) : Plain (bool value)
  | number (value : Nat) : Plain (number value)
  | text (value : Option String) : Plain (text value)
  | list {items : List Json} (plain : ∀ item ∈ items, Plain item) : Plain (list items)
  | object {fields : List (Option String × Json)} (plain : ∀ field ∈ fields, Plain field.2) :
      Plain (object fields)

/-- Where a value has been read: either it has been handed on, which gives `ended`, or its word
still waits for a character that does not belong to it. -/
inductive Taken (value : Json) (stack : List Frame) (ended : State) : State → Prop
  | whole : Taken value stack ended ended
  | word {chars : List Char} (spelled : ofWord? chars.reverse = some value) :
      Taken value stack ended ⟨.word chars, stack⟩

section Following

variable {value : Json} {ended s : State}

theorem step_of_complete (closes : complete value stack = some ended) (c : Char) :
    step ended c = ended.follow c := by
  unfold complete at closes
  split at closes <;> cases closes <;> rfl

/-- A character that belongs to no word is met as if the value had been handed on before. -/
theorem Taken.step (taken : Taken value stack ended s) (closes : complete value stack = some ended)
    {c : Char} (other : isWordChar c = false) : step s c = ended.follow c := by
  cases taken with
  | whole => exact step_of_complete closes c
  | word spelled => simp [Json.step, other, spelled, closes]

theorem Taken.value? (taken : Taken value [] ⟨.finished value, []⟩ s) : s.value? = some value := by
  cases taken with
  | whole => rfl
  | word spelled => exact spelled

end Following

/-- Written after anything that leads to a value, the value is taken. -/
def Readable (value : Json) : Prop :=
  ∀ {start : State} {out : String} {orEnd : Bool} {stack : List Frame} {ended : State},
    run start out.toList = some ⟨.value orEnd, stack⟩ → complete value stack = some ended →
    ∃ s, run start (writeTo out value).toList = some s ∧ Taken value stack ended s

theorem readable_of_word {value : Json} (word : List Char)
    (spelled : word.all isWordChar = true) (known : ofWord? word = some value)
    (written : ∀ out, writeTo out value = out ++ String.ofList word) : Readable value := by
  intro start out orEnd stack ended reached closes
  have nonempty : word ≠ [] := by
    rintro rfl
    cases known
  refine ⟨⟨.word word.reverse, stack⟩, ?_, .word (by rwa [List.reverse_reverse])⟩
  rw [written, run_concat reached, String.toList_ofList,
    run_value_word (List.all_eq_true.mp spelled) nonempty]

theorem readable_number (n : Nat) : Readable (number n) := by
  refine readable_of_word (Nat.toDigits 10 n) (List.all_eq_true.mpr fun c member => ?_)
    (ofWord?_toDigits n) fun out => by rw [writeTo, Nat.repr_eq_ofList_toDigits]
  have digit : c.isDigit = true := Nat.isDigit_of_mem_toDigits (by decide) (by decide) member
  simp [isWordChar, Char.isAlphanum, digit]

section Containers

variable {ended s : State}

theorem run_writeItems {rest done : List Json} {last : Json}
    (readable : ∀ item ∈ rest, Readable item) (reached : run start out.toList = some s)
    (taken : Taken last (.list done :: stack) ⟨.after, .list (last :: done) :: stack⟩ s)
    (closes : complete (list ((last :: done).reverse ++ rest)) stack = some ended) :
    run start (writeItems out rest).toList = some ended := by
  induction rest generalizing out done last s with
  | nil =>
      rw [writeItems, run_push reached, taken.step rfl rfl]
      rw [List.append_nil] at closes
      exact closes
  | cons item rest inductionHypothesis =>
      obtain ⟨first, others⟩ := List.forall_mem_cons.mp readable
      have comma : run start (out.push ',').toList =
          some ⟨.value false, .list (last :: done) :: stack⟩ := by
        rw [run_push reached, taken.step rfl rfl]
        rfl
      obtain ⟨s, reached, taken⟩ := first comma rfl
      rw [writeItems]
      refine inductionHypothesis others reached taken ?_
      rwa [List.reverse_cons, List.append_assoc, List.singleton_append]

theorem readable_list {items : List Json} (readable : ∀ item ∈ items, Readable item) :
    Readable (list items) := by
  intro start out orEnd stack ended reached closes
  have bracket : run start (out.push '[').toList = some ⟨.value true, .list [] :: stack⟩ :=
    run_push reached '['
  refine ⟨ended, ?_, .whole⟩
  cases items with
  | nil =>
      have written : out ++ "[]" = (out.push '[').push ']' := by simp [← String.toList_inj]
      rw [writeTo, written, run_push bracket]
      exact closes
  | cons item rest =>
      obtain ⟨first, others⟩ := List.forall_mem_cons.mp readable
      obtain ⟨s, reached, taken⟩ := first bracket rfl
      rw [writeTo]
      exact run_writeItems others reached taken closes

theorem run_writeField {key : Option String} {value : Json} {done : List (Option String × Json)}
    {orEnd : Bool} (readable : Readable value)
    (reached : run start out.toList = some ⟨.key orEnd, .object done :: stack⟩) :
    ∃ s, run start (writeField out (key, value)).toList = some s ∧
      Taken value (.field done key :: stack)
        ⟨.after, .object ((key, value) :: done) :: stack⟩ s := by
  have opened : run start (out.push '"').toList =
      some ⟨.quoted true [] .plain, .object done :: stack⟩ := run_push reached '"'
  have named := run_writeText key opened
  rw [if_pos rfl] at named
  have colon : run start ((writeText out key).push ':').toList =
      some ⟨.value false, .field done key :: stack⟩ := run_push named ':'
  rw [writeField]
  exact readable colon rfl

theorem run_writeFields {rest done : List (Option String × Json)} {key : Option String}
    {last : Json} (readable : ∀ field ∈ rest, Readable field.2)
    (reached : run start out.toList = some s)
    (taken : Taken last (.field done key :: stack)
      ⟨.after, .object ((key, last) :: done) :: stack⟩ s)
    (closes : complete (object (((key, last) :: done).reverse ++ rest)) stack = some ended) :
    run start (writeFields out rest).toList = some ended := by
  induction rest generalizing out done key last s with
  | nil =>
      rw [writeFields, run_push reached, taken.step rfl rfl]
      rw [List.append_nil] at closes
      exact closes
  | cons field rest inductionHypothesis =>
      obtain ⟨first, others⟩ := List.forall_mem_cons.mp readable
      have comma : run start (out.push ',').toList =
          some ⟨.key false, .object ((key, last) :: done) :: stack⟩ := by
        rw [run_push reached, taken.step rfl rfl]
        rfl
      obtain ⟨s, reached, taken⟩ := run_writeField first comma
      rw [writeFields]
      refine inductionHypothesis others reached taken ?_
      rwa [List.reverse_cons, List.append_assoc, List.singleton_append]

theorem readable_object {fields : List (Option String × Json)}
    (readable : ∀ field ∈ fields, Readable field.2) : Readable (object fields) := by
  intro start out orEnd stack ended reached closes
  have brace : run start (out.push '\x7b').toList = some ⟨.key true, .object [] :: stack⟩ :=
    run_push reached '\x7b'
  refine ⟨ended, ?_, .whole⟩
  cases fields with
  | nil =>
      have written : out ++ "\x7b\x7d" = (out.push '\x7b').push '\x7d' := by
        simp [← String.toList_inj]
      rw [writeTo, written, run_push brace]
      exact closes
  | cons field rest =>
      obtain ⟨first, others⟩ := List.forall_mem_cons.mp readable
      obtain ⟨s, reached, taken⟩ := run_writeField first brace
      rw [writeTo]
      exact run_writeFields others reached taken closes

end Containers

theorem Plain.readable {value : Json} (plain : Plain value) : Readable value := by
  induction plain with
  | null =>
      exact readable_of_word ['n', 'u', 'l', 'l'] rfl rfl fun out => by rw [writeTo]
  | bool value =>
      cases value with
      | false =>
          exact readable_of_word ['f', 'a', 'l', 's', 'e'] rfl rfl fun out => by rw [writeTo]
      | true =>
          exact readable_of_word ['t', 'r', 'u', 'e'] rfl rfl fun out => by rw [writeTo]
  | number value => exact readable_number value
  | text value =>
      intro start out orEnd stack ended reached closes
      refine ⟨ended, ?_, .whole⟩
      rw [writeTo, run_writeText value (run_push reached '"'), if_neg Bool.false_ne_true, closes]
  | list _ readable => exact readable_list readable
  | object _ readable => exact readable_object readable

/-- Reading gives back every plain value from what is written for it. -/
theorem Plain.parse?_render {value : Json} (plain : Plain value) :
    parse? value.render = some value := by
  have readable : Readable value := plain.readable
  obtain ⟨s, reached, taken⟩ := @readable ⟨.value false, []⟩ "" false [] _ rfl rfl
  rw [parse?, render, reached]
  exact taken.value?

end CandleAuction.Json
