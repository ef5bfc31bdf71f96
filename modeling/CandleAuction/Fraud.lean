import CandleAuction.Ranking
import Std.Data.HashSet

/-!
# Fraud

A claimed winner list is checked against the ledger in a fixed order and the
first violation is the verdict. All checks but one look at the claim alone; the
exclusion check compares its last entry with one disputed bid. The search for a
counter-example disputes the first canonical winner that the claim leaves out.
-/

namespace CandleAuction

inductive FraudReason
  | duplicateIndex
  | incorrectWinnerCount
  | indexOutOfRange
  | incorrectOrdering
  | lateBidIncluded
  | excludedHigherBid
  | incorrectTotal
  deriving DecidableEq, Repr

namespace FraudReason

def code : FraudReason → UInt8
  | duplicateIndex => 1
  | incorrectWinnerCount => 2
  | indexOutOfRange => 3
  | incorrectOrdering => 4
  | lateBidIncluded => 5
  | excludedHigherBid => 6
  | incorrectTotal => 7

def name : FraudReason → String
  | duplicateIndex => "DuplicateIndex"
  | incorrectWinnerCount => "IncorrectWinnerCount"
  | indexOutOfRange => "IndexOutOfRange"
  | incorrectOrdering => "IncorrectOrdering"
  | lateBidIncluded => "LateBidIncluded"
  | excludedHigherBid => "ExcludedHigherBid"
  | incorrectTotal => "IncorrectTotal"

def text : FraudReason → String
  | duplicateIndex => "duplicate index"
  | incorrectWinnerCount => "incorrect winner count"
  | indexOutOfRange => "index out of range"
  | incorrectOrdering => "incorrect ordering"
  | lateBidIncluded => "late bid included"
  | excludedHigherBid => "excluded higher bid"
  | incorrectTotal => "incorrect total"

end FraudReason

/-- A claimed winner list with its declared total. -/
structure Claim where
  winners : List UInt32
  total : UInt64
  deriving DecidableEq, Repr

namespace Claim

def distinctFrom (seen : Std.HashSet UInt32) : List UInt32 → Bool
  | [] => true
  | index :: rest => !seen.contains index && distinctFrom (seen.insert index) rest

theorem distinctFrom_iff {seen : Std.HashSet UInt32} {indices : List UInt32} :
    distinctFrom seen indices = true ↔ indices.Nodup ∧ ∀ index ∈ indices, index ∉ seen := by
  induction indices generalizing seen with
  | nil => simp [distinctFrom]
  | cons first rest inductionHypothesis =>
      simp only [distinctFrom, Bool.and_eq_true, Bool.not_eq_true', inductionHypothesis,
        Std.HashSet.mem_insert, List.nodup_cons, List.forall_mem_cons, beq_iff_eq, not_or]
      rw [← Bool.not_eq_true, ← Std.HashSet.mem_iff_contains]
      constructor
      · rintro ⟨fresh, nodup, others⟩
        exact ⟨⟨fun again => (others first again).1 rfl, nodup⟩, fresh,
          fun index member => (others index member).2⟩
      · rintro ⟨⟨absent, nodup⟩, fresh, others⟩
        exact ⟨fresh, nodup,
          fun index member => ⟨fun equal => absent (equal ▸ member), others index member⟩⟩

def distinct (c : Claim) : Bool := distinctFrom ∅ c.winners

theorem distinct_iff {c : Claim} : c.distinct = true ↔ c.winners.Nodup := by
  simp [distinct, distinctFrom_iff]

/-- The claimed entries, if all of them are in the ledger. -/
def entries? (c : Claim) (bids : Ledger) : Option (List Entry) :=
  c.winners.mapM bids.entry?

/-- Each entry ranks ahead of the next. -/
def descending (close : UInt32) (entries : List Entry) : Bool :=
  (entries.zip entries.tail).all fun (a, b) => a.ahead close b

/-- The violation that a disputed entry shows, if it is left out and ranks ahead of the last. -/
def exclusion? (c : Claim) (close : UInt32) (last disputed : Entry) : Option FraudReason :=
  if !c.winners.contains disputed.index && disputed.ahead close last then
    if disputed.bid.eligible close && !last.bid.eligible close then some .lateBidIncluded
    else some .excludedHigherBid
  else none

/-- The sum of the amounts, if it fits. -/
def sum? (entries : List Entry) : Option UInt64 :=
  entries.foldlM (fun sum entry => checkedAdd sum entry.bid.amount) 0

def exclusionAt? (c : Claim) (bids : Ledger) (close : UInt32) (entries : List Entry)
    (disputed : UInt32) : Option FraudReason := do
  c.exclusion? close (← entries.getLast?) (← bids.entry? disputed)

/-- The first violation of a claim, with one bid of the ledger in dispute. -/
def fraud? (c : Claim) (bids : Ledger) (close maxWinners disputed : UInt32) :
    Option FraudReason :=
  if !c.distinct then some .duplicateIndex
  else if c.winners.length ≠ Ledger.winnerCount bids.size maxWinners then
    some .incorrectWinnerCount
  else match c.entries? bids with
    | none => some .indexOutOfRange
    | some entries =>
        if !descending close entries then some .incorrectOrdering
        else match c.exclusionAt? bids close entries disputed with
          | some reason => some reason
          | none => if sum? entries ≠ some c.total then some .incorrectTotal else none

end Claim

/-- A disputed bid and the violation it shows. -/
structure CounterExample where
  disputed : UInt32
  reason : FraudReason
  deriving DecidableEq, Repr

/-- The first canonical winner that the claim leaves out, or the first bid. -/
def Claim.disputed (c : Claim) (bids : Ledger) (close maxWinners : UInt32) : UInt32 :=
  let listed := Std.HashSet.ofList c.winners
  ((bids.canonicalWinners close maxWinners).find? fun index => !listed.contains index).getD 0

def Claim.counterExample? (c : Claim) (bids : Ledger) (close maxWinners : UInt32) :
    Option CounterExample :=
  let disputed := c.disputed bids close maxWinners
  (c.fraud? bids close maxWinners disputed).map (CounterExample.mk disputed)

end CandleAuction
