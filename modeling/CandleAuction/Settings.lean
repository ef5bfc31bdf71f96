import CandleAuction.Arithmetic
import CandleAuction.Word

/-!
# Auction settings

The configuration every new round takes a snapshot of. The close instant is
drawn from the entropy inside the trailing window of the duration, the snuff
window, and every amount is a multiple of the bid precision.
-/

namespace CandleAuction

/-- How many bytes a packed bid index takes. -/
inductive IndexWidth
  | two
  | three
  deriving DecidableEq, Repr

namespace IndexWidth

def bytes : IndexWidth → Nat
  | two => 2
  | three => 3

def maxIndex : IndexWidth → UInt32
  | two => 0xFFFF
  | three => 0xFFFFFF

/-- How many bids the width can address. -/
def capacity (width : IndexWidth) : Nat := width.maxIndex.toNat + 1

end IndexWidth

structure Settings where
  /-- Nominal duration in seconds. -/
  duration : UInt64
  /-- Share of the duration, in percent, taken by the snuff window. -/
  snuffPercent : UInt8
  maxWinners : UInt32
  indexWidth : IndexWidth
  /-- Bond posted with a proposal. -/
  deposit : UInt64
  bidPrecision : UInt64
  bountyMultiplier : UInt64
  /-- Seconds during which a proposal may be challenged. -/
  fraudPeriod : UInt64
  snuffGas : UInt64
  proposalGas : UInt64
  deriving DecidableEq, Repr

inductive SettingsError
  | zeroDuration
  | durationTooLong
  | percentAbove100
  | zeroWinners
  | winnersNotAddressable
  | zeroPrecision
  | zeroFraudPeriod
  | zeroMultiplier
  deriving DecidableEq, Repr

def SettingsError.message : SettingsError → String
  | .zeroDuration => "Duration cannot be zero"
  | .durationTooLong => "Duration exceeds the bid timestamp range"
  | .percentAbove100 => "Snuff percent cannot exceed 100"
  | .zeroWinners => "Max winners cannot be zero"
  | .winnersNotAddressable => "Max winners not addressable by index width"
  | .zeroPrecision => "Bid precision cannot be zero"
  | .zeroFraudPeriod => "Fraud period cannot be zero"
  | .zeroMultiplier => "Bounty multiplier cannot be zero"

namespace Settings

/-- Three days, the last 30 percent of them random, for 32 winners. -/
def standard : Settings where
  duration := 259200
  snuffPercent := 30
  maxWinners := 32
  indexWidth := .two
  deposit := 1000000
  bidPrecision := 1000
  bountyMultiplier := 2
  fraudPeriod := 3600
  snuffGas := 150000
  proposalGas := 250000

instance : Inhabited Settings := ⟨standard⟩

/-- What is wrong with the settings, if anything. The first finding counts. -/
def problem? (s : Settings) : Option SettingsError :=
  if s.duration = 0 then some .zeroDuration
  else if UInt32.size ≤ s.duration.toNat then some .durationTooLong
  else if 100 < s.snuffPercent then some .percentAbove100
  else if s.maxWinners = 0 then some .zeroWinners
  else if s.indexWidth.capacity < s.maxWinners.toNat then some .winnersNotAddressable
  else if s.bidPrecision = 0 then some .zeroPrecision
  else if s.fraudPeriod = 0 then some .zeroFraudPeriod
  else if s.bountyMultiplier = 0 then some .zeroMultiplier
  else none

/-- Settings a round may be run with. -/
structure Valid (s : Settings) : Prop where
  duration_ne : s.duration ≠ 0
  duration_lt : s.duration.toNat < UInt32.size
  percent_le : s.snuffPercent ≤ 100
  winners_ne : s.maxWinners ≠ 0
  winners_le : s.maxWinners.toNat ≤ s.indexWidth.capacity
  precision_ne : s.bidPrecision ≠ 0
  period_ne : s.fraudPeriod ≠ 0
  multiplier_ne : s.bountyMultiplier ≠ 0

theorem ite_some_eq_none {c : Prop} [Decidable c] {e : SettingsError}
    {rest : Option SettingsError} :
    (if c then some e else rest) = none ↔ ¬c ∧ rest = none := by
  split <;> simp [*]

theorem problem?_eq_none_iff {s : Settings} : s.problem? = none ↔ s.Valid := by
  simp only [problem?, ite_some_eq_none, and_true, Nat.not_le, Nat.not_lt, UInt8.not_lt]
  exact ⟨fun ⟨h1, h2, h3, h4, h5, h6, h7, h8⟩ => ⟨h1, h2, h3, h4, h5, h6, h7, h8⟩,
    fun ⟨h1, h2, h3, h4, h5, h6, h7, h8⟩ => ⟨h1, h2, h3, h4, h5, h6, h7, h8⟩⟩

/-- Length of the snuff window in seconds. -/
def windowLength (s : Settings) : Except Fault UInt64 := do
  return (← exactMul s.duration s.snuffPercent.toUInt64) / 100

/-- When the snuff window opens, in seconds from the start. -/
def windowStart (s : Settings) : Except Fault UInt64 := do
  exactSub s.duration (← s.windowLength)

/-- The close instant that the entropy picks, in seconds from the start. -/
def closeOffset (s : Settings) (entropy : Word) : Except Fault UInt32 := do
  let number := UInt64.ofNat (Bytes.ofBigEndian (entropy.toList.take 8))
  let instants ← exactAdd (← s.windowLength) 1
  let draw ← exactMod number instants
  let offset ← exactAdd (← s.windowStart) draw
  return if offset.toNat < UInt32.size then offset.toUInt32 else UInt32.ofNat (UInt32.size - 1)

/-- The least positive multiple of the precision that covers an amount, or the
largest amount if that multiple does not fit. A precision of zero counts as one. -/
def roundUp (s : Settings) (amount : UInt64) : UInt64 :=
  let unit := max s.bidPrecision 1
  let units := UInt64.ofNat ((amount.toNat + unit.toNat - 1) / unit.toNat)
  max (saturatingMul units unit) unit

end Settings

end CandleAuction
