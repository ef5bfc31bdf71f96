import CandleAuction.Settings

/-!
# Bounties

Whoever closes a round and whoever proposes its winners are paid from the
excess over what the full number of minimum bids would raise, each at most a
multiple of the gas it spent.
-/

namespace CandleAuction

structure Bounties where
  snuff : UInt64
  proposal : UInt64
  deriving DecidableEq, Repr

namespace Bounties

def none : Bounties := ⟨0, 0⟩

def total (b : Bounties) : Except Fault UInt64 := exactAdd b.snuff b.proposal

/-- What the winners must raise before any bounty is paid. -/
def floor (s : Settings) (minBid : UInt64) : UInt64 :=
  saturatingMul s.maxWinners.toUInt64 minBid

def target (s : Settings) (gasPrice gas : UInt64) : UInt64 :=
  saturatingMul (saturatingMul gas gasPrice) s.bountyMultiplier

/-- The bounties of a round whose winners raise a given total. -/
def ofTotal (s : Settings) (minBid gasPrice total : UInt64) : Bounties :=
  let excess := saturatingSub total (floor s minBid)
  if excess = 0 then none
  else
    let snuff := min (target s gasPrice s.snuffGas) (excess / 2)
    ⟨snuff, min (target s gasPrice s.proposalGas) (excess - snuff)⟩

end Bounties

end CandleAuction
