import CandleAuction.Rejection
import CandleAuction.Seed

/-!
# Local backends

Deterministic collaborators for a chain that runs in one process: a settler
that numbers and records the items it hands out, and an oracle that numbers the
requests it gets and derives each word from the request.
-/

namespace CandleAuction

structure Settler where
  gas : UInt64
  /-- Winner and seed of each item, by item number from one. -/
  settled : Array (Address × Word)
  failing : Bool

namespace Settler

def new (gas : UInt64) : Settler := ⟨gas, #[], false⟩

def settle (s : Settler) : Except CollaboratorError UInt64 :=
  if s.failing then .error (.settlementFailed "mock settler disabled")
  else .ok (UInt64.ofNat (s.settled.size + 1))

def record (s : Settler) (winner : Address) (seed : Word) : Settler :=
  { s with settled := s.settled.push (winner, seed) }

end Settler

structure RandomnessOracle where
  /-- Seed of each request, by request number from one. -/
  seeds : Array Word

namespace RandomnessOracle

def new : RandomnessOracle := ⟨#[]⟩

def request (o : RandomnessOracle) : Except CollaboratorError UInt64 :=
  .ok (UInt64.ofNat (o.seeds.size + 1))

def record (o : RandomnessOracle) (seed : Word) : RandomnessOracle := ⟨o.seeds.push seed⟩

def lastRequest? (o : RandomnessOracle) : Option UInt64 :=
  if o.seeds.isEmpty then none else some (UInt64.ofNat o.seeds.size)

def seed? (o : RandomnessOracle) (request : UInt64) : Option Word :=
  if request = 0 then none else o.seeds[request.toNat - 1]?

/-- The word that answers a request. -/
def word? (o : RandomnessOracle) (request : UInt64) : Option Word :=
  (o.seed? request).map fun seed =>
    Seed.tagged "MOCK_RANDOM_WORD:" (seed.toList ++ Bytes.littleEndian 8 request.toNat)

end RandomnessOracle

end CandleAuction
