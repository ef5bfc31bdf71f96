import CandleAuction.Change

/-!
# Genesis

The configuration a house is founded with: three addresses, the start of the
first round with its gas price, and the settings. A valid configuration gives a
house whose first round is open.
-/

namespace CandleAuction

structure Genesis where
  /-- May change the settings of rounds to come. -/
  admin : Address
  /-- Receives the proceeds of a round. -/
  beneficiary : Address
  /-- May deliver randomness. -/
  oracle : Address
  startTime : UInt64
  gasPrice : UInt64
  settings : Settings
  deriving DecidableEq, Repr

namespace Genesis

/-- Placeholder addresses around given settings. -/
def withSettings (settings : Settings) : Genesis where
  admin := .fill 1
  beneficiary := .fill 2
  oracle := .fill 3
  startTime := 0
  gasPrice := 1
  settings := settings

def standard : Genesis := withSettings .standard

/-- What is wrong with a configuration, if anything. The first finding counts. -/
def problem? (g : Genesis) : Option GenesisError :=
  if g.admin = .zero then some (.missingAddress .admin)
  else if g.beneficiary = .zero then some (.missingAddress .beneficiary)
  else if g.oracle = .zero then some (.missingAddress .oracle)
  else g.settings.problem?.map .invalidSettings

/-- The house before its first round. -/
def house (g : Genesis) : House :=
  { House.empty with
    admin := g.admin
    beneficiary := g.beneficiary
    oracle := g.oracle
    settings := g.settings }

/-- The change that opens the first round. -/
def firstRound (g : Genesis) (settlementGas : UInt64) : Change :=
  .opened (g.house.nextRound g.startTime ⟨g.gasPrice, g.startTime⟩ settlementGas) 2

def found (g : Genesis) (settlementGas : UInt64) : Except GenesisError House :=
  match g.problem? with
  | some problem => .error problem
  | none => .ok ((g.firstRound settlementGas).apply g.house)

end Genesis

end CandleAuction
