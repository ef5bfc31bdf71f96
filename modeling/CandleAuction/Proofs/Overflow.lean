import CandleAuction.Proofs.Processing
import CandleAuction.Proofs.Ranking.Fraud
import CandleAuction.Proofs.Rules.Faults

/-!
# Where the arithmetic ends

In every run a round that has been closed has a deadline that fits into a word,
and its counters have room. So nothing but the three deadlines and numbers of
`House.Stops` can stop a call. Differences are taken of amounts that have been
compared, and a ledger is read only at places that a claim has been checked for.
-/

namespace CandleAuction

variable {g : Genesis} {settlementGas : UInt64} {start h : House} {past : List Served}

namespace Auction

variable {r : Auction} {bids : Ledger} {ctx : Context} {call : Call} {change : Change}
  {outcome : Outcome}

theorem Allows.bounded (allowed : r.Allows bids ctx call change outcome)
    (closed : r.phase ≠ .running → r.Bounded) :
    (change.revise r).phase ≠ .running → (change.revise r).Bounded := by
  cases allowed with
  | placed | raised => exact closed
  | @closed _ request _ closes =>
      have fits : r.Bounded := Nat.lt_of_le_of_lt closes.ended ctx.now.toNat_lt
      intro _
      cases request <;> exact fits
  | drawn | claimed | withdrawn | snuffBountyPaid | proposalBountyPaid | proceedsMoved =>
      exact closed
  | proposed g => exact fun _ => closed (by rw [g.waiting]; nofun)
  | overturned g =>
      exact fun _ => closed (by rw [(phaseAt_eq_winnersProposed.mp g.inTime).1]; nofun)

end Auction

theorem Run.bounded (founded : g.found settlementGas = .ok start) (run : Run start past h) :
    h.Each fun r _ => r.phase ≠ .running → r.Bounded := by
  refine run.each (motive := fun _ r _ => r.phase ≠ .running → r.Bounded)
    (Genesis.orderly_of_found founded) (Genesis.each_of_found founded ?_) ?_ ?_
  · exact fun _ closed => absurd rfl closed
  · exact fun _ _ closed => absurd rfl closed
  · intro past s id r r' bids' _ _ moves closed
    cases moves with
    | rest _ => exact closed
    | change _ _ allowed _ => exact allowed.bounded closed

/-- In every run, a call stops the program exactly if it needs a deadline or a number that no
word holds. -/
theorem Run.dispatch_stops_iff (founded : g.found settlementGas = .ok start)
    (run : Run start past h) {ctx : Context} {c : Collaborators} {call : Call} {fault : Fault} :
    (h.dispatch ctx c call).result = .error (.fault fault) ↔
      fault = .addition ∧ h.Stops ctx c call :=
  House.dispatch_stops_iff (run.coherent (Genesis.coherent_of_found founded))
    (run.bounded founded) fun _ _ found => run.claimedWinners_lt founded found

theorem Claim.fraud?_of_outside {claim : Claim} {bids : Ledger} {close maxWinners disputed : UInt32}
    (outside : ∃ index ∈ claim.winners, bids.size ≤ index.toNat) :
    claim.fraud? bids close maxWinners disputed ∈
      [some .duplicateIndex, some .incorrectWinnerCount, some .indexOutOfRange] := by
  have missing : claim.entries? bids = none := by
    obtain ⟨index, member, large⟩ := outside
    refine Option.eq_none_iff_forall_ne_some.mpr fun entries found => ?_
    obtain ⟨indices, listed⟩ := Claim.entries?_eq_some.mp found
    rw [← indices] at member
    obtain ⟨e, among, rfl⟩ := List.mem_map.mp member
    have entry := listed e among
    simp [Ledger.entry?, Array.getElem?_eq_none large] at entry
  unfold Claim.fraud?
  rw [missing]
  split
  · simp
  · split <;> simp

theorem House.payout_exact {id : UInt64} {recipient : Address} {fromProceeds fromDeposit : UInt64}
    {payout : Payout} (paid : h.payout id recipient fromProceeds fromDeposit = .ok payout) :
    ∃ r credit, h.auction? id = some r ∧ exactSub r.proceeds fromProceeds = .ok payout.proceeds ∧
      exactAdd fromProceeds fromDeposit = .ok credit ∧
      exactAdd (h.balance recipient) credit = .ok payout.balance := by
  obtain ⟨r, found, pays⟩ := payout_eq_ok.mp paid
  have rest := pays.rest
  have credited := pays.credited
  have fits := payout.balance.toNat_lt
  have sum := UInt64.toNat_ofNat_of_lt' (n := fromProceeds.toNat + fromDeposit.toNat)
    (by simp only [UInt64.size]; omega)
  exact ⟨r, _, found, exactSub_eq_ok.mpr ⟨by omega, by omega⟩, exactAdd_eq_ok.mpr sum,
    exactAdd_eq_ok.mpr (by rw [sum, credited])⟩

theorem Bounties.ofTotal_exact (s : Settings) (minBid gasPrice total : UInt64) :
    ∃ rest sum, exactSub (saturatingSub total (floor s minBid))
        (ofTotal s minBid gasPrice total).snuff = .ok rest ∧
      (ofTotal s minBid gasPrice total).total = .ok sum := by
  have excess := ofTotal_le_excess s minBid gasPrice total
  have le : (ofTotal s minBid gasPrice total).snuff ≤ saturatingSub total (floor s minBid) := by
    rw [UInt64.le_iff_toNat_le, saturatingSub_toNat]
    omega
  obtain ⟨sum, added, -⟩ := exists_total s minBid gasPrice total
  exact ⟨_, sum, by rw [exactSub, if_pos le], added⟩

/-- In every run a call stops the program exactly if it is measured against a deadline that no word
holds, or would open a round that no word numbers: whatever else a rule adds, subtracts,
multiplies or divides stays within a word. Nor does anything wrap around where no overflow is
looked for: payouts and bounties are exact, and a claim is checked only against bids that are
there. -/
theorem Run.faults_exactly_past_last_word (founded : g.found settlementGas = .ok start)
    (run : Run start past h) :
    (∀ (ctx : Context) (c : Collaborators) (call : Call) (fault : Fault),
      (h.dispatch ctx c call).result = .error (.fault fault) ↔
        fault = .addition ∧ h.Stops ctx c call) ∧
    (∀ (id : UInt64) (recipient : Address) (fromProceeds fromDeposit : UInt64) (payout : Payout),
      h.payout id recipient fromProceeds fromDeposit = .ok payout →
      ∃ r credit, h.auction? id = some r ∧
        exactSub r.proceeds fromProceeds = .ok payout.proceeds ∧
        exactAdd fromProceeds fromDeposit = .ok credit ∧
        exactAdd (h.balance recipient) credit = .ok payout.balance) ∧
    (∀ (s : Settings) (minBid gasPrice total : UInt64), ∃ rest sum,
      exactSub (saturatingSub total (Bounties.floor s minBid))
        (Bounties.ofTotal s minBid gasPrice total).snuff = .ok rest ∧
      (Bounties.ofTotal s minBid gasPrice total).total = .ok sum) ∧
    ∀ (claim : Claim) (bids : Ledger) (close maxWinners disputed : UInt32),
      (∃ index ∈ claim.winners, bids.size ≤ index.toNat) →
      claim.fraud? bids close maxWinners disputed ∈
        [some .duplicateIndex, some .incorrectWinnerCount, some .indexOutOfRange] :=
  ⟨fun _ _ _ _ => run.dispatch_stops_iff founded,
    fun _ _ _ _ _ paid => House.payout_exact paid, Bounties.ofTotal_exact,
    fun _ _ _ _ _ outside => Claim.fraud?_of_outside outside⟩

/-! The sample round under settings that let a proposal be challenged for ever. -/

namespace Sample

def endlessGenesis : Genesis :=
  .withSettings { Settings.standard with maxWinners := 1, fraudPeriod := 0xFFFFFFFFFFFFFFFF }

def endlessOpened : House := (endlessGenesis.firstRound 0).apply endlessGenesis.house

def endlessDrawn : House := endlessOpened.serve bidding

def endlessRound : Auction := { round with settings := endlessGenesis.settings }

def endlessProposal : Proposal :=
  endlessRound.proposalFor proposing.context (commitment [0, 0] word) 1 5000

def endless : House := [.proposed 1 endlessProposal].foldl Change.apply endlessDrawn

theorem endless_founded : endlessGenesis.found 0 = .ok endlessOpened := rfl

theorem run_endless :
    Run endlessOpened (⟨endlessDrawn, proposing⟩ :: endlessOpened.served bidding) endless := by
  have run : Run endlessOpened (endlessOpened.served bidding) endlessDrawn :=
    House.run_serve (List.all_eq_true.mp rfl)
  have takes : endlessRound.TakesProposal proposing.context [0, 0] (commitment [0, 0] word) word
      [0] := ⟨rfl, rfl, by decide, rfl, rfl⟩
  exact run.grant (.proposeWinners rfl takes)

theorem endless_round :
    endless.auction? 1 = some { endlessRound with
      phase := .winnersProposed
      proposal := some endlessProposal } := rfl

theorem endless_stops {ctx : Context} {c : Collaborators} {call : Call}
    (about : call.round? = some 1) : endless.Stops ctx c call :=
  .window (.named about endless_round) ⟨rfl, endlessProposal, rfl, by decide⟩

end Sample

/-- Once its winners are proposed, the round whose window does not end stops every bounty claim. -/
theorem faults_exactly_past_last_word_endless :
    (Sample.endless.dispatch Sample.refunding.context Sample.parties
      (.claimSnuffBounty 1)).result = .error (.fault .addition) :=
  ((Run.faults_exactly_past_last_word Sample.endless_founded Sample.run_endless).1 _ _ _ _).mpr
    ⟨rfl, Sample.endless_stops rfl⟩

end CandleAuction
