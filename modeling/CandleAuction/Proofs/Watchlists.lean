import CandleAuction.Proofs.Disputes
import CandleAuction.Proofs.Lifecycle

/-!
# What the watch lists promise

The lists are made from stored fields, the rules of the calls look at one round
at a time. They agree: a round is listed as awaiting a proposal exactly if a
proposal for it can be accepted, and as open to challenges exactly if no
challenge of it comes at the wrong time. A proposed round that is not open to
challenges any more is settled.
-/

namespace CandleAuction

/-- The rejections of a call that comes at the wrong time, or is about no round at all. -/
@[simp]
def Rejection.Untimely (rejection : Rejection) : Prop :=
  (∃ id, rejection = .auctionNotFound id) ∨
    (∃ expected got, rejection = .invalidState expected got) ∨ rejection = .challengePeriodOver

/-- The call is rejected for its time, or for want of a round. -/
abbrev Ruling.Untimely {α : Type} (ruling : Ruling α) : Prop :=
  Rejects Rejection.Untimely ruling

open Ruling

namespace Auction

variable {r : Auction} {bids : Ledger} {now : UInt64}

theorem untimely_requirePhase {expected : Phase} :
    Untimely (r.requirePhase now expected) ↔ ∃ got, r.phaseAt now = .ok got ∧ got ≠ expected := by
  simp [rejects_requirePhase]

theorem untimely_requireChallengeable :
    Untimely (r.requireChallengeable now) ↔
      ∃ got, r.phaseAt now = .ok got ∧ got ≠ .winnersProposed := by
  simp only [requireChallengeable, rejects_bind, not_rejects_lift, lift_eq_ok, false_or]
  refine exists_congr fun got => and_congr_right fun _ => ?_
  cases got <;> simp

theorem Coherent.final_iff (coherent : r.Coherent bids)
    (effective : ∃ phase, r.phaseAt now = .ok phase) :
    r.phaseAt now = .ok .finalized ↔
      r.phase = .winnersProposed ∧ r.phaseAt now ≠ .ok .winnersProposed := by
  constructor
  · intro final
    exact ⟨coherent.proposed_of_final final, by simp [final]⟩
  · rintro ⟨proposed, passed⟩
    obtain ⟨phase, effective⟩ := effective
    have known := phaseAt_eq_ok.mp effective
    simp only [proposed] at known
    obtain ⟨deadline, -, rfl⟩ := known
    split at effective
    · exact effective
    · exact absurd effective passed

end Auction

namespace House

variable {h : House} {ctx : Context} {c : Collaborators} {now id settlementGas : UInt64}
  {r : Auction} {call : Call} {encoding : List UInt8}

theorem untimely_dispatch :
    Untimely (h.dispatch ctx c call).result ↔ Untimely (h.plan ctx c.settlementGas call) :=
  rejects_dispatch (by simp)

theorem untimely_requireAuction_bind {α : Type} {next : Auction → Ruling α}
    {timely : Auction → Prop}
    (rest : ∀ r, h.auction? id = some r → (Untimely (next r) ↔ ¬ timely r)) :
    Untimely (h.requireAuction id >>= next) ↔ ¬ ∃ r, h.auction? id = some r ∧ timely r := by
  refine rejects_bind.trans ?_
  cases found : h.auction? id with
  | none => simp [found]
  | some r => simp [requireAuction_eq_ok, found, rest r found]

theorem untimely_finalWinners :
    Untimely (h.finalWinners now id encoding) ↔ Untimely (h.finalized now id) :=
  rejects_bind_iff fun _ _ => by simp [rejects_bind]

theorem not_untimely_payout (found : h.auction? id = some r) {recipient : Address}
    {fromProceeds fromDeposit : UInt64} :
    ¬ Untimely (h.payout id recipient fromProceeds fromDeposit) := by
  simp [payout, rejects_bind, found]

/-- A settlement looks at the time of its call only to tell whether the round is final. -/
theorem Coherent.untimely_settling (coherent : h.Coherent) (settles : call.settles = true)
    (about : call.round? = some id) :
    Untimely (h.plan ctx settlementGas call) ↔ Untimely (h.finalized ctx.now id) := by
  cases call with
  | placeBid | increaseBid | snuff | fulfillRandomness | proposeWinners | challenge
  | updateSettings => cases settles
  | claimWinningBid _ encoding =>
      cases about
      refine (rejects_bind_iff fun winners read => ?_).trans untimely_finalWinners
      obtain ⟨r, -, -, found, -⟩ := finalWinners_eq_ok.mp read
      simp [rejects_bind, found]
  | withdrawBid _ encoding =>
      cases about
      refine (rejects_bind_iff fun winners read => ?_).trans untimely_finalWinners
      obtain ⟨r, -, -, found, -⟩ := finalWinners_eq_ok.mp read
      simp [rejects_bind, not_untimely_payout found]
  | claimSnuffBounty =>
      cases about
      refine rejects_bind_iff ?_
      rintro ⟨r, p⟩ final
      obtain ⟨found, settles⟩ := finalized_eq_ok.mp final
      have round := coherent.rounds id r found
      obtain ⟨-, -, -, snuffed, -⟩ := round.proposed (round.proposed_of_final settles.final)
      obtain ⟨snuff, closed⟩ := Option.isSome_iff_exists.mp snuffed
      simp [rejects_bind, not_untimely_payout found, closed]
  | claimProposalBounty =>
      cases about
      refine rejects_bind_iff ?_
      rintro ⟨r, p⟩ final
      simp [rejects_bind, not_untimely_payout (finalized_eq_ok.mp final).1]
  | transferProceeds =>
      cases about
      refine rejects_bind_iff ?_
      rintro ⟨r, p⟩ final
      simp [rejects_bind, not_untimely_payout (finalized_eq_ok.mp final).1]

/-- The phase of every round can be told. -/
def Readable (h : House) (now : UInt64) : Prop :=
  ∀ id r, h.auction? id = some r → ∃ phase, r.phaseAt now = .ok phase

theorem Readable.phaseAt_ne_iff (readable : h.Readable now) (found : h.auction? id = some r)
    {expected : Phase} :
    (∃ got, r.phaseAt now = .ok got ∧ got ≠ expected) ↔ r.phaseAt now ≠ .ok expected := by
  obtain ⟨phase, effective⟩ := readable id r found
  simp [effective]

theorem Readable.untimely_challenge (readable : h.Readable ctx.now) {claimed : Word}
    {disputed : UInt32} :
    Untimely (h.challenge ctx id encoding claimed disputed) ↔
      ¬ ∃ r, h.auction? id = some r ∧ r.phaseAt ctx.now = .ok .winnersProposed := by
  refine untimely_requireAuction_bind fun r found => ?_
  refine (rejects_bind_iff fun _ _ => by simp [rejects_bind]).trans ?_
  exact Auction.untimely_requireChallengeable.trans (readable.phaseAt_ne_iff found)

theorem Readable.untimely_finalized (readable : h.Readable now) (coherent : h.Coherent) :
    Untimely (h.finalized now id) ↔
      ¬ ∃ r, h.auction? id = some r ∧ r.phaseAt now = .ok .finalized := by
  refine untimely_requireAuction_bind fun r found => ?_
  refine (rejects_bind_iff fun _ final => ?_).trans
    (Auction.untimely_requirePhase.trans (readable.phaseAt_ne_iff found))
  have round := coherent.rounds id r found
  obtain ⟨-, -, -, -, p, live, -⟩ :=
    round.proposed (round.proposed_of_final (Auction.requirePhase_eq_ok.mp final))
  simp [live]

theorem Readable.timely_settling_iff (readable : h.Readable ctx.now) (coherent : h.Coherent)
    (settles : call.settles = true) (about : call.round? = some id) :
    ¬ Untimely (h.dispatch ctx c call).result ↔
      ∃ r, h.auction? id = some r ∧ r.phaseAt ctx.now = .ok .finalized := by
  rw [untimely_dispatch, coherent.untimely_settling settles about,
    readable.untimely_finalized coherent, not_not]

theorem Readable.final_iff (readable : h.Readable now) (coherent : h.Coherent) :
    (∃ r, h.auction? id = some r ∧ r.phaseAt now = .ok .finalized) ↔
      (∃ r, h.auction? id = some r ∧ r.phase = .winnersProposed) ∧
        ¬ ∃ r, h.auction? id = some r ∧ r.phaseAt now = .ok .winnersProposed := by
  cases found : h.auction? id with
  | none => simp
  | some r =>
      simpa using (coherent.rounds id r found).final_iff (readable id r found)

theorem Orderly.takes_of_awaiting (orderly : h.Orderly) (awaits : id ∈ h.awaitingProposal) :
    ∃ r entropy, h.auction? id = some r ∧ r.entropy = some entropy ∧
      ∀ (ctx : Context) (encoding : List UInt8) (winners : List UInt32),
        r.settings.deposit ≤ ctx.value → r.settings.indexWidth.unpack encoding = .ok winners →
        r.TakesProposal ctx encoding (commitment encoding entropy) entropy winners := by
  obtain ⟨r, found, waiting, drawn⟩ := (mem_awaitingProposal orderly).mp awaits
  obtain ⟨entropy, drawn⟩ := Option.isSome_iff_exists.mp drawn
  exact ⟨r, entropy, found, drawn,
    fun _ _ _ bonded listed => ⟨waiting, drawn, bonded, listed, rfl⟩⟩

theorem Orderly.awaiting_of_accepted (orderly : h.Orderly) {posted : Word} {total : UInt64}
    {outcome : Outcome}
    (accepted : (h.dispatch ctx c (.proposeWinners id encoding posted total)).result =
      .ok outcome) : id ∈ h.awaitingProposal := by
  obtain ⟨_, grant⟩ := grants_of_dispatch accepted
  cases grant with
  | @proposeWinners _ _ _ _ r _ _ found takes =>
      exact (mem_awaitingProposal orderly).mpr ⟨r, found, takes.waiting, by simp [takes.drawn]⟩

end House

theorem IndexWidth.unpack_nil (width : IndexWidth) : width.unpack [] = .ok [] := by
  cases width <;> rfl

namespace Run

variable {g : Genesis} {settlementGas : UInt64} {start h : House} {past : List Served}

/-- The watch lists agree with the rules. While no challenge window ends beyond a word, both lists
are there and ascending. A round awaits a proposal exactly if some proposal for it is accepted, and
then every bonded one is that opens its own commitment. A round is missing among the challengeable
ones exactly if every challenge of it is untimely, and none is if it is there. A settlement of a
round is timely exactly if the round is stored as proposed and is not challengeable. -/
theorem watch_lists_match_rules (founded : g.found settlementGas = .ok start)
    (run : Run start past h) (c : Collaborators) (now : UInt64)
    (dated : ∀ id r p, h.auction? id = some r → r.proposal = some p →
      p.timestamp.toNat + r.settings.fraudPeriod.toNat < UInt64.size) :
    h.awaitingProposal.Pairwise (· < ·) ∧
    ∃ ids, h.challengeable now = .ok ids ∧ ids.Pairwise (· < ·) ∧ ∀ id,
      (id ∈ h.awaitingProposal ↔ ∃ ctx encoding posted total outcome, ctx.now = now ∧
        (h.dispatch ctx c (.proposeWinners id encoding posted total)).result = .ok outcome) ∧
      (id ∈ h.awaitingProposal → ∃ r entropy, h.auction? id = some r ∧ r.entropy = some entropy ∧
        ∀ ctx encoding winners total, r.settings.deposit ≤ ctx.value →
          r.settings.indexWidth.unpack encoding = .ok winners →
          (h.dispatch ctx c (.proposeWinners id encoding (commitment encoding entropy)
            total)).result = .ok .proposed) ∧
      (id ∉ ids ↔ ∀ ctx encoding claimed disputed, ctx.now = now →
        Untimely (h.dispatch ctx c (.challenge id encoding claimed disputed)).result) ∧
      (id ∈ ids → ∀ ctx encoding claimed disputed, ctx.now = now →
        ¬ Untimely (h.dispatch ctx c (.challenge id encoding claimed disputed)).result) ∧
      ∀ ctx call, ctx.now = now → call.settles = true → call.round? = some id →
        (¬ Untimely (h.dispatch ctx c call).result ↔
          (∃ r, h.auction? id = some r ∧ r.phase = .winnersProposed) ∧ id ∉ ids) := by
  have coherent := run.coherent (Genesis.coherent_of_found founded)
  have readable : h.Readable now :=
    fun id r found => Auction.exists_phaseAt (dated id r · found)
  obtain ⟨ids, listed, ascending, member⟩ :=
    House.challengeable_eq_ok coherent.toOrderly readable
  refine ⟨House.awaitingProposal_ascending coherent.toOrderly, ids, listed, ascending,
    fun id => ?_⟩
  have accepts : id ∈ h.awaitingProposal → ∃ r entropy, h.auction? id = some r ∧
      r.entropy = some entropy ∧ ∀ ctx encoding winners total, r.settings.deposit ≤ ctx.value →
        r.settings.indexWidth.unpack encoding = .ok winners →
        (h.dispatch ctx c (.proposeWinners id encoding (commitment encoding entropy)
          total)).result = .ok .proposed := by
    intro awaits
    obtain ⟨r, entropy, found, drawn, takes⟩ := coherent.takes_of_awaiting awaits
    exact ⟨r, entropy, found, drawn, fun ctx encoding winners _ bonded unpacked =>
      (House.dispatch_of_grants (.proposeWinners found (takes ctx _ winners bonded unpacked))).1⟩
  have challenge : ∀ ctx encoding claimed disputed, ctx.now = now →
      (Untimely (h.dispatch ctx c (.challenge id encoding claimed disputed)).result ↔
        id ∉ ids) := by
    rintro ctx encoding claimed disputed rfl
    rw [House.untimely_dispatch, member id]
    exact readable.untimely_challenge
  refine ⟨⟨fun awaits => ?_, ?_⟩, accepts, ⟨?_, fun untimely => ?_⟩, ?_, ?_⟩
  · obtain ⟨r, entropy, -, -, accepts⟩ := accepts awaits
    exact ⟨⟨.fill 0, now, r.settings.deposit, 0, false⟩, [], _, 0, .proposed, rfl,
      accepts _ [] [] 0 (UInt64.le_refl _) (IndexWidth.unpack_nil _)⟩
  · rintro ⟨ctx, encoding, posted, total, outcome, -, accepted⟩
    exact coherent.awaiting_of_accepted accepted
  · intro missing ctx encoding claimed disputed same
    exact (challenge ctx encoding claimed disputed same).mpr missing
  · have rejected := untimely ⟨.fill 0, now, 0, 0, false⟩ [] ⟨.replicate 32 0⟩ 0 rfl
    exact (challenge _ _ _ _ rfl).mp rejected
  · intro present ctx encoding claimed disputed same untimely
    exact (challenge ctx encoding claimed disputed same).mp untimely present
  · rintro ctx call rfl settles about
    rw [readable.timely_settling_iff coherent settles about, readable.final_iff coherent,
      member id]

end Run

theorem House.dated_of_all {h : House}
    (checked : (h.auctions.toList.all fun (_, r) => r.proposal.all fun p =>
      p.timestamp.toNat + r.settings.fraudPeriod.toNat < UInt64.size) = true) :
    ∀ id r p, h.auction? id = some r → r.proposal = some p →
      p.timestamp.toNat + r.settings.fraudPeriod.toNat < UInt64.size := by
  intro id r p found live
  have member := Std.ExtTreeMap.mem_toList_iff_getElem?_eq_some.mpr found
  have dated := List.all_eq_true.mp checked _ member
  simp only [live] at dated
  exact of_decide_eq_true dated

/-- The drawn sample round awaits a proposal. Once the window of its proposal has passed it is off
both lists: a challenge then comes too late, a refund does not. -/
theorem Run.watch_lists_match_rules_proposed :
    1 ∈ Sample.drawn.awaitingProposal ∧
    ∃ ids, Sample.proposed.challengeable 270000 = .ok ids ∧ 1 ∉ ids ∧
      Untimely (Sample.proposed.dispatch Sample.refunding.context Sample.parties
        (.challenge 1 [0, 0] (commitment [0, 0] Sample.word) 0)).result := by
  obtain ⟨-, _, -, -, drawn⟩ := watch_lists_match_rules Sample.founded Sample.run_drawn
    Sample.parties 259300 (House.dated_of_all rfl)
  obtain ⟨-, ids, listed, -, proposed⟩ := watch_lists_match_rules Sample.founded
    Sample.run_proposed Sample.parties 270000 (House.dated_of_all rfl)
  obtain ⟨awaiting, -⟩ := drawn 1
  obtain ⟨-, -, untimely, -, settling⟩ := proposed 1
  have taken := (House.dispatch_of_grants Sample.grant_proposing).1
  have refunded := (House.dispatch_of_grants Sample.grant_refunding).1
  have timely : ¬ Untimely (Sample.proposed.dispatch Sample.refunding.context Sample.parties
      Sample.refunding.call).result := refunded ▸ not_rejects_ok
  obtain ⟨-, missing⟩ := (settling Sample.refunding.context _ rfl rfl rfl).mp timely
  exact ⟨awaiting.mpr ⟨Sample.proposing.context, _, _, _, _, rfl, taken⟩, ids, listed, missing,
    untimely.mp missing _ _ _ _ rfl⟩

end CandleAuction
