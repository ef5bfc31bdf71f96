import CandleAuction.Proofs.Binding
import CandleAuction.Proofs.Freeze
import CandleAuction.Proofs.Query
import CandleAuction.Submission

/-!
# Honest proposals stand

A submission computed from any snapshot of a drawn round stays right, because
all that decides the winners is frozen. It is accepted as soon as the round
takes a proposal, and no challenge overturns it but one that resubmits other
bytes under the same commitment.
-/

namespace CandleAuction

/-- A submission that a round with its ledger cannot fault. -/
structure Submission.Honest (s : Submission) (r : Auction) (bids : Ledger) (entropy : Word)
    (close : UInt32) : Prop where
  drawn : r.entropy = some entropy
  resolved : r.closeOffset = some close
  listed : r.settings.indexWidth.unpack s.encoding = .ok s.winners
  committed : CandleAuction.commitment s.encoding entropy = s.commitment
  correct : (⟨s.winners, s.total⟩ : Claim).Correct bids close r.settings.maxWinners

/-- Other bytes than the submitted ones open the same commitment. -/
def Submission.Collides (s : Submission) (entropy : Word) (encoding : List UInt8) : Prop :=
  encoding ≠ s.encoding ∧
    CandleAuction.commitment encoding entropy = CandleAuction.commitment s.encoding entropy

namespace Submission.Honest

variable {s : Submission} {r r' : Auction} {bids bids' : Ledger} {entropy : Word}
  {close : UInt32}

theorem of_frozen (frozen : r'.frozen = r.frozen) (cleared : bids'.cleared = bids.cleared)
    (honest : s.Honest r bids entropy close) : s.Honest r' bids' entropy close := by
  obtain ⟨settings, same, offset⟩ := Auction.eq_of_frozen frozen
  constructor
  · rw [same]
    exact honest.drawn
  · rw [offset]
    exact honest.resolved
  · rw [settings]
    exact honest.listed
  · exact honest.committed
  · rw [settings]
    exact honest.correct.of_cleared cleared

end Submission.Honest

namespace House

variable {h : House} {id : UInt64} {r : Auction} {entropy : Word}

theorem snapshot_eq_ok {close : UInt32} (found : h.auction? id = some r)
    (drawn : r.entropy = some entropy) (resolved : r.closeOffset = some close) :
    h.snapshot id = .ok
      ⟨id, h.ledger id, close, entropy, r.settings.maxWinners, r.settings.indexWidth⟩ := by
  rw [snapshot, found]
  simp only [drawn, resolved]

theorem grants_honest {ctx : Context} {c : Collaborators} {s : Submission} {close : UInt32}
    (found : h.auction? id = some r) (waiting : r.phase = .waitingClose)
    (honest : s.Honest r (h.ledger id) entropy close)
    (bonded : ∀ deposit ∈ h.requiredDeposit? id, deposit ≤ ctx.value) :
    Grants h ctx c (.proposeWinners id s.encoding s.commitment s.total)
      [.proposed id (r.proposalFor ctx s.commitment s.winners.length s.total)] .proposed := by
  have enough : r.settings.deposit ≤ ctx.value := by
    apply bonded
    rw [House.requiredDeposit?, found]
    rfl
  exact .proposeWinners found ⟨waiting, honest.drawn, enough, honest.listed, honest.committed⟩

end House

namespace Auction.Coherent

variable {r : Auction} {bids : Ledger} {entropy : Word} {close : UInt32}

theorem pack_canonicalWinners (coherent : r.Coherent bids) (close : UInt32) :
    ∃ encoding, r.settings.indexWidth.pack
      (bids.canonicalWinners close r.settings.maxWinners) = .ok encoding := by
  refine ⟨_, IndexWidth.pack_eq_ok.mpr ⟨fun index member => ?_, rfl⟩⟩
  have bound := Ledger.lt_size_of_mem_canonicalWinners coherent.indexed member
  have room := coherent.room
  rw [IndexWidth.capacity] at room
  rw [UInt32.le_iff_toNat_le]
  omega

theorem submission (coherent : r.Coherent bids) (id : UInt64) (bidden : bids.isEmpty = false)
    (drawn : r.entropy = some entropy) (resolved : r.closeOffset = some close) :
    ∃ s, Snapshot.submission
        ⟨id, bids, close, entropy, r.settings.maxWinners, r.settings.indexWidth⟩ = .ok s ∧
      s.auction = id ∧ s.Honest r bids entropy close := by
  have sound : Snapshot.problem?
      ⟨id, bids, close, entropy, r.settings.maxWinners, r.settings.indexWidth⟩ = none := by
    simp only [Snapshot.problem?, bidden, coherent.valid.winners_ne, Bool.false_eq_true, if_false]
    exact if_neg (Nat.not_lt.mpr coherent.room)
  obtain ⟨encoding, packed⟩ := coherent.pack_canonicalWinners close
  have total := Ledger.winnerSet_total (Nat.lt_of_le_of_lt
    (Ledger.worth_winningEntries_le bids close r.settings.maxWinners)
    coherent.fits)
  refine ⟨⟨id, bids.canonicalWinners close r.settings.maxWinners, encoding,
    commitment encoding entropy, (bids.winnerSet close r.settings.maxWinners).total⟩, ?_, rfl,
    drawn, resolved, IndexWidth.unpack_pack packed, rfl, rfl, total⟩
  have committed : commitWinners (bids.winnerSet close r.settings.maxWinners).indices
      r.settings.indexWidth entropy = _ := commitWinners_eq_ok packed
  unfold Snapshot.submission
  rw [sound]
  simp only [committed]
  rfl

end Auction.Coherent

/-- An accepted challenge to a round, with the encoding that it resubmits. -/
def Served.Challenges (s : Served) (id : UInt64) (encoding : List UInt8) : Prop :=
  ∃ named disputed, s.request.call = .challenge id encoding named disputed ∧
    s.outcome?.isSome = true

theorem Served.Challenges.overturns {s : Served} {id : UInt64} {encoding : List UInt8}
    (challenges : s.Challenges id encoding) :
    ∃ r named disputed p entropy close winners reason, s.house.auction? id = some r ∧
      r.Overturns (s.house.ledger id) s.request.context encoding named disputed p entropy close
        winners reason := by
  obtain ⟨named, disputed, called, accepted⟩ := challenges
  obtain ⟨changes, outcome, -, grant, -⟩ := Served.grants_of_isSome accepted
  rw [called] at grant
  cases grant with
  | challenge found g _ => exact ⟨_, _, _, _, _, _, _, _, found, g⟩

theorem Served.Challenges.exists_first {past : List Served} {id : UInt64} {t : Served}
    {encoding : List UInt8} (challenges : t.Challenges id encoding) (member : t ∈ past) :
    ∃ newer first older other, past = newer ++ first :: older ∧ first.Challenges id other ∧
      ∀ earlier ∈ older, ∀ other, ¬ earlier.Challenges id other := by
  induction past generalizing t encoding with
  | nil => cases member
  | cons s rest inductionHypothesis =>
      by_cases challenged : ∃ t ∈ rest, ∃ other, t.Challenges id other
      · rcases challenged with ⟨earlier, before, _, challenges⟩
        rcases inductionHypothesis challenges before with
          ⟨newer, first, older, other, rfl, challenges, unchallenged⟩
        exact ⟨s :: newer, first, older, other, rfl, challenges, unchallenged⟩
      · rcases List.mem_cons.mp member with rfl | before
        · exact ⟨[], t, rest, encoding, rfl, challenges, fun earlier before other challenges =>
            challenged ⟨earlier, before, other, challenges⟩⟩
        · exact absurd ⟨t, before, encoding, challenges⟩ challenged

namespace Auction

variable {r : Auction} {bids : Ledger} {ctx : Context} {call : Call} {change : Change}
  {outcome : Outcome} {posted : Word} {total : UInt64}

/-- A proposal with a given commitment and total is live. -/
structure Stands (r : Auction) (posted : Word) (total : UInt64) : Prop where
  proposed : r.phase = .winnersProposed
  live : ∃ p, r.proposal = some p ∧ p.commitment = posted ∧ p.total = total

/-- Overturning an honest proposal takes other bytes with the same commitment. -/
theorem Stands.collides {s : Submission} {entropy drawn : Word} {close resolved : UInt32}
    {encoding : List UInt8} {named : Word} {disputed : UInt32} {p : Proposal}
    {winners : List UInt32} {reason : FraudReason} (stands : r.Stands s.commitment s.total)
    (honest : s.Honest r bids entropy close) (indexed : bids.Indexed)
    (overturns : r.Overturns bids ctx encoding named disputed p drawn resolved winners reason) :
    s.Collides entropy encoding := by
  obtain ⟨_, live, posted, sum⟩ := stands.live
  cases overturns.live.symm.trans live
  cases overturns.drawn.symm.trans honest.drawn
  cases overturns.resolved.symm.trans honest.resolved
  refine ⟨?_, by rw [overturns.opened, posted, honest.committed]⟩
  rintro rfl
  cases overturns.listed.symm.trans honest.listed
  have fraud := overturns.fraud
  rw [sum, honest.correct.fraud?_eq_none indexed] at fraud
  cases fraud

theorem Stands.allow (stands : r.Stands posted total)
    (allowed : r.Allows bids ctx call change outcome) :
    (∃ id encoding named disputed, change.round? = some id ∧
      call = .challenge id encoding named disputed) ∨ (change.revise r).Stands posted total := by
  by_cases final : r.phaseAt ctx.now = .ok .finalized
  · obtain ⟨p, live, opened, sum⟩ := stands.live
    have settled := (allowed.settled final).1
    obtain ⟨p', live', terms⟩ := settled.live live
    have commitment : p'.commitment = p.commitment := (congrArg Proposal.commitment terms :)
    have total : p'.total = p.total := (congrArg Proposal.total terms :)
    exact .inr ⟨settled.phase.trans stands.proposed, p', live', commitment.trans opened,
      total.trans sum⟩
  have pending := allowed.settles_eq_false final
  have proposed := stands.proposed
  cases allowed with
  | placed g => simp [g.isOpen.running] at proposed
  | raised g => simp [g.isOpen.running] at proposed
  | closed closes _ => simp [closes.running] at proposed
  | drawn g => simp [g.waiting] at proposed
  | proposed g => simp [g.waiting] at proposed
  | overturned => exact .inl ⟨_, _, _, _, rfl, rfl⟩
  | claimed | withdrawn | snuffBountyPaid | proposalBountyPaid | proceedsMoved => cases pending

end Auction

namespace Run

variable {start h : House} {past : List Served} {id : UInt64} {r : Auction} {posted : Word}
  {total : UInt64}

theorem stands (run : Run start past h) (orderly : start.Orderly)
    (found : start.auction? id = some r) (stands : r.Stands posted total)
    (unchallenged : ∀ s ∈ past, ∀ encoding, ¬ s.Challenges id encoding) :
    ∃ r', h.auction? id = some r' ∧ r'.Stands posted total := by
  have standing := run.follow (motive := fun past r _ =>
    (∀ s ∈ past, ∀ encoding, ¬ s.Challenges id encoding) → r.Stands posted total)
    orderly found (fun _ => stands) (by
      intro past s r r' bids' _ _ moves stands unchallenged
      rw [List.forall_mem_cons] at unchallenged
      have stands := stands unchallenged.2
      cases moves with
      | rest _ => exact stands
      | change accepted about allowed =>
          rcases stands.allow allowed with ⟨other, encoding, named, disputed, same, called⟩ | stands
          · cases about.symm.trans same
            exact absurd ⟨named, disputed, called, by rw [accepted]; rfl⟩
              (unchallenged.1 encoding)
          · exact stands)
  obtain ⟨r', found', stands⟩ := standing
  exact ⟨r', found', stands unchallenged⟩

theorem honest {s : Submission} {entropy : Word} {close : UInt32} {r' : Auction}
    (run : Run start past h) (coherent : start.Coherent) (found : start.auction? id = some r)
    (honest : s.Honest r (start.ledger id) entropy close) (found' : h.auction? id = some r') :
    s.Honest r' (h.ledger id) entropy close := by
  have drawn : r.entropy.isSome = true := by rw [honest.drawn]; rfl
  obtain ⟨_, again, frozen, cleared⟩ := run.frozen coherent found drawn
  cases found'.symm.trans again
  exact honest.of_frozen frozen cleared

theorem first_challenge_collides {s : Submission} {entropy : Word} {close : UInt32}
    {newer older : List Served} {t : Served} {encoding : List UInt8}
    (run : Run start (newer ++ t :: older) h) (coherent : start.Coherent)
    (found : start.auction? id = some r) (stands : r.Stands s.commitment s.total)
    (honest : s.Honest r (start.ledger id) entropy close)
    (unchallenged : ∀ earlier ∈ older, ∀ other, ¬ earlier.Challenges id other)
    (challenges : t.Challenges id encoding) : s.Collides entropy encoding := by
  have reached := run.before
  obtain ⟨current, foundNow, standing⟩ :=
    reached.stands coherent.toOrderly found stands unchallenged
  obtain ⟨_, named, disputed, p, drawn, close', winners, reason, again, overturns⟩ :=
    challenges.overturns
  cases foundNow.symm.trans again
  have indexed := ((reached.coherent coherent).rounds id current foundNow).indexed
  exact standing.collides (reached.honest coherent found honest foundNow) indexed overturns

/-- From any state in which a round awaits a proposal, its winners can be computed, and
the result is accepted whenever the round awaits a proposal later on. From then on no
challenge is accepted, until one resubmits other bytes with the same commitment. -/
theorem honest_submission_stands {g : Genesis} {settlementGas : UInt64}
    (founded : g.found settlementGas = .ok start) (reached : Run start past h)
    (awaits : id ∈ h.awaitingProposal) :
    ∃ snapshot s, h.snapshot id = .ok snapshot ∧ snapshot.submission = .ok s ∧
      ∀ {between : List Served} {h' : House} (ctx : Context) (c : Collaborators),
        Run h between h' → id ∈ h'.awaitingProposal →
        (∀ deposit ∈ h'.requiredDeposit? id, deposit ≤ ctx.value) →
        (h'.dispatch ctx c
          (.proposeWinners s.auction s.encoding s.commitment s.total)).result = .ok .proposed ∧
        ∀ {newer older : List Served} {t : Served} {last : House} {encoding : List UInt8},
          Run (h'.dispatch ctx c
            (.proposeWinners s.auction s.encoding s.commitment s.total)).house
            (newer ++ t :: older) last →
          t.Challenges id encoding →
          ∃ first ∈ t :: older, ∃ other, first.Challenges id other ∧
            s.Collides snapshot.entropy other := by
  have coherent := reached.coherent (Genesis.coherent_of_found founded)
  obtain ⟨r, found, waiting, drawn⟩ := (House.mem_awaitingProposal coherent.toOrderly).mp awaits
  obtain ⟨entropy, drawn⟩ := Option.isSome_iff_exists.mp drawn
  have round := coherent.rounds id r found
  obtain ⟨close, -, resolved⟩ := round.resolved.exists_close drawn
  obtain ⟨bidden, -⟩ := round.waiting waiting
  obtain ⟨s, computed, named, honest⟩ := round.submission id bidden drawn resolved
  refine ⟨_, s, House.snapshot_eq_ok found drawn resolved, computed, ?_⟩
  intro between h' ctx c run awaits' bonded
  rw [named]
  have coherent' := run.coherent coherent
  obtain ⟨r', found', waiting', -⟩ :=
    (House.mem_awaitingProposal coherent'.toOrderly).mp awaits'
  have honest' := run.honest coherent found honest found'
  have grant := House.grants_honest (c := c) found' waiting' honest' bonded
  obtain ⟨accepted, after⟩ := House.dispatch_of_grants grant
  refine ⟨accepted, ?_⟩
  intro newer older t last encoding continued challenges
  have member : t ∈ t :: older := List.mem_cons_self
  rcases challenges.exists_first member with
    ⟨newer', first, older', other, split, challenges, unchallenged⟩
  have before : first ∈ t :: older := by
    rw [split]
    exact List.mem_append_right _ List.mem_cons_self
  refine ⟨first, before, other, challenges, ?_⟩
  have posting : Run h' [⟨h', ctx, c, _⟩] _ := Run.start.grant (q := ⟨ctx, c, _⟩) grant
  have about : (Change.proposed id
      (r'.proposalFor ctx s.commitment s.winners.length s.total)).round? = some id := rfl
  have posted := Change.auction?_apply about found'
  rw [after, split, ← List.append_assoc] at continued
  exact continued.first_challenge_collides (posting.coherent coherent') posted
    ⟨rfl, _, rfl, rfl, rfl⟩ (posting.honest coherent' found' honest' posted) unchallenged
    challenges

/-- The winners of the drawn sample round are computed and accepted. -/
theorem honest_submission_stands_drawn :
    Sample.genesis.found 0 = .ok Sample.opened ∧
      Run Sample.opened (Sample.opened.served Sample.bidding) Sample.drawn ∧
      1 ∈ Sample.drawn.awaitingProposal ∧
      ∃ snapshot s, Sample.drawn.snapshot 1 = .ok snapshot ∧ snapshot.submission = .ok s ∧
        (Sample.drawn.dispatch ⟨.fill 7, 259300, 1000000, 1, false⟩ Sample.parties
          (.proposeWinners s.auction s.encoding s.commitment s.total)).result = .ok .proposed := by
  have orderly := Sample.run_drawn.orderly (Genesis.orderly_of_found Sample.founded)
  have awaits : 1 ∈ Sample.drawn.awaitingProposal :=
    (House.mem_awaitingProposal orderly).mpr ⟨_, rfl, rfl, rfl⟩
  obtain ⟨snapshot, s, taken, computed, accepted⟩ :=
    honest_submission_stands Sample.founded Sample.run_drawn awaits
  have bonded : ∀ deposit ∈ Sample.drawn.requiredDeposit? 1, deposit ≤ 1000000 := by
    rintro _ ⟨⟩
    decide
  exact ⟨Sample.founded, Sample.run_drawn, awaits, snapshot, s, taken, computed,
    (accepted ⟨.fill 7, 259300, 1000000, 1, false⟩ Sample.parties .start awaits bonded).1⟩

end Run

end CandleAuction
