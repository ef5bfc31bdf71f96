import CandleAuction.Proofs.Coherence

/-!
# One round after another

A round is opened as the one before it closes, and none closes while the round
before it is still in winner determination. So the rounds are numbered without
gaps, the last of them is the only one that runs, and of the others only the
one just before it may still be settling.
-/

namespace CandleAuction

open Std (ExtTreeMap)

namespace Auction

/-- Winners are being determined. -/
def Settling (r : Auction) (now : UInt64) : Prop :=
  r.phaseAt now = .ok .waitingClose ∨ r.phaseAt now = .ok .winnersProposed

/-- Winners are determined, or there is nothing to win. -/
def Concluded (r : Auction) (now : UInt64) : Prop :=
  r.phaseAt now = .ok .finalized ∨ r.phaseAt now = .ok .endedWithoutBids

variable {r : Auction} {bids : Ledger} {ctx : Context} {call : Call} {change : Change}
  {outcome : Outcome} {now later : UInt64} {phase : Phase}

theorem Concluded.mono (concluded : r.Concluded now) (le : now ≤ later) : r.Concluded later := by
  rcases concluded with final | ended
  · exact .inl (final_mono final le)
  · rw [phaseAt_eq_endedWithoutBids] at ended
    exact .inr (phaseAt_eq_endedWithoutBids.mpr ended)

theorem Concluded.not_settling (concluded : r.Concluded now) : ¬ r.Settling now := by
  rcases concluded with effective | effective <;> simp [Settling, effective]

theorem Allows.phase_ne_endedWithoutBids (allowed : r.Allows bids ctx call change outcome) :
    r.phase ≠ .endedWithoutBids := by
  intro ended
  by_cases final : r.phaseAt ctx.now = .ok .finalized
  · simp [phaseAt_eq_endedWithoutBids.mpr ended] at final
  have pending := allowed.settles_eq_false final
  cases allowed with
  | placed g => simp [g.isOpen.running] at ended
  | raised g => simp [g.isOpen.running] at ended
  | closed closes _ => simp [closes.running] at ended
  | drawn g => simp [g.waiting] at ended
  | proposed g => simp [g.waiting] at ended
  | overturned g => simp [(phaseAt_eq_winnersProposed.mp g.inTime).1] at ended
  | claimed | withdrawn | snuffBountyPaid | proposalBountyPaid | proceedsMoved => cases pending

theorem Concluded.allow (concluded : r.Concluded ctx.now)
    (allowed : r.Allows bids ctx call change outcome) : (change.revise r).Concluded ctx.now := by
  rcases concluded with final | ended
  · refine .inl ?_
    rw [(allowed.settled final).1.phaseAt]
    exact final
  · exact absurd (phaseAt_eq_endedWithoutBids.mp ended) allowed.phase_ne_endedWithoutBids

theorem Coherent.concluded (coherent : r.Coherent bids) (closed : r.phase ≠ .running)
    (effective : r.phaseAt now = .ok phase)
    (free : phase ≠ .waitingClose ∧ phase ≠ .winnersProposed) : r.Concluded now := by
  have stage := coherent.stage
  have read := phaseAt_eq_ok.mp effective
  cases stored : r.phase with
  | running => exact absurd stored closed
  | endedWithoutBids => exact .inr (phaseAt_eq_endedWithoutBids.mpr stored)
  | waitingClose =>
      rw [stored] at read
      exact absurd read.symm free.1
  | winnersProposed =>
      rw [stored] at read
      obtain ⟨deadline, -, read⟩ := read
      split at read
      · exact .inl (read ▸ effective)
      · exact absurd read.symm free.2
  | created | finalized => rw [Stage, stored] at stage; exact stage.elim

end Auction

namespace Change

variable {h : House} {change : Change} {id other : UInt64} {r : Auction}

theorem currentId_apply (about : change.round? = some id) :
    (change.apply h).currentId = h.currentId := by
  cases change with
  | opened | configured => cases about
  | closed _ _ request => cases request <;> rfl
  | _ => rfl

theorem mem_auctions_apply (about : change.round? = some id) (found : h.auction? id = some r) :
    other ∈ (change.apply h).auctions ↔ other ∈ h.auctions := by
  have present : id ∈ h.auctions := ExtTreeMap.mem_iff_isSome_getElem?.mpr (by
    rw [show h.auctions[id]? = some r from found]; rfl)
  rw [auctions_apply about found, ExtTreeMap.mem_insert, Std.LawfulEqCmp.compare_eq_iff_eq]
  exact or_iff_right_of_imp fun same => same ▸ present

theorem mem_ledgers_apply (about : change.round? = some id) (present : id ∈ h.ledgers) :
    other ∈ (change.apply h).ledgers ↔ other ∈ h.ledgers := by
  cases change with
  | opened | configured => cases about
  | closed _ _ request => cases request <;> rfl
  | placed =>
      cases about
      by_cases same : id = other
      · subst same
        simp [apply, House.appendBid, House.updateAuction, present]
      · simp [apply, House.appendBid, House.updateAuction, ExtTreeMap.mem_alter, same]
  | raised | claimed | withdrawn => exact ExtTreeMap.mem_modify
  | _ => rfl

end Change

/-- The state of a house in which one round has followed the other. -/
structure House.Succession (h : House) (past : List Served) : Prop where
  auctions : ∀ id, id ∈ h.auctions ↔ 1 ≤ id ∧ id ≤ h.currentId
  ledgers : ∀ id, id ∈ h.ledgers ↔ id ∈ h.auctions
  next : h.nextId.toNat = h.currentId.toNat + 1
  current : 1 ≤ h.currentId
  running : ∀ id r, h.auction? id = some r → (r.phase = .running ↔ id = h.currentId)
  concluded : ∀ id r, h.auction? id = some r → id.toNat + 1 < h.currentId.toNat →
    ∀ now, (∀ s ∈ past, s.now ≤ now) → r.Concluded now

namespace House.Succession

variable {h : House} {q : Request} {past : List Served} {id : UInt64} {r : Auction}
  {change : Change} {outcome : Outcome} {changes : List Change}

theorem mem_of_found (succession : h.Succession past) (found : h.auction? id = some r) :
    1 ≤ id ∧ id ≤ h.currentId := by
  rw [← succession.auctions, ExtTreeMap.mem_iff_isSome_getElem?]
  exact Option.isSome_iff_exists.mpr ⟨r, found⟩

theorem later (succession : h.Succession past) (s : Served) : h.Succession (s :: past) where
  auctions := succession.auctions
  ledgers := succession.ledgers
  next := succession.next
  current := succession.current
  running := succession.running
  concluded := fun id r found below now after =>
    succession.concluded id r found below now (List.forall_mem_cons.mp after).2

theorem number_of_settling (succession : h.Succession past) {now : UInt64}
    (recent : ∀ s ∈ past, s.now ≤ now) (found : h.auction? id = some r)
    (settles : r.Settling now) : id.toNat + 1 = h.currentId.toNat := by
  have bound := UInt64.le_iff_toNat_le.mp (succession.mem_of_found found).2
  have behind : id ≠ h.currentId := by
    intro current
    have running := (succession.running id r found).mpr current
    rcases settles with waiting | proposed
    · simp [Auction.phaseAt_eq_waitingClose, running] at waiting
    · simp [Auction.phaseAt_eq_winnersProposed, running] at proposed
  have last : ¬ id.toNat + 1 < h.currentId.toNat := fun below =>
    (succession.concluded id r found below now recent).not_settling settles
  rw [ne_eq, ← UInt64.toNat_inj] at behind
  omega

theorem single (succession : h.Succession past) (recent : ∀ s ∈ past, s.now ≤ q.context.now)
    (about : change.round? = some id) (found : h.auction? id = some r)
    (allowed : r.Allows (h.ledger id) q.context q.call change outcome)
    (runs : (change.revise r).phase = .running ↔ r.phase = .running) :
    ([change].foldl Change.apply h).Succession (⟨h, q⟩ :: past) := by
  rw [List.foldl_cons, List.foldl_nil]
  have current := Change.currentId_apply (h := h) about
  have present : id ∈ h.ledgers :=
    (succession.ledgers id).mpr ((succession.auctions id).mpr (succession.mem_of_found found))
  constructor
  · intro other
    rw [Change.mem_auctions_apply about found, current]
    exact succession.auctions other
  · intro other
    rw [Change.mem_ledgers_apply about present, Change.mem_auctions_apply about found]
    exact succession.ledgers other
  · rw [Change.nextId_apply about, current]
    exact succession.next
  · rw [current]
    exact succession.current
  · intro other r' found'
    rw [current]
    rcases Change.auction?_apply_cases about found found' with ⟨rfl, rfl⟩ | ⟨-, before⟩
    · exact runs.trans (succession.running other r found)
    · exact succession.running other r' before
  · intro other r' found' below now after
    rw [current] at below
    rw [List.forall_mem_cons] at after
    rcases Change.auction?_apply_cases about found found' with ⟨rfl, rfl⟩ | ⟨-, before⟩
    · exact ((succession.concluded other r found below _ recent).allow allowed).mono after.1
    · exact succession.concluded other r' before below now after.2

/-- The round before the current one is concluded when the current one closes. -/
theorem previous_concluded (succession : h.Succession past) (coherent : h.Coherent)
    {now : UInt64} (free : h.FreeSlot now h.currentId) (found : h.auction? id = some r)
    (before : id.toNat + 1 = h.currentId.toNat) : r.Concluded now := by
  have previous : r ∈ h.previous? h.currentId := (House.previous?_eq before).trans found
  obtain ⟨phase, effective, out⟩ := free r previous
  have closed : r.phase ≠ .running := by
    intro running
    rw [succession.running id r found] at running
    rw [running] at before
    omega
  exact (coherent.rounds id r found).concluded closed effective out

/-- Closing the current round and opening the next carries the succession on. -/
theorem renewal (succession : h.Succession past) (coherent : h.Coherent) {snuff : Snuff}
    {request : Option UInt64} {startTime nextId gas : UInt64} {fee : FeeObservation}
    (found : h.auction? id = some r) (running : r.phase = .running)
    (free : h.FreeSlot q.context.now id) (next : nextId.toNat = h.nextId.toNat + 1) :
    ([.closed id snuff request, .opened (h.nextRound startTime fee gas) nextId].foldl
      Change.apply h).Succession (⟨h, q⟩ :: past) := by
  have numbered := succession.next
  have about : (Change.closed id snuff request).round? = some id := rfl
  have current : id = h.currentId := (succession.running id r found).mp running
  have present : id ∈ h.ledgers :=
    (succession.ledgers id).mpr ((succession.auctions id).mpr (succession.mem_of_found found))
  have stopped : ((Change.closed id snuff request).revise r).phase ≠ .running := by
    cases request <;> simp [Change.revise]
  rw [List.foldl_cons, List.foldl_cons, List.foldl_nil]
  generalize closed : (Change.closed id snuff request).apply h = house
  have before : ∀ {other r'}, house.auction? other = some r' →
      other ≠ id ∧ h.auction? other = some r' ∨ other = id ∧ r'.phase ≠ .running := by
    intro other r' found'
    rw [← closed] at found'
    rcases Change.auction?_apply_cases about found found' with ⟨rfl, rfl⟩ | elsewhere
    · exact .inr ⟨rfl, stopped⟩
    · exact .inl elsewhere
  constructor
  · intro other
    change other ∈ house.auctions.insert h.nextId _ ↔ 1 ≤ other ∧ other ≤ h.nextId
    rw [ExtTreeMap.mem_insert, Std.LawfulEqCmp.compare_eq_iff_eq, ← closed,
      Change.mem_auctions_apply about found, succession.auctions]
    simp only [UInt64.le_iff_toNat_le, ← UInt64.toNat_inj, UInt64.toNat_one]
    omega
  · intro other
    change other ∈ house.ledgers.insert h.nextId _ ↔ other ∈ house.auctions.insert h.nextId _
    rw [ExtTreeMap.mem_insert, ExtTreeMap.mem_insert, ← closed,
      Change.mem_auctions_apply about found, Change.mem_ledgers_apply about present,
      succession.ledgers]
  · exact next
  · change 1 ≤ h.nextId
    rw [UInt64.le_iff_toNat_le, UInt64.toNat_one]
    omega
  · intro other r' found'
    change _ ↔ other = h.nextId
    rcases Change.auction?_apply_opened_cases found' with ⟨rfl, rfl⟩ | ⟨ne, found'⟩
    · exact iff_of_true rfl rfl
    · refine iff_of_false ?_ ne
      rcases before found' with ⟨elsewhere, found'⟩ | ⟨-, stopped⟩
      · rw [succession.running other r' found', ← current]
        exact elsewhere
      · exact stopped
  · intro other r' found' below now after
    change other.toNat + 1 < h.nextId.toNat at below
    rw [List.forall_mem_cons] at after
    rcases Change.auction?_apply_opened_cases found' with ⟨rfl, -⟩ | ⟨-, found'⟩
    · rw [House.nextRound_id] at below
      omega
    · rcases before found' with ⟨-, found'⟩ | ⟨same, -⟩
      · by_cases last : other.toNat + 1 = h.currentId.toNat
        · exact (succession.previous_concluded coherent (current ▸ free) found' last).mono after.1
        · exact succession.concluded other r' found' (by omega) now after.2
      · rw [same, current] at below
        omega

theorem grant (succession : h.Succession past) (coherent : h.Coherent)
    (recent : ∀ s ∈ past, s.now ≤ q.context.now)
    (grant : Grants h q.context q.parties q.call changes outcome) :
    (changes.foldl Change.apply h).Succession (⟨h, q⟩ :: past) := by
  have single : ∀ {id r change}, Change.round? change = some id → h.auction? id = some r →
      r.Allows (h.ledger id) q.context q.call change outcome →
      ((change.revise r).phase = .running ↔ r.phase = .running) →
      ([change].foldl Change.apply h).Succession (⟨h, q⟩ :: past) := succession.single recent
  obtain ⟨ctx, parties, call⟩ := q
  cases grant with
  | placeBid found g => exact single rfl found (.placed g) Iff.rfl
  | increaseBid found g => exact single rfl found (.raised g) Iff.rfl
  | snuff found closes free _ _ next =>
      exact succession.renewal coherent found closes.running free next
  | fulfillRandomness _ _ found g => exact single rfl found (.drawn g) Iff.rfl
  | proposeWinners found g =>
      exact single rfl found (.proposed g) (by simp [Change.revise, g.waiting])
  | challenge found g _ =>
      have proposed := (Auction.phaseAt_eq_winnersProposed.mp g.inTime).1
      exact single rfl found (.overturned g) (by simp [Change.revise, proposed])
  | claimWinningBid found g _ counted => exact single rfl found (.claimed g counted) Iff.rfl
  | withdrawBid found g pays => exact single rfl found (.withdrawn g pays.spends) Iff.rfl
  | claimSnuffBounty found g unclaimed _ pays =>
      exact single rfl found (.snuffBountyPaid g unclaimed pays.spends) Iff.rfl
  | claimProposalBounty found g unclaimed pays paid =>
      exact single rfl found (.proposalBountyPaid g unclaimed pays.spends paid) Iff.rfl
  | transferProceeds found g unmoved bounties pays =>
      exact single rfl found (.proceedsMoved g unmoved bounties pays.spends) Iff.rfl
  | updateSettings =>
      exact ⟨succession.auctions, succession.ledgers, succession.next, succession.current,
        succession.running, (succession.later _).concluded⟩

end House.Succession

theorem Genesis.succession_of_found {g : Genesis} {settlementGas : UInt64} {h : House}
    (founded : g.found settlementGas = .ok h) : h.Succession [] := by
  have first : ∀ id r, h.auction? id = some r → id = 1 ∧ r.phase = .running :=
    fun _ _ found => first_of_found founded found
  obtain ⟨-, rfl⟩ := found_eq_ok.mp founded
  have keys : ∀ id, id ∈ ((g.firstRound settlementGas).apply g.house).auctions ↔ id = 1 := by
    intro id
    change id ∈ ExtTreeMap.insert ∅ 1 _ ↔ _
    rw [ExtTreeMap.mem_insert, Std.LawfulEqCmp.compare_eq_iff_eq]
    simp [eq_comm]
  constructor
  · intro id
    change _ ↔ 1 ≤ id ∧ id ≤ 1
    rw [keys, UInt64.le_antisymm_iff, and_comm]
  · intro id
    rw [keys]
    change id ∈ ExtTreeMap.insert ∅ 1 _ ↔ _
    rw [ExtTreeMap.mem_insert, Std.LawfulEqCmp.compare_eq_iff_eq]
    simp [eq_comm]
  · rfl
  · exact UInt64.le_refl 1
  · intro id r found
    obtain ⟨number, running⟩ := first id r found
    exact iff_of_true running number
  · intro id r found below
    obtain ⟨rfl, -⟩ := first id r found
    exact absurd below (Nat.not_lt.mpr (Nat.le_succ 1))

namespace Run

variable {g : Genesis} {settlementGas : UInt64} {start h : House} {past : List Served}

theorem succession (founded : g.found settlementGas = .ok start) (run : Run start past h)
    (ordered : Chronological past) : h.Succession past := by
  refine run.induct (motive := fun past h => Chronological past → h.Succession past)
    (fun _ => Genesis.succession_of_found founded) ?_ ?_ ordered
  · intro past h q _ _ holds ordered
    exact (holds ordered.of_cons).later _
  · intro past h q changes outcome run _ grant holds ordered
    obtain ⟨recent, ordered⟩ := List.pairwise_cons.mp ordered
    exact (holds ordered).grant (run.coherent (Genesis.coherent_of_found founded)) recent grant

/-- At any time from the last call on, the rounds are numbered from one to the current one,
which alone is running, and all but the last two are concluded. So winners are being
determined in one round at most. -/
theorem one_running_one_settling (founded : g.found settlementGas = .ok start)
    (run : Run start past h) (ordered : Chronological past) {now : UInt64}
    (recent : ∀ s ∈ past, s.now ≤ now) :
    (∀ id, id ∈ h.auctions ↔ 1 ≤ id ∧ id ≤ h.currentId) ∧
    (∀ id, id ∈ h.ledgers ↔ 1 ≤ id ∧ id ≤ h.currentId) ∧
    (∀ id r, h.auction? id = some r → r.id = id) ∧
    h.nextId.toNat = h.currentId.toNat + 1 ∧
    (∃ r, h.auction? h.currentId = some r ∧ r.phase = .running) ∧
    (∀ id r, h.auction? id = some r → r.phase = .running → id = h.currentId) ∧
    (∀ id r, h.auction? id = some r → id.toNat < h.currentId.toNat - 1 →
      r.phaseAt now = .ok .finalized ∨ r.phaseAt now = .ok .endedWithoutBids) ∧
    (∀ id r other r', h.auction? id = some r → h.auction? other = some r' →
      r.Settling now → r'.Settling now → id = other) := by
  have succession := run.succession founded ordered
  have orderly := run.orderly (Genesis.orderly_of_found founded)
  have concluded : ∀ id r, h.auction? id = some r → id.toNat < h.currentId.toNat - 1 →
      r.Concluded now :=
    fun id r found below => succession.concluded id r found (by omega) now recent
  have exists_current : ∃ r, h.auction? h.currentId = some r := by
    have present := (succession.auctions h.currentId).mpr
      ⟨succession.current, UInt64.le_refl _⟩
    exact Option.isSome_iff_exists.mp (ExtTreeMap.mem_iff_isSome_getElem?.mp present)
  refine ⟨succession.auctions, fun id => (succession.ledgers id).trans (succession.auctions id),
    fun id r found => (orderly.numbered found).1, succession.next, ?_,
    fun id r found => (succession.running id r found).mp, concluded, ?_⟩
  · obtain ⟨r, found⟩ := exists_current
    exact ⟨r, found, (succession.running _ r found).mpr rfl⟩
  · intro id r other r' found found' settles settles'
    rw [← UInt64.toNat_inj]
    have first := succession.number_of_settling recent found settles
    have second := succession.number_of_settling recent found' settles'
    omega

/-- The drawn sample round waits for a proposal while the next one runs. -/
theorem one_running_one_settling_drawn :
    Sample.genesis.found 0 = .ok Sample.opened ∧
      Run Sample.opened (Sample.opened.served Sample.bidding) Sample.drawn ∧
      Chronological (Sample.opened.served Sample.bidding) ∧
      (∀ s ∈ Sample.opened.served Sample.bidding, s.now ≤ 259210) ∧
      Sample.drawn.currentId = 2 ∧ (∀ id, id ∈ Sample.drawn.auctions ↔ 1 ≤ id ∧ id ≤ 2) ∧
      Sample.drawn.auction? 1 = some Sample.round ∧ Sample.round.Settling 259210 ∧
      ∀ id r, Sample.drawn.auction? id = some r → r.Settling 259210 → 1 = id := by
  have ordered := Sample.chronological.of_cons.of_cons
  have recent : ∀ s ∈ Sample.opened.served Sample.bidding, s.now ≤ 259210 := by decide
  obtain ⟨auctions, -, -, -, -, -, -, single⟩ :=
    one_running_one_settling Sample.founded Sample.run_drawn ordered recent
  have found : Sample.drawn.auction? 1 = some Sample.round := rfl
  have settling : Sample.round.Settling 259210 := .inl rfl
  exact ⟨Sample.founded, Sample.run_drawn, ordered, recent, rfl, auctions, found, settling,
    fun id r found' => single 1 Sample.round id r found found' settling⟩

end Run

end CandleAuction
