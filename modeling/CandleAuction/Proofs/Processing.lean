import CandleAuction.Proofs.Coherence

/-!
# Every bid is processed once

A bid is marked by the accepted claim or withdrawal that processes it, and the
mark is never taken off. Both need the bid unmarked, so over a whole run no bid
is processed twice, in whatever order and with whatever lists its round is
settled. Items are handed out for accepted claims only, each for its own bid.
-/

namespace CandleAuction

def Call.withdraws : Call → Bool
  | withdrawBid .. => true
  | _ => false

namespace Ledger

/-- The bid at a position has been processed. -/
def Processed (bids : Ledger) (index : UInt32) : Prop :=
  ∃ bid, bids[index.toNat]? = some bid ∧ bid.processed = true

variable {bids : Ledger} {bid : Bid} {index position : UInt32}

theorem not_processed (found : bids[index.toNat]? = some bid) (fresh : bid.processed = false) :
    ¬ bids.Processed index := by
  rintro ⟨_, again, processed⟩
  cases found.symm.trans again
  exact absurd (fresh.symm.trans processed) nofun

theorem processed_push (fresh : bid.processed = false) :
    Processed (bids.push bid) index ↔ bids.Processed index := by
  unfold Processed
  rw [Array.getElem?_push]
  split
  · rename_i last
    simp [last, fresh]
  · rfl

theorem processed_modify {change : Bid → Bid}
    (keeps : ∀ bid, (change bid).processed = bid.processed) :
    Processed (bids.modify position.toNat change) index ↔ bids.Processed index := by
  unfold Processed
  rw [Array.getElem?_modify]
  split
  · simp [keeps]
  · rfl

theorem processed_mark (found : bids[position.toNat]? = some bid) :
    Processed (bids.modify position.toNat ({ · with processed := true })) index ↔
      bids.Processed index ∨ position = index := by
  unfold Processed
  rw [Array.getElem?_modify]
  by_cases same : position = index
  · subst same
    simp [found]
  · rw [if_neg fun equal => same (UInt32.toNat_inj.mp equal), or_iff_left same]

theorem countP_modify (counts : Bid → Bool) (change : Bid → Bid)
    (found : bids[index.toNat]? = some bid) :
    (bids.modify index.toNat change).countP counts + (if counts bid then 1 else 0) =
      bids.countP counts + if counts (change bid) then 1 else 0 := by
  rw [← Array.getElem?_toList] at found
  obtain ⟨bound, rfl⟩ := List.getElem?_eq_some_iff.mp found
  have counted := List.boole_getElem_le_countP (p := counts) bound
  rw [← Array.countP_toList, ← Array.countP_toList, Array.toList_modify,
    List.modify_eq_set_getElem?, found, Option.map_eq_map, Option.map_some, Option.getD_some,
    List.countP_set bound]
  omega

theorem countP_processed_push (fresh : bid.processed = false) :
    Array.countP (·.processed) (bids.push bid) = bids.countP (·.processed) := by
  rw [Array.countP_push, fresh]
  rfl

theorem countP_processed_modify {change : Bid → Bid} (found : bids[index.toNat]? = some bid)
    (keeps : (change bid).processed = bid.processed) :
    (bids.modify index.toNat change).countP (·.processed) = bids.countP (·.processed) := by
  have exchanged := countP_modify (·.processed) change found
  rw [keeps] at exchanged
  exact Nat.add_right_cancel exchanged

theorem countP_processed_mark (found : bids[index.toNat]? = some bid)
    (fresh : bid.processed = false) :
    (bids.modify index.toNat ({ · with processed := true })).countP (·.processed) =
      bids.countP (·.processed) + 1 := by
  have exchanged := countP_modify (·.processed) ({ · with processed := true }) found
  rw [fresh] at exchanged
  exact exchanged

end Ledger

/-- The bid that a change marks as processed. -/
def Change.marks? : Change → Option UInt32
  | claimed _ index .. | withdrawn _ index _ => some index
  | _ => none

/-- An accepted call processes a bid: it has it withdrawn, or claims the item of the winner
at some position of the resubmitted list. -/
def Served.Processes (s : Served) (id : UInt64) (index : UInt32) : Prop :=
  s.outcome?.isSome = true ∧
    ((∃ encoding, s.request.call = .withdrawBid id encoding index) ∨
      ∃ encoding position r winners, s.request.call = .claimWinningBid id encoding position ∧
        s.house.auction? id = some r ∧ r.settings.indexWidth.unpack encoding = .ok winners ∧
        winners[position.toNat]? = some index)

/-- An accepted claim hands an item out, to the bidder and with the seed of the bid that it
processes. -/
structure Served.HandsOut (s : Served) (id : UInt64) (index : UInt32) (winner : Address)
    (seed : Word) (item : UInt64) : Prop where
  claims : ∃ encoding position, s.request.call = .claimWinningBid id encoding position
  accepted : s.receipt.result = .ok (.itemSettled item)
  processes : s.Processes id index
  bidder : ∃ bid, (s.house.ledger id)[index.toNat]? = some bid ∧ winner = bid.bidder
  seeded : ∃ r entropy, s.house.auction? id = some r ∧ r.entropy = some entropy ∧
    seed = Seed.item entropy index

namespace Auction

variable {r : Auction} {bids : Ledger} {ctx : Context} {call : Call} {change : Change}
  {outcome : Outcome} {index : UInt32} {id : UInt64}

theorem Allows.processed_enter (allowed : r.Allows bids ctx call change outcome) :
    (change.enter bids).Processed index ↔ bids.Processed index ∨ change.marks? = some index := by
  have none : ¬ (none : Option UInt32) = some index := (Option.some_ne_none index).symm
  cases allowed with
  | placed => exact (Ledger.processed_push rfl).trans (or_iff_left none).symm
  | raised =>
      rw [Change.enter, Ledger.processed_modify fun _ => by rfl]
      exact (or_iff_left none).symm
  | claimed g _ | withdrawn g _ =>
      rw [Change.marks?, Option.some.injEq]
      exact Ledger.processed_mark g.found
  | _ => exact (or_iff_left none).symm

theorem Allows.not_processed_of_marks (allowed : r.Allows bids ctx call change outcome)
    (marks : change.marks? = some index) : ¬ bids.Processed index := by
  cases allowed with
  | claimed g _ | withdrawn g _ =>
      cases marks
      exact Ledger.not_processed g.found g.unprocessed
  | _ => cases marks

theorem Allows.countP_enter (allowed : r.Allows bids ctx call change outcome) :
    (change.enter bids).countP (·.processed) + r.claimedWinners.toNat =
      bids.countP (·.processed) + (change.revise r).claimedWinners.toNat +
        if call.withdraws then 1 else 0 := by
  cases allowed with
  | placed => exact congrArg (· + _) (Ledger.countP_processed_push rfl)
  | raised g => exact congrArg (· + _) (Ledger.countP_processed_modify g.found rfl)
  | claimed g counted =>
      have marked := Ledger.countP_processed_mark g.found g.unprocessed
      have counted := exactSucc_eq_ok.mp counted
      simp only [Change.enter, Change.revise, Call.withdraws, Bool.false_eq_true, if_false]
      omega
  | withdrawn g _ =>
      have marked := Ledger.countP_processed_mark g.found g.unprocessed
      simp only [Change.enter, Change.revise, Call.withdraws, if_true]
      omega
  | @closed _ request => cases request <;> rfl
  | _ => rfl

end Auction

namespace Served

variable {s : Served} {id : UInt64} {index : UInt32}

theorem Processes.round? (processes : s.Processes id index) : s.round? = some id := by
  apply House.addressee?_of_round?
  obtain ⟨-, ⟨_, called⟩ | ⟨_, _, _, _, called, -⟩⟩ := processes <;> rw [called] <;> rfl

theorem processes_iff_marks {r : Auction} {change : Change} {outcome : Outcome}
    (accepted : s.outcome? = some outcome) (about : change.round? = some id)
    (found : s.house.auction? id = some r)
    (allowed : r.Allows (s.house.ledger id) s.request.context s.request.call change outcome) :
    s.Processes id index ↔ change.marks? = some index := by
  have accepted : s.outcome?.isSome = true := by rw [accepted]; rfl
  obtain ⟨h, ctx, parties, call⟩ := s
  constructor
  · rintro ⟨-, ⟨encoding, rfl⟩ | ⟨encoding, position, r', winners, rfl, found', listed, wins⟩⟩
    · cases allowed with
      | withdrawn => rfl
    · cases found.symm.trans found'
      cases allowed with
      | claimed g _ =>
          cases g.listed.symm.trans listed
          exact g.winner.symm.trans wins
  · intro marks
    refine ⟨accepted, ?_⟩
    cases allowed with
    | claimed g _ =>
        cases about
        cases marks
        exact .inr ⟨_, _, r, _, rfl, found, g.listed, g.winner⟩
    | withdrawn g _ =>
        cases about
        cases marks
        exact .inl ⟨_, rfl⟩
    | _ => cases marks

theorem Processes.fresh (processes : s.Processes id index) :
    ¬ (s.house.ledger id).Processed index := by
  obtain ⟨changes, outcome, accepted, grant, -⟩ := grants_of_isSome processes.1
  obtain ⟨r, found, change, -, about, allowed⟩ := grant.carries.allows processes.round?
  rw [processes_iff_marks accepted about found allowed] at processes
  exact allowed.not_processed_of_marks processes

/-- An item is handed out for a claim only, provided that the claims can be counted. -/
theorem handsOut_of_asked {winner : Address} {seed : Word} {item : UInt64}
    (asked : s.receipt.asked = some (.settle winner seed, .ok item))
    (room : ∀ id r, s.house.auction? id = some r → r.claimedWinners.toNat + 1 < UInt32.size) :
    ∃ id index, s.HandsOut id index winner seed item := by
  obtain ⟨⟨next, planned⟩, settled⟩ := House.planned_of_asked asked
  obtain ⟨id, encoding, position, called⟩ := House.claims_of_settle planned
  rw [called] at planned
  obtain ⟨r, p, entropy, winners, index, bid, found, g, same⟩ :=
    House.claimWinningBid_eq_ok.mp planned
  cases same
  have counted : exactSucc r.claimedWinners = .ok (r.claimedWinners + 1) := if_pos (room id r found)
  have grant : Grants s.house s.request.context s.request.parties
      (.claimWinningBid id encoding position) _ _ := .claimWinningBid found g settled counted
  rw [← called] at grant
  have processes : s.Processes id index :=
    ⟨accepted_of_grants grant, .inr ⟨encoding, position, r, winners, called, found, g.listed,
      g.winner⟩⟩
  exact ⟨id, index, ⟨encoding, position, called⟩, (House.dispatch_of_grants grant).1, processes,
    ⟨bid, g.found, rfl⟩, ⟨r, entropy, found, g.drawn, rfl⟩⟩

end Served

/-- The marks of a round and its count of claims tell what a past has processed in it. -/
structure Auction.Accounts (r : Auction) (past : List Served) (bids : Ledger) : Prop where
  marked : ∀ index, bids.Processed index ↔ ∃ s ∈ past, s.Processes r.id index
  counted : bids.countP (·.processed) =
    r.claimedWinners.toNat + past.countP fun s => s.Does Call.withdraws r.id

namespace Auction.Accounts

variable {r r' : Auction} {past : List Served} {bids' : Ledger} {s : Served} {id : UInt64}

theorem opened {h : House} {startTime gas : UInt64} {fee : FeeObservation}
    (fresh : ∀ s ∈ past, s.round? = some h.nextId → s.outcome? = none) :
    (h.nextRound startTime fee gas).Accounts past #[] where
  marked := by
    intro index
    refine iff_of_false (by simp [Ledger.Processed]) ?_
    rintro ⟨s, member, processes⟩
    simpa [fresh s member processes.round?] using processes.1
  counted := by
    rw [List.countP_eq_zero.mpr]
    · rfl
    · intro s member
      rw [decide_eq_true_eq]
      exact s.not_does_of_still (fresh s member)

theorem moves (accounts : r.Accounts past (s.house.ledger id)) (number : r.id = id)
    (found : s.house.auction? id = some r) (moves : s.Moves id r r' bids') :
    r'.Accounts (s :: past) bids' := by
  subst number
  cases moves with
  | rest still =>
      constructor
      · intro index
        rw [accounts.marked, List.exists_mem_cons_iff, or_iff_right]
        intro processes
        simpa [still processes.round?] using processes.1
      · rw [List.countP_cons_of_neg (by simpa using s.not_does_of_still still)]
        exact accounts.counted
  | change accepted about allowed addressed =>
      constructor
      · intro index
        rw [House.revise_id, allowed.processed_enter, accounts.marked, List.exists_mem_cons_iff,
          Served.processes_iff_marks accepted about found allowed, or_comm]
      · have does : s.Does Call.withdraws r.id ↔ s.request.call.withdraws = true :=
          ⟨fun does => does.2.1, fun withdraws => ⟨addressed, withdraws, by rw [accepted]; rfl⟩⟩
        have marked := allowed.countP_enter
        have counted := accounts.counted
        rw [House.revise_id, List.countP_cons]
        simp only [does, decide_eq_true_eq]
        omega

end Auction.Accounts

namespace Run

variable {g : Genesis} {settlementGas : UInt64} {start h : House} {past : List Served}
  {id : UInt64} {r : Auction} {index : UInt32}

theorem accounts (founded : g.found settlementGas = .ok start) (run : Run start past h)
    (found : h.auction? id = some r) : r.Accounts past (h.ledger id) := by
  have orderly := Genesis.orderly_of_found founded
  have each := run.each (motive := fun past r bids => r.Accounts past bids) orderly
    (Genesis.each_of_found founded fun _ => Auction.Accounts.opened (List.forall_mem_nil _))
    (fun _ fresh => Auction.Accounts.opened fresh)
    (fun run found moves accounts =>
      accounts.moves (run.numbered orderly found) found moves)
  exact each id r found

theorem processed_iff (founded : g.found settlementGas = .ok start) (run : Run start past h)
    (found : h.auction? id = some r) :
    (h.ledger id).Processed index ↔ ∃ s ∈ past, s.Processes id index := by
  rw [(run.accounts founded found).marked,
    run.numbered (Genesis.orderly_of_found founded) found]

/-- No bid is processed by two calls. -/
theorem pairwise_processes (founded : g.found settlementGas = .ok start) (run : Run start past h) :
    past.Pairwise fun later earlier =>
      ∀ id index, later.Processes id index → ¬ earlier.Processes id index := by
  induction run with
  | start => exact .nil
  | @step past h q run _ inductionHypothesis =>
      refine List.pairwise_cons.mpr ⟨?_, inductionHypothesis⟩
      intro earlier member id index processes before
      obtain ⟨r, found⟩ := Served.found_of_isSome processes.round? processes.1
      exact processes.fresh ((run.processed_iff founded found).mpr ⟨earlier, member, before⟩)

theorem processed_since {newer older : List Served} {s : Served}
    (founded : g.found settlementGas = .ok start) (run : Run start (newer ++ s :: older) h)
    (processed : (s.house.ledger id).Processed index) : (h.ledger id).Processed index := by
  have orderly := run.before.orderly (Genesis.orderly_of_found founded)
  cases found : s.house.auction? id with
  | none => simp [Ledger.Processed, orderly.blank found] at processed
  | some r =>
      obtain ⟨r', found'⟩ := run.since.exists_auction orderly found
      obtain ⟨t, member, processes⟩ := (run.before.processed_iff founded found).mp processed
      exact (run.processed_iff founded found').mpr
        ⟨t, List.mem_append_right _ (List.mem_cons_of_mem _ member), processes⟩

/-- There are no more claims than a ledger has room for, so their count has a successor. -/
theorem claimedWinners_lt (founded : g.found settlementGas = .ok start) (run : Run start past h)
    (found : h.auction? id = some r) : r.claimedWinners.toNat + 1 < UInt32.size := by
  have coherent := (run.coherent (Genesis.coherent_of_found founded)).rounds id r found
  have counted := (run.accounts founded found).counted
  have marked : (h.ledger id).countP (·.processed) ≤ (h.ledger id).size := Array.countP_le_size
  have room : r.settings.indexWidth.capacity + 1 < UInt32.size := by
    cases r.settings.indexWidth <;> decide
  have fits := coherent.room
  omega

/-- Whatever the callers, the times and the outside parties do, no bid is processed by two
accepted calls, and a processed bid remains so. A settler that hands an item out has been
asked by an accepted claim, with the bidder and the seed of the bid that it processes. And
the processed bids of a round are those claimed and those withdrawn. -/
theorem every_bid_processed_once (founded : g.found settlementGas = .ok start)
    (run : Run start past h) :
    (past.Pairwise fun later earlier =>
      ∀ id index, later.Processes id index → ¬ earlier.Processes id index) ∧
    (∀ {newer older s id index}, past = newer ++ s :: older →
      (s.house.ledger id).Processed index → (h.ledger id).Processed index) ∧
    (∀ {s winner seed item}, s ∈ past ∨ s.house = h →
      s.receipt.asked = some (.settle winner seed, .ok item) →
      ∃ id index, s.HandsOut id index winner seed item) ∧
    ∀ id r, h.auction? id = some r →
      (h.ledger id).countP (·.processed) =
        r.claimedWinners.toNat + past.countP fun s => s.Does Call.withdraws id := by
  refine ⟨run.pairwise_processes founded, ?_, ?_, ?_⟩
  · rintro newer older s id index rfl processed
    exact run.processed_since founded processed
  · intro s winner seed item served asked
    refine Served.handsOut_of_asked asked fun id r found => ?_
    rcases served with member | rfl
    · obtain ⟨newer, older, rfl⟩ := List.append_of_mem member
      exact run.before.claimedWinners_lt founded found
    · exact run.claimedWinners_lt founded found
  · intro id r found
    have number := run.numbered (Genesis.orderly_of_found founded) found
    exact number ▸ (run.accounts founded found).counted

end Run

namespace Sample

def claimed : House := [.claimed 1 0 9 (.fill 4) 1].foldl Change.apply refunded

/-- The first round with its item handed out. -/
def claimedRound : Auction := { refundedRound with claimedWinners := 1 }

theorem grant_claiming :
    Grants refunded claiming.context claiming.parties claiming.call [.claimed 1 0 9 (.fill 4) 1]
      (.itemSettled 9) :=
  .claimWinningBid (r := refundedRound) rfl claims rfl rfl

theorem asked_claiming :
    (Served.receipt ⟨refunded, claiming⟩).asked =
      some (.settle (.fill 4) (Seed.item word 0), .ok 9) := by
  have planned : refunded.plan claiming.context claiming.parties.settlementGas claiming.call = _ :=
    House.claimWinningBid_eq_ok.mpr ⟨_, _, _, _, _, _, rfl, claims, rfl⟩
  exact congrArg Receipt.asked (House.dispatch_of_ask (c := claiming.parties) planned rfl)

end Sample

/-- The sample round with its loser refunded and its item handed out. -/
theorem Run.every_bid_processed_once_claimed :
    Sample.genesis.found 0 = .ok Sample.opened ∧
      Run Sample.opened (⟨Sample.refunded, Sample.claiming⟩ ::
        ⟨Sample.proposed, Sample.refunding⟩ :: Sample.past) Sample.claimed ∧
      (Served.receipt ⟨Sample.refunded, Sample.claiming⟩).asked =
        some (.settle (.fill 4) (Seed.item Sample.word 0), .ok 9) ∧
      (Sample.refunded.ledger 1).Processed 1 ∧ (Sample.claimed.ledger 1).Processed 1 ∧
      (∃ index, Served.HandsOut ⟨Sample.refunded, Sample.claiming⟩ 1 index (.fill 4)
          (Seed.item Sample.word 0) 9 ∧
        ¬ Served.Processes ⟨Sample.proposed, Sample.refunding⟩ 1 index) ∧
      (Sample.claimed.ledger 1).countP (·.processed) =
        Sample.claimedRound.claimedWinners.toNat +
          (⟨Sample.refunded, Sample.claiming⟩ :: ⟨Sample.proposed, Sample.refunding⟩ ::
            Sample.past).countP fun s => s.Does Call.withdraws 1 := by
  have run : Run Sample.opened (⟨Sample.refunded, Sample.claiming⟩ ::
      ⟨Sample.proposed, Sample.refunding⟩ :: Sample.past) Sample.claimed :=
    (Sample.run_proposed.append Sample.run_refunded).grant Sample.grant_claiming
  have withdrawn : (Sample.refunded.ledger 1).Processed 1 := ⟨_, rfl, rfl⟩
  obtain ⟨once, kept, settled, counted⟩ := every_bid_processed_once Sample.founded run
  obtain ⟨id, index, handsOut⟩ := settled (.inl List.mem_cons_self) Sample.asked_claiming
  obtain ⟨_, _, called⟩ := handsOut.claims
  cases called
  have remains : (Sample.claimed.ledger 1).Processed 1 :=
    @kept [] _ ⟨Sample.refunded, Sample.claiming⟩ 1 1 rfl withdrawn
  have apart := (List.pairwise_cons.mp once).1 _ List.mem_cons_self 1 index handsOut.processes
  exact ⟨Sample.founded, run, Sample.asked_claiming, withdrawn, remains,
    ⟨index, handsOut, apart⟩, counted 1 Sample.claimedRound rfl⟩

end CandleAuction
