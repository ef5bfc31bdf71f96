import CandleAuction.Proofs.Overflow

/-!
# Requests for randomness stay answerable

Requests are kept for ever, under whatever number the oracle gave them, and a
number that comes again hides the round that had it before. No round is lost by
that: none closes while the one before it waits for its entropy, so the request
kept last is the only one that is still waited for. Times do not matter here.
-/

namespace CandleAuction

/-- Bidding is closed and the entropy is outstanding. -/
def Auction.Pending (r : Auction) : Prop := r.phase = .waitingClose ∧ r.entropy = none

/-- The running round has the last number, a pending one the number before it, and the
request of the pending round leads to it. -/
structure House.Answerable (h : House) : Prop where
  running : ∀ id r, h.auction? id = some r → r.phase = .running →
    id.toNat + 1 = h.nextId.toNat
  pending : ∀ id r, h.auction? id = some r → r.Pending → id.toNat + 2 = h.nextId.toNat
  known : ∀ id r request, h.auction? id = some r → r.Pending → r.request = some request →
    h.requests[request]? = some id

namespace House.Answerable

variable {h : House} {ctx : Context} {c : Collaborators} {call : Call} {id : UInt64} {r : Auction}
  {change : Change} {changes : List Change} {outcome : Outcome}

theorem single (answerable : h.Answerable) (about : change.round? = some id)
    (found : h.auction? id = some r) (quiet : change.request? = none)
    (runs : (change.revise r).phase = .running → r.phase = .running)
    (waits : (change.revise r).Pending →
      r.Pending ∧ (change.revise r).request = r.request) :
    ([change].foldl Change.apply h).Answerable := by
  rw [List.foldl_cons, List.foldl_nil]
  have requests : (change.apply h).requests = h.requests := by
    rw [Change.requests_apply, quiet, Option.elim_none]
  constructor
  · intro other r' found' running
    rw [Change.nextId_apply about]
    rcases Change.auction?_apply_cases about found found' with ⟨rfl, rfl⟩ | ⟨-, before⟩
    · exact answerable.running other r found (runs running)
    · exact answerable.running other r' before running
  · intro other r' found' pending
    rw [Change.nextId_apply about]
    rcases Change.auction?_apply_cases about found found' with ⟨rfl, rfl⟩ | ⟨-, before⟩
    · exact answerable.pending other r found (waits pending).1
    · exact answerable.pending other r' before pending
  · intro other r' request found' pending requested
    rw [requests]
    rcases Change.auction?_apply_cases about found found' with ⟨rfl, rfl⟩ | ⟨-, before⟩
    · obtain ⟨waited, asked⟩ := waits pending
      exact answerable.known other r request found waited (asked ▸ requested)
    · exact answerable.known other r' request before pending requested

theorem not_pending (answerable : h.Answerable) {now other : UInt64} {r' : Auction}
    (found : h.auction? id = some r) (running : r.phase = .running) (free : h.FreeSlot now id)
    (found' : h.auction? other = some r') : ¬ r'.Pending := by
  intro pending
  have last := answerable.running id r found running
  have before := answerable.pending other r' found' pending
  have previous : r' ∈ h.previous? id :=
    (House.previous?_eq (by omega : other.toNat + 1 = id.toNat)).trans found'
  obtain ⟨phase, effective, notWaiting, -⟩ := free r' previous
  rw [Auction.phaseAt_eq_waitingClose.mpr pending.1] at effective
  exact notWaiting (Except.ok.inj effective).symm

/-- The request of a round that closes is kept under its number, in place of any older one. -/
theorem renewal (answerable : h.Answerable) {snuff : Snuff} {request : Option UInt64}
    {startTime nextId gas : UInt64} {fee : FeeObservation} {now : UInt64}
    (found : h.auction? id = some r) (running : r.phase = .running) (free : h.FreeSlot now id)
    (next : nextId.toNat = h.nextId.toNat + 1) :
    ([.closed id snuff request, .opened (h.nextRound startTime fee gas) nextId].foldl
      Change.apply h).Answerable := by
  have about : (Change.closed id snuff request).round? = some id := rfl
  have last := answerable.running id r found running
  rw [List.foldl_cons, List.foldl_cons, List.foldl_nil]
  have known : ∀ {other r'}, ((Change.opened (h.nextRound startTime fee gas) nextId).apply
      ((Change.closed id snuff request).apply h)).auction? other = some r' →
      other = h.nextId ∧ r' = h.nextRound startTime fee gas ∨
        other = id ∧ r' = (Change.closed id snuff request).revise r ∨
        other ≠ id ∧ h.auction? other = some r' := fun found' =>
    (Change.auction?_apply_opened_cases found').imp_right fun before =>
      Change.auction?_apply_cases about found before.2
  constructor
  · intro other r' found' runs
    rcases known found' with ⟨rfl, -⟩ | ⟨-, rfl⟩ | ⟨elsewhere, before⟩
    · exact next.symm
    · cases request <;> cases runs
    · have same := answerable.running other r' before runs
      exact absurd (UInt64.toNat_inj.mp (by omega)) elsewhere
  · intro other r' found' pending
    rcases known found' with ⟨rfl, rfl⟩ | ⟨rfl, -⟩ | ⟨-, before⟩
    · cases pending.1
    · change other.toNat + 2 = nextId.toNat
      omega
    · exact absurd pending (answerable.not_pending found running free before)
  · intro other r' number found' pending requested
    rcases known found' with ⟨rfl, rfl⟩ | ⟨rfl, rfl⟩ | ⟨-, before⟩
    · cases pending.1
    · cases request with
      | none => cases pending.1
      | some request =>
          cases requested
          exact Std.ExtTreeMap.getElem?_insert_self
    · exact absurd pending (answerable.not_pending found running free before)

theorem grant (answerable : h.Answerable) (grant : Grants h ctx c call changes outcome) :
    (changes.foldl Change.apply h).Answerable := by
  cases grant with
  | snuff found closes free _ _ next => exact answerable.renewal found closes.running free next
  | fulfillRandomness _ _ found g =>
      refine answerable.single rfl found rfl (fun runs => runs) fun pending => ?_
      cases pending.2
  | proposeWinners found g =>
      refine answerable.single rfl found rfl (fun runs => ?_) fun pending => ?_
      · cases runs
      · cases pending.1
  | challenge found g _ =>
      refine answerable.single rfl found rfl (fun runs => ?_) fun pending => ?_
      · cases runs
      · cases g.drawn.symm.trans pending.2
  | updateSettings => exact ⟨answerable.running, answerable.pending, answerable.known⟩
  | placeBid found _ | increaseBid found _ | claimWinningBid found _ _ _
  | withdrawBid found _ _ | claimSnuffBounty found _ _ _ _ | claimProposalBounty found _ _ _ _
  | transferProceeds found _ _ _ _ =>
      exact answerable.single rfl found rfl (fun runs => runs) fun pending => ⟨pending, rfl⟩

end House.Answerable

theorem Genesis.answerable_of_found {g : Genesis} {settlementGas : UInt64} {h : House}
    (founded : g.found settlementGas = .ok h) : h.Answerable := by
  have first : ∀ id r, h.auction? id = some r → id = 1 ∧ r.phase = .running :=
    fun _ _ found => first_of_found founded found
  constructor
  · intro id r found _
    obtain ⟨rfl, -⟩ := first id r found
    obtain ⟨-, rfl⟩ := found_eq_ok.mp founded
    rfl
  · intro id r found pending
    cases (first id r found).2.symm.trans pending.1
  · intro id r request found pending
    cases (first id r found).2.symm.trans pending.1

theorem Auction.Pending.draws {r : Auction} {bids : Ledger} {request : UInt64}
    (pending : r.Pending) (coherent : r.Coherent bids) (fits : r.Bounded)
    (requested : r.request = some request) (ctx : Context) (word : Word) :
    ∃ offset closeTime, r.Draws ctx request word offset closeTime := by
  obtain ⟨offset, closeTime, drawn, timed⟩ := fits.draw coherent.valid word
  by_cases logging : ctx.logging = true
  · exact ⟨offset, closeTime, pending.1, requested, pending.2, drawn, by rw [if_pos logging, timed]⟩
  · exact ⟨offset, 0, pending.1, requested, pending.2, drawn, if_neg logging⟩

/-- A call has given a round its entropy and touched neither another round nor a ledger. -/
structure Receipt.Delivers (receipt : Receipt) (h : House) (id : UInt64) (r : Auction)
    (word : Word) : Prop where
  drawn : ∃ offset, receipt.result = .ok (.closeResolved offset) ∧
    r.settings.closeOffset word = .ok offset ∧
    receipt.house.auction? id =
      some { r with entropy := some word, closeOffset := some offset }
  elsewhere : ∀ other ≠ id, receipt.house.auction? other = h.auction? other
  ledgers : ∀ other, receipt.house.ledger other = h.ledger other

namespace House

variable {h : House} {ctx : Context} {c : Collaborators} {request id : UInt64} {word : Word}
  {r : Auction}

theorem delivers_of_draws {offset : UInt32} {closeTime : UInt64} (oracle : ctx.sender = h.oracle)
    (known : h.requests[request]? = some id) (found : h.auction? id = some r)
    (draws : r.Draws ctx request word offset closeTime) :
    (h.dispatch ctx c (.fulfillRandomness request word)).Delivers h id r word := by
  obtain ⟨accepted, after⟩ :=
    dispatch_of_grants (c := c) (.fulfillRandomness oracle known found draws)
  have about : (Change.drawn id word offset closeTime).round? = some id := rfl
  constructor
  · refine ⟨offset, accepted, draws.drawn, ?_⟩
    rw [after]
    exact Change.auction?_apply about found
  · intro other ne
    rw [after]
    exact Change.auction?_apply_of_ne about ne
  · intro other
    rw [after]
    rfl

theorem fulfillRandomness_keeps {outcome : Outcome}
    (accepted : (h.dispatch ctx c (.fulfillRandomness request word)).result = .ok outcome)
    (found : h.auction? id = some r) (drawn : r.entropy.isSome = true) :
    (h.dispatch ctx c (.fulfillRandomness request word)).house.auction? id = some r := by
  obtain ⟨changes, grant⟩ := grants_of_dispatch accepted
  cases grant with
  | @fulfillRandomness _ _ other _ _ _ oracle known found' draws =>
      have elsewhere : id ≠ other := by
        rintro rfl
        cases found.symm.trans found'
        simp [draws.unset] at drawn
      rw [(delivers_of_draws oracle known found' draws).elsewhere id elsewhere]
      exact found

end House

namespace Run

variable {g : Genesis} {settlementGas : UInt64} {start h : House} {past : List Served}

theorem answerable (founded : g.found settlementGas = .ok start) (run : Run start past h) :
    h.Answerable :=
  run.invariant (Genesis.answerable_of_found founded) fun grant holds => holds.grant grant

/-- Whatever numbers the oracle hands out, and whenever calls are made, at most one round is
waiting for its entropy. Its request leads to it, so the oracle can deliver any word: the word
becomes the entropy of that round, and no other round is touched. No delivery touches a round
that has its entropy. -/
theorem requests_stay_answerable (founded : g.found settlementGas = .ok start)
    (run : Run start past h) :
    (∀ id r other r', h.auction? id = some r → h.auction? other = some r' →
      r.Pending → r'.Pending → id = other) ∧
    (∀ id r, h.auction? id = some r → r.Pending →
      ∃ request, r.request = some request ∧ h.requests[request]? = some id ∧
        ∀ (ctx : Context) (c : Collaborators) (word : Word), ctx.sender = h.oracle →
          (h.dispatch ctx c (.fulfillRandomness request word)).Delivers h id r word) ∧
    ∀ (ctx : Context) (c : Collaborators) (request : UInt64) (word : Word) (outcome : Outcome),
      (h.dispatch ctx c (.fulfillRandomness request word)).result = .ok outcome →
      ∀ id r, h.auction? id = some r → r.entropy.isSome = true →
        (h.dispatch ctx c (.fulfillRandomness request word)).house.auction? id = some r := by
  have answerable := run.answerable founded
  have coherent := run.coherent (Genesis.coherent_of_found founded)
  refine ⟨?_, ?_, fun ctx c request word outcome accepted id r found drawn =>
    House.fulfillRandomness_keeps accepted found drawn⟩
  · intro id r other r' found found' pending pending'
    have first := answerable.pending id r found pending
    have second := answerable.pending other r' found' pending'
    exact UInt64.toNat_inj.mp (by omega)
  · intro id r found pending
    have round := coherent.rounds id r found
    obtain ⟨-, requested, -⟩ := round.waiting pending.1
    obtain ⟨request, asked⟩ := Option.isSome_iff_exists.mp requested
    have known := answerable.known id r request found pending asked
    have fits : r.Bounded := run.bounded founded id r found (by simp [pending.1])
    refine ⟨request, asked, known, fun ctx c word oracle => ?_⟩
    obtain ⟨offset, closeTime, draws⟩ := pending.draws round fits asked ctx word
    exact House.delivers_of_draws oracle known found draws

end Run

/-! The round after the sample round gets the same number for its request. -/

namespace Sample

def reusing : List Request :=
  [request 4 300000 5000 (.placeBid 2 5000), request 6 518400 0 (.snuff 2)]

def reused : House := proposed.serve reusing

def delivering : Request := request 3 518410 0 (.fulfillRandomness 7 word)

/-- The second round once it is closed. -/
def reusedRound : Auction :=
  { Auction.opening 2 259200 { Settings.standard with maxWinners := 1 } 1000 ⟨1, 259200⟩ with
    phase := .waitingClose
    request := some 7
    snuff := some ⟨.fill 6, 518400⟩
    proceeds := 5000 }

theorem run_reused : Run opened (proposed.served reusing ++ past) reused :=
  run_proposed.append (House.run_serve (List.all_eq_true.mp rfl))

end Sample

/-- The request of the first round hides behind that of the second, and is not missed. -/
theorem Run.requests_stay_answerable_reused :
    Sample.genesis.found 0 = .ok Sample.opened ∧
      Run Sample.opened (Sample.proposed.served Sample.reusing ++ Sample.past) Sample.reused ∧
      (∃ r, Sample.reused.auction? 1 = some r ∧ r.request = some 7) ∧
      Sample.reused.auction? 2 = some Sample.reusedRound ∧ Sample.reusedRound.Pending ∧
      (Sample.reused.dispatch Sample.delivering.context Sample.delivering.parties
        Sample.delivering.call).Delivers Sample.reused 2 Sample.reusedRound Sample.word := by
  obtain ⟨-, each, -⟩ := requests_stay_answerable Sample.founded Sample.run_reused
  have found : Sample.reused.auction? 2 = some Sample.reusedRound := rfl
  have pending : Sample.reusedRound.Pending := ⟨rfl, rfl⟩
  obtain ⟨request, asked, -, delivers⟩ := each 2 _ found pending
  cases asked
  exact ⟨Sample.founded, Sample.run_reused, ⟨_, rfl, rfl⟩, found, pending,
    delivers Sample.delivering.context Sample.delivering.parties Sample.word rfl⟩

end CandleAuction
