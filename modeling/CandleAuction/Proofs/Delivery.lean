import CandleAuction.Proofs.Disputes
import CandleAuction.Proofs.Requests

/-!
# Randomness is delivered in full

A request that is kept leads to the round that made it, and the oracle of a
chain has a word for every request that the house keeps. So of all the requests
ever made at most one is still waited for, and a delivery answers that one and
leaves nothing to deliver. When calls are made does not matter.
-/

namespace CandleAuction

open Std (ExtTreeMap)

instance : DecidablePred Auction.Pending := fun r =>
  inferInstanceAs (Decidable (r.phase = .waitingClose ∧ r.entropy = none))

namespace Change

variable {change : Change}

theorem request_revise {r : Auction} (quiet : change.request? = none) :
    (change.revise r).request = r.request := by
  cases change with
  | closed _ _ request => cases request <;> first | rfl | cases quiet
  | _ => rfl

theorem closed_of_request? {request id : UInt64} (made : change.request? = some (request, id)) :
    ∃ snuff, change = .closed id snuff (some request) := by
  cases change with
  | closed _ snuff request => cases request <;> cases made; exact ⟨snuff, rfl⟩
  | _ => cases made

end Change

namespace House

/-- Rounds that wait for their entropy. -/
def pending (h : House) : List UInt64 := (h.rounds.filter fun r => r.Pending).map Auction.id

/-- Every request that is kept leads to the round that made it. -/
def Requested (h : House) : Prop :=
  ∀ request id, h.requests[request]? = some id →
    ∃ r, h.auction? id = some r ∧ r.request = some request

variable {h : House} {id : UInt64} {r : Auction} {change : Change} {ctx : Context}
  {c : Collaborators} {call : Call} {changes : List Change} {outcome : Outcome}

theorem mem_pending (orderly : h.Orderly) :
    id ∈ h.pending ↔ ∃ r, h.auction? id = some r ∧ r.Pending := by
  simp only [pending, mem_listed orderly, decide_eq_true_eq]

theorem pending_ascending (orderly : h.Orderly) : h.pending.Pairwise (· < ·) :=
  listed_ascending orderly

/-- At most one round is pending. -/
theorem Answerable.pending_cases (answerable : h.Answerable) (orderly : h.Orderly) :
    h.pending = [] ∨ ∃ id, h.pending = [id] := by
  refine eq_nil_or_singleton (pending_ascending orderly) ?_
  intro id member other member'
  obtain ⟨r, found, pending⟩ := (mem_pending orderly).mp member
  obtain ⟨r', found', pending'⟩ := (mem_pending orderly).mp member'
  have first := answerable.pending id r found pending
  have second := answerable.pending other r' found' pending'
  exact UInt64.toNat_inj.mp (by omega)

theorem Requested.apply (requested : h.Requested) (about : change.round? = some id)
    (found : h.auction? id = some r) (first : change.request? = none ∨ r.request = none) :
    (change.apply h).Requested := by
  intro request other known
  rw [Change.requests_apply] at known
  cases made : change.request? with
  | none =>
      rw [made] at known
      obtain ⟨r', found', asked⟩ := requested request other known
      by_cases here : other = id
      · subst here
        cases found.symm.trans found'
        exact ⟨_, Change.auction?_apply about found, (Change.request_revise made).trans asked⟩
      · exact ⟨r', (Change.auction?_apply_of_ne about here).trans found', asked⟩
  | some entry =>
      obtain ⟨number, holder⟩ := entry
      obtain ⟨snuff, rfl⟩ := Change.closed_of_request? made
      cases about
      rw [made, Option.elim_some, ExtTreeMap.getElem?_insert] at known
      split at known
      · rename_i same
        cases known
        exact ⟨_, Change.auction?_apply rfl found, congrArg some (by simpa using same)⟩
      · obtain ⟨r', found', asked⟩ := requested request other known
        have elsewhere : other ≠ id := by
          rintro rfl
          cases found.symm.trans found'
          simp [Change.request?, asked] at first
        exact ⟨r', (Change.auction?_apply_of_ne rfl elsewhere).trans found', asked⟩

theorem Requested.opened (requested : h.Requested) {round : Auction} {nextId : UInt64}
    (unused : h.auction? round.id = none) :
    ((Change.opened round nextId).apply h).Requested := by
  intro request other known
  obtain ⟨r, found, asked⟩ := requested request other known
  have elsewhere : round.id ≠ other := by
    rintro rfl
    cases unused.symm.trans found
  exact ⟨r, by rw [Change.auction?_apply_opened, if_neg elsewhere, found], asked⟩

theorem Requested.grant (requested : h.Requested) (coherent : h.Coherent)
    (grant : Grants h ctx c call changes outcome) : (changes.foldl Change.apply h).Requested := by
  cases grant with
  | @snuff id r request _ found closes =>
      obtain ⟨-, unasked, -⟩ := (coherent.rounds id r found).running closes.running
      have about : (Change.closed id ⟨ctx.sender, ctx.now⟩ request).round? = some id := rfl
      have unused := (coherent.toOrderly.apply about found).unused
      rw [Change.nextId_apply about] at unused
      exact (requested.apply about found (.inr unasked)).opened unused
  | updateSettings => exact requested
  | placeBid found | increaseBid found | fulfillRandomness _ _ found | proposeWinners found
  | challenge found | claimWinningBid found | withdrawBid found | claimSnuffBounty found
  | claimProposalBounty found | transferProceeds found =>
      rw [List.foldl_cons, List.foldl_nil]
      exact requested.apply rfl found (.inl rfl)

end House

theorem Genesis.requests_of_found {g : Genesis} {settlementGas : UInt64} {h : House}
    (founded : g.found settlementGas = .ok h) : h.requests = ∅ ∧ h.nextId = 2 := by
  obtain ⟨-, rfl⟩ := found_eq_ok.mp founded
  exact ⟨rfl, rfl⟩

theorem Run.requested {g : Genesis} {settlementGas : UInt64} {start h : House}
    {past : List Served} (founded : g.found settlementGas = .ok start) (run : Run start past h) :
    h.Requested := by
  refine run.induct (motive := fun _ => House.Requested) ?_ (fun _ _ holds => holds) ?_
  · intro request id known
    simp [(Genesis.requests_of_found founded).1] at known
  · intro past h q changes outcome run _ grant requested
    exact requested.grant (run.coherent (Genesis.coherent_of_found founded)) grant

namespace RandomnessOracle

variable {o : RandomnessOracle} {request : UInt64} {seed other : Word}

theorem seed?_record (known : o.seed? request = some seed) :
    (o.record other).seed? request = some seed := by
  unfold seed? at known ⊢
  split at known
  · cases known
  · rename_i numbered
    obtain ⟨within, entry⟩ := Array.getElem?_eq_some_iff.mp known
    rw [if_neg numbered, record, Array.getElem?_push_lt within, entry]

theorem seed?_record_last (last : request.toNat = o.seeds.size + 1) :
    (o.record seed).seed? request = some seed := by
  have numbered : request ≠ 0 := by
    rintro rfl
    cases last
  rw [seed?, if_neg numbered, record, last, Nat.add_sub_cancel, Array.getElem?_push_size]

theorem exists_word (known : o.seed? request = some seed) : ∃ word, o.word? request = some word :=
  ⟨_, by rw [word?, known]; rfl⟩

end RandomnessOracle

namespace Chain

variable {c : Chain} {logging : Bool} {sender : Address} {value : UInt64} {call : Call}
  {id request : UInt64} {r : Auction}

/-- The oracle has a seed for every request that is kept, and each of its seeds came with a round
of its own, so that their numbers do not run out. -/
structure Seeded (c : Chain) : Prop where
  known : ∀ request id, c.house.requests[request]? = some id →
    ∃ seed, c.oracle.seed? request = some seed
  room : c.oracle.seeds.size + 2 ≤ c.house.nextId.toNat

theorem submit_oracle :
    (c.submit logging sender value call).chain.oracle =
      match (c.house.dispatch (c.context logging sender value) c.collaborators call).asked with
      | some (.randomness seed, .ok _) => c.oracle.record seed
      | _ => c.oracle := by
  unfold submit
  dsimp only
  split <;> rfl

theorem submit_oracle_of_unanswered
    (unanswered : ∀ seed answer,
      (c.house.dispatch (c.context logging sender value) c.collaborators call).asked ≠
        some (.randomness seed, .ok answer)) :
    (c.submit logging sender value call).chain.oracle = c.oracle := by
  rw [submit_oracle]
  split
  · rename_i asked
    exact absurd asked (unanswered _ _)
  · rfl

theorem submit_oracle_of_calm (calm : ∀ id, call = .snuff id → (c.house.ledger id).isEmpty = true) :
    (c.submit logging sender value call).chain.oracle = c.oracle := by
  refine submit_oracle_of_unanswered fun seed answer asked => ?_
  obtain ⟨⟨next, planned⟩, -⟩ := House.planned_of_asked asked
  rcases House.asks_cases planned with ⟨_, _, _, _, _, same, -⟩ | ⟨_, id, -, called, bids⟩
  · cases same
  · exact absurd (calm id called) (Bool.eq_false_iff.mp bids)

namespace Seeded

theorem keep {c' : Chain} (seeded : c.Seeded) (oracle : c'.oracle = c.oracle)
    (requests : c'.house.requests = c.house.requests)
    (nextId : c.house.nextId.toNat ≤ c'.house.nextId.toNat) : c'.Seeded where
  known := by
    rw [oracle, requests]
    exact seeded.known
  room := by
    rw [oracle]
    exact Nat.le_trans seeded.room nextId

/-- The oracle numbers the request of a round that closes, and has its seed. -/
theorem snuffed {c' : Chain} {seed : Word} {number : UInt64} (seeded : c.Seeded)
    (answered : c.oracle.request = .ok number) (oracle : c'.oracle = c.oracle.record seed)
    (requests : c'.house.requests = c.house.requests.insert number id)
    (nextId : c'.house.nextId.toNat = c.house.nextId.toNat + 1) : c'.Seeded := by
  have room := seeded.room
  have last : number.toNat = c.oracle.seeds.size + 1 := by
    cases answered
    have fits := c.house.nextId.toNat_lt
    exact UInt64.toNat_ofNat_of_lt' (by simp only [UInt64.size]; omega)
  constructor
  · intro request other known
    rw [requests, ExtTreeMap.getElem?_insert] at known
    rw [oracle]
    split at known
    · rename_i same
      rw [Std.LawfulEqCmp.compare_eq_iff_eq] at same
      exact ⟨seed, same ▸ RandomnessOracle.seed?_record_last last⟩
    · obtain ⟨seed, known⟩ := seeded.known request other known
      exact ⟨seed, RandomnessOracle.seed?_record known⟩
  · rw [oracle, RandomnessOracle.record, Array.size_push, nextId]
    omega

theorem granted {changes : List Change} {outcome : Outcome} (seeded : c.Seeded)
    (grant : Grants c.house (c.context logging sender value) c.collaborators call changes
      outcome) : (c.submit logging sender value call).chain.Seeded := by
  have house := (submit_of_grants grant).2
  cases grant with
  | @snuff id r request nextId found closes free asks answered next =>
      cases request with
      | none =>
          refine seeded.keep (submit_oracle_of_calm ?_) (by rw [house]; rfl) ?_
          · rintro _ ⟨⟩
            exact asks.mp rfl
          · rw [house]
            exact Nat.le_trans (Nat.le_add_right _ 1) (Nat.le_of_eq next.symm)
      | some number =>
          have planned : c.house.plan (c.context logging sender value)
              c.collaborators.settlementGas (.snuff id) = _ :=
            House.snuff_eq_ok.mpr ⟨r, found, closes, free, rfl⟩
          rw [if_neg fun none => by simpa using asks.mpr none] at planned
          have answer := answered number rfl
          have oracle : (c.submit logging sender value (.snuff id)).chain.oracle =
              c.oracle.record (Seed.randomness id r.startTime) := by
            rw [submit_oracle, House.dispatch_of_ask planned answer]
            rfl
          exact seeded.snuffed answer oracle (by rw [house]; rfl) (by rw [house]; exact next)
  | _ =>
      exact seeded.keep (submit_oracle_of_calm nofun) (by rw [house]; rfl)
        (by rw [house]; exact Nat.le_refl _)

theorem submit (seeded : c.Seeded)
    (unfaulted : Unfaulted (c.submit logging sender value call)) :
    (c.submit logging sender value call).chain.Seeded := by
  cases result : (c.submit logging sender value call).result with
  | ok outcome =>
      obtain ⟨changes, grant⟩ := House.grants_of_dispatch (submit_result.symm.trans result)
      exact seeded.granted grant
  | error halt =>
      cases halt with
      | fault fault => exact absurd result (unfaulted fault)
      | rejected rejection =>
          have rejected := submit_result.symm.trans result
          have same := submit_house.trans (House.house_of_rejected rejected)
          refine seeded.keep (submit_oracle_of_unanswered fun seed answer asked => ?_)
            (by rw [same]; rfl) (by rw [same]; exact Nat.le_refl _)
          obtain ⟨_, declined, -⟩ := House.asked_of_rejected rejected asked
          cases declined

end Seeded

variable {tick : UInt64 → UInt64 → Prop} {g : Genesis} {settlementGas : UInt64}

theorem Reached.seeded (reached : Reached tick g settlementGas c) : c.Seeded := by
  refine reached.induct (motive := Seeded) ?_ (fun seeded => seeded.submit)
    (fun seeded _ => ⟨seeded.known, seeded.room⟩) (fun seeded => ⟨seeded.known, seeded.room⟩)
  intro c founded
  obtain ⟨founded, oracle, -⟩ := found_of_found founded
  obtain ⟨requests, nextId⟩ := Genesis.requests_of_found founded
  constructor
  · intro request id known
    simp [requests] at known
  · rw [oracle, nextId]
    decide

/-! The requests that a delivery answers. -/

theorem mem_pendingRequests :
    request ∈ c.pendingRequests ↔ ∃ id r, c.house.requests[request]? = some id ∧
      c.house.auction? id = some r ∧ r.Pending := by
  simp [pendingRequests, ExtTreeMap.mem_toList_iff_getElem?_eq_some, Option.any_eq_true,
    Auction.Pending]

theorem pendingRequests_ascending : c.pendingRequests.Pairwise (· < ·) := by
  refine List.pairwise_map.mpr (List.Pairwise.filter _ ?_)
  exact ExtTreeMap.ordered_keys_toList.imp fun less => Std.compare_eq_lt.mp less

theorem pending_of_mem_pendingRequests (requested : c.house.Requested)
    (orderly : c.house.Orderly) (member : request ∈ c.pendingRequests) :
    ∃ id r, id ∈ c.house.pending ∧ c.house.auction? id = some r ∧ r.request = some request := by
  obtain ⟨id, r, known, found, pending⟩ := mem_pendingRequests.mp member
  obtain ⟨r', again, asked⟩ := requested request id known
  cases found.symm.trans again
  exact ⟨id, r, (House.mem_pending orderly).mpr ⟨r, found, pending⟩, found, asked⟩

/-- A round that waits for its entropy, with its request and the word that answers it. -/
structure Awaits (c : Chain) (id : UInt64) (r : Auction) (request : UInt64) (word : Word) :
    Prop where
  found : c.house.auction? id = some r
  pending : r.Pending
  requested : r.request = some request
  known : c.house.requests[request]? = some id
  given : c.oracle.word? request = some word

theorem Reached.pending_cases (reached : Reached tick g settlementGas c) :
    c.house.pending = [] ∧ c.pendingRequests = [] ∨
      ∃ id r request word, c.house.pending = [id] ∧ c.pendingRequests = [request] ∧
        c.Awaits id r request word := by
  obtain ⟨start, past, founded, traces⟩ := reached.exists_run
  have coherent := traces.run.coherent (Genesis.coherent_of_found founded)
  have answerable := traces.run.answerable founded
  have requested := traces.run.requested founded
  rcases answerable.pending_cases coherent.toOrderly with idle | ⟨id, alone⟩
  · refine .inl ⟨idle, List.eq_nil_iff_forall_not_mem.mpr fun request member => ?_⟩
    obtain ⟨id, -, member, -⟩ :=
      pending_of_mem_pendingRequests requested coherent.toOrderly member
    exact List.not_mem_nil (idle ▸ member)
  · obtain ⟨r, found, pending⟩ :=
      (House.mem_pending coherent.toOrderly).mp (alone ▸ List.mem_singleton_self id)
    obtain ⟨-, asks, -⟩ := (coherent.rounds id r found).waiting pending.1
    obtain ⟨request, asked⟩ := Option.isSome_iff_exists.mp asks
    have known := answerable.known id r request found pending asked
    obtain ⟨seed, given⟩ := reached.seeded.known request id known
    obtain ⟨word, given⟩ := RandomnessOracle.exists_word given
    have member := mem_pendingRequests.mpr ⟨id, r, known, found, pending⟩
    refine .inr ⟨id, r, request, word, alone, ?_, found, pending, asked, known, given⟩
    refine eq_singleton pendingRequests_ascending member fun other member => ?_
    obtain ⟨id', r', member, found', asked'⟩ :=
      pending_of_mem_pendingRequests requested coherent.toOrderly member
    cases List.mem_singleton.mp (alone ▸ member)
    cases found.symm.trans found'
    exact Option.some.inj (asked'.symm.trans asked)

theorem deliver_of_idle (idle : c.pendingRequests = []) :
    c.deliver logging = ⟨c, .ok [], []⟩ := by
  rw [deliver, idle]
  rfl

theorem deliver_of_alone {word : Word} {offset : UInt32} (alone : c.pendingRequests = [request])
    (given : c.oracle.word? request = some word)
    (resolves : (c.submit logging c.house.oracle 0 (.fulfillRandomness request word)).result =
      .ok (.closeResolved offset)) :
    (c.deliver logging).chain =
        (c.submit logging c.house.oracle 0 (.fulfillRandomness request word)).chain ∧
      (c.deliver logging).result = .ok [offset] := by
  simp [deliver, alone, deliverAll, given, resolves]

/-- What has come of the pending rounds, of all other accounts and of the log. -/
structure Delivered (c : Chain) (offsets : List UInt32) (after : Chain) : Prop where
  resolved : List.Forall₂ (fun id offset => ∃ r word opening, c.house.auction? id = some r ∧
    after.house.auction? id = some { r with entropy := some word, closeOffset := some offset } ∧
    r.settings.windowStart = .ok opening ∧ opening.toNat ≤ offset.toNat ∧
    offset.toNat ≤ r.settings.duration.toNat) c.house.pending offsets
  idle : after.house.pending = []
  elsewhere : ∀ id ∉ c.house.pending, after.house.auction? id = c.house.auction? id
  ledgers : ∀ id, after.house.ledger id = c.house.ledger id
  balances : ∀ account, after.house.balance account = c.house.balance account
  logged : ∃ calls, after.log.toList = c.log.toList ++ calls ∧ calls.length = offsets.length

theorem delivered_of_idle (idle : c.house.pending = []) : c.Delivered [] c where
  resolved := by
    rw [idle]
    exact .nil
  idle := idle
  elsewhere _ _ := rfl
  ledgers _ := rfl
  balances _ := rfl
  logged := ⟨[], by simp, rfl⟩

theorem Awaits.delivered {word : Word} (awaits : c.Awaits id r request word) (logging : Bool)
    (alone : c.house.pending = [id]) (coherent : c.house.Coherent) (fits : r.Bounded) :
    ∃ offset, (c.submit logging c.house.oracle 0 (.fulfillRandomness request word)).result =
        .ok (.closeResolved offset) ∧
      c.Delivered [offset]
        (c.submit logging c.house.oracle 0 (.fulfillRandomness request word)).chain := by
  have round := coherent.rounds id r awaits.found
  obtain ⟨offset, closeTime, draws⟩ := awaits.pending.draws round fits awaits.requested
    (c.context logging c.house.oracle 0) word
  have about : (Change.drawn id word offset closeTime).round? = some id := rfl
  obtain ⟨accepted, house⟩ := submit_of_grants (c := c)
    (.fulfillRandomness rfl awaits.known awaits.found draws)
  rw [List.foldl_cons, List.foldl_nil] at house
  refine ⟨offset, accepted, ?_⟩
  constructor
  case resolved =>
    obtain ⟨opening, length, window⟩ := round.valid.exists_window
    obtain ⟨_, again, total, within⟩ := window.closeOffset round.valid word
    cases draws.drawn.symm.trans again
    rw [alone, house]
    exact .cons ⟨r, word, opening, awaits.found, Change.auction?_apply about awaits.found,
      window.starts, by omega, within⟩ .nil
  case idle =>
    rw [house]
    refine List.eq_nil_iff_forall_not_mem.mpr fun other member => ?_
    obtain ⟨r', found', pending'⟩ :=
      (House.mem_pending (coherent.toOrderly.apply about awaits.found)).mp member
    rcases Change.auction?_apply_cases about awaits.found found' with ⟨-, rfl⟩ | ⟨elsewhere, before⟩
    · cases pending'.2
    · have member := (House.mem_pending coherent.toOrderly).mpr ⟨r', before, pending'⟩
      exact elsewhere (List.mem_singleton.mp (alone ▸ member))
  case elsewhere =>
    intro other absent
    rw [alone, List.mem_singleton] at absent
    rw [house, Change.auction?_apply_of_ne about absent]
  case ledgers => exact fun _ => house ▸ rfl
  case balances => exact fun _ => house ▸ rfl
  case logged => exact ⟨_, submit_log_of_ok accepted, rfl⟩

/-- Delivering randomness settles all that is outstanding, and does it once. On every chain, with
its clock and its gas price set at will, at most one round waits for its entropy. A delivery
gives it its entropy and a close instant out of its snuff window, and returns this one offset.
No round waits afterwards, no other round and no ledger or balance has changed, the log has
grown by one call for each offset, and a second delivery returns nothing and does nothing. -/
theorem delivery_settles_all_once (reached : Reached tick g settlementGas c) (logging : Bool) :
    c.house.pending.length ≤ 1 ∧ ∃ offsets, (c.deliver logging).result = .ok offsets ∧
      c.Delivered offsets (c.deliver logging).chain ∧
      ∀ again, (c.deliver logging).chain.deliver again =
        ⟨(c.deliver logging).chain, .ok [], []⟩ := by
  rcases reached.pending_cases with ⟨idle, silent⟩ | ⟨id, r, request, word, alone, asked, awaits⟩
  · rw [deliver_of_idle silent, idle]
    exact ⟨Nat.zero_le 1, [], rfl, delivered_of_idle idle, fun _ => deliver_of_idle silent⟩
  · obtain ⟨start, past, founded, traces⟩ := reached.exists_run
    have coherent := traces.run.coherent (Genesis.coherent_of_found founded)
    have fits := traces.run.bounded founded id r awaits.found (by simp [awaits.pending.1])
    obtain ⟨offset, resolves, delivered⟩ := awaits.delivered logging alone coherent fits
    obtain ⟨after, result⟩ := deliver_of_alone asked awaits.given resolves
    rw [← after] at delivered
    refine ⟨by rw [alone]; exact Nat.le_refl 1, [offset], result, delivered, fun again => ?_⟩
    have reached' := reached.deliver logging (unfaulted_of_ok result)
    rcases reached'.pending_cases with ⟨-, silent⟩ | ⟨_, _, _, _, more, -⟩
    · exact deliver_of_idle silent
    · cases delivered.idle.symm.trans more

end Chain

/-! The sample round on a chain whose clock is set back once the round is closed. -/

namespace Sample

def undrawn : Chain :=
  { [request 4 10 5000 (.placeBid 1 5000), request 6 259200 0 (.snuff 1)].foldl Chain.play
      ⟨opened, .new 0, .new, 0, 0, 1, #[]⟩ with now := 5 }

/-- The first round while it waits for its entropy. -/
def undrawnRound : Auction :=
  { round with
    entropy := none
    closeOffset := none
    request := some 1
    proceeds := 5000 }

theorem reached_undrawn : Chain.Reached (fun _ _ => True) genesis 0 undrawn :=
  have founded : Chain.found genesis 0 = .ok ⟨opened, .new 0, .new, 0, 0, 1, #[]⟩ := rfl
  have bid := (Chain.Reached.found founded).play (q := request 4 10 5000 (.placeBid 1 5000))
    trivial rfl
  have closed := bid.play (q := request 6 259200 0 (.snuff 1)) trivial rfl
  closed.clock _ 5 trivial

theorem undrawn_round : undrawn.house.auction? 1 = some undrawnRound := rfl

end Sample

/-- The round gets one offset, in the last third of its duration. -/
theorem Chain.delivery_settles_all_once_undrawn :
    Chain.Reached (fun _ _ => True) Sample.genesis 0 Sample.undrawn ∧
      Sample.undrawn.house.pending = [1] ∧
      ∃ offset, (Sample.undrawn.deliver false).result = .ok [offset] ∧
        181440 ≤ offset.toNat ∧ offset.toNat ≤ 259200 ∧
        (Sample.undrawn.deliver false).chain.house.pending = [] := by
  obtain ⟨single, offsets, result, delivered, -⟩ :=
    delivery_settles_all_once Sample.reached_undrawn false
  obtain ⟨start, past, founded, traces⟩ := Sample.reached_undrawn.exists_run
  have orderly := (traces.run.coherent (Genesis.coherent_of_found founded)).toOrderly
  have member := (House.mem_pending orderly).mpr ⟨_, Sample.undrawn_round, rfl, rfl⟩
  obtain ⟨id, alone⟩ := List.length_eq_one_iff.mp
    (Nat.le_antisymm single (List.length_pos_of_mem member))
  obtain rfl := List.mem_singleton.mp (alone ▸ member)
  have resolved := delivered.resolved
  rw [alone] at resolved
  cases resolved with
  | cons drawn rest =>
      cases rest
      obtain ⟨r, word, opening, found, -, starts, least, most⟩ := drawn
      obtain rfl := Option.some.inj (Sample.undrawn_round.symm.trans found)
      cases starts
      exact ⟨Sample.reached_undrawn, alone, _, result, least, most, delivered.idle⟩

end CandleAuction
