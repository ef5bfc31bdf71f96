import CandleAuction.Proofs.Coherence

/-!
# What is posted and what is resubmitted

A round keeps no more of a proposed list than its commitment. The list itself
is in the call that posted it, and items and refunds need bytes that open the
same commitment.
-/

namespace CandleAuction

namespace Call

/-- The encoding that a call posts for a round. -/
def posts? (id : UInt64) : Call → Option (List UInt8)
  | proposeWinners round encoding _ _ => if round = id then some encoding else none
  | _ => none

/-- The encoding that a settlement resubmits. -/
def resubmits? : Call → Option (List UInt8)
  | claimWinningBid _ encoding _ | withdrawBid _ encoding _ => some encoding
  | _ => none

theorem posts?_of_round? {call : Call} {id : UInt64} (elsewhere : call.round? ≠ some id) :
    call.posts? id = none := by
  cases call with
  | proposeWinners round _ _ _ => exact if_neg fun same => elsewhere (congrArg some same)
  | _ => rfl

theorem posts?_of_settles {call : Call} {id : UInt64} (settles : call.settles = true) :
    call.posts? id = none := by
  cases call with
  | proposeWinners => cases settles
  | _ => rfl

end Call

namespace Served

def posts? (id : UInt64) (s : Served) : Option (List UInt8) :=
  s.outcome?.bind fun _ => s.request.call.posts? id

/-- An accepted settlement of a round with the encoding that it resubmits. -/
def Resubmits (s : Served) (id : UInt64) (encoding : List UInt8) : Prop :=
  s.request.call.round? = some id ∧ s.request.call.resubmits? = some encoding ∧
    s.outcome?.isSome = true

theorem posts?_eq_none {s : Served} {id : UInt64}
    (silent : s.request.call.round? = some id → s.outcome?.isSome = true →
      s.request.call.posts? id = none) : s.posts? id = none := by
  unfold posts?
  cases accepted : s.outcome? with
  | none => rfl
  | some outcome =>
      by_cases named : s.request.call.round? = some id
      · exact silent named (by rw [accepted]; rfl)
      · exact Call.posts?_of_round? named

theorem posts?_of_still {s : Served} {id : UInt64}
    (still : s.round? = some id → s.outcome? = none) : s.posts? id = none :=
  posts?_eq_none fun named accepted => by
    simp [still (House.addressee?_of_round? named)] at accepted

end Served

/-- The encoding last posted for a round. -/
def posted? (id : UInt64) (past : List Served) : Option (List UInt8) :=
  past.findSome? (Served.posts? id)

theorem posted?_cons {id : UInt64} {s : Served} {past : List Served} :
    posted? id (s :: past) = (s.posts? id).or (posted? id past) := by
  rw [posted?, List.findSome?_cons]
  cases s.posts? id <;> rfl

theorem posted?_append_of_silent {id : UInt64} {later past : List Served}
    (silent : ∀ s ∈ later, s.posts? id = none) : posted? id (later ++ past) = posted? id past := by
  rw [posted?, List.findSome?_append, List.findSome?_eq_none_iff.mpr silent]
  rfl

namespace Auction

/-- The posted bytes open the commitment of the live proposal. -/
def OpenedBy (r : Auction) (posted : Option (List UInt8)) : Prop :=
  ∀ p, r.proposal = some p → ∃ encoding entropy, posted = some encoding ∧
    r.entropy = some entropy ∧ commitment encoding entropy = p.commitment

variable {r : Auction} {bids : Ledger} {ctx : Context} {call : Call} {change : Change}
  {outcome : Outcome} {posted : Option (List UInt8)} {id : UInt64}

theorem OpenedBy.allow (opened : r.OpenedBy posted)
    (allowed : r.Allows bids ctx call change outcome) (about : change.round? = some id) :
    (change.revise r).OpenedBy ((call.posts? id).or posted) := by
  cases allowed with
  | @closed _ request _ _ _ => cases request <;> exact opened
  | drawn g =>
      intro p live
      obtain ⟨_, _, -, drawn, -⟩ := opened p live
      cases g.unset.symm.trans drawn
  | @proposed _ encoding _ _ entropy _ g =>
      cases about
      intro p live
      cases live
      exact ⟨encoding, entropy, by simp [Call.posts?], g.drawn, g.opened⟩
  | overturned =>
      intro p live
      cases live
  | snuffBountyPaid | proposalBountyPaid =>
      intro paid live
      obtain ⟨p, unpaid, rfl⟩ := Option.map_eq_some_iff.mp live
      exact opened p unpaid
  | _ => exact opened

end Auction

/-- In every run the last post for a round opens the commitment of its live proposal. -/
theorem Run.openedBy {g : Genesis} {settlementGas : UInt64} {start h : House}
    {past : List Served} {id : UInt64} {r : Auction}
    (founded : g.found settlementGas = .ok start) (run : Run start past h)
    (found : h.auction? id = some r) : r.OpenedBy (posted? id past) := by
  have orderly := Genesis.orderly_of_found founded
  have each := run.each (motive := fun past r _ => r.OpenedBy (posted? r.id past)) orderly
    (Genesis.each_of_found founded fun _ _ live => by cases live)
    (fun _ _ _ live => by cases live) (by
      intro past s id r r' bids' run found moves opened
      have number := run.numbered orderly found
      cases moves with
      | rest still =>
          rw [posted?_cons, number, Served.posts?_of_still still, ← number]
          exact opened
      | change accepted about allowed =>
          rw [House.revise_id, posted?_cons, Served.posts?, accepted, Option.bind_some, number]
          exact (number ▸ opened).allow allowed about)
  have opened : r.OpenedBy (posted? r.id past) := each id r found
  rwa [run.numbered orderly found] at opened

end CandleAuction
