import CandleAuction.Proofs.Chain
import CandleAuction.Proofs.Overflow

/-!
# How long a house lasts

Below half of the range of words, times leave room for every duration that
settings may have, and the numbers of rounds do not run out. The fraud period is
the one setting without a bound: a house that keeps it to the other half answers
every call, and one that does not can be stopped for ever by one proposal.
-/

namespace CandleAuction

/-- Half of the range of words. Times before it leave as much room again. -/
def midway : Nat := UInt64.size / 2

namespace Auction

variable {r : Auction} {bids : Ledger} {ctx : Context} {call : Call} {change : Change}
  {outcome : Outcome}

/-- Everything that has happened to a round has happened in the first half of time. -/
structure Early (r : Auction) : Prop where
  started : r.startTime.toNat < midway
  proposed : ∀ p ∈ r.proposal, p.timestamp.toNat < midway

theorem startTime_revise : (change.revise r).startTime = r.startTime :=
  (congrArg Auction.startTime Change.origin_revise :)

theorem Early.allow (early : r.Early) (allowed : r.Allows bids ctx call change outcome)
    (now : ctx.now.toNat < midway) : (change.revise r).Early where
  started := by
    rw [startTime_revise]
    exact early.started
  proposed := by
    have proposed := early.proposed
    cases allowed with
    | @closed _ request _ _ _ => cases request <;> exact proposed
    | proposed g =>
        rintro p ⟨⟩
        exact now
    | overturned => nofun
    | snuffBountyPaid | proposalBountyPaid =>
        intro p' live'
        obtain ⟨p, live, rfl⟩ := Option.map_eq_some_iff.mp live'
        exact proposed p live
    | _ => exact proposed

theorem Early.bounded (early : r.Early) (valid : r.settings.Valid) : r.Bounded := by
  have started := early.started
  have short := valid.duration_lt
  have room : midway + UInt32.size ≤ UInt64.size := by decide
  unfold Bounded
  omega

theorem Early.window_of_endless (early : r.Early) (endless : r.Endless) :
    midway < r.settings.fraudPeriod.toNat := by
  obtain ⟨-, p, live, large⟩ := endless
  have posted := early.proposed p live
  have halves : midway + midway = UInt64.size := by decide
  omega

end Auction

/-- A house with early rounds that has opened at most one round a call. -/
structure House.Early (h : House) (calls : Nat) : Prop where
  numbered : h.nextId.toNat ≤ calls + 2
  rounds : h.Each fun r _ => r.Early

variable {g : Genesis} {settlementGas : UInt64} {start h : House} {past : List Served}

theorem House.Early.carry {ctx : Context} {c : Collaborators} {call : Call} {outcome : Outcome}
    {changes : List Change} {calls : Nat} (early : h.Early calls)
    (carries : Carries h ctx c call outcome changes) (now : ctx.now.toNat < midway) :
    (changes.foldl Change.apply h).Early (calls + 1) := by
  have numbered := early.numbered
  cases carries with
  | change about found allowed _ =>
      refine ⟨?_, early.rounds.apply about found ((early.rounds _ _ found).allow allowed now)⟩
      rw [List.foldl_cons, List.foldl_nil, Change.nextId_apply about]
      omega
  | @renewal id r change nextId about found allowed next _ =>
      have closed := early.rounds.apply about found ((early.rounds _ _ found).allow allowed now)
      refine ⟨?_, closed.opened ⟨now, nofun⟩⟩
      change nextId.toNat ≤ _
      omega
  | configured _ _ _ => exact ⟨Nat.le_succ_of_le numbered, early.rounds⟩

theorem Genesis.early_of_found (founded : g.found settlementGas = .ok start)
    (starts : g.startTime.toNat < midway) : start.Early 0 := by
  obtain ⟨-, rfl⟩ := found_eq_ok.mp founded
  exact ⟨Nat.le_refl 2, each_house.opened ⟨starts, nofun⟩⟩

theorem Run.early (founded : g.found settlementGas = .ok start) (run : Run start past h)
    (starts : g.startTime.toNat < midway) (times : ∀ s ∈ past, s.now.toNat < midway) :
    h.Early past.length := by
  refine run.induct (motive := fun past h => (∀ s ∈ past, s.now.toNat < midway) →
    h.Early past.length) (fun _ => Genesis.early_of_found founded starts) ?_ ?_ times
  · intro past h q _ _ early times
    have early := early (List.forall_mem_cons.mp times).2
    exact ⟨Nat.le_succ_of_le early.numbered, early.rounds⟩
  · intro past h q changes outcome _ _ grant early times
    obtain ⟨now, times⟩ := List.forall_mem_cons.mp times
    exact (early times).carry grant.carries now

theorem Grants.updateSettings_of_configured {ctx : Context} {c : Collaborators} {call : Call}
    {outcome : Outcome} {changes : List Change} {settings : Settings}
    (grant : Grants h ctx c call changes outcome) (member : .configured settings ∈ changes) :
    call = .updateSettings settings := by
  cases grant <;> simp_all

/-- No window that a house has granted or would grant is longer than half of the range. -/
structure House.Windowed (h : House) : Prop where
  settings : h.settings.fraudPeriod.toNat ≤ midway
  rounds : h.Each fun r _ => r.settings.fraudPeriod.toNat ≤ midway

theorem House.Windowed.carry {ctx : Context} {c : Collaborators} {call : Call} {outcome : Outcome}
    {changes : List Change} (windowed : h.Windowed) (carries : Carries h ctx c call outcome changes)
    (configured : ∀ settings, .configured settings ∈ changes →
      settings.fraudPeriod.toNat ≤ midway) : (changes.foldl Change.apply h).Windowed := by
  have kept : ∀ {id r change}, Change.round? change = some id → h.auction? id = some r →
      (change.apply h).Windowed := by
    intro id r change about found
    refine ⟨?_, windowed.rounds.apply about found ?_⟩
    · rw [Change.settings_apply about]
      exact windowed.settings
    · rw [Auction.settings_revise]
      exact windowed.rounds id r found
  cases carries with
  | change about found _ _ => exact kept about found
  | renewal about found _ _ _ =>
      have closed := kept about found
      exact ⟨closed.settings, closed.rounds.opened windowed.settings⟩
  | configured _ _ _ => exact ⟨configured _ List.mem_cons_self, windowed.rounds⟩

theorem Genesis.windowed_of_found (founded : g.found settlementGas = .ok start)
    (window : g.settings.fraudPeriod.toNat ≤ midway) : start.Windowed := by
  obtain ⟨-, rfl⟩ := found_eq_ok.mp founded
  refine ⟨window, House.Each.opened ?_ window⟩
  intro id r found
  simp [house, House.empty, House.auction?] at found

/-- Every fraud period that has been configured is at most half of the range. -/
def Shortened (past : List Served) : Prop :=
  ∀ s ∈ past, s.outcome?.isSome = true → ∀ settings,
    s.request.call = .updateSettings settings → settings.fraudPeriod.toNat ≤ midway

theorem Run.windowed (founded : g.found settlementGas = .ok start) (run : Run start past h)
    (window : g.settings.fraudPeriod.toNat ≤ midway) (shortened : Shortened past) :
    h.Windowed := by
  refine run.induct (motive := fun past h => Shortened past → h.Windowed)
    (fun _ => Genesis.windowed_of_found founded window) ?_ ?_ shortened
  · exact fun _ _ windowed shortened => windowed (List.forall_mem_cons.mp shortened).2
  · intro past h q changes outcome _ accepted grant windowed shortened
    obtain ⟨short, shortened⟩ := List.forall_mem_cons.mp shortened
    refine (windowed shortened).carry grant.carries fun settings member => ?_
    exact short (by rw [accepted]; rfl) settings (grant.updateSettings_of_configured member)

/-- While a house is young, only a live proposal without an end to its window stops a call. -/
theorem Run.dispatch_stops_iff_endless (founded : g.found settlementGas = .ok start)
    (run : Run start past h) (young : past.length < midway) (starts : g.startTime.toNat < midway)
    (times : ∀ s ∈ past, s.now.toNat < midway) {ctx : Context} {c : Collaborators} {call : Call}
    {fault : Fault} :
    (h.dispatch ctx c call).result = .error (.fault fault) ↔
      fault = .addition ∧ ∃ r, h.Reads ctx.now call r ∧ r.Endless := by
  have early := run.early founded starts times
  have coherent := run.coherent (Genesis.coherent_of_found founded)
  rw [run.dispatch_stops_iff founded]
  refine and_congr_right fun _ =>
    ⟨fun stops => ?_, fun ⟨r, reads, endless⟩ => .window reads endless⟩
  cases stops with
  | @bidding _ id r _ found unbounded =>
      have bounded := (early.rounds id r found).bounded (coherent.rounds id r found).valid
      exact absurd bounded (Nat.not_lt.mpr unbounded.2)
  | window reads endless => exact ⟨_, reads, endless⟩
  | numbers _ _ _ _ last =>
      have numbered := early.numbered
      have room : midway + 2 < UInt64.size := by decide
      omega

theorem House.Reads.exists_auction {now : UInt64} {call : Call} {r : Auction}
    (reads : h.Reads now call r) : ∃ id, h.auction? id = some r := by
  cases reads with
  | named _ found => exact ⟨_, found⟩
  | @preceding id _ _ _ _ preceding =>
      unfold previous? at preceding
      split at preceding
      · cases preceding
      · exact ⟨_, preceding⟩

/-- As long as times and calls are in the first half of the range, a call stops the program only if
it reads a live proposal whose challenge window does not end. So as long as no fraud period is
longer than the other half, no call stops it: every phase can be told at any time, and every
round that may be closed can be. -/
theorem Run.lasts_with_short_windows (founded : g.found settlementGas = .ok start)
    (run : Run start past h) (young : past.length < midway) (starts : g.startTime.toNat < midway)
    (times : ∀ s ∈ past, s.now.toNat < midway) :
    (∀ (ctx : Context) (c : Collaborators) (call : Call) (fault : Fault),
      (h.dispatch ctx c call).result = .error (.fault fault) ↔
        fault = .addition ∧ ∃ r, h.Reads ctx.now call r ∧ r.Endless) ∧
    (g.settings.fraudPeriod.toNat ≤ midway → Shortened past →
      (∀ (ctx : Context) (c : Collaborators) (call : Call), Served.Answered ⟨h, ctx, c, call⟩) ∧
      (∀ id r now, h.auction? id = some r → ∃ phase, r.phaseAt now = .ok phase) ∧
      ∀ (ctx : Context) (c : Collaborators) (id : UInt64) (r : Auction),
        h.auction? id = some r → r.Closes ctx.now → h.FreeSlot ctx.now id →
        (∃ request, c.request (Seed.randomness id r.startTime) = .ok request) →
        (h.dispatch ctx c (.snuff id)).result = .ok (.snuffed h.nextId)) := by
  have early := run.early founded starts times
  refine ⟨fun _ _ _ _ => run.dispatch_stops_iff_endless founded young starts times, ?_⟩
  intro window shortened
  have windowed := run.windowed founded window shortened
  have finite : ∀ {id r}, h.auction? id = some r → ¬ r.Endless := by
    intro id r found endless
    have long := (early.rounds id r found).window_of_endless endless
    exact absurd (windowed.rounds id r found) (Nat.not_le.mpr long)
  refine ⟨fun ctx c call fault stopped => ?_, fun id r now found => ?_, ?_⟩
  · obtain ⟨-, r, reads, endless⟩ :=
      (run.dispatch_stops_iff_endless founded young starts times).mp stopped
    obtain ⟨id, found⟩ := reads.exists_auction
    exact finite found endless
  · cases effective : r.phaseAt now with
    | ok phase => exact ⟨phase, rfl⟩
    | error fault => exact absurd (Auction.phaseAt_eq_error.mp effective).2 (finite found)
  · rintro ctx c id r found closes free ⟨answer, answered⟩
    have numbered := early.numbered
    have room : midway + 2 < UInt64.size := by decide
    have next : (UInt64.ofNat (h.nextId.toNat + 1)).toNat = h.nextId.toNat + 1 :=
      UInt64.toNat_ofNat_of_lt' (by omega)
    cases empty : (h.ledger id).isEmpty with
    | true =>
        have asks : (none : Option UInt64) = none ↔ (h.ledger id).isEmpty = true := by simp [empty]
        exact (House.dispatch_of_grants (.snuff found closes free asks nofun next)).1
    | false =>
        have asks : some answer = none ↔ (h.ledger id).isEmpty = true := by simp [empty]
        have given : ∀ request ∈ some answer,
            c.request (Seed.randomness id r.startTime) = .ok request := by
          rintro request ⟨⟩
          exact answered
        exact (House.dispatch_of_grants (.snuff found closes free asks given next)).1

/-- The bounty claim that the endless window stops is answered in the sample round. -/
theorem Run.lasts_with_short_windows_proposed :
    Sample.genesis.settings.fraudPeriod.toNat ≤ midway ∧ Shortened Sample.past ∧
      Served.Answered ⟨Sample.proposed, Sample.refunding.context, Sample.parties,
        .claimSnuffBounty 1⟩ := by
  have young : Sample.past.length < midway := by decide
  have times : ∀ s ∈ Sample.past, s.now.toNat < midway := by decide
  have shortened : Shortened Sample.past := by
    intro s member _ settings configures
    have served : ∀ s ∈ Sample.past, s.round?.isSome = true := List.all_eq_true.mp rfl
    have about := served s member
    rw [Served.round?, configures] at about
    cases about
  have window : Sample.genesis.settings.fraudPeriod.toNat ≤ midway := by decide
  have lasts := Run.lasts_with_short_windows Sample.founded Sample.run_proposed young (by decide)
    times
  exact ⟨window, shortened, (lasts.2 window shortened).1 _ _ _⟩

/-- Valid settings, early times and few calls are not enough: a proposal under the largest fraud
period stops every later call that reads the phase of its round. -/
theorem exists_stop_with_valid_settings :
    ¬ ∀ (g : Genesis) (settlementGas : UInt64) (start h : House) (past : List Served)
      (ctx : Context) (c : Collaborators) (call : Call),
      g.found settlementGas = .ok start → Run start past h → past.length + 1 < midway →
      g.startTime.toNat < midway → (∀ s ∈ past, s.now.toNat < midway) →
      ctx.now.toNat < midway → Served.Answered ⟨h, ctx, c, call⟩ := by
  intro answered
  have times : ∀ s ∈ (⟨Sample.endlessDrawn, Sample.proposing⟩ : Served) ::
      Sample.endlessOpened.served Sample.bidding, s.now.toNat < midway := by decide
  have stopped : (Sample.endless.dispatch Sample.refunding.context Sample.parties
      (.claimSnuffBounty 1)).result = .error (.fault .addition) :=
    (Run.dispatch_stops_iff Sample.endless_founded Sample.run_endless).mpr
      ⟨rfl, Sample.endless_stops rfl⟩
  exact answered _ _ _ _ _ Sample.refunding.context Sample.parties (.claimSnuffBounty 1)
    Sample.endless_founded Sample.run_endless (by decide) (by decide) times (by decide)
    .addition stopped

end CandleAuction
