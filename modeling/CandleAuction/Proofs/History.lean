import CandleAuction.Proofs.Rounds

/-!
# The history of a round

Along a run an existing round only ever moves by a change that it allows, and
is otherwise left as it is. Laws of single rounds are carried from the opening
of a round, or from any later state, through the rest of the run.
-/

namespace CandleAuction

/-- The round that a served call is about. -/
def Served.round? (s : Served) : Option UInt64 := s.house.addressee? s.request.call

/-- An accepted call of some kind about a round. -/
def Served.Does (s : Served) (kind : Call → Bool) (id : UInt64) : Prop :=
  s.round? = some id ∧ kind s.request.call = true ∧ s.outcome?.isSome = true

instance {s : Served} {kind : Call → Bool} {id : UInt64} : Decidable (s.Does kind id) :=
  inferInstanceAs (Decidable (_ ∧ _ ∧ _))

theorem Served.found_of_isSome {s : Served} {id : UInt64} (about : s.round? = some id)
    (accepted : s.outcome?.isSome = true) : ∃ r, s.house.auction? id = some r := by
  obtain ⟨changes, outcome, -, grant, -⟩ := Served.grants_of_isSome accepted
  obtain ⟨r, found, -⟩ := grant.carries.allows about
  exact ⟨r, found⟩

theorem Served.not_does_of_still {s : Served} {kind : Call → Bool} {id : UInt64}
    (still : s.round? = some id → s.outcome? = none) : ¬ s.Does kind id := by
  rintro ⟨about, -, accepted⟩
  simp [still about] at accepted

/-- What a served call makes of one round and its ledger: nothing, or one allowed change. -/
inductive Served.Moves (s : Served) (id : UInt64) (r : Auction) : Auction → Ledger → Prop
  | rest : (s.round? = some id → s.outcome? = none) →
      Moves s id r r (s.house.ledger id)
  | change {change outcome} :
      s.outcome? = some outcome → Change.round? change = some id →
      r.Allows (s.house.ledger id) s.request.context s.request.call change outcome →
      s.round? = some id →
      Moves s id r (change.revise r) (change.enter (s.house.ledger id))

theorem Served.Moves.id_eq {s : Served} {id : UInt64} {r r' : Auction} {bids' : Ledger}
    (moves : s.Moves id r r' bids') : r'.id = r.id := by
  cases moves with
  | rest _ => rfl
  | change _ _ _ => exact House.revise_id

/-- A law of every round with its ledger. -/
def House.Each (h : House) (law : Auction → Ledger → Prop) : Prop :=
  ∀ id r, h.auction? id = some r → law r (h.ledger id)

namespace House

variable {h : House} {law : Auction → Ledger → Prop} {id : UInt64} {r : Auction} {change : Change}

theorem Each.apply (each : h.Each law) (about : change.round? = some id)
    (found : h.auction? id = some r)
    (kept : law (change.revise r) (change.enter (h.ledger id))) : (change.apply h).Each law := by
  intro other r' found'
  rcases Change.auction?_apply_cases about found found' with ⟨rfl, rfl⟩ | ⟨ne, before⟩
  · rwa [Change.ledger_apply about]
  · rw [Change.ledger_apply_of_ne about ne]
    exact each other r' before

theorem Each.opened {round : Auction} {nextId : UInt64} (each : h.Each law)
    (fresh : law round #[]) : ((Change.opened round nextId).apply h).Each law := by
  intro other r' found'
  rw [Change.ledger_apply_opened]
  rcases Change.auction?_apply_opened_cases found' with ⟨rfl, rfl⟩ | ⟨ne, before⟩
  · rwa [if_pos rfl]
  · rw [if_neg ne.symm]
    exact each other r' before

end House

theorem Genesis.each_house {g : Genesis} {law : Auction → Ledger → Prop} : g.house.Each law := by
  intro id r found
  simp [house, House.empty, House.auction?] at found

variable {h start : House} {q : Request} {changes : List Change} {outcome : Outcome}
  {id : UInt64} {r : Auction} {past : List Served}

theorem Genesis.each_of_found {g : Genesis} {settlementGas : UInt64}
    {motive : Auction → Ledger → Prop} (founded : g.found settlementGas = .ok h)
    (opened : ∀ {h : House} {startTime : UInt64} {fee : FeeObservation} {gas : UInt64},
      h.Orderly → motive (h.nextRound startTime fee gas) #[]) : h.Each motive := by
  obtain ⟨none, rfl⟩ := found_eq_ok.mp founded
  exact each_house.opened (opened (orderly_house (valid_of_problem? none)))

theorem Carries.moves (carries : Carries h q.context q.parties q.call outcome changes)
    (accepted : Served.outcome? ⟨h, q⟩ = some outcome) (orderly : h.Orderly)
    (found : h.auction? id = some r) :
    ∃ r', (changes.foldl Change.apply h).auction? id = some r' ∧
      Served.Moves ⟨h, q⟩ id r r' ((changes.foldl Change.apply h).ledger id) := by
  have single : ∀ {other r' change}, Change.round? change = some other →
      h.auction? other = some r' → r'.Allows (h.ledger other) q.context q.call change outcome →
      h.addressee? q.call = some other →
      ∃ r'', (change.apply h).auction? id = some r'' ∧
        Served.Moves ⟨h, q⟩ id r r'' ((change.apply h).ledger id) := by
    intro other r' change about found' allowed addressed
    by_cases same : id = other
    · subst same
      cases found.symm.trans found'
      rw [Change.auction?_apply about found, Change.ledger_apply about]
      exact ⟨_, rfl, .change accepted about allowed addressed⟩
    · rw [Change.auction?_apply_of_ne about same, Change.ledger_apply_of_ne about same]
      refine ⟨r, found, .rest fun about' => ?_⟩
      exact absurd (Option.some.inj (about'.symm.trans addressed)) same
  cases carries with
  | change about found' allowed addressed => exact single about found' allowed addressed
  | renewal about found' allowed _ addressed =>
      have ne : h.nextId ≠ id := by
        rintro rfl
        exact absurd (orderly.numbered found).2 (Nat.lt_irrefl _)
      rw [List.foldl_cons, List.foldl_cons, List.foldl_nil, Change.auction?_apply_opened,
        Change.ledger_apply_opened, House.nextRound_id, if_neg ne, if_neg ne]
      exact single about found' allowed addressed
  | configured _ _ unaddressed =>
      exact ⟨r, found, .rest fun about => nomatch about.symm.trans unaddressed⟩

theorem Carries.opened (carries : Carries h q.context q.parties q.call outcome changes)
    (missing : h.auction? id = none)
    (found : (changes.foldl Change.apply h).auction? id = some r) :
    (∃ startTime fee gas, r = h.nextRound startTime fee gas) ∧
      (changes.foldl Change.apply h).ledger id = #[] := by
  cases carries with
  | @change other _ _ about found' _ =>
      have ne : id ≠ other := by
        rintro rfl
        simp [missing] at found'
      rw [List.foldl_cons, List.foldl_nil, Change.auction?_apply_of_ne about ne, missing] at found
      cases found
  | @renewal other _ _ _ about found' _ _ =>
      have ne : id ≠ other := by
        rintro rfl
        simp [missing] at found'
      rw [List.foldl_cons, List.foldl_cons, List.foldl_nil, Change.auction?_apply_opened,
        Change.auction?_apply_of_ne about ne, missing] at found
      rw [List.foldl_cons, List.foldl_cons, List.foldl_nil, Change.ledger_apply_opened]
      split at found
      · rename_i number
        cases found
        exact ⟨⟨_, _, _, rfl⟩, if_pos number⟩
      · cases found
  | configured _ _ =>
      rw [List.foldl_cons, List.foldl_nil] at found
      exact absurd (missing.symm.trans found) (Option.some_ne_none r).symm

namespace Served

variable {s : Served}

theorem Answered.moves (answered : s.Answered) (orderly : s.house.Orderly)
    (found : s.house.auction? id = some r) :
    ∃ r', s.receipt.house.auction? id = some r' ∧
      s.Moves id r r' (s.receipt.house.ledger id) := by
  rcases answered.cases with ⟨refused, same⟩ | ⟨changes, outcome, accepted, grant, after⟩
  · rw [same]
    exact ⟨r, found, .rest fun _ => refused⟩
  · rw [after]
    exact grant.carries.moves accepted orderly found

theorem Answered.opened (answered : s.Answered) (missing : s.house.auction? id = none)
    (found : s.receipt.house.auction? id = some r) :
    (∃ startTime fee gas, r = s.house.nextRound startTime fee gas) ∧
      s.receipt.house.ledger id = #[] := by
  rcases answered.cases with ⟨-, same⟩ | ⟨changes, outcome, accepted, grant, after⟩
  · rw [same, missing] at found
    cases found
  · rw [after] at found ⊢
    exact grant.carries.opened missing found

end Served

namespace Run

theorem orderly (run : Run start past h) (initial : start.Orderly) : h.Orderly :=
  run.invariant initial fun grant holds => holds.carry grant.carries

theorem numbered (run : Run start past h) (orderly : start.Orderly)
    (found : h.auction? id = some r) : r.id = id := ((run.orderly orderly).numbered found).1

/-- A law of one round, from any state in which the round exists. -/
theorem follow {motive : List Served → Auction → Ledger → Prop} (run : Run start past h)
    (orderly : start.Orderly) (found : start.auction? id = some r)
    (initial : motive [] r (start.ledger id))
    (step : ∀ {past : List Served} {s : Served} {r r' : Auction} {bids' : Ledger},
      Run start past s.house → s.house.auction? id = some r → s.Moves id r r' bids' →
      motive past r (s.house.ledger id) → motive (s :: past) r' bids') :
    ∃ r', h.auction? id = some r' ∧ motive past r' (h.ledger id) := by
  refine run.induct (motive := fun past h => ∃ r', h.auction? id = some r' ∧
    motive past r' (h.ledger id)) ⟨r, found, initial⟩ ?_ ?_
  · rintro past h q run refused ⟨r, found, holds⟩
    exact ⟨r, found, step (s := ⟨h, q⟩) run found (.rest fun _ => refused) holds⟩
  · rintro past h q changes outcome run accepted grant ⟨r, found, holds⟩
    obtain ⟨r', found', moves⟩ := grant.carries.moves accepted (run.orderly orderly) found
    exact ⟨r', found', step run found moves holds⟩

theorem exists_auction (run : Run start past h) (orderly : start.Orderly)
    (found : start.auction? id = some r) : ∃ r', h.auction? id = some r' := by
  obtain ⟨r', found', -⟩ := run.follow (motive := fun _ _ _ => True) orderly found trivial
    fun _ _ _ _ => trivial
  exact ⟨r', found'⟩

theorem exists_auction_of_mem {s : Served} (run : Run start past h) (orderly : start.Orderly)
    (member : s ∈ past) (about : s.round? = some id) (accepted : s.outcome?.isSome = true) :
    ∃ r, h.auction? id = some r := by
  obtain ⟨newer, older, rfl⟩ := List.append_of_mem member
  obtain ⟨r, found⟩ := Served.found_of_isSome about accepted
  exact run.since.exists_auction (run.before.orderly orderly) found

/-- A law of all rounds, from the opening of each. No call accepted before is about it. -/
theorem each {motive : List Served → Auction → Ledger → Prop} (run : Run start past h)
    (initially : start.Orderly) (initial : start.Each (motive []))
    (opened : ∀ {past : List Served} {h : House} {startTime : UInt64} {fee : FeeObservation}
      {gas : UInt64}, h.Orderly → (∀ s ∈ past, s.round? = some h.nextId → s.outcome? = none) →
      motive past (h.nextRound startTime fee gas) #[])
    (step : ∀ {past : List Served} {s : Served} {id : UInt64} {r r' : Auction} {bids' : Ledger},
      Run start past s.house → s.house.auction? id = some r → s.Moves id r r' bids' →
      motive past r (s.house.ledger id) → motive (s :: past) r' bids') :
    h.Each (motive past) := by
  refine run.induct (motive := fun past h => h.Each (motive past)) initial ?_ ?_
  · intro past h q run refused holds id r found
    exact step (s := ⟨h, q⟩) run found (.rest fun _ => refused) (holds id r found)
  · intro past h q changes outcome run accepted grant holds id r' found'
    have orderly := run.orderly initially
    cases found : h.auction? id with
    | none =>
        obtain ⟨⟨startTime, fee, gas, rfl⟩, empty⟩ := grant.carries.opened found found'
        rw [empty]
        refine opened orderly (List.forall_mem_cons.mpr ⟨fun about => ?_, fun s member about => ?_⟩)
        · obtain ⟨r, used⟩ := Served.found_of_isSome about (by rw [accepted]; rfl)
          exact absurd (orderly.unused.symm.trans used) nofun
        · refine Option.not_isSome_iff_eq_none.mp fun taken => ?_
          obtain ⟨r, used⟩ := run.exists_auction_of_mem initially member about taken
          exact absurd (orderly.unused.symm.trans used) nofun
    | some r =>
        obtain ⟨_, again, moves⟩ := grant.carries.moves accepted orderly found
        cases found'.symm.trans again
        exact step run found moves (holds id r found)

end Run

end CandleAuction
