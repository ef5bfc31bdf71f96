import CandleAuction.Proofs.Rules.Faults
import CandleAuction.Query
import Mathlib.Algebra.Order.Floor.Div

/-!
# The minimum bid

A round asks at least for the settlement of one item, rounded up to a multiple
of the bid precision. Where some multiple covers that cost the least one is
asked for, and taken. Where none does the largest amount is asked for, which is
no multiple, and the round takes no bid at all.
-/

namespace CandleAuction

theorem toNat_max (x y : UInt64) : (max x y).toNat = max x.toNat y.toNat := by
  change (if x ≤ y then y else x).toNat = _
  split <;> rename_i order <;> rw [UInt64.le_iff_toNat_le] at order <;> omega

namespace Settings

variable {s : Settings} {cost amount : UInt64}

/-- Some amount that may be bid covers the cost. -/
def Covers (s : Settings) (cost : UInt64) : Prop := ∃ amount, s.Precise amount ∧ cost ≤ amount

/-- The least number of units that covers the cost. -/
def unitsFor (s : Settings) (cost : UInt64) : Nat := cost.toNat ⌈/⌉ s.bidPrecision.toNat

theorem unitsFor_le_iff (unit : 0 < s.bidPrecision.toNat) {units : Nat} :
    s.unitsFor cost ≤ units ↔ cost.toNat ≤ units * s.bidPrecision.toNat := by
  rw [unitsFor, ceilDiv_le_iff_le_mul unit, Nat.mul_comm]

theorem roundUp_toNat (unit : 0 < s.bidPrecision.toNat) :
    (s.roundUp cost).toNat =
      max (min (s.unitsFor cost * s.bidPrecision.toNat) (UInt64.size - 1))
        s.bidPrecision.toNat := by
  have whole : (max s.bidPrecision 1).toNat = s.bidPrecision.toNat := by
    rw [toNat_max, UInt64.toNat_one, Nat.max_eq_left unit]
  have few : s.unitsFor cost ≤ cost.toNat :=
    (unitsFor_le_iff unit).mpr (Nat.le_mul_of_pos_right _ unit)
  have fits := UInt64.toNat_ofNat_of_lt' (Nat.lt_of_le_of_lt few cost.toNat_lt)
  rw [roundUp, toNat_max, saturatingMul_toNat, whole, ← Nat.ceilDiv_eq_add_pred_div, ← unitsFor,
    fits]

theorem le_roundUp (unit : 0 < s.bidPrecision.toNat) : cost ≤ s.roundUp cost := by
  have enough := (@unitsFor_le_iff s cost unit _).mp (Nat.le_refl _)
  have bound := cost.toNat_lt
  rw [UInt64.le_iff_toNat_le, roundUp_toNat unit]
  simp only [UInt64.size]
  omega

theorem Precise.unitsFor_mul_le (precise : s.Precise amount) (enough : cost ≤ amount) :
    s.unitsFor cost * s.bidPrecision.toNat ≤ amount.toNat := by
  obtain ⟨units, multiple⟩ := precise.multiple
  rw [Nat.mul_comm] at multiple
  have few := (unitsFor_le_iff precise.unit).mpr (multiple ▸ UInt64.le_iff_toNat_le.mp enough)
  exact multiple ▸ Nat.mul_le_mul_right _ few

theorem Precise.roundUp_le (precise : s.Precise amount) (enough : cost ≤ amount) :
    s.roundUp cost ≤ amount := by
  have units := precise.unitsFor_mul_le enough
  have single := Nat.le_of_dvd precise.positive precise.multiple
  rw [UInt64.le_iff_toNat_le, roundUp_toNat precise.unit]
  omega

theorem precise_roundUp (unit : 0 < s.bidPrecision.toNat)
    (fits : s.unitsFor cost * s.bidPrecision.toNat ≤ UInt64.size - 1) :
    s.Precise (s.roundUp cost) := by
  have exact := @roundUp_toNat s cost unit
  rw [Nat.min_eq_left fits] at exact
  refine ⟨exact ▸ lt_of_lt_of_le unit (Nat.le_max_right _ _), unit, exact ▸ ?_⟩
  rcases Nat.le_total (s.unitsFor cost * s.bidPrecision.toNat) s.bidPrecision.toNat with le | le
  · rw [Nat.max_eq_right le]
  · rw [Nat.max_eq_left le]
    exact Nat.dvd_mul_left _ _

/-- Rounding up gives an amount that may be bid exactly if some such amount covers the cost. -/
theorem precise_roundUp_iff (unit : 0 < s.bidPrecision.toNat) :
    s.Precise (s.roundUp cost) ↔ s.Covers cost := by
  constructor
  · exact fun precise => ⟨_, precise, le_roundUp unit⟩
  · rintro ⟨amount, precise, enough⟩
    exact precise_roundUp unit
      (Nat.le_sub_one_of_lt (Nat.lt_of_le_of_lt (precise.unitsFor_mul_le enough) amount.toNat_lt))

theorem covers_of_le (unit : 0 < s.bidPrecision.toNat)
    (below : cost.toNat + s.bidPrecision.toNat ≤ UInt64.size) : s.Covers cost := by
  have units : s.unitsFor cost * s.bidPrecision.toNat ≤ cost.toNat + s.bidPrecision.toNat - 1 :=
    Nat.div_mul_le_self _ _
  exact (precise_roundUp_iff unit).mp (precise_roundUp unit (by omega))

/-- Where nothing that may be bid covers the cost, rounding up ends at the largest amount. -/
theorem roundUp_of_not_covers (unit : 0 < s.bidPrecision.toNat) (short : ¬ s.Covers cost) :
    (s.roundUp cost).toNat = UInt64.size - 1 := by
  have large : ¬ s.unitsFor cost * s.bidPrecision.toNat ≤ UInt64.size - 1 :=
    fun fits => short ((precise_roundUp_iff unit).mp (precise_roundUp unit fits))
  have bound := s.bidPrecision.toNat_lt
  rw [roundUp_toNat unit]
  simp only [UInt64.size] at large ⊢
  omega

end Settings

namespace Auction

variable {r : Auction} {bids : Ledger} {ctx : Context} {amount : UInt64}

/-- The round was opened with the cost of one settlement, at its gas price, for its minimum. -/
def PricedAt (r : Auction) (gas : UInt64) : Prop :=
  r.minBid = r.settings.roundUp (saturatingMul r.fee.gasPrice gas)

theorem PricedAt.of_origin {r' : Auction} {gas : UInt64} (priced : r.PricedAt gas)
    (same : r'.origin = r.origin) : r'.PricedAt gas := by
  have minBid : r'.minBid = r.minBid := (congrArg Auction.minBid same :)
  have settings : r'.settings = r.settings := (congrArg Auction.settings same :)
  have fee : r'.fee = r.fee := (congrArg Auction.fee same :)
  rw [PricedAt, minBid, settings, fee]
  exact priced

theorem OpenAt.exists_takesBid (isOpen : r.OpenAt ctx.now) (valid : r.settings.Valid)
    (room : bids.size < r.settings.indexWidth.capacity) (value : ctx.value = amount)
    (precise : r.settings.Precise amount) (enough : r.minBid ≤ amount)
    (fits : r.proceeds.toNat + amount.toNat < UInt64.size) :
    ∃ timestamp proceeds, r.TakesBid bids ctx amount timestamp proceeds := by
  have ahead := isOpen.ahead
  have short := valid.duration_lt
  have timed : (UInt32.ofNat (ctx.now.toNat - r.startTime.toNat)).toNat =
      ctx.now.toNat - r.startTime.toNat := UInt32.toNat_ofNat_of_lt' (by omega)
  exact ⟨_, _, isOpen, value, precise, enough, room, timed, UInt64.toNat_ofNat_of_lt' fits⟩

end Auction

namespace House

variable {h : House} {ctx : Context} {c : Collaborators} {id amount : UInt64} {r : Auction}

theorem Coherent.placeBid_rejected (coherent : h.Coherent) (found : h.auction? id = some r)
    (isOpen : r.OpenAt ctx.now)
    (refused : ∀ timestamp proceeds,
      ¬ r.TakesBid (h.ledger id) ctx amount timestamp proceeds) :
    ∃ rejection, (h.dispatch ctx c (.placeBid id amount)).result =
      .error (.rejected rejection) := by
  cases planned : h.placeBid ctx id amount with
  | ok plan =>
      obtain ⟨_, timestamp, proceeds, again, takes, -⟩ := placeBid_eq_ok.mp planned
      cases found.symm.trans again
      exact absurd takes (refused timestamp proceeds)
  | error halt =>
      cases halt with
      | rejected rejection => exact ⟨rejection, dispatch_of_refusal planned⟩
      | fault fault =>
          obtain ⟨-, _, again, endless | unbounded⟩ := (placeBid_eq_fault coherent).mp planned
          · cases found.symm.trans again
            cases isOpen.running.symm.trans endless.1
          · cases found.symm.trans again
            exact absurd isOpen.fits (Nat.not_lt.mpr unbounded.2)

end House

/-- What a settlement was said to cost in gas, with each call and at the foundation. -/
def estimates (settlementGas : UInt64) (past : List Served) : List UInt64 :=
  past.map (fun s => s.request.parties.settlementGas) ++ [settlementGas]

namespace Run

variable {g : Genesis} {settlementGas : UInt64} {start h : House} {past : List Served}

theorem priced (founded : g.found settlementGas = .ok start) (run : Run start past h) :
    h.Each fun r _ => ∃ gas ∈ estimates settlementGas past, r.PricedAt gas := by
  have initially := Genesis.orderly_of_found founded
  refine run.induct (motive := fun past h => h.Each fun r _ =>
    ∃ gas ∈ estimates settlementGas past, r.PricedAt gas) ?_ ?_ ?_
  · obtain ⟨-, rfl⟩ := Genesis.found_eq_ok.mp founded
    exact Genesis.each_house.opened ⟨settlementGas, List.mem_singleton_self _, rfl⟩
  · intro past h q run refused priced id r found
    obtain ⟨gas, given, priced⟩ := priced id r found
    exact ⟨gas, List.mem_cons_of_mem _ given, priced⟩
  · intro past h q changes outcome run accepted grant priced
    have still : h.Each fun r _ => ∃ gas ∈ estimates settlementGas (⟨h, q⟩ :: past),
        r.PricedAt gas := by
      intro id r found
      obtain ⟨gas, given, priced⟩ := priced id r found
      exact ⟨gas, List.mem_cons_of_mem _ given, priced⟩
    cases grant.carries with
    | change about found _ _ =>
        obtain ⟨gas, given, priced⟩ := still _ _ found
        exact still.apply about found ⟨gas, given, priced.of_origin Change.origin_revise⟩
    | renewal about found _ _ _ =>
        obtain ⟨gas, given, priced⟩ := still _ _ found
        exact (still.apply about found
          ⟨gas, given, priced.of_origin Change.origin_revise⟩).opened
          ⟨q.parties.settlementGas, List.mem_cons_self, rfl⟩
    | configured _ _ _ => exact still

/-- The minimum of a round that takes bids is the least amount that covers its settlement cost and
may be bid, if there is one: the cost is that of one settlement at the gas price of the round, by
an estimate given when it was opened. Then a bid of the minimum is taken, as long as the proceeds
have room for it. Otherwise the minimum is the largest amount there is, and no bid is taken. In
either case every smaller bid is rejected. -/
theorem minimum_is_least_bid (founded : g.found settlementGas = .ok start)
    (run : Run start past h) {id now deadline : UInt64} {r : Auction}
    (found : h.auction? id = some r) (running : r.phaseAt now = .ok .running)
    (due : r.deadline = .ok deadline) (ahead : now < deadline)
    (room : (h.ledger id).size < r.settings.indexWidth.capacity) :
    h.minBid? id = some r.minBid ∧
    (∀ ctx c amount, ctx.now = now → amount < r.minBid →
      ∃ rejection, (h.dispatch ctx c (.placeBid id amount)).result =
        .error (.rejected rejection)) ∧
    ∃ gas ∈ estimates settlementGas past, ∃ cost, cost = saturatingMul r.fee.gasPrice gas ∧
      (cost.toNat + r.settings.bidPrecision.toNat ≤ UInt64.size → r.settings.Covers cost) ∧
      (r.settings.Covers cost →
        r.settings.Precise r.minBid ∧ cost ≤ r.minBid ∧
        (∀ amount, r.settings.Precise amount → cost ≤ amount → r.minBid ≤ amount) ∧
        (r.proceeds.toNat + r.minBid.toNat < UInt64.size →
          ∀ ctx c, ctx.now = now → ctx.value = r.minBid →
            (h.dispatch ctx c (.placeBid id r.minBid)).result =
              .ok (.bidPlaced (UInt32.ofNat (h.ledger id).size)))) ∧
      (¬ r.settings.Covers cost →
        r.minBid.toNat = UInt64.size - 1 ∧
        ∀ ctx c amount, ctx.now = now →
          ∃ rejection, (h.dispatch ctx c (.placeBid id amount)).result =
            .error (.rejected rejection)) := by
  have coherent := run.coherent (Genesis.coherent_of_found founded)
  have valid := (coherent.rounds id r found).valid
  have unit := UInt64.pos_iff_ne_zero.mpr valid.precision_ne
  have sum := Auction.deadline_eq_ok.mp due
  have isOpen : r.OpenAt now :=
    ⟨(Auction.phaseAt_eq_running.mp running).1, (Auction.phaseAt_eq_running.mp running).2,
      sum ▸ UInt64.lt_iff_toNat_lt.mp ahead, sum ▸ deadline.toNat_lt⟩
  obtain ⟨gas, given, priced⟩ := run.priced founded id r found
  refine ⟨by rw [House.minBid?, found]; rfl, ?_, gas, given, _, rfl,
    Settings.covers_of_le unit, fun covers => ?_, fun short => ?_⟩
  · rintro ctx c amount rfl less
    exact coherent.placeBid_rejected found isOpen
      fun _ _ takes => UInt64.lt_irrefl _ (UInt64.lt_of_lt_of_le less takes.enough)
  · have precise := (Settings.precise_roundUp_iff unit).mpr covers
    rw [← priced] at precise
    refine ⟨precise, priced ▸ Settings.le_roundUp unit,
      fun amount precise enough => priced ▸ precise.roundUp_le enough, ?_⟩
    rintro fits ctx c rfl value
    obtain ⟨timestamp, proceeds, takes⟩ :=
      isOpen.exists_takesBid valid room value precise (UInt64.le_refl _) fits
    exact (House.dispatch_of_grants (.placeBid found takes)).1
  · refine ⟨priced ▸ Settings.roundUp_of_not_covers unit short, ?_⟩
    rintro ctx c amount rfl
    refine coherent.placeBid_rejected found isOpen fun _ _ takes =>
      short ⟨amount, takes.precise, ?_⟩
    exact UInt64.le_trans (priced ▸ Settings.le_roundUp unit) takes.enough

end Run

/-! The sample house, founded with two other estimates of what a settlement takes. -/

namespace Sample

def pricedOpened : House := (genesis.firstRound 1500).apply genesis.house

/-- The first round, whose settlement costs one unit and a half. -/
def pricedRound : Auction :=
  .opening 1 0 { Settings.standard with maxWinners := 1 } 2000 ⟨1, 0⟩

def dearOpened : House := (genesis.firstRound 0xFFFFFFFFFFFFFFFF).apply genesis.house

/-- The first round, whose settlement costs all there is. -/
def dearRound : Auction :=
  .opening 1 0 { Settings.standard with maxWinners := 1 } 0xFFFFFFFFFFFFFFFF ⟨1, 0⟩

def minimumBid : Request := request 4 10 2000 (.placeBid 1 2000)

def dearBid : Request := request 4 10 0xFFFFFFFFFFFFFFFF (.placeBid 1 0xFFFFFFFFFFFFFFFF)

end Sample

/-- A round whose settlement costs one unit and a half takes a bid of two units. -/
theorem Run.minimum_is_least_bid_rounded :
    Sample.genesis.found 1500 = .ok Sample.pricedOpened ∧
      Sample.pricedOpened.auction? 1 = some Sample.pricedRound ∧
      Sample.pricedRound.phaseAt 10 = .ok .running ∧
      Sample.pricedRound.deadline = .ok 259200 ∧ Sample.pricedRound.minBid = 2000 ∧
      (Sample.pricedOpened.dispatch Sample.minimumBid.context Sample.parties
        (.placeBid 1 2000)).result = .ok (.bidPlaced 0) := by
  have founded : Sample.genesis.found 1500 = .ok Sample.pricedOpened := rfl
  have found : Sample.pricedOpened.auction? 1 = some Sample.pricedRound := rfl
  have running : Sample.pricedRound.phaseAt 10 = .ok .running := rfl
  have due : Sample.pricedRound.deadline = .ok 259200 := rfl
  obtain ⟨-, -, gas, given, cost, rfl, covered, taken, -⟩ :=
    Run.minimum_is_least_bid founded .start found running due (by decide) (by decide)
  obtain rfl := List.mem_singleton.mp given
  exact ⟨founded, found, running, due, rfl,
    (taken (covered (by decide))).2.2.2 (by decide) _ _ rfl rfl⟩

/-- The minimum is not always a bid that is taken: a cost that no multiple of the precision covers
makes it a bid of the wrong precision. -/
theorem exists_unbiddable_minimum :
    ¬ ∀ (g : Genesis) (settlementGas : UInt64) (start h : House) (past : List Served)
      (ctx : Context) (c : Collaborators) (id deadline : UInt64) (r : Auction),
      g.found settlementGas = .ok start → Run start past h → h.auction? id = some r →
      r.phaseAt ctx.now = .ok .running → r.deadline = .ok deadline → ctx.now < deadline →
      (h.ledger id).size < r.settings.indexWidth.capacity →
      r.proceeds.toNat + r.minBid.toNat < UInt64.size → ctx.value = r.minBid →
      ∃ outcome, (h.dispatch ctx c (.placeBid id r.minBid)).result = .ok outcome := by
  intro taken
  have founded : Sample.genesis.found 0xFFFFFFFFFFFFFFFF = .ok Sample.dearOpened := rfl
  have found : Sample.dearOpened.auction? 1 = some Sample.dearRound := rfl
  have rejected : (Sample.dearOpened.dispatch Sample.dearBid.context Sample.parties
      (.placeBid 1 Sample.dearRound.minBid)).result =
        .error (.rejected (.invalidPrecision 0xFFFFFFFFFFFFFFFF 1000)) := rfl
  obtain ⟨outcome, accepted⟩ := taken _ _ _ _ _ Sample.dearBid.context Sample.parties 1 259200 _
    founded .start found rfl rfl (by decide) (by decide) (by decide) rfl
  cases rejected.symm.trans accepted

end CandleAuction
