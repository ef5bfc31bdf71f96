import CandleAuction.Proofs.Overflow
import CandleAuction.Proofs.Query
import Mathlib.Algebra.Order.Floor.Div

/-!
# Pages and listings

The pages of a ledger, one after the other, are the ledger, and whatever comes
after the last of them is empty. A listing goes through the rounds by ascending
number and summarizes each once. It comes to an end unless it meets a round that
is still running and whose deadline no word holds.
-/

namespace CandleAuction

theorem mapM_eq_ok {α β : Type} {f : α → Except Fault β} {items : List α} {results : List β} :
    items.mapM f = .ok results ↔
      List.Forall₂ (fun item result => f item = .ok result) items results := by
  induction items generalizing results with
  | nil => cases results <;> simp [pure, Except.pure]
  | cons item rest inductionHypothesis =>
      rw [List.mapM_cons]
      cases first : f item with
      | error fault => simp [bind, Except.bind, List.forall₂_cons_left_iff, first]
      | ok result =>
          cases others : rest.mapM f with
          | error fault =>
              simp [bind, Except.bind, List.forall₂_cons_left_iff, ← inductionHypothesis, others]
          | ok results =>
              simp [bind, Except.bind, pure, Except.pure, List.forall₂_cons_left_iff, first,
                ← inductionHypothesis, others, eq_comm]

theorem mapM_eq_error {α β : Type} {f : α → Except Fault β} {items : List α} {fault : Fault}
    (alike : ∀ item cause, f item = .error cause → cause = fault) {cause : Fault} :
    items.mapM f = .error cause ↔ cause = fault ∧ ∃ item ∈ items, f item = .error fault := by
  induction items with
  | nil => simp [pure, Except.pure]
  | cons item rest inductionHypothesis =>
      rw [List.mapM_cons]
      cases first : f item with
      | error cause' =>
          cases alike item cause' first
          simp [bind, Except.bind, first, eq_comm]
      | ok result =>
          simp only [List.exists_mem_cons_iff, first, reduceCtorEq, false_or,
            ← inductionHypothesis]
          cases others : rest.mapM f <;> simp [bind, Except.bind, pure, Except.pure]

theorem IndexWidth.capacity_lt (width : IndexWidth) : width.capacity < UInt64.size := by
  cases width <;> decide

theorem flatMap_take_drop {α : Type} (items : List α) (size count : Nat) :
    ((List.range count).flatMap fun page => (items.drop (page * size)).take size) =
      items.take (count * size) := by
  induction count with
  | zero => simp
  | succ count inductionHypothesis =>
      rw [List.range_succ, List.flatMap_append, inductionHypothesis, Nat.succ_mul, List.take_add]
      simp

namespace Ledger

variable {bids : Ledger} {number limit : UInt64}

/-- How many pages a ledger fills, the last one perhaps in part. -/
def pageCount (bids : Ledger) (limit : UInt64) : Nat := bids.size ⌈/⌉ limit.toNat

theorem pageCount_le_iff (positive : limit ≠ 0) {count : Nat} :
    bids.pageCount limit ≤ count ↔ bids.size ≤ count * limit.toNat := by
  rw [pageCount, ceilDiv_le_iff_le_mul (UInt64.pos_iff_ne_zero.mpr positive), Nat.mul_comm]

@[simp]
theorem page_zero : bids.page number 0 = bids := rfl

theorem page_toList (positive : limit ≠ 0) :
    (bids.page number limit).toList =
      (bids.toList.drop (saturatingMul number limit).toNat).take limit.toNat := by
  simp [page, positive]

/-- The pages that a ledger fills are the ledger, in its order. -/
theorem flatMap_page (positive : limit ≠ 0) (counted : bids.size < UInt64.size) :
    ((List.range (bids.pageCount limit)).flatMap fun number =>
      (bids.page (UInt64.ofNat number) limit).toList) = bids.toList := by
  have whole : bids.size ≤ bids.pageCount limit * limit.toNat :=
    (pageCount_le_iff positive).mp (Nat.le_refl _)
  have stretch : ∀ number ∈ List.range (bids.pageCount limit),
      (bids.page (UInt64.ofNat number) limit).toList =
        (bids.toList.drop (number * limit.toNat)).take limit.toNat := by
    intro number listed
    have within : number * limit.toNat < bids.size :=
      Nat.lt_of_not_le fun le => absurd ((pageCount_le_iff positive).mpr le)
        (Nat.not_le.mpr (List.mem_range.mp listed))
    have small : number ≤ number * limit.toNat :=
      Nat.le_mul_of_pos_right _ (UInt64.pos_iff_ne_zero.mpr positive)
    rw [page_toList positive, saturatingMul_toNat, UInt64.toNat_ofNat_of_lt' (by omega),
      Nat.min_eq_left (by omega)]
  rw [List.flatMap_congr stretch, flatMap_take_drop]
  exact List.take_of_length_le whole

theorem page_eq_empty (positive : limit ≠ 0) (counted : bids.size < UInt64.size)
    (past : bids.pageCount limit ≤ number.toNat) : bids.page number limit = #[] := by
  have past := (pageCount_le_iff positive).mp past
  have start : bids.size ≤ (saturatingMul number limit).toNat := by
    rw [saturatingMul_toNat]
    omega
  rw [← Array.toList_inj, page_toList positive, List.drop_eq_nil_of_le start, List.take_nil]

end Ledger

/-- A summary that is true of a round and its ledger. -/
structure Summary.Describes (s : Summary) (r : Auction) (bids : Ledger) : Prop where
  auction : s.auction = r.id
  phase : s.phase = r.phase
  startTime : s.startTime = r.startTime
  deadline : s.deadline.toNat = r.startTime.toNat + r.settings.duration.toNat
  minBid : s.minBid = r.minBid
  bidCount : s.bidCount.toNat = bids.size
  proceeds : s.proceeds = r.proceeds

namespace Auction

variable {r : Auction} {bids : Ledger}

theorem describes_of_summary {s : Summary} (counted : bids.size < UInt64.size)
    (summarized : r.summary (UInt64.ofNat bids.size) = .ok s) : s.Describes r bids := by
  unfold summary at summarized
  cases due : r.deadline with
  | error fault =>
      rw [due] at summarized
      cases summarized
  | ok deadline =>
      rw [due] at summarized
      cases summarized
      exact ⟨rfl, rfl, rfl, deadline_eq_ok.mp due, rfl, UInt64.toNat_ofNat_of_lt' counted, rfl⟩

theorem summary_eq_error {bidCount : UInt64} {fault : Fault} :
    r.summary bidCount = .error fault ↔ fault = .addition ∧ ¬ r.Bounded := by
  rw [Bounded, Nat.not_lt, ← deadline_eq_error, summary]
  cases r.deadline <;> simp [bind, Except.bind, pure, Except.pure]

end Auction

namespace House

variable {h : House} {offset limit : UInt64} {first rest : UInt64}

/-- The rounds that a listing goes through. -/
def listed (h : House) (offset limit : UInt64) : List Auction :=
  (h.rounds.drop offset.toNat).take limit.toNat

theorem summaries_eq : h.summaries offset limit =
    (h.listed offset limit).mapM fun r => r.summary (UInt64.ofNat (h.ledger r.id).size) := rfl

theorem listed_append (fits : first.toNat + rest.toNat < UInt64.size) :
    h.listed 0 (first + rest) = h.listed 0 first ++ h.listed first rest := by
  rw [listed, listed, listed, UInt64.toNat_add, Nat.mod_eq_of_lt fits, UInt64.toNat_zero,
    List.drop_zero, List.take_add]

theorem summaries_append (fits : first.toNat + rest.toNat < UInt64.size) :
    (do return (← h.summaries 0 first) ++ (← h.summaries first rest)) =
      h.summaries 0 (first + rest) := by
  rw [summaries_eq, summaries_eq, summaries_eq, listed_append fits, List.mapM_append]

theorem describes_of_summaries {summaries : List Summary}
    (counted : ∀ r ∈ h.listed offset limit, (h.ledger r.id).size < UInt64.size)
    (complete : h.summaries offset limit = .ok summaries) :
    List.Forall₂ (fun r s => s.Describes r (h.ledger r.id)) (h.listed offset limit) summaries := by
  have each := mapM_eq_ok.mp (summaries_eq.symm.trans complete)
  refine ((List.forall₂_and_left _ _).mpr ⟨counted, each⟩).imp ?_
  rintro r s ⟨counted, summarized⟩
  exact Auction.describes_of_summary counted summarized

theorem auctions_of_describes {rounds : List Auction} {summaries : List Summary}
    (describes : List.Forall₂ (fun r s => s.Describes r (h.ledger r.id)) rounds summaries) :
    summaries.map Summary.auction = rounds.map Auction.id := by
  have named : List.Forall₂ (fun r s => r.id = s.auction) rounds summaries :=
    describes.imp fun _ _ described => described.auction.symm
  rw [← List.forall₂_eq_eq_eq, List.forall₂_map_left_iff, List.forall₂_map_right_iff]
  exact (named.imp fun _ _ same => same.symm).flip

theorem summaries_eq_error {fault : Fault} :
    h.summaries offset limit = .error fault ↔
      fault = .addition ∧ ∃ r ∈ h.listed offset limit, ¬ r.Bounded := by
  rw [summaries_eq, mapM_eq_error fun r _ stopped => (Auction.summary_eq_error.mp stopped).1]
  simp only [Auction.summary_eq_error, true_and]

theorem Orderly.listed_ascending (orderly : h.Orderly) :
    (h.listed offset limit).Pairwise fun a b => a.id < b.id :=
  (rounds_ascending orderly).sublist ((List.take_sublist _ _).trans (List.drop_sublist _ _))

theorem Orderly.mem_rounds_iff (orderly : h.Orderly) {id : UInt64} {r : Auction} :
    r ∈ h.rounds ∧ r.id = id ↔ h.auction? id = some r := by
  rw [mem_rounds]
  constructor
  · rintro ⟨⟨key, found⟩, rfl⟩
    rwa [(orderly.numbered found).1]
  · intro found
    exact ⟨⟨id, found⟩, (orderly.numbered found).1⟩

theorem Orderly.auction?_of_mem_listed (orderly : h.Orderly) {r : Auction}
    (member : r ∈ h.listed offset limit) : h.auction? r.id = some r :=
  orderly.mem_rounds_iff.mp ⟨List.mem_of_mem_drop (List.mem_of_mem_take member), rfl⟩

/-- A listing that meets no unbounded round gives a true summary of each, by ascending number. -/
theorem Coherent.exists_summaries (coherent : h.Coherent)
    (bounded : ∀ r ∈ h.listed offset limit, r.Bounded) :
    ∃ summaries, h.summaries offset limit = .ok summaries ∧
      (summaries.map Summary.auction).Pairwise (· < ·) ∧
      List.Forall₂ (fun r s => s.Describes r (h.ledger r.id)) (h.listed offset limit)
        summaries := by
  have orderly := coherent.toOrderly
  cases listed : h.summaries offset limit with
  | error fault =>
      obtain ⟨-, r, member, unbounded⟩ := summaries_eq_error.mp listed
      exact absurd (bounded r member) unbounded
  | ok summaries =>
      have counted : ∀ r ∈ h.listed offset limit, (h.ledger r.id).size < UInt64.size := by
        intro r member
        have room := (coherent.rounds r.id r (orderly.auction?_of_mem_listed member)).room
        exact Nat.lt_of_le_of_lt room r.settings.indexWidth.capacity_lt
      have describes := describes_of_summaries counted listed
      refine ⟨summaries, rfl, ?_, describes⟩
      rw [auctions_of_describes describes, List.pairwise_map]
      exact orderly.listed_ascending

end House

namespace Run

variable {g : Genesis} {settlementGas : UInt64} {start h : House} {past : List Served}

/-- Paging loses and repeats nothing. The pages that a ledger fills are the ledger in its order,
which is also what a limit of zero gives, and all pages after them are empty. All rounds are listed
by ascending number, each with one true summary, and two listings of which the second goes on from
the end of the first are one. A listing stops exactly at a round that is running with a deadline
that no word holds. -/
theorem pages_and_listings_whole (founded : g.found settlementGas = .ok start)
    (run : Run start past h) :
    (∀ (h : House) (id limit : UInt64), limit ≠ 0 → (h.ledger id).size < UInt64.size →
      ((List.range ((h.ledger id).pageCount limit)).flatMap fun number =>
        ((h.ledger id).page (UInt64.ofNat number) limit).toList) = (h.ledger id).toList ∧
      ∀ number : UInt64, (h.ledger id).pageCount limit ≤ number.toNat →
        (h.ledger id).page number limit = #[]) ∧
    (∀ (h : House) (id number : UInt64), (h.ledger id).page number 0 = h.ledger id) ∧
    h.rounds.Pairwise (fun a b => a.id < b.id) ∧
    (∀ id r, r ∈ h.rounds ∧ r.id = id ↔ h.auction? id = some r) ∧
    (∀ offset limit : UInt64,
      ((∀ r ∈ h.listed offset limit, r.Bounded) →
        ∃ summaries, h.summaries offset limit = .ok summaries ∧
          (summaries.map Summary.auction).Pairwise (· < ·) ∧
          List.Forall₂ (fun r s => s.Describes r (h.ledger r.id)) (h.listed offset limit)
            summaries) ∧
      ∀ fault, h.summaries offset limit = .error fault ↔
        fault = .addition ∧ ∃ r ∈ h.listed offset limit, r.phase = .running ∧ ¬ r.Bounded) ∧
    ∀ first rest : UInt64, first.toNat + rest.toNat < UInt64.size →
      (do return (← h.summaries 0 first) ++ (← h.summaries first rest)) =
        h.summaries 0 (first + rest) := by
  have coherent := run.coherent (Genesis.coherent_of_found founded)
  have orderly := coherent.toOrderly
  refine ⟨fun h id limit positive counted => ⟨Ledger.flatMap_page positive counted,
    fun _ => Ledger.page_eq_empty positive counted⟩, fun _ _ _ => Ledger.page_zero,
    House.rounds_ascending orderly, fun _ _ => orderly.mem_rounds_iff, fun offset limit =>
    ⟨coherent.exists_summaries, fun fault => ?_⟩, fun _ _ => House.summaries_append⟩
  rw [House.summaries_eq_error]
  refine and_congr_right fun _ => exists_congr fun r => and_congr_right fun member => ?_
  refine (and_iff_right_of_imp fun unbounded => ?_).symm
  exact Classical.byContradiction fun closed =>
    unbounded (run.bounded founded r.id r (orderly.auction?_of_mem_listed member) closed)

end Run

/-! The drawn sample round with the one after it, and a house founded at the last moment. -/

namespace Sample

theorem drawn_rounds : ∃ r, drawn.rounds = [round, r] ∧ r.id = 2 ∧ r.phase = .running ∧ r.Bounded :=
  ⟨_, List.mergeSort_of_pairwise (l := [round, .opening 2 259200 _ 1000 ⟨1, 259200⟩]) (by decide),
    rfl, rfl, show 259200 + 259200 < UInt64.size by decide⟩

theorem round_bounded : round.Bounded := show 0 + 259200 < UInt64.size by decide

def lateGenesis : Genesis :=
  { Genesis.standard with startTime := 0xFFFFFFFFFFFFFFFF }

def lateOpened : House := (lateGenesis.firstRound 0).apply lateGenesis.house

theorem late_stops : lateOpened.summaries 0 1 = .error .addition := by
  have opened : ∃ r, lateOpened.rounds = [r] ∧ r.deadline = .error .addition :=
    ⟨_, List.mergeSort_singleton _, rfl⟩
  obtain ⟨r, rounds, due⟩ := opened
  have listed : r ∈ lateOpened.listed 0 1 := by
    rw [House.listed, rounds]
    exact List.mem_singleton_self r
  exact House.summaries_eq_error.mpr
    ⟨rfl, r, listed, Nat.not_lt.mpr (Auction.deadline_eq_error.mp due).2⟩

end Sample

/-- Two pages of one bid each hold the bids on the drawn round. The listing has that round and the
one after it, which are also what two listings of one round each have. -/
theorem Run.pages_and_listings_whole_drawn :
    Sample.genesis.found 0 = .ok Sample.opened ∧
      Run Sample.opened (Sample.opened.served Sample.bidding) Sample.drawn ∧
      (Sample.drawn.ledger 1).size = 2 ∧
      ((Sample.drawn.ledger 1).page 0 1).toList ++ ((Sample.drawn.ledger 1).page 1 1).toList =
        (Sample.drawn.ledger 1).toList ∧
      (Sample.drawn.ledger 1).page 0xFFFFFFFFFFFFFFFF 1 = #[] ∧
      ∃ summaries, Sample.drawn.summaries 0 2 = .ok summaries ∧
        summaries.map Summary.auction = [1, 2] ∧
        (do return (← Sample.drawn.summaries 0 1) ++ (← Sample.drawn.summaries 1 1)) =
          (.ok summaries : Except Fault (List Summary)) := by
  obtain ⟨paged, -, -, -, listings, joined⟩ :=
    Run.pages_and_listings_whole Sample.founded Sample.run_drawn
  obtain ⟨whole, past⟩ := paged Sample.drawn 1 1 (by decide) (by decide)
  have pages : (Sample.drawn.ledger 1).pageCount 1 = 2 := rfl
  rw [pages] at whole past
  obtain ⟨r, rounds, second, -, bounded⟩ := Sample.drawn_rounds
  have listed : Sample.drawn.listed 0 2 = [Sample.round, r] := by rw [House.listed, rounds]; rfl
  obtain ⟨summaries, complete, -, describes⟩ := (listings 0 2).1 (by
    rw [listed]
    simpa using ⟨Sample.round_bounded, bounded⟩)
  refine ⟨Sample.founded, Sample.run_drawn, rfl, by simpa [List.range_succ] using whole,
    past _ (by decide), summaries, complete, ?_, (joined 1 1 (by decide)).trans complete⟩
  rw [House.auctions_of_describes describes, listed, List.map_cons, List.map_singleton, second]
  rfl

/-- Not every listing comes to an end: one that meets a round founded at the last moment stops. -/
theorem exists_unlistable_round :
    ¬ ∀ (g : Genesis) (settlementGas : UInt64) (start h : House) (past : List Served)
      (offset limit : UInt64), g.found settlementGas = .ok start → Run start past h →
      ∃ summaries, h.summaries offset limit = .ok summaries := by
  intro listed
  have founded : Sample.lateGenesis.found 0 = .ok Sample.lateOpened := rfl
  obtain ⟨summaries, complete⟩ := listed _ _ _ _ _ 0 1 founded .start
  cases Sample.late_stops.symm.trans complete

end CandleAuction
