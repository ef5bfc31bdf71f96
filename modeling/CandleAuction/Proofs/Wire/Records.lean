import CandleAuction.Proofs.Wire.Canonical
import CandleAuction.Wire.Records
import Mathlib.Tactic.Simproc.ExistsAndEq

/-!
# Canonical wire forms of the records

Records are read field after field and calls by their number, so their forms
are canonical because those of the fields are. A snapshot, a submission or a
call has one only if its lists are short enough for their lengths to be written.
-/

namespace CandleAuction

open Wire Wire.Decoder

instance : Canonical IndexWidth fun _ => True where
  decode_eq_ok := decodeTag_eq_ok_of_nodup (by decide) fun width => by
    cases width <;> exact ⟨_, rfl, rfl⟩

instance : Canonical Phase fun _ => True where
  decode_eq_ok := decodeTag_eq_ok_of_nodup (by decide) fun phase => by
    cases phase <;> exact ⟨_, rfl, rfl⟩

instance : Canonical Settings fun _ => True where
  decode_eq_ok {input rest s} := by
    refine bind_eq_ok.trans ?_
    obtain ⟨_, _, _, _, _, _, _, _, _, _⟩ := s
    simp only [bind_eq_ok, decode_eq_ok, pure_eq_ok, true_and, and_true, existsAndEq,
      Settings.mk.injEq, ← List.append_assoc]
    rfl

instance : Canonical Bid fun _ => True where
  decode_eq_ok {input rest bid} := by
    refine bind_eq_ok.trans ?_
    obtain ⟨_, _, _, _⟩ := bid
    simp only [bind_eq_ok, decode_eq_ok, pure_eq_ok, true_and, existsAndEq, and_true, Bid.mk.injEq,
      ← List.append_assoc]
    rfl

instance : Canonical FeeObservation fun _ => True where
  decode_eq_ok {input rest fee} := by
    refine bind_eq_ok.trans ?_
    obtain ⟨_, _⟩ := fee
    simp only [bind_eq_ok, decode_eq_ok, pure_eq_ok, true_and, and_true, existsAndEq,
      FeeObservation.mk.injEq, ← List.append_assoc]
    rfl

instance : Canonical Snuff fun _ => True where
  decode_eq_ok {input rest snuff} := by
    refine bind_eq_ok.trans ?_
    obtain ⟨_, _⟩ := snuff
    simp only [bind_eq_ok, decode_eq_ok, pure_eq_ok, true_and, and_true, existsAndEq,
      Snuff.mk.injEq, ← List.append_assoc]
    rfl

instance : Canonical Proposal fun _ => True where
  decode_eq_ok {input rest p} := by
    refine bind_eq_ok.trans ?_
    obtain ⟨_, _, _, _, _, _, _, _, _, _⟩ := p
    simp only [bind_eq_ok, decode_eq_ok, pure_eq_ok, true_and, and_true, existsAndEq,
      Proposal.mk.injEq, ← List.append_assoc]
    rfl

instance : Canonical Auction fun _ => True where
  decode_eq_ok {input rest r} := by
    refine bind_eq_ok.trans ?_
    obtain ⟨_, _, _, _, _, _, _, _, _, _, _, _, _, _⟩ := r
    simp only [bind_eq_ok, decode_eq_ok, pure_eq_ok, true_and, and_true, existsAndEq,
      Auction.mk.injEq, ← List.append_assoc, implies_true]
    rfl

instance : Canonical Snapshot fun s => s.bids.size < 2 ^ 32 where
  decode_eq_ok {input rest s} := by
    refine bind_eq_ok.trans ?_
    obtain ⟨_, _, _, _, _, _⟩ := s
    simp only [bind_eq_ok, decode_eq_ok, pure_eq_ok, true_and, and_true, existsAndEq,
      Snapshot.mk.injEq, ← List.append_assoc, implies_true]
    exact and_comm

instance : Canonical Submission
    fun s => s.winners.length < 2 ^ 32 ∧ s.encoding.length < 2 ^ 32 where
  decode_eq_ok {input rest s} := by
    refine bind_eq_ok.trans ?_
    obtain ⟨_, _, _, _, _⟩ := s
    simp only [bind_eq_ok, decode_eq_ok, pure_eq_ok, true_and, and_true, existsAndEq,
      Submission.mk.injEq, ← List.append_assoc, implies_true]
    exact and_comm

/-- The packed winner list that a call carries, if any, is short enough for its length to be
written. -/
def Call.Short : Call → Prop
  | .proposeWinners _ encoding _ _ | .challenge _ encoding _ _ | .claimWinningBid _ encoding _
  | .withdrawBid _ encoding _ => encoding.length < 2 ^ 32
  | _ => True

instance : Canonical Call Call.Short where
  decode_eq_ok {input rest call} := by
    refine bind_eq_ok.trans ?_
    simp only [byte_eq_ok]
    constructor
    · rintro ⟨tag, _, rfl, read⟩
      split at read
      rotate_right
      · exact absurd read malformed_ne_ok
      all_goals
        simp only [bind_eq_ok, decode_eq_ok, pure_eq_ok, true_and, and_true, existsAndEq,
          implies_true, ← List.append_assoc] at read
      · obtain ⟨id, amount, rfl, rfl⟩ := read
        exact ⟨trivial, rfl⟩
      · obtain ⟨id, index, added, rfl, rfl⟩ := read
        exact ⟨trivial, rfl⟩
      · obtain ⟨id, rfl, rfl⟩ := read
        exact ⟨trivial, rfl⟩
      · obtain ⟨request, word, rfl, rfl⟩ := read
        exact ⟨trivial, rfl⟩
      · obtain ⟨id, encoding, commitment, total, rfl, fits, rfl⟩ := read
        exact ⟨fits, rfl⟩
      · obtain ⟨id, encoding, claimed, disputed, rfl, fits, rfl⟩ := read
        exact ⟨fits, rfl⟩
      · obtain ⟨id, encoding, position, rfl, fits, rfl⟩ := read
        exact ⟨fits, rfl⟩
      · obtain ⟨id, encoding, index, rfl, fits, rfl⟩ := read
        exact ⟨fits, rfl⟩
      · obtain ⟨id, rfl, rfl⟩ := read
        exact ⟨trivial, rfl⟩
      · obtain ⟨id, rfl, rfl⟩ := read
        exact ⟨trivial, rfl⟩
      · obtain ⟨id, rfl, rfl⟩ := read
        exact ⟨trivial, rfl⟩
      · obtain ⟨settings, rfl, rfl⟩ := read
        exact ⟨trivial, rfl⟩
    · rintro ⟨fits, rfl⟩
      cases call <;> refine ⟨_, _, rfl, ?_⟩ <;>
        simp_all [bind_eq_ok, decode_eq_ok, pure_eq_ok, Call.Short, -bind_pure_comp]

/-- Whole inputs are read exactly if they are the wire form of a short value, and nothing is read
from an input that has been cut off or added to. -/
structure Wire.OneForm (α : Type) [Wire α] (short : α → Prop) : Prop where
  read_iff : ∀ (input : List UInt8) (value : α),
    decodeAll input = .ok value ↔ short value ∧ input = encode value
  unextended : ∀ (input more : List UInt8) (value other : α),
    decodeAll input = .ok value → decodeAll (input ++ more) = .ok other → more = []

theorem Wire.Canonical.oneForm {α : Type} [Wire α] {short : α → Prop} [Canonical α short] :
    OneForm α short where
  read_iff _ _ := decodeAll_eq_ok
  unextended input more value other first second := by
    obtain ⟨left, rfl⟩ := decodeAll_eq_ok.mp first
    obtain ⟨right, same⟩ := decodeAll_eq_ok.mp second
    exact (eq_of_encode_append left right same).2

/-- Every call, auction, snapshot and submission whose lists are short has one wire form, and
nothing else is read. That of a call begins with the number of its alternative, one of twelve. -/
theorem Wire.forms_canonical :
    OneForm Call Call.Short ∧ OneForm Auction (fun _ => True) ∧
    OneForm Snapshot (fun s => s.bids.size < 2 ^ 32) ∧
    OneForm Submission (fun s => s.winners.length < 2 ^ 32 ∧ s.encoding.length < 2 ^ 32) ∧
    ∀ call : Call, ∃ tag : UInt8,
      (encode call).head? = some tag ∧ tag.toNat = call.ctorIdx ∧ tag < 12 := by
  refine ⟨Canonical.oneForm, Canonical.oneForm, Canonical.oneForm, Canonical.oneForm, ?_⟩
  intro call
  cases call <;> exact ⟨_, rfl, rfl, by decide⟩

end CandleAuction
