import CandleAuction.Proofs.Json.Forms
import CandleAuction.Proofs.Rounds

/-!
# Configurations as text

A configuration that is written as JSON text and read back is the same, and it
is accepted exactly if it is valid. Whatever text is accepted, a house can be
founded with it, and the house has one round, which runs with its settings.
-/

namespace CandleAuction

open Json

namespace Genesis

variable {g : Genesis} {text : String}

theorem problem?_eq_none_iff :
    g.problem? = none ↔
      g.admin ≠ .zero ∧ g.beneficiary ≠ .zero ∧ g.oracle ≠ .zero ∧ g.settings.problem? = none := by
  unfold problem?
  split_ifs <;> simp_all

theorem ofText_render (g : Genesis) :
    ofText (write g).render = g.problem?.elim (.ok g) .error := by
  cases found : g.problem? <;> simp [ofText, readText?_render, found]

theorem problem?_of_ofText (accepted : ofText text = .ok g) : g.problem? = none := by
  unfold ofText at accepted
  split at accepted
  · cases accepted
  · split at accepted
    · cases accepted
    · next valid =>
        cases accepted
        exact valid

theorem exists_first_round (valid : g.problem? = none) (settlementGas : UInt64) :
    ∃ h r, g.found settlementGas = .ok h ∧
      (∀ id other, h.auction? id = some other ↔ id = 1 ∧ other = r) ∧ h.currentId = 1 ∧
      r.id = 1 ∧ r.settings = g.settings ∧ r.phaseAt g.startTime = .ok .running ∧
      ∀ id, h.ledger id = #[] := by
  refine ⟨(g.firstRound settlementGas).apply g.house,
    g.house.nextRound g.startTime ⟨g.gasPrice, g.startTime⟩ settlementGas,
    found_eq_ok.mpr ⟨valid, rfl⟩, fun id other => ?_, rfl, rfl, rfl,
    Auction.phaseAt_eq_running.mpr ⟨rfl, UInt64.le_refl _⟩, fun id => ?_⟩
  · have number : (g.house.nextRound g.startTime ⟨g.gasPrice, g.startTime⟩ settlementGas).id = 1 :=
      rfl
    have empty : g.house.auction? id = none := by simp [house, House.empty, House.auction?]
    rw [firstRound, Change.auction?_apply_opened, number, empty]
    split_ifs with first
    · simp [← first, eq_comm]
    · simp [Ne.symm first]
  · have empty : g.house.ledger id = #[] := by simp [house, House.empty, House.ledger]
    rw [firstRound, Change.ledger_apply_opened, empty, ite_self]

/-- A configuration comes back from its text exactly if its addresses are given and its settings
are valid, and otherwise it is reported what is wrong with it. Whatever text is accepted, the
configuration founds a house whose only round is the first and runs with its settings. -/
theorem text_survives_iff_valid :
    (∀ g : Genesis,
      (ofText (write g).render = .ok g ↔
        g.admin ≠ .zero ∧ g.beneficiary ≠ .zero ∧ g.oracle ≠ .zero ∧
          g.settings.problem? = none) ∧
      (ofText (write g).render ≠ .ok g →
        ∃ problem, g.problem? = some problem ∧ ofText (write g).render = .error problem)) ∧
    ∀ text g, ofText text = .ok g → ∀ settlementGas : UInt64,
      ∃ h r, g.found settlementGas = .ok h ∧
        (∀ id other, h.auction? id = some other ↔ id = 1 ∧ other = r) ∧ h.currentId = 1 ∧
        r.id = 1 ∧ r.settings = g.settings ∧ r.phaseAt g.startTime = .ok .running ∧
        ∀ id, h.ledger id = #[] := by
  refine ⟨fun g => ?_, fun text g accepted => exists_first_round (problem?_of_ofText accepted)⟩
  rw [← problem?_eq_none_iff, ofText_render]
  cases found : g.problem? with
  | none => simp
  | some problem => simp

/-- The standard configuration survives as text and founds a house. -/
theorem text_survives_iff_valid_standard :
    ofText (write Genesis.standard).render = .ok .standard ∧
      ∃ h r, Genesis.standard.found 0 = .ok h ∧
        (∀ id other, h.auction? id = some other ↔ id = 1 ∧ other = r) ∧
        r.settings = .standard := by
  have survives : ofText (write Genesis.standard).render = .ok .standard :=
    (text_survives_iff_valid.1 .standard).1.mpr (by decide)
  obtain ⟨h, r, founded, only, -, -, settings, -⟩ := text_survives_iff_valid.2 _ _ survives 0
  exact ⟨survives, h, r, founded, only, settings⟩

end Genesis

end CandleAuction
