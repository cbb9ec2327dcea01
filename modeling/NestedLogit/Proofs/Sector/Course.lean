import NestedLogit.Proofs.Sector.Domain
import NestedLogit.Proofs.Subsector.Settled

/-!
# The course of a sector's calculation

A calculation that comes to its end takes every subsector the same way: it offers a price, its fixed
supply is scaled to fit the demand, it is awarded a share, and it produces that share of the demand.
Everything that is said about a calculated sector as a whole starts from this.

## Main definitions

- `Sector.fitFactor` — the factor by which the fixed supply of all-fixed subsectors is scaled
- `Sector.contending` — the sector as it contends for a demand
- `Sector.withAwards` — the subsectors with what an allocation decides for them

## Main statements

- `Sector.subsectors_contending` — what contends is what was offered, with fixed supply scaled
- `Sector.calculate_succeeds_iff` — what has to go well for a calculation to come to its end
- `Sector.subsectors_calculate` — what becomes of the subsectors then
-/

namespace NestedLogit

variable {n : Nat} {α : Type} {p : Fin n}

namespace Subsector

variable [ExactQuantity α] {s : Subsector n α} {prices : GoodTable α}

/-- What a subsector is prepared with to produce are its technologies and a scale that is not
negative. -/
theorem Ready.update (hs : s.Ready p) {f : SubsectorResult α → SubsectorResult α}
    (hf : 0 ≤ (f s.results[p]).fixedSupplyScale) : (s.update p f).Ready p where
  fixed_nonneg := hs.fixed_nonneg
  scale_nonneg := by simpa [Subsector.update] using hf
  whole := hs.whole

theorem scaleFixedSupply_one (s : Subsector n α) : s.scaleFixedSupply p 1 = s := by
  rw [scaleFixedSupply_eq_withScale, mul_one, withScale_self]

theorem framed_offer (s : Subsector n α) (prices : GoodTable α) :
    s.Framed p (s.offer p prices).state :=
  Run.rel_state_andThen Framed.trans (s.framed_prepare prices) fun x => x.framed_update _

/-- A subsector that offers a price was prepared before. -/
theorem offer_eq_ok (h : (s.offer p prices).failure = none) :
    (s.prepare p prices).failure = none ∧
      (s.offer p prices).state = (s.prepare p prices).state.calculatePrice p := by
  obtain ⟨hprepare, -⟩ := Run.failure_andThen.1 h
  exact ⟨hprepare, Run.state_andThen hprepare _⟩

theorem fixedSupplyScale_offer (h : (s.offer p prices).failure = none) :
    (s.offer p prices).state.results[p].fixedSupplyScale = 1 := by
  obtain ⟨hprepare, hstate⟩ := offer_eq_ok h
  rw [hstate, ← fixedSupplyScale_prepare hprepare]
  simp [calculatePrice, update]

theorem ready_offer
    (hfixed : ∀ t ∈ s.technologies, ∀ fixed, t.parameters[p].fixedOutput = some fixed → 0 ≤ fixed)
    (h : (s.offer p prices).failure = none) : (s.offer p prices).state.Ready p := by
  obtain ⟨hprepare, hstate⟩ := offer_eq_ok h
  have hready := ready_prepare hfixed hprepare
  rw [hstate]
  exact hready.update hready.scale_nonneg

end Subsector

namespace Sector

variable [ExactQuantity α] {s : Sector n α} {demand : α} {prices : GoodTable α} {calibrate : Bool}

/-- The factor by which the fixed supply of all-fixed subsectors is scaled to fit a demand, which is
one where nothing has to be scaled. -/
def fitFactor (s : Sector n α) (p : Fin n) (demand : α) (calibrate : Bool) : α :=
  if 0 < demand then ((s.fixedSupplyFactor p demand calibrate).map Prod.fst).getD 1 else 1

theorem fitFactor_nonneg (s : Sector n α) (demand : α) (calibrate : Bool) :
    0 ≤ s.fitFactor p demand calibrate := by
  unfold fitFactor
  split
  · next hdemand =>
    cases hfactor : s.fixedSupplyFactor p demand calibrate with
    | none => exact zero_le_one
    | some x => exact SharesWhole.fixedSupplyFactor_nonneg hdemand hfactor
  · exact zero_le_one

/-- Fixed supply that fits is scaled by one. -/
theorem fitted_eq (s : Sector n α) (demand : α) (calibrate : Bool) :
    (s.fitted p demand calibrate).1 = s.mapSubsectors fun x =>
      if x.isAllFixed p then x.scaleFixedSupply p (s.fitFactor p demand calibrate) else x := by
  have hself : s = s.mapSubsectors fun x =>
      if x.isAllFixed p then x.scaleFixedSupply p 1 else x := by
    simp [mapSubsectors, Subsector.scaleFixedSupply_one]
  unfold fitted fitFactor scaleFixedSupplies
  split
  · cases s.fixedSupplyFactor p demand calibrate with
    | none => exact hself
    | some x => rfl
  · exact hself

/-- The sector with its offers, which is the one that shares out a demand. -/
def offering (s : Sector n α) (p : Fin n) (demand : α) (prices : GoodTable α) : Sector n α :=
  ((s.setDemand p demand).prepareSubsectors p prices).state

theorem framed_offering (s : Sector n α) (demand : α) (prices : GoodTable α) :
    s.Framed p (s.offering p demand prices) :=
  (s.framed_update _).trans (framed_prepareSubsectors _ prices)

/-- The sector as it contends for a demand: its subsectors offer their prices, and fixed supply is
scaled to fit. -/
def contending (s : Sector n α) (p : Fin n) (demand : α) (prices : GoodTable α)
    (calibrate : Bool) : Sector n α :=
  ((s.offering p demand prices).fitted p demand calibrate).1

theorem framed_contending (s : Sector n α) (demand : α) (prices : GoodTable α)
    (calibrate : Bool) : s.Framed p (s.contending p demand prices calibrate) :=
  (s.framed_offering demand prices).trans (framed_fitted _ _ _)

/-- The subsectors with what an allocation decides for them. -/
def withAwards (s : Sector n α) (p : Fin n) (demand : α) (calibrate : Bool) (a : Allocation α) :
    List (Subsector n α) :=
  awardEach p s.subsectors (decided (s.aims p demand calibrate) a)

/-- A subsector that was awarded a share produces that share of a demand. -/
def serveShare (p : Fin n) (demand : α) (calibrate : Bool) (x : Subsector n α) :
    Run α (Subsector n α) :=
  x.setOutput p (x.results[p].share * max demand 0) calibrate

theorem failure_prepareSubsectors :
    (s.prepareSubsectors p prices).failure = none ↔
      ∀ x ∈ s.subsectors, (x.offer p prices).failure = none :=
  Run.failure_each

theorem subsectors_prepareSubsectors
    (h : ∀ x ∈ s.subsectors, (x.offer p prices).failure = none) :
    (s.prepareSubsectors p prices).state.subsectors
      = s.subsectors.map fun x => (x.offer p prices).state :=
  Run.state_each (failure_prepareSubsectors.2 h)

theorem subsectors_offering (h : ∀ x ∈ s.subsectors, (x.offer p prices).failure = none) :
    (s.offering p demand prices).subsectors = s.subsectors.map fun x => (x.offer p prices).state :=
  subsectors_prepareSubsectors (s := s.setDemand p demand) h

/-- What contends is what the subsectors offered. Fixed supply was not scaled before, and the one
that is scaled now is that of all-fixed subsectors. -/
theorem subsectors_contending (h : ∀ x ∈ s.subsectors, (x.offer p prices).failure = none) :
    (s.contending p demand prices calibrate).subsectors = s.subsectors.map fun x =>
      (x.offer p prices).state.withScale p
        (if x.isAllFixed p then (s.offering p demand prices).fitFactor p demand calibrate
          else 1) := by
  rw [contending, fitted_eq, mapSubsectors, subsectors_offering h, List.map_map]
  refine List.map_congr_left fun x hx => ?_
  have hone := Subsector.fixedSupplyScale_offer (h x hx)
  rw [Function.comp_apply, ← (x.framed_offer (p := p) prices).isAllFixed]
  split
  · rw [Subsector.scaleFixedSupply_eq_withScale, hone, one_mul]
  · rw [← hone, Subsector.withScale_self]

/-- A demand is shared out if the aims of those who contend can be allocated. -/
theorem failure_shareSubsectors :
    (s.shareSubsectors p demand calibrate).failure = none ↔
      ∃ a, (allocateAims ((s.fitted p demand calibrate).1.aims p demand calibrate)).outcome
        = .ok a := by
  obtain ⟨⟨fit, log⟩, hfit⟩ : ∃ x, s.fitted p demand calibrate = x := ⟨_, rfl⟩
  rw [hfit]
  cases ho : (allocateAims (fit.aims p demand calibrate)).outcome with
  | error e =>
    rw [shareSubsectors_of_error hfit ho]
    exact iff_of_false nofun nofun
  | ok a =>
    rw [shareSubsectors_of_ok hfit ho]
    exact iff_of_true rfl ⟨a, rfl⟩

theorem subsectors_shareSubsectors {a : Allocation α}
    (h : (allocateAims ((s.fitted p demand calibrate).1.aims p demand calibrate)).outcome
      = .ok a) :
    (s.shareSubsectors p demand calibrate).state.subsectors
      = (s.fitted p demand calibrate).1.withAwards p demand calibrate a := by
  obtain ⟨⟨fit, log⟩, hfit⟩ : ∃ x, s.fitted p demand calibrate = x := ⟨_, rfl⟩
  rw [hfit] at h ⊢
  rw [shareSubsectors_of_ok hfit h]
  rfl

theorem failure_produce :
    (s.produce p (Quantity.larger demand 0) calibrate).failure = none ↔
      ∀ x ∈ s.subsectors, (serveShare p demand calibrate x).failure = none := by
  rw [Quantity.larger_eq_max]
  exact Run.failure_each

theorem price_takeStock (s : Sector n α) :
    (s.takeStock p).results[p].price =
      if 0 < Quantity.total (s.subsectors.map fun x => x.results[p].output) then
        Quantity.total (s.subsectors.map fun x => x.results[p].price * x.results[p].output)
          / Quantity.total (s.subsectors.map fun x => x.results[p].output)
      else Quantity.total (s.subsectors.map fun x => x.results[p].price * x.results[p].share) := by
  simp [takeStock, update]

/-- A calculation comes to its end if every subsector can offer a price, the demand can be shared
out, and nobody refuses to produce its share. -/
theorem calculate_succeeds_iff :
    (s.calculate p demand prices calibrate).failure = none ↔
      (∀ x ∈ s.subsectors, (x.offer p prices).failure = none) ∧
        ∃ a, (allocateAims
            ((s.contending p demand prices calibrate).aims p demand calibrate)).outcome = .ok a ∧
          ∀ x ∈ (s.contending p demand prices calibrate).withAwards p demand calibrate a,
            (serveShare p demand calibrate x).failure = none := by
  have hoffered : ((s.setDemand p demand).prepareSubsectors p prices).failure = none ↔
      ∀ x ∈ s.subsectors, (x.offer p prices).failure = none := failure_prepareSubsectors
  rw [calculate, Run.failure_andThen, Run.failure_andThen, Run.failure_andThen]
  unfold contending offering
  constructor
  · rintro ⟨⟨⟨hprepared, hshared⟩, hproduced⟩, -⟩
    obtain ⟨a, ha⟩ := failure_shareSubsectors.1 hshared
    rw [Run.state_andThen hprepared, failure_produce, subsectors_shareSubsectors ha] at hproduced
    exact ⟨hoffered.1 hprepared, a, ha, hproduced⟩
  · rintro ⟨hoffers, a, ha, hserved⟩
    have hprepared := hoffered.2 hoffers
    refine ⟨⟨⟨hprepared, failure_shareSubsectors.2 ⟨a, ha⟩⟩, ?_⟩, rfl⟩
    rw [Run.state_andThen hprepared, failure_produce, subsectors_shareSubsectors ha]
    exact hserved

/-- In the end every subsector has produced the share that it was awarded. -/
theorem subsectors_calculate (h : (s.calculate p demand prices calibrate).failure = none)
    {a : Allocation α}
    (ha : (allocateAims
      ((s.contending p demand prices calibrate).aims p demand calibrate)).outcome = .ok a) :
    (s.calculate p demand prices calibrate).state.subsectors
      = ((s.contending p demand prices calibrate).withAwards p demand calibrate a).map fun x =>
        (serveShare p demand calibrate x).state := by
  unfold contending offering at ha ⊢
  obtain ⟨-, -, hproduced, hstate⟩ := calculate_eq_ok h
  rw [hstate, ← subsectors_shareSubsectors ha]
  rw [Quantity.larger_eq_max] at hproduced ⊢
  exact Run.state_each hproduced

/-- From the subsector that contended to the one that is left: it was awarded something, and it has
produced its share. -/
theorem forall₂_subsectors_calculate (h : (s.calculate p demand prices calibrate).failure = none) :
    List.Forall₂ (fun y z => ∃ d c, ∃ target : Option α,
        (serveShare p demand calibrate (award p y d c target)).failure = none ∧
          z = (serveShare p demand calibrate (award p y d c target)).state)
      (s.contending p demand prices calibrate).subsectors
      (s.calculate p demand prices calibrate).state.subsectors := by
  obtain ⟨-, a, ha, hserved⟩ := calculate_succeeds_iff.1 h
  rw [subsectors_calculate h ha, List.forall₂_map_right_iff]
  have hawarded : List.Forall₂ (fun y w => ∃ d c, ∃ target : Option α, w = award p y d c target)
      (s.contending p demand prices calibrate).subsectors
      ((s.contending p demand prices calibrate).withAwards p demand calibrate a) := by
    refine forall₂_zipWith_self (fun y d => ⟨d.1, d.2.1, d.2.2, rfl⟩) (Nat.le_of_eq ?_)
    rw [length_decided ha, length_aims]
  refine (forall₂_and_right hawarded hserved).imp ?_
  rintro y w ⟨⟨d, c, target, rfl⟩, hok⟩
  exact ⟨d, c, target, hok, rfl⟩

/-- Subsectors go into production prepared. -/
theorem ready_withAwards
    (hfixed : ∀ t ∈ s.technologies, ∀ fixed, t.parameters[p].fixedOutput = some fixed → 0 ≤ fixed)
    (h : ∀ x ∈ s.subsectors, (x.offer p prices).failure = none) (a : Allocation α) :
    ∀ y ∈ (s.contending p demand prices calibrate).withAwards p demand calibrate a,
      y.Ready p := by
  intro y hy
  obtain ⟨x, hx, d, -, c, -, rfl⟩ := exists_award_of_mem hy
  rw [subsectors_contending h] at hx
  obtain ⟨x, hmem, rfl⟩ := List.mem_map.1 hx
  have hready := Subsector.ready_offer
    (fun t ht => hfixed t (List.mem_flatMap.2 ⟨x, hmem, ht⟩)) (h x hmem)
  have hscaled : ((x.offer p prices).state.withScale p _).Ready p := hready.update (f := fun r =>
    { r with fixedSupplyScale := if x.isAllFixed p then
        (s.offering p demand prices).fitFactor p demand calibrate else 1 }) ?_
  · rw [award_eq_update]
    exact hscaled.update hscaled.scale_nonneg
  · dsimp only
    split
    · exact fitFactor_nonneg _ demand calibrate
    · exact zero_le_one

end Sector

end NestedLogit
