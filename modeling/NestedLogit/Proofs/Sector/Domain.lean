import NestedLogit.Proofs.Subsector.Domain

/-!
# The domain of sectors

A sector hands shares, share weights and outputs to its subsectors, and scales their fixed supply.
Whatever it hands out keeps the subsectors in their domain, and when it has them produce they share
out a whole, so that a calculation stays in the domain also if it stops midway.

## Main definitions

- `Sector.InputsInDomain` — what is asked of the inputs
- `Sector.InDomain` — what holds of the inputs and of all results

## Main statements

- `Sector.InDomain.calculate` — a calculation stays in the domain, however it ends
- `Sector.InDomain.carryForward` — so does carrying share weights forward
-/

namespace NestedLogit.Sector

variable {n : Nat} {α : Type} {p : Fin n} [ExactQuantity α]

/-- The inputs of a sector and of its subsectors are in their domain. -/
structure InputsInDomain (s : Sector n α) : Prop where
  finalDemand_nonneg : ∀ q : Fin n, 0 ≤ s.finalDemand[q]
  subsectors : ∀ x ∈ s.subsectors, x.InputsInDomain

/-- A sector whose final demand and output are not negative in any period, with subsectors in their
domain. -/
structure InDomain (s : Sector n α) : Prop where
  finalDemand_nonneg : ∀ q : Fin n, 0 ≤ s.finalDemand[q]
  output_nonneg : ∀ q : Fin n, 0 ≤ s.results[q].output
  subsectors : ∀ x ∈ s.subsectors, x.InDomain

/-- A sector in its domain, with subsectors whose technologies share out a whole. -/
structure SharesWhole (p : Fin n) (s : Sector n α) : Prop extends s.InDomain where
  wholes : ∀ x ∈ s.subsectors, x.SharesWhole p

variable {s : Sector n α}

namespace InDomain

theorem update (h : s.InDomain) {f : SectorResult α → SectorResult α}
    (hf : 0 ≤ (f s.results[p]).output) : (s.update p f).InDomain where
  finalDemand_nonneg := h.finalDemand_nonneg
  output_nonneg := Series.forall_modify (P := fun r : SectorResult α => 0 ≤ r.output)
    h.output_nonneg hf
  subsectors := h.subsectors

theorem mapSubsectors (h : s.InDomain) {f : Subsector n α → Subsector n α}
    (hf : ∀ x ∈ s.subsectors, (f x).InDomain) : (s.mapSubsectors f).InDomain :=
  { h with subsectors := List.forall_mem_map.2 hf }

theorem applyCarbonTax (h : s.InDomain) (tax : α) : (s.applyCarbonTax p tax).InDomain :=
  h.mapSubsectors fun x hx => (h.subsectors x hx).applyCarbonTax tax

theorem setDemand (h : s.InDomain) (demand : α) : (s.setDemand p demand).InDomain :=
  h.update (h.output_nonneg p)

theorem carryForward (h : s.InDomain) (c : Calendar n) (p : Fin n) :
    (s.carryForward c p).InDomain :=
  h.mapSubsectors fun x hx => (h.subsectors x hx).carryForward c p

theorem takeStock (h : s.InDomain) : (s.takeStock p).InDomain := by
  refine h.update ?_
  dsimp only
  rw [Quantity.total_eq_sum]
  exact List.sum_nonneg (List.forall_mem_map.2 fun x hx =>
    ((h.subsectors x hx).results p).output_nonneg)

theorem prepareSubsectors (h : s.InDomain) (prices : GoodTable α) :
    (s.prepareSubsectors p prices).Ends InDomain (SharesWhole p) := by
  have hsubsector : ∀ x ∈ s.subsectors, (((x.calculateCosts p prices).andThen
      (·.shareTechnologies p)).andThen fun x => .ok (x.calculatePrice p)).Ends
        Subsector.InDomain (Subsector.SharesWhole p) := by
    intro x hx
    refine (((h.subsectors x hx).calculateCosts prices).andThen
      fun x hx => Subsector.SharesWhole.shareTechnologies hx).andThen fun x hx => ?_
    exact .ok hx.calculatePrice.inDomain hx.calculatePrice
  have heach := Run.Ends.each fun x hx => ⟨h.subsectors x hx, hsubsector x hx⟩
  exact ⟨{ h with subsectors := heach.always }, fun hok =>
    ⟨{ h with subsectors := heach.always }, heach.success hok⟩⟩

/-- Subsectors that share out a whole produce within the domain what they are asked for. -/
theorem produce (h : s.SharesWhole p) {output : α} (houtput : 0 ≤ output) (calibrate : Bool) :
    (s.produce p output calibrate).Ends InDomain InDomain := by
  have heach := Run.Ends.each fun x hx => ⟨h.subsectors x hx, (h.wholes x hx).setOutput
    (mul_nonneg ((h.subsectors x hx).results p).share_proportion.1 houtput) calibrate⟩
  exact ⟨{ h with subsectors := heach.always }, fun hok =>
    { h with subsectors := heach.success hok }⟩

end InDomain

namespace SharesWhole

theorem mapSubsectors (h : s.SharesWhole p) {f : Subsector n α → Subsector n α}
    (hf : ∀ x ∈ s.subsectors, (f x).SharesWhole p) : (s.mapSubsectors f).SharesWhole p where
  toInDomain := h.toInDomain.mapSubsectors fun x hx => (hf x hx).inDomain
  wholes := List.forall_mem_map.2 hf

/-- Fixed supply is not scaled by anything negative. -/
theorem fixedSupplyFactor_nonneg {demand factor : α} {calibrate : Bool} {log : List (Event α)}
    (hdemand : 0 < demand) (h : s.fixedSupplyFactor p demand calibrate = some (factor, log)) :
    0 ≤ factor := by
  unfold fixedSupplyFactor at h
  dsimp only at h
  split at h
  · cases h
  · next hpos =>
    split at h
    · cases h
      exact Subsector.fixedSupplyScaleFactor_nonneg _ _
    · split at h
      · cases h
        exact div_nonneg hdemand.le (not_le.1 hpos).le
      · cases h

theorem fitted (h : s.SharesWhole p) (demand : α) (calibrate : Bool) :
    (s.fitted p demand calibrate).1.SharesWhole p := by
  unfold Sector.fitted scaleFixedSupplies
  split
  · next hdemand =>
    split
    · next factor log hfactor =>
      refine h.mapSubsectors fun x hx => ?_
      split
      · exact (h.wholes x hx).scaleFixedSupply (fixedSupplyFactor_nonneg hdemand hfactor)
      · exact h.wholes x hx
    · exact h
  · exact h

/-- No contender for a demand ends up with a negative share weight. -/
theorem shareWeight_nonneg_allocateAims (h : s.InDomain) (demand : α) (calibrate : Bool) :
    ∀ c ∈ (allocateAims (s.aims p demand calibrate)).contenders, 0 ≤ c.shareWeight := by
  have haims : ∀ x ∈ s.aims p demand calibrate, 0 ≤ x.contender.shareWeight := by
    refine List.forall_mem_map.2 fun x hx => ?_
    have hweight := (h.subsectors x hx).baseShareWeight_nonneg p
    unfold contender
    dsimp only
    split <;> exact hweight
  unfold allocateAims
  split
  · exact shareWeight_nonneg_recalibrate haims
  · exact List.forall_mem_map.2 haims

/-- Subsectors that contend for a demand are awarded shares and share weights from the domain. -/
theorem shareSubsectors (h : s.SharesWhole p) (demand : α) (calibrate : Bool) :
    (s.shareSubsectors p demand calibrate).Ends InDomain (SharesWhole p) := by
  have hfitted := h.fitted demand calibrate
  obtain ⟨⟨fit, log⟩, hfit⟩ : ∃ x, s.fitted p demand calibrate = x := ⟨_, rfl⟩
  rw [hfit] at hfitted
  cases ho : (allocateAims (fit.aims p demand calibrate)).outcome with
  | error e =>
    rw [shareSubsectors_of_error hfit ho]
    exact ⟨hfitted.toInDomain, nofun⟩
  | ok a =>
    rw [shareSubsectors_of_ok hfit ho]
    have hweights :=
      shareWeight_nonneg_allocateAims (p := p) hfitted.toInDomain demand calibrate
    have hshares := proportion_of_mem_shares (allocateAims_allocates ho).1
    have hawarded : ∀ y ∈ awardEach p fit.subsectors (decided (fit.aims p demand calibrate) a),
        y.SharesWhole p := by
      intro y hy
      obtain ⟨x, hx, d, hd, c, hc, rfl⟩ := exists_award_of_mem hy
      rw [award_eq_update]
      exact (hfitted.wholes x hx).update { (hfitted.subsectors x hx).results p with
        share_proportion := hshares _ (List.mem_map_of_mem hd)
        shareWeight_nonneg := hweights c hc }
    have hdomain := fun y hy => (hawarded y hy).inDomain
    exact ⟨{ hfitted with subsectors := hdomain },
      fun _ => ⟨{ hfitted with subsectors := hdomain }, hawarded⟩⟩

end SharesWhole

/-- A calculation stays in the domain, whatever the demand and however it ends. -/
theorem InDomain.calculate (h : s.InDomain) (demand : α) (prices : GoodTable α)
    (calibrate : Bool) : (s.calculate p demand prices calibrate).Ends InDomain InDomain := by
  have hoffered : 0 ≤ Quantity.larger demand 0 := by
    rw [Quantity.larger_eq_max]
    exact le_max_right _ _
  unfold Sector.calculate
  refine ((((h.setDemand demand).prepareSubsectors prices).andThen
    fun s hs => hs.shareSubsectors demand calibrate).andThen
    fun s hs => InDomain.produce hs hoffered calibrate).andThen fun s hs => ?_
  exact .ok hs.takeStock hs.takeStock

end NestedLogit.Sector
