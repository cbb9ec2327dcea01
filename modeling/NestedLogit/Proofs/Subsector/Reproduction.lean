import NestedLogit.Proofs.Calibration
import NestedLogit.Proofs.Subsector.Settled

/-!
# What a later period makes of a subsector that is carried forward

A period for which the same is given as for a calibrated one, but no data, starts with the share
weights that the calibration ended with. The technologies of a subsector then have the same costs,
the same shares and thus the same average cost again. The subsector itself competes with that cost,
whereas in the calibration it competed with the one before its technologies were recalibrated.

## Main definitions

- `Technology.Repeats`, `Subsector.Repeats` — the same is given for a later period, without data
- `Subsector.Awarded` — a subsector that was awarded its share of a demand

## Main statements

- `Technology.Repeats.carried`, `Subsector.Repeats.carried` — the weights that are carried forward
- `Subsector.Repeats.reproduced` — shares and price of a settled subsector are reproduced
- `Subsector.Repeats.contenderInUse_eq` — when a subsector competes in the same way
- `Subsector.Repeats.shares_eq`, `Subsector.Repeats.outputs_eq` — what it produces
-/

namespace NestedLogit

variable {n : Nat} {α : Type} {p q : Fin n}

/-- A technology for which the same is given in a later period, apart from calibration data, and for
which nothing is given behind the first period that would keep a share weight from being carried
forward. -/
structure Technology.Repeats (p q : Fin n) (t : Technology n α) : Prop where
  unfixed : t.parameters[p].fixedOutput = none
  parameters : t.parameters[q] =
    { t.parameters[p] with anchored := false, calibrationOutput := none }
  baseShareWeight : t.baseShareWeight[q] = t.baseShareWeight[p]
  carbonTax : t.results[q].carbonTax = t.results[p].carbonTax
  unanchored : ∀ r, p < r → t.anchors[r] = false

/-- Likewise for a subsector and its technologies. -/
structure Subsector.Repeats (p q : Fin n) (s : Subsector n α) : Prop where
  technologies : ∀ t ∈ s.technologies, t.Repeats p q
  parameters : s.parameters[q] = { s.parameters[p] with anchored := false }
  baseShareWeight : s.baseShareWeight[q] = s.baseShareWeight[p]
  unanchored : ∀ r, p < r → s.parameters[r].anchored = false

namespace Subsector

variable {s s' : Subsector n α}

/-- No technology has calibration data in the period. -/
def Uncalibrated (p : Fin n) (s : Subsector n α) : Prop :=
  ∀ t ∈ s.technologies, t.isCalibrated p = false

theorem Uncalibrated.of_framed {r : Fin n} (h : s.Uncalibrated p) (hframed : s.Framed r s') :
    s'.Uncalibrated p :=
  forall_mem_of_forall₂ hframed.technologies fun t ht _ ht' => ht'.isCalibrated ▸ h t ht

theorem Uncalibrated.isCalibratable_eq_false (h : s.Uncalibrated p) :
    s.isCalibratable p = false := by
  unfold isCalibratable
  cases hts : s.variableTechnologies p with
  | nil => rfl
  | cons t ts =>
    have ht : t ∈ s.variableTechnologies p := hts ▸ List.mem_cons_self ..
    simp [h t (List.mem_filter.1 ht).1]

theorem Uncalibrated.marks {any : Bool} (h : s.Uncalibrated p) (hs : s.Marks p any) :
    s.Marks p false := by
  intro t ht
  rw [hs t ht, h t ht, Bool.and_false, Bool.and_false, Bool.false_and]

theorem Repeats.unfixed (h : s.Repeats p q) : s.Unfixed p ∧ s.Unfixed q := by
  refine ⟨fun t ht => (h.technologies t ht).unfixed, fun t ht => ?_⟩
  rw [(h.technologies t ht).parameters]
  exact (h.technologies t ht).unfixed

theorem Repeats.uncalibrated (h : s.Repeats p q) {r : Fin n} (hr : p < r) : s.Uncalibrated r := by
  intro t ht
  have hunanchored := (h.technologies t ht).unanchored r hr
  rw [Technology.anchors, Series.getElem_map, Bool.or_eq_false_iff] at hunanchored
  exact hunanchored.2

section CarryForward

variable [Quantity α]

theorem Unfixed.carryForward (h : s.Unfixed q) (c : Calendar n) (p : Fin n) :
    (s.carryForward c p).Unfixed q := by
  rw [Unfixed, technologies_carryForward, List.forall_mem_map]
  exact fun t ht => t.parameters_carryForward c p ▸ h t ht

theorem Uncalibrated.carryForward (h : s.Uncalibrated q) (c : Calendar n) (p : Fin n) :
    (s.carryForward c p).Uncalibrated q := by
  rw [Uncalibrated, technologies_carryForward, List.forall_mem_map]
  intro t ht
  rw [Technology.isCalibrated, t.parameters_carryForward]
  exact h t ht

end CarryForward

end Subsector

section Carried

variable [ExactQuantity α] {prices prices' : GoodTable α} {c : Calendar n}

namespace Technology

variable {t t' t'' : Technology n α}

/-- A later period starts with the share weight that is in use in the first one, recalibrated or
not. -/
theorem Repeats.carried (h : t.Repeats p q) (hpq : p < q) (ht' : t.Settled prices p t') :
    (t'.carryForward c p).baseShareWeight[q] = t'.results[p].shareWeight := by
  rw [baseShareWeight_carryForward]
  split
  · exact Series.getElem_carryFrom_of_no_anchor
      (fun r hr => ht'.framed.anchors ▸ h.unanchored r hr) hpq
  · next hmark =>
    rw [ht'.weight (Bool.eq_false_iff.2 hmark), ← ht'.framed.baseShareWeight]
    exact h.baseShareWeight

/-- At the same price the technology has the same cost again, and competes in the same way. -/
theorem Repeats.reproduced (h : t.Repeats p q) (hpq : p < q) (ht' : t.Settled prices p t')
    (ht'' : (t'.carryForward c p).Settled prices' q t'')
    (hfresh : t''.results[q].recalibrated = false)
    (hprices : ∀ good, GoodTable.amount? prices' good q = GoodTable.amount? prices good p) :
    t''.results[q].cost = t'.results[p].cost ∧ t''.contenderInUse q = t'.contenderInUse p := by
  have hparameters : t''.parameters = t.parameters := by
    rw [← ht''.framed.parameters, parameters_carryForward, ht'.framed.parameters]
  have hfuel : (t'.carryForward c p).fuel = t.fuel := by
    rw [fuel_carryForward, ht'.framed.fuel]
  have hcost : t''.results[q].cost = t'.results[p].cost := by
    rw [ht''.cost, ht'.cost, costIn, costIn, fuelPriceIn, fuelPriceIn, hfuel,
      parameters_carryForward, results_carryForward, ← ht'.framed.parameters, h.parameters,
      ← ht'.framed.results q hpq.ne', h.carbonTax]
    simp only [hprices]
  refine ⟨hcost, ?_⟩
  rw [contenderInUse, contenderInUse, hcost, hparameters, h.parameters, ← ht'.framed.parameters,
    ht''.weight hfresh, ← ht''.framed.baseShareWeight, h.carried hpq ht']

end Technology

namespace Subsector

variable {s s' s'' : Subsector n α}

/-- Likewise for the share weight of the subsector. -/
theorem Repeats.carried (h : s.Repeats p q) (hpq : p < q) (hs' : s.Framed p s')
    (hweight : s'.results[p].calibrated = false →
      s'.results[p].shareWeight = s'.baseShareWeight[p]) :
    (s'.carryForward c p).baseShareWeight[q] = s'.results[p].shareWeight := by
  rw [baseShareWeight_carryForward]
  split
  · refine Series.getElem_carryFrom_of_no_anchor (fun r hr => ?_) hpq
    rw [← hs'.anchors, anchors, Series.getElem_ofFn, h.unanchored r hr,
      (h.uncalibrated hr).isCalibratable_eq_false, Bool.or_false]
  · next hmark =>
    rw [hweight (Bool.eq_false_iff.2 hmark), ← hs'.baseShareWeight]
    exact h.baseShareWeight

/-- A subsector that is carried forward has the shares and the price again that it was left with. -/
theorem Repeats.reproduced (h : s.Repeats p q) (hpq : p < q) (hs' : s.Settled prices p s')
    (hs'' : (s'.carryForward c p).Settled prices' q s'') (hfresh : s''.Marks q false)
    (hprices : ∀ good, GoodTable.amount? prices' good q = GoodTable.amount? prices good p) :
    (s''.technologies.map fun t => t.results[q].share)
        = (s'.technologies.map fun t => t.results[p].share) ∧
      s''.results[q].price = s'.results[p].price := by
  -- Each technology is left by the first calculation and goes into the second one.
  have hleft : ∀ t' ∈ s'.technologies,
      ∃ t : Technology n α, t.Repeats p q ∧ t.Settled prices p t' :=
    forall_mem_of_forall₂ hs'.technologies fun t ht t' ht' => ⟨t, h.technologies t ht, ht'⟩
  have hnext := forall₂_and_right hs''.technologies hfresh
  rw [technologies_carryForward, List.forall₂_map_left_iff] at hnext
  have hchain := (List.forall₂_and_left _ _).2 ⟨hleft, hnext⟩
  have hrepeated : List.Forall₂ (fun t' t'' => t''.results[q].cost = t'.results[p].cost ∧
      t''.contenderInUse q = t'.contenderInUse p) s'.technologies s''.technologies := by
    refine hchain.imp fun t' t'' ht => ?_
    obtain ⟨⟨t, ht, ht'⟩, ht'', hmark⟩ := ht
    exact ht.reproduced hpq ht' ht'' (hmark.trans (Bool.false_and _)) hprices
  have hcosts := map_eq_of_forall₂ (f := fun t : Technology n α => t.results[p].cost)
    (g := fun t => t.results[q].cost) hrepeated fun ht => ht.1.symm
  have hcontenders := map_eq_of_forall₂ (f := fun t : Technology n α => t.contenderInUse p)
    (g := fun t => t.contenderInUse q) hrepeated fun ht => ht.2.symm
  have hshares := hs''.shares.unique hs'.shares hcontenders.symm
  exact ⟨hshares, by rw [hs''.price, hs'.price, averageCost, averageCost, hcosts, hshares]⟩

end Subsector

end Carried

namespace Subsector

/-- The subsector as a contender in its sector, with the share weight in use. -/
def contenderInUse (s : Subsector n α) (p : Fin n) : Contender α :=
  { s.contender p with shareWeight := s.results[p].shareWeight }

/-- What a subsector is when it was awarded its share: it is settled, nothing is recalibrated in it,
and unless its share weight was recalibrated, it is the base share weight. -/
structure Awarded [Quantity α] (prices : GoodTable α) (p : Fin n) (s s' : Subsector n α) : Prop
    extends s.Settled prices p s' where
  fresh : s'.Marks p false
  calibratable : s'.results[p].calibrated = true → s'.isCalibratable p = true
  weight : s'.results[p].calibrated = false →
    s'.results[p].shareWeight = s'.baseShareWeight[p]

variable [ExactQuantity α] {prices prices' : GoodTable α} {c : Calendar n} {output : α}
  {calibrate calibrate' : Bool} {x y z : Subsector n α}

theorem Awarded.settled_setOutput (h : x.Awarded prices p y) (hx : x.Unfixed p)
    (hok : (y.setOutput p output calibrate).failure = none) :
    x.Settled prices p (y.setOutput p output calibrate).state :=
  (h.toSettled.setOutput h.fresh hx hok).1

theorem Awarded.outputs_setOutput (h : x.Awarded prices p y) (hx : x.Unfixed p)
    (hok : (y.setOutput p output calibrate).failure = none) :
    ((y.setOutput p output calibrate).state.technologies.map fun t => t.results[p].output)
      = ((y.setOutput p output calibrate).state.technologies.map fun t => t.results[p].share).map
          (· * output) := by
  rw [List.map_map]
  exact List.map_congr_left (h.toSettled.setOutput h.fresh hx hok).2

section Pair

variable (h : x.Repeats p q) (hpq : p < q)
  (hprices : ∀ good, GoodTable.amount? prices' good q = GoodTable.amount? prices good p)
  (hy : x.Awarded prices p y) (hok : (y.setOutput p output calibrate).failure = none)
  (hz : ((y.setOutput p output calibrate).state.carryForward c p).Awarded prices' q z)

include h hpq hy hok hz

include hprices

/-- What is produced of an output is shared out as before. -/
theorem Repeats.shares_eq {output' : α}
    (hok' : (z.setOutput q output' calibrate').failure = none) :
    ((z.setOutput q output' calibrate').state.technologies.map fun t => t.results[q].share)
      = (y.setOutput p output calibrate).state.technologies.map fun t => t.results[p].share := by
  have hleft := hy.settled_setOutput h.unfixed.1 hok
  have hunfixed := (h.unfixed.2.of_framed hleft.framed).carryForward c p
  have hnext := hz.settled_setOutput hunfixed hok'
  have huncalibrated :=
    (((h.uncalibrated hpq).of_framed hleft.framed).carryForward c p).of_framed hnext.framed
  have hfresh := huncalibrated.marks (hz.fresh.setOutput hok').2
  exact (h.reproduced hpq hleft hnext hfresh hprices).1

end Pair

end Subsector

end NestedLogit
