import NestedLogit.Proofs.Sector.Marks

/-!
# The allocations behind the shares of technologies

The technologies of a subsector that are not fixed are shared out when their costs are known, and
once more if they are recalibrated to produce the output. Both allocations can be read off the
subsector when everything is calculated, because the technologies contend on the same terms from the
time when their costs are known. The first allocation is reported if it is a fallback; the other is
not.

## Main definitions

- `Subsector.SameCosts` — the same technologies at the same costs
- `Subsector.firstAllocation`, `Subsector.lastAllocation` — the allocations of technologies
- `Subsector.Decided` — shares that follow from the last allocation

## Main statements

- `Subsector.Opened.decided_setOutput` — the shares of a subsector that produces an output
- `Subsector.log_setOutput` — nothing is reported of it
-/

namespace NestedLogit

variable {n : Nat} {α : Type} {p : Fin n}

open Series (At)
open TechnologyResult (SameCost)

theorem TechnologyResult.SameCost.refl (r : TechnologyResult α) : SameCost r r :=
  ⟨⟨rfl⟩, rfl, rfl⟩

theorem TechnologyResult.SameCost.trans {r r' r'' : TechnologyResult α} (h : SameCost r r')
    (h' : SameCost r' r'') : SameCost r r'' :=
  ⟨⟨h.carbonTax.trans h'.carbonTax⟩, h.fuelPrice.trans h'.fuelPrice, h.cost.trans h'.cost⟩

namespace Technology

/-- Technologies with the same inputs and the same costs in a period. -/
abbrev AtSameCost (p : Fin n) : Technology n α → Technology n α → Prop :=
  Technology.Alike (At p SameCost)

variable {t t' t'' : Technology n α}

theorem AtSameCost.refl (t : Technology n α) : t.AtSameCost p t :=
  ⟨rfl, rfl, rfl, rfl, SameCost.refl _⟩

theorem AtSameCost.trans (h : t.AtSameCost p t') (h' : t'.AtSameCost p t'') :
    t.AtSameCost p t'' :=
  ⟨h.id.trans h'.id, h.fuel.trans h'.fuel, h.baseShareWeight.trans h'.baseShareWeight,
    h.parameters.trans h'.parameters, SameCost.trans h.results h'.results⟩

theorem atSameCost_update (t : Technology n α) {f : TechnologyResult α → TechnologyResult α}
    (hf : ∀ r, SameCost r (f r)) : t.AtSameCost p (t.update p f) := by
  refine ⟨rfl, rfl, rfl, rfl, ?_⟩
  rw [At, update, Series.getElem_modify_self]
  exact hf _

theorem atSameCost_setShare (t : Technology n α) (share : α) :
    t.AtSameCost p (t.setShare p share) :=
  t.atSameCost_update fun _ => ⟨⟨rfl⟩, rfl, rfl⟩

theorem atSameCost_resetShareWeight (t : Technology n α) :
    t.AtSameCost p (t.resetShareWeight p) :=
  t.atSameCost_update fun _ => ⟨⟨rfl⟩, rfl, rfl⟩

theorem atSameCost_takeUp (t : Technology n α) (x : Contender α × α) :
    t.AtSameCost p (t.takeUp p x) := by
  unfold takeUp
  refine AtSameCost.trans ?_ (atSameCost_setShare _ x.2)
  split
  · exact t.atSameCost_update fun _ => ⟨⟨rfl⟩, rfl, rfl⟩
  · exact .refl t

theorem atSameCost_setOutput [Quantity α] (t : Technology n α) (output : α) :
    t.AtSameCost p (t.setOutput p output) :=
  t.atSameCost_update fun _ => ⟨⟨rfl⟩, rfl, rfl⟩

end Technology

namespace Subsector

/-- The technologies of subsectors, one by one at the same costs. -/
def SameCosts (p : Fin n) (s s' : Subsector n α) : Prop :=
  List.Forall₂ (Technology.AtSameCost p) s.technologies s'.technologies

variable {s s' s'' : Subsector n α}

theorem SameCosts.of_technologies (h : s'.technologies = s.technologies) : s.SameCosts p s' := by
  rw [SameCosts, h]
  exact List.forall₂_same.2 fun t _ => Technology.AtSameCost.refl t

theorem SameCosts.trans (h : s.SameCosts p s') (h' : s'.SameCosts p s'') : s.SameCosts p s'' :=
  forall₂_trans Technology.AtSameCost.trans h h'

theorem SameCosts.variableTechnologies (h : s.SameCosts p s') :
    List.Forall₂ (Technology.AtSameCost p) (s.variableTechnologies p) (s'.variableTechnologies p) :=
  List.rel_filter (fun _ _ ht => by simp only [ht.isFixed]) h

variable [Quantity α]

section Steps

/-- Sharing out the technologies does not change their costs. -/
theorem sameCosts_shareTechnologies (s : Subsector n α) :
    s.SameCosts p (s.shareTechnologies p).state := by
  unfold shareTechnologies
  split
  · exact .of_technologies rfl
  · refine forall₂_trans Technology.AtSameCost.trans (forall₂_map_self (fun t => ?_) _)
      (forall₂_overVariable_self .refl (fun t share => t.atSameCost_setShare share) _ _)
    exact t.atSameCost_resetShareWeight.trans (Technology.atSameCost_setShare _ 0)

theorem sameCosts_recalibrateTechnologies (s : Subsector n α) (variableOutput : α) :
    s.SameCosts p (s.recalibrateTechnologies p variableOutput).state := by
  rw [recalibrateTechnologies_eq]
  split
  · exact .of_technologies rfl
  · split
    · exact .of_technologies rfl
    · exact forall₂_overVariable_self .refl (fun t x => t.atSameCost_takeUp x) _ _

theorem sameCosts_produce (s : Subsector n α) (variableOutput : α) :
    s.SameCosts p (s.produce p variableOutput) := by
  refine forall₂_map_self (fun t => ?_) _
  split <;> exact t.atSameCost_setOutput _

theorem sameCosts_takeStock (s : Subsector n α) (output : α) :
    s.SameCosts p (s.takeStock p output) := by
  rw [SameCosts, technologies_takeStock]
  split
  · exact forall₂_map_self (fun t => t.atSameCost_setShare _) _
  · exact List.forall₂_same.2 fun t _ => .refl t

theorem sameCosts_serve {output : α} {calibrate : Bool}
    (h : (s.serve p output calibrate).failure = none) :
    s.SameCosts p (s.serve p output calibrate).state := by
  obtain ⟨-, hstate⟩ := serve_eq_ok h
  rw [hstate]
  refine SameCosts.trans ?_ ((sameCosts_produce _ _).trans (sameCosts_takeStock _ output))
  split
  · exact s.sameCosts_recalibrateTechnologies _
  · exact .of_technologies rfl

/-- Producing an output that is not refused does not change the costs. -/
theorem sameCosts_setOutput {output : α} {calibrate : Bool}
    (h : (s.setOutput p output calibrate).failure = none) :
    s.SameCosts p (s.setOutput p output calibrate).state := by
  obtain ⟨scale, hserve⟩ := exists_serve_of_ok h
  rw [hserve] at h ⊢
  have hscaled : s.SameCosts p (s.withScale p scale) := .of_technologies rfl
  exact hscaled.trans (sameCosts_serve h)

theorem log_recalibrateTechnologies (s : Subsector n α) (variableOutput : α) :
    (s.recalibrateTechnologies p variableOutput).log = [] := by
  rw [recalibrateTechnologies_eq]
  split
  · rfl
  · split <;> rfl

theorem log_serve (s : Subsector n α) (output : α) (calibrate : Bool) :
    (s.serve p output calibrate).log = [] := by
  have hready : (if calibrate then
      s.recalibrateTechnologies p (Quantity.larger (output - s.fixedSupply p) 0)
    else Run.ok s).log = [] := by
    split
    · exact s.log_recalibrateTechnologies _
    · rfl
  rw [serve]
  cases hr : (if calibrate then
      s.recalibrateTechnologies p (Quantity.larger (output - s.fixedSupply p) 0)
    else Run.ok s).failure with
  | none => rw [Run.log_andThen hr, hready, Run.ok, List.append_nil]
  | some e => rw [Run.andThen_of_some hr, hready]

/-- Producing an output reports nothing. -/
theorem log_setOutput (s : Subsector n α) (output : α) (calibrate : Bool) :
    (s.setOutput p output calibrate).log = [] := by
  unfold setOutput
  dsimp only
  split
  · rfl
  · split
    · exact log_serve _ output calibrate
    · split
      · exact log_serve _ output calibrate
      · rfl

end Steps

section Allocations

/-- The allocation between the technologies that are not fixed, with their base share weights. -/
def firstAllocation (s : Subsector n α) (p : Fin n) : Except (AllocationError α) (Allocation α) :=
  allocate ((s.variableTechnologies p).map (·.contender p))

/-- The allocation that shares out a variable output between the technologies that are not fixed:
with recalibration, if there is something to produce and somebody has calibration data. -/
def allocationFor (s : Subsector n α) (p : Fin n) (calibrate : Bool) (variableOutput : α) :
    Except (AllocationError α) (Allocation α) :=
  if !calibrate || (variableOutput ≤ 0 || !(s.variableTechnologies p).any (·.isCalibrated p)) then
    s.firstAllocation p
  else (recalibrate (s.technologyAims p variableOutput)).outcome

/-- The allocation that decides the shares of the technologies that are not fixed. -/
def lastAllocation (s : Subsector n α) (p : Fin n) (calibrate : Bool) :
    Except (AllocationError α) (Allocation α) :=
  s.allocationFor p calibrate (s.variableOutput p)

/-- The share of the whole output that a share of the variable output comes to. -/
def shareOfOutput (s : Subsector n α) (p : Fin n) (share : α) : α :=
  if 0 < s.results[p].output then share * s.variableOutput p / s.results[p].output else share

theorem SameCosts.firstAllocation (h : s.SameCosts p s') :
    s.firstAllocation p = s'.firstAllocation p :=
  congrArg allocate (map_eq_of_forall₂ h.variableTechnologies fun ht => ht.contender)

theorem SameCosts.allocationFor (h : s.SameCosts p s') (calibrate : Bool) (variableOutput : α) :
    s.allocationFor p calibrate variableOutput = s'.allocationFor p calibrate variableOutput := by
  have haims : s.technologyAims p variableOutput = s'.technologyAims p variableOutput :=
    map_eq_of_forall₂ h.variableTechnologies fun ht => by rw [ht.contender, ht.parameters]
  rw [Subsector.allocationFor, Subsector.allocationFor, haims, h.firstAllocation,
    any_eq_of_forall₂ h.variableTechnologies fun ht => ht.isCalibrated]

/-- The technologies that are not fixed have the shares of their first allocation. -/
def Opened (p : Fin n) (s : Subsector n α) : Prop :=
  ∃ first, s.firstAllocation p = .ok first ∧ s.variableShares p = first.shares

theorem Opened.of_technologies (h : s.Opened p) (hsame : s'.technologies = s.technologies) :
    s'.Opened p := by
  unfold Opened Subsector.firstAllocation variableShares variableTechnologies
  rw [hsame]
  exact h

/-- How the shares of technologies came about in a subsector that has produced an output: there is a
first allocation, and there is a last one that decided the shares. -/
structure Decided (p : Fin n) (calibrate : Bool) (first last : Allocation α)
    (s : Subsector n α) : Prop where
  first_eq : s.firstAllocation p = .ok first
  last_eq : s.lastAllocation p calibrate = .ok last
  shares_eq : s.variableShares p = last.shares.map (s.shareOfOutput p)

end Allocations

section Output

variable {output : α} {calibrate : Bool}

/-- Before an output is produced, the technologies have the shares of the allocation for it. -/
theorem Opened.recalibrated (h : s.Opened p) {variableOutput : α} :
    let ready := if calibrate then s.recalibrateTechnologies p variableOutput else .ok s
    ready.failure = none →
      ∃ last, s.allocationFor p calibrate variableOutput = .ok last ∧
        ready.state.variableShares p = last.shares := by
  obtain ⟨first, hfirst, hshares⟩ := h
  cases calibrate with
  | false => exact fun _ => ⟨first, hfirst, hshares⟩
  | true =>
    rw [if_pos rfl, recalibrateTechnologies_eq, allocationFor, Bool.not_true, Bool.false_or]
    intro ready
    by_cases hnobody :
        (variableOutput ≤ 0 || !(s.variableTechnologies p).any (·.isCalibrated p)) = true
    · simp only [ready, if_pos hnobody]
      exact fun _ => ⟨first, hfirst, hshares⟩
    · simp only [ready, if_neg hnobody]
      cases hb : (recalibrate (s.technologyAims p variableOutput)).outcome with
      | error e => exact nofun
      | ok b => exact fun _ => ⟨b, rfl, variableShares_takeUp hb⟩

/-- The technologies that are not fixed produce their shares of the variable output. -/
theorem variableTechnologies_produce (s : Subsector n α) (variableOutput : α) :
    (s.produce p variableOutput).variableTechnologies p =
      (s.variableTechnologies p).map fun t =>
        t.setOutput p (t.results[p].share * variableOutput) := by
  have hsupply : ∀ t ∈ s.variableTechnologies p,
      t.supply p s.results[p].fixedSupplyScale variableOutput
        = t.results[p].share * variableOutput := by
    intro t ht
    have hnone : t.parameters[p].fixedOutput = none := by
      simpa [Technology.isFixed] using (List.mem_filter.1 ht).2
    rw [Technology.supply, hnone]
  rw [produce_eq, variableTechnologies, mapTechnologies, List.filter_map]
  exact List.map_congr_left fun t ht => congrArg (t.setOutput p) (hsupply t ht)

/-- Taking stock turns what they produce into shares of the output. -/
theorem variableShares_takeStock (s : Subsector n α) :
    (s.takeStock p output).variableShares p =
      (s.variableTechnologies p).map fun t =>
        if 0 < output then t.results[p].output / output else t.results[p].share := by
  unfold variableShares variableTechnologies
  rw [technologies_takeStock]
  split
  · rw [List.filter_map, List.map_map]
    refine List.map_congr_left fun t _ => ?_
    simp [Technology.setShare, Technology.update]
  · rfl

/-- Serving an output leaves a subsector with a first allocation and with shares that follow from a
last one. -/
theorem Opened.decided_serve (h : s.Opened p)
    (hok : (s.serve p output calibrate).failure = none) :
    ∃ first last, (s.serve p output calibrate).state.Decided p calibrate first last := by
  have hcosts := sameCosts_serve hok
  have hvariable := variableOutput_serve hok
  obtain ⟨_, _, _, _, _, hresults⟩ := results_serve hok
  obtain ⟨hready, hstate⟩ := serve_eq_ok hok
  obtain ⟨last, hlast, hshares⟩ := h.recalibrated hready
  obtain ⟨first, hfirst, -⟩ := h
  -- What is read off the subsector in the end is what the allocation was made for.
  refine ⟨first, last, hcosts.firstAllocation ▸ hfirst, ?_, ?_⟩
  · rw [lastAllocation, hvariable, ← hcosts.allocationFor]
    exact hlast
  · have hshare : ∀ share, (s.serve p output calibrate).state.shareOfOutput p share =
        if 0 < output then share * Quantity.larger (output - s.fixedSupply p) 0 / output
        else share := by
      intro share
      rw [shareOfOutput, hvariable, hresults]
    simp only [funext hshare, ← hshares]
    rw [hstate, variableShares_takeStock, variableTechnologies_produce, List.map_map,
      variableShares, List.map_map]
    refine List.map_congr_left fun t _ => ?_
    simp [Technology.setOutput, Technology.update]

/-- So does producing an output that is not refused. -/
theorem Opened.decided_setOutput (h : s.Opened p)
    (hok : (s.setOutput p output calibrate).failure = none) :
    ∃ first last, (s.setOutput p output calibrate).state.Decided p calibrate first last := by
  obtain ⟨scale, hserve⟩ := exists_serve_of_ok hok
  rw [hserve] at hok ⊢
  have hscaled : (s.withScale p scale).Opened p := h.of_technologies rfl
  exact hscaled.decided_serve hok

end Output

end Subsector

end NestedLogit
