import NestedLogit.Proofs.Choice.Recalibration
import NestedLogit.Proofs.Sector.Marks

/-!
# What a calculation leaves in a subsector without fixed outputs

In the end the shares of the technologies are those that the share weights in use give, and the
price of the subsector is the average of the costs with these shares. Both hold already when the
subsector enters the competition for its sector's demand, with the base share weights, and again
after it has produced its share of the demand, with the recalibrated ones; in between a
recalibration changes the weights, the shares and thus the price.

## Main definitions

- `SharedOut` — shares that a choice between contenders gives
- `Subsector.averageCost` — the average cost of the technologies, weighted by their shares
- `Subsector.Explained` — costs and shares follow from prices and the share weights in use
- `Subsector.Settled` — and so does the price of the subsector

## Main statements

- `SharedOut.unique` — the same contenders get the same shares
- `Subsector.settled_offer` — a subsector that enters the competition is settled
- `Subsector.Settled.setOutput` — and so is one that has produced an output
-/

namespace NestedLogit

variable {n : Nat} {α : Type} {p : Fin n}

section Choice

variable {β γ : Type} [Quantity α]

/-- Shares that an allocation between contenders gives, one for each member of a list. -/
def SharedOut (contender : β → Contender α) (share : β → α) (xs : List β) : Prop :=
  ∃ a, allocate (xs.map contender) = .ok a ∧ xs.map share = a.shares

/-- The same contenders get the same shares. -/
theorem SharedOut.unique {contender : β → Contender α} {share : β → α} {xs : List β}
    {contender' : γ → Contender α} {share' : γ → α} {ys : List γ}
    (h : SharedOut contender share xs) (h' : SharedOut contender' share' ys)
    (hsame : xs.map contender = ys.map contender') : xs.map share = ys.map share' := by
  obtain ⟨a, ha, hshares⟩ := h
  obtain ⟨b, hb, hshares'⟩ := h'
  rw [hsame] at ha
  obtain rfl := Except.ok.inj (ha.symm.trans hb)
  exact hshares.trans hshares'.symm

end Choice

section Average

/-- The average of values under given weights. Weights that do not sum to something positive count
as equal. -/
def weightedAverage [Quantity α] (values weights : List α) : α :=
  if values.isEmpty then 0
  else if Quantity.total weights ≤ 0 then Quantity.total values / Quantity.whole values.length
  else Quantity.total (List.zipWith (fun v w => v * w / Quantity.total weights) values weights)

theorem weightedCosts_eq_averages [Quantity α] (ts : List (Technology n α)) (weights : List α) :
    weightedCosts ts weights p =
      (weightedAverage (ts.map fun t => t.results[p].cost) weights,
        weightedAverage (ts.map fun t => t.results[p].fuelPrice) weights) := by
  simp only [weightedCosts, weightedAverage, List.isEmpty_map, List.length_map,
    List.zipWith_map_left]
  split
  · rfl
  · split <;> rfl

/-- An average depends on the proportions of the weights only. -/
theorem weightedAverage_scale [ExactQuantity α] (values weights : List α) {factor : α}
    (hfactor : 0 < factor) :
    weightedAverage values (weights.map (· * factor)) = weightedAverage values weights := by
  have htotal : Quantity.total (weights.map (· * factor)) = Quantity.total weights * factor := by
    rw [Quantity.total_eq_sum, Quantity.total_eq_sum, List.sum_map_mul_right, List.map_id']
  have hsign : Quantity.total weights * factor ≤ 0 ↔ Quantity.total weights ≤ 0 := by
    rw [← not_lt, ← not_lt, mul_pos_iff_of_pos_right hfactor]
  have hpart : ∀ v w : α, v * (w * factor) / (Quantity.total weights * factor)
      = v * w / Quantity.total weights := fun v w => by
    rw [← mul_assoc, mul_div_mul_right _ _ hfactor.ne']
  simp only [weightedAverage, htotal, hsign, List.zipWith_map_right, hpart]

/-- An average, times the sum of the weights, is the weighted sum. -/
theorem weightedAverage_mul_sum [ExactQuantity α] (values : List α) {weights : List α}
    (hnonneg : ∀ w ∈ weights, 0 ≤ w) :
    weightedAverage values weights * weights.sum = (List.zipWith (· * ·) values weights).sum := by
  unfold weightedAverage
  rw [Quantity.total_eq_sum weights]
  split
  · next hempty => simp [List.isEmpty_iff.1 hempty]
  · split
    · next hnothing =>
      have hzero : weights.sum = 0 := le_antisymm hnothing (List.sum_nonneg hnonneg)
      have hall : ∀ w ∈ weights, w = 0 :=
        fun w hw => List.all_zero_of_le_zero_le_of_sum_eq_zero hnonneg hzero hw
      rw [hzero, mul_zero, List.sum_eq_zero]
      intro x hx
      obtain ⟨i, hi, rfl⟩ := List.mem_iff_getElem.1 hx
      rw [List.getElem_zipWith, hall _ (List.getElem_mem _), mul_zero]
    · next hsome =>
      have hparts : List.zipWith (fun v w => v * w / weights.sum) values weights
          = (List.zipWith (· * ·) values weights).map (· * weights.sum⁻¹) := by
        simp only [List.map_zipWith, div_eq_mul_inv]
      rw [hparts, Quantity.total_eq_sum, List.sum_map_mul_right, List.map_id',
        inv_mul_cancel_right₀ (not_le.1 hsome).ne']

end Average

namespace Technology

variable [Quantity α]

/-- The price of the fuel that a technology consumes, if it consumes any and there is a price. -/
def fuelPriceIn (t : Technology n α) (prices : GoodTable α) (p : Fin n) : α :=
  (t.fuel.bind fun fuel => GoodTable.amount? prices fuel p).getD 0

/-- The cost of a technology at the prices of a market. -/
def costIn (t : Technology n α) (prices : GoodTable α) (p : Fin n) : α :=
  t.parameters[p].nonEnergyCost
    + (t.fuelPriceIn prices p + t.results[p].carbonTax * t.parameters[p].emissionsCoefficient)
      / t.parameters[p].efficiency

/-- The technology as a contender in its subsector, with the share weight in use. -/
def contenderInUse (t : Technology n α) (p : Fin n) : Contender α :=
  .unlimited t.results[p].shareWeight t.results[p].cost t.parameters[p].logitExponent

/-- What a calculation makes of a technology: its cost follows from the prices, and unless its share
weight was recalibrated, it is the base share weight. -/
structure Settled (prices : GoodTable α) (p : Fin n) (t t' : Technology n α) : Prop where
  framed : t.Framed p t'
  cost : t'.results[p].cost = t.costIn prices p
  weight : t'.results[p].recalibrated = false → t'.results[p].shareWeight = t'.baseShareWeight[p]

variable {prices : GoodTable α} {t t' : Technology n α}

theorem Settled.update (h : t.Settled prices p t') {f : TechnologyResult α → TechnologyResult α}
    (hcost : ∀ r, (f r).cost = r.cost) (hweight : ∀ r, (f r).shareWeight = r.shareWeight)
    (hmark : ∀ r, (f r).recalibrated = r.recalibrated) : t.Settled prices p (t'.update p f) where
  framed := h.framed.trans (framed_update _ f)
  cost := by
    rw [Technology.update, Series.getElem_modify_self, hcost]
    exact h.cost
  weight := by
    rw [Technology.update, Series.getElem_modify_self, hmark, hweight]
    exact h.weight

theorem Settled.setShare (h : t.Settled prices p t') (share : α) :
    t.Settled prices p (t'.setShare p share) :=
  h.update (fun _ => rfl) (fun _ => rfl) fun _ => rfl

theorem Settled.setOutput (h : t.Settled prices p t') (output : α) :
    t.Settled prices p (t'.setOutput p output) :=
  h.update (fun _ => rfl) (fun _ => rfl) fun _ => rfl

theorem Settled.takeUp (h : t.Settled prices p t') (x : Contender α × α) :
    t.Settled prices p (t'.takeUp p x) := by
  unfold Technology.takeUp
  refine Settled.setShare ?_ _
  split
  · refine ⟨h.framed.trans (framed_update _ _), ?_, fun hmark => ?_⟩
    · rw [← h.cost]
      simp [setCalibratedShareWeight, Technology.update]
    · simp [setCalibratedShareWeight, Technology.update] at hmark
  · exact h

/-- What a technology aims at in a recalibration. -/
def aim (p : Fin n) (variableOutput : α) (t : Technology n α) : Aim α :=
  ⟨t.contender p, t.parameters[p].calibrationOutput.map fun target =>
    Quantity.smaller (target / variableOutput) 1⟩

/-- A technology whose base share weight is in use takes up the weight that its recalibration comes
to, if it has calibration data, and otherwise a recalibration comes to the weight in use. -/
theorem contenderInUse_takeUp {variableOutput : α} {x : Contender α × α}
    (hweight : t.results[p].shareWeight = t.baseShareWeight[p])
    (h : (t.aim p variableOutput).Recalibrated { t.aim p variableOutput with contender := x.1 }) :
    (t.takeUp p x).contenderInUse p = x.1 := by
  obtain ⟨⟨weight, price, exponent, limit, fixed⟩, share⟩ := x
  obtain ⟨-, rfl, rfl, rfl, rfl, haimed, -, -⟩ := h
  unfold Technology.takeUp
  cases hcalibrated : t.isCalibrated p with
  | true =>
    simp [contenderInUse, setCalibratedShareWeight, Technology.setShare, Technology.update, aim,
      contender, Contender.unlimited]
  | false =>
    have hkept : weight = t.baseShareWeight[p] := by
      by_contra hne
      have haimed := (haimed hne).1
      rw [aim, Option.isSome_map] at haimed
      exact Bool.noConfusion (haimed.symm.trans hcalibrated)
    simp [contenderInUse, Technology.setShare, Technology.update, aim, contender, hkept, hweight,
      Contender.unlimited]

end Technology

namespace Subsector

/-- No technology has a fixed output in the period. -/
def Unfixed (p : Fin n) (s : Subsector n α) : Prop :=
  ∀ t ∈ s.technologies, t.parameters[p].fixedOutput = none

section Unfixed

variable {s : Subsector n α}

theorem Unfixed.isFixed_eq_false (h : s.Unfixed p) :
    ∀ t ∈ s.technologies, t.isFixed p = false := by
  intro t ht
  rw [Technology.isFixed, h t ht, Option.isSome_none]

theorem Unfixed.variableTechnologies_eq (h : s.Unfixed p) :
    s.variableTechnologies p = s.technologies :=
  List.filter_eq_self.2 fun t ht => by simp [h.isFixed_eq_false t ht]

theorem Unfixed.isAllFixed_eq_false (h : s.Unfixed p) : s.isAllFixed p = false := by
  unfold isAllFixed
  cases hts : s.technologies with
  | nil => rfl
  | cons t ts => simp [h.isFixed_eq_false t (hts ▸ List.mem_cons_self ..)]

theorem Unfixed.of_framed {s' : Subsector n α} {q : Fin n} (h : s.Unfixed p)
    (hframed : s.Framed q s') : s'.Unfixed p :=
  forall_mem_of_forall₂ hframed.technologies fun t ht _ ht' => ht'.parameters ▸ h t ht

theorem Unfixed.fixedSupply_eq_zero [ExactQuantity α] (h : s.Unfixed p) : s.fixedSupply p = 0 := by
  have hnone : (s.technologies.filterMap fun t => t.parameters[p].fixedOutput) = [] :=
    List.filterMap_eq_nil_iff.2 h
  rw [fixedSupply, hnone, Quantity.total_nil, zero_mul]

theorem overVariable_eq_zipWith {β : Type} {f : Technology n α → β → Technology n α}
    {ts : List (Technology n α)} (h : ∀ t ∈ ts, t.isFixed p = false) {bs : List β}
    (hlen : bs.length = ts.length) : overVariable p f ts bs = List.zipWith f ts bs := by
  induction ts generalizing bs with
  | nil =>
    rw [List.length_eq_zero_iff.1 hlen]
    rfl
  | cons t ts ih =>
    obtain ⟨b, bs, rfl⟩ := List.exists_cons_of_length_eq_add_one hlen
    obtain ⟨ht, hts⟩ := List.forall_mem_cons.1 h
    rw [overVariable, if_neg (by simp [ht]), ih hts (Nat.succ.inj hlen), List.zipWith_cons_cons]

end Unfixed

section Settled

variable [Quantity α]

/-- The average of the technologies' costs, weighted by their shares. -/
def averageCost (s : Subsector n α) (p : Fin n) : α :=
  weightedAverage (s.technologies.map fun t => t.results[p].cost)
    (s.technologies.map fun t => t.results[p].share)

/-- What a calculation makes of a subsector without fixed outputs: the prices explain the costs of
the technologies, and the share weights in use explain their shares. -/
structure Explained (prices : GoodTable α) (p : Fin n) (s s' : Subsector n α) : Prop where
  framed : s.Framed p s'
  technologies : List.Forall₂ (Technology.Settled prices p) s.technologies s'.technologies
  shares : SharedOut (·.contenderInUse p) (fun t => t.results[p].share) s'.technologies

/-- The price of the subsector is explained, too. -/
structure Settled (prices : GoodTable α) (p : Fin n) (s s' : Subsector n α) : Prop
    extends s.Explained prices p s' where
  price : s'.results[p].price = s'.averageCost p

variable {s s' : Subsector n α} {prices : GoodTable α}

theorem Explained.update (h : s.Explained prices p s')
    (f : SubsectorResult α → SubsectorResult α) : s.Explained prices p (s'.update p f) where
  framed := h.framed.trans (framed_update _ f)
  technologies := h.technologies
  shares := h.shares

theorem Settled.update (h : s.Settled prices p s') {f : SubsectorResult α → SubsectorResult α}
    (hf : ∀ r, (f r).price = r.price) : s.Settled prices p (s'.update p f) where
  toExplained := h.toExplained.update f
  price := by
    rw [Subsector.update, Series.getElem_modify_self, hf]
    exact h.price

end Settled

variable [ExactQuantity α] {s s' : Subsector n α} {prices : GoodTable α}

section Offer

/-- What a subsector goes through before it competes for its sector's demand. -/
def offer (s : Subsector n α) (p : Fin n) (prices : GoodTable α) : Run α (Subsector n α) :=
  (s.prepare p prices).andThen fun s => .ok (s.calculatePrice p)

/-- Where there is a price for every fuel, every technology has its cost. -/
theorem technologies_calculateCosts (h : (s.calculateCosts p prices).failure = none) :
    (s.calculateCosts p prices).state.technologies
      = s.technologies.map fun t => t.calculateCost p (t.fuelPriceIn prices p) := by
  unfold calculateCosts at h ⊢
  have heach := Run.failure_map _ _ ▸ h
  rw [Run.state_map, Run.state_each heach]
  refine List.map_congr_left fun t ht => ?_
  have hcost := Run.failure_each.1 heach t ht
  unfold Technology.fuelPriceIn
  cases hfuel : t.fuel with
  | none => rfl
  | some fuel =>
    rw [hfuel] at hcost
    dsimp only at hcost ⊢
    rw [Option.bind_some]
    cases hprice : GoodTable.amount? prices fuel p with
    | none =>
      rw [hprice] at hcost
      cases hcost
    | some price => rfl

end Offer

section Output

/-- A recalibration that has something to do explains the shares anew. -/
theorem Explained.recalibrateTechnologies (h : s.Explained prices p s') (hfresh : s'.Marks p false)
    (hunfixed : s'.Unfixed p) {output : α}
    (hok : (s'.recalibrateTechnologies p output).failure = none) :
    s.Explained prices p (s'.recalibrateTechnologies p output).state := by
  have hframed := h.framed.trans (s'.framed_recalibrateTechnologies (p := p) output)
  rcases recalibrateTechnologies_eq_ok hok with ⟨-, hstate⟩ | ⟨-, b, hb, hlen, hstate⟩
  · rw [hstate]
    exact h
  · rw [hstate] at hframed ⊢
    rw [hunfixed.variableTechnologies_eq] at hlen
    rw [overVariable_eq_zipWith hunfixed.isFixed_eq_false hlen] at hframed ⊢
    -- Nothing was recalibrated before, so that the weights in use are the base share weights.
    have hweights : ∀ t ∈ s'.technologies, t.results[p].shareWeight = t.baseShareWeight[p] :=
      fun t ht => forall_mem_of_forall₂ h.technologies (fun _ _ _ h => h.weight) t ht
        ((hfresh t ht).trans (Bool.false_and _))
    have haims : s'.technologyAims p output = s'.technologies.map (Technology.aim p output) :=
      congrArg (List.map _) hunfixed.variableTechnologies_eq
    -- Taking up what a recalibration leaves makes its contenders the ones in use.
    have hallocate := allocate_contenders_recalibrate (s'.technologyAims p output)
    have hleft := forall₂_contenders_recalibrate (s'.technologyAims p output)
    rw [hb] at hallocate
    generalize (recalibrate (s'.technologyAims p output)).contenders = cs at *
    have hshares : cs.length = b.shares.length := (allocate_length_shares hallocate).symm
    rw [haims, ← List.map_fst_zip hshares.le, List.forall₂_map_left_iff,
      List.forall₂_map_right_iff] at hleft
    have hin := (List.forall₂_and_left _ _).2 ⟨hweights, hleft⟩
    have hcontenders : (List.zipWith (Technology.takeUp p) s'.technologies (cs.zip b.shares)).map
        (·.contenderInUse p) = cs :=
      (map_zipWith_of_forall₂ (g := fun t : Technology n α => t.contenderInUse p) (k := Prod.fst)
        hin fun h => Technology.contenderInUse_takeUp h.1 h.2).trans (List.map_fst_zip hshares.le)
    refine ⟨hframed, forall₂_zipWith_right h.technologies (fun x ht => ht.takeUp x) hlen.ge, b,
      hcontenders.symm ▸ hallocate, ?_⟩
    exact (map_zipWith_right (g := fun t : Technology n α => t.results[p].share) (k := Prod.snd)
      (Technology.share_takeUp p) hlen).trans (List.map_snd_zip hshares.ge)

theorem price_takeStock (s : Subsector n α) (output : α) :
    (s.takeStock p output).results[p].price =
      if 0 < output then
        weightedAverage (s.technologies.map fun t => t.results[p].cost)
          (s.technologies.map fun t => t.results[p].output)
      else s.results[p].price := by
  unfold takeStock
  dsimp only
  split
  · simp only [mapTechnologies, update, Series.getElem_modify_self, weightedCosts_eq_averages]
    rfl
  · simp [calculateEmissions, update]

theorem technologies_produce (hunfixed : s.Unfixed p) (output : α) :
    (s.produce p output).technologies
      = s.technologies.map fun t => t.setOutput p (t.results[p].share * output) := by
  refine List.map_congr_left fun t ht => ?_
  rw [hunfixed t ht]

/-- Taking stock of shares of an output does not change the shares. -/
theorem technologies_takeStock_produce (hunfixed : s.Unfixed p) (output : α) :
    ((s.produce p output).takeStock p output).technologies = (s.produce p output).technologies := by
  rw [technologies_takeStock]
  split
  · next hpos =>
    rw [technologies_produce hunfixed, List.map_map]
    refine List.map_congr_left fun t _ => ?_
    rw [Function.comp_apply, Technology.setShare, Technology.update, Series.modify_eq_self]
    simp [Technology.setOutput, Technology.update, mul_div_cancel_right₀ _ hpos.ne']
  · rfl

/-- Producing shares of an output settles the price, if it is settled already where there is nothing
to produce. -/
theorem Explained.produce (h : s.Explained prices p s') (hunfixed : s'.Unfixed p) {output : α}
    (hprice : ¬0 < output → s'.results[p].price = s'.averageCost p) :
    s.Settled prices p ((s'.produce p output).takeStock p output) := by
  have htechnologies := technologies_takeStock_produce hunfixed output
  rw [technologies_produce hunfixed] at htechnologies
  have hframed := h.framed.trans
    ((s'.framed_produce (p := p) output).trans (framed_takeStock _ output))
  -- Producing leaves costs and shares alone, and outputs become proportional to the shares.
  obtain ⟨a, ha, hshares⟩ := h.shares
  have hcosts : ((s'.technologies.map fun t => t.setOutput p (t.results[p].share * output)).map
      fun t => t.results[p].cost) = s'.technologies.map fun t => t.results[p].cost := by
    simp [Technology.setOutput, Technology.update]
  have hsame : ((s'.technologies.map fun t => t.setOutput p (t.results[p].share * output)).map
      fun t => t.results[p].share) = s'.technologies.map fun t => t.results[p].share := by
    simp [Technology.setOutput, Technology.update]
  have houtputs : ((s'.technologies.map fun t => t.setOutput p (t.results[p].share * output)).map
      fun t => t.results[p].output)
        = (s'.technologies.map fun t => t.results[p].share).map (· * output) := by
    simp [Technology.setOutput, Technology.update]
  refine ⟨⟨hframed, ?_, a, ?_, ?_⟩, ?_⟩
  · rw [htechnologies, List.forall₂_map_right_iff]
    exact h.technologies.imp fun t t' ht => ht.setOutput _
  · rw [← ha, htechnologies, List.map_map]
    refine congrArg allocate (List.map_congr_left fun t _ => ?_)
    simp [Technology.contenderInUse, Technology.setOutput, Technology.update]
  · rw [htechnologies, hsame, hshares]
  · rw [averageCost, htechnologies, hcosts, hsame, price_takeStock]
    split
    · next hpos =>
      rw [technologies_produce hunfixed, hcosts, houtputs, weightedAverage_scale _ _ hpos]
    · next hpos => exact hprice hpos

/-- A subsector that does not refuse an output was asked for one that is not negative. -/
theorem nonneg_of_setOutput {output : α} {calibrate : Bool}
    (h : (s.setOutput p output calibrate).failure = none) : 0 ≤ output := by
  by_contra hneg
  rw [setOutput, if_pos (by simpa using hneg)] at h
  cases h

/-- Where there is nothing to produce, calibration leaves the price settled. -/
theorem Settled.recalibrated (h : s.Settled prices p s') (hfresh : s'.Marks p false)
    (hunfixed : s'.Unfixed p) {output : α} {calibrate : Bool} :
    let ready := if calibrate then s'.recalibrateTechnologies p output else .ok s'
    ready.failure = none → s.Explained prices p ready.state ∧
      (¬0 < output → ready.state.results[p].price = ready.state.averageCost p) := by
  cases calibrate with
  | false => exact fun _ => ⟨h.toExplained, fun _ => h.price⟩
  | true =>
    refine fun hok =>
      ⟨h.toExplained.recalibrateTechnologies hfresh hunfixed hok, fun hnothing => ?_⟩
    rw [if_pos rfl, recalibrateTechnologies_eq, if_pos (by simp [not_lt.1 hnothing])]
    exact h.price

/-- A subsector that produces an output is settled again, after a recalibration with other weights,
shares and a different price. Every technology produces its share of the output. -/
theorem Settled.setOutput (h : s.Settled prices p s') (hfresh : s'.Marks p false)
    (hs : s.Unfixed p) {output : α} {calibrate : Bool}
    (hok : (s'.setOutput p output calibrate).failure = none) :
    s.Settled prices p (s'.setOutput p output calibrate).state ∧
      ∀ t ∈ (s'.setOutput p output calibrate).state.technologies,
        t.results[p].output = t.results[p].share * output := by
  have hnonneg := nonneg_of_setOutput hok
  obtain ⟨scale, hserve⟩ := exists_serve_of_ok hok
  rw [hserve] at hok ⊢
  have hscaled : s.Settled prices p (s'.withScale p scale) := h.update fun _ => rfl
  have hfresh : (s'.withScale p scale).Marks p false := hfresh
  have hunfixed : (s'.withScale p scale).Unfixed p := hs.of_framed hscaled.framed
  -- Without fixed outputs the scale is of no consequence, and all of the output is variable.
  generalize s'.withScale p scale = x at *
  obtain ⟨hready, hstate⟩ := serve_eq_ok hok
  rw [hstate]
  rw [hunfixed.fixedSupply_eq_zero, sub_zero, Quantity.larger_eq_max, max_eq_left hnonneg]
    at hready ⊢
  obtain ⟨hexplained, hprice⟩ := hscaled.recalibrated hfresh hunfixed hready
  have hunfixed := hs.of_framed hexplained.framed
  refine ⟨hexplained.produce hunfixed hprice, ?_⟩
  rw [technologies_takeStock_produce hunfixed, technologies_produce hunfixed]
  refine List.forall_mem_map.2 fun t _ => ?_
  simp [Technology.setOutput, Technology.update]

end Output

end Subsector

end NestedLogit
