import NestedLogit.Proofs.Sector.Uncalibrated

/-!
# Sectors in which only fixed supply is restricted

Where no subsector has a capacity limit or a fixed share of its own and everybody can calculate a
cost, the only thing that can stand in the way of a demand is fixed supply. Fixed supply that is too
much is scaled to the demand, but not if it exceeds the demand by no more than the tolerance. Then a
subsector that has nothing else may claim more than the whole market by itself, and is refused.

## Main definitions

- `Sector.Unrestricted` — only fixed supply is restricted
- `Sector.Provided` — there is a price for every fuel
- `Sector.Capable` — somebody could supply something
- `Sector.Overfull` — fixed supply that is refused
- `Sector.bidder` — a subsector as it contends with its fixed supply at a scale

## Main statements

- `Sector.fitFactor_offering` — how fixed supply is scaled without calibration
- `Sector.Unrestricted.allocate_bidders_iff` — when the demand can be shared out
- `Sector.calculate_unrestricted` — when a calculation comes to its end, and what is supplied then
- `Sector.brimmingSector_refused` — fixed supply that exceeds the demand by very little
-/

namespace NestedLogit

variable {n : Nat} {α : Type} {p : Fin n} [ExactQuantity α]

namespace Subsector

variable {s : Subsector n α} {prices : GoodTable α}

/-- A subsector can offer a price if there are prices for its fuels. -/
theorem offer_succeeds (h : ∀ t ∈ s.technologies, ∀ fuel, t.fuel = some fuel →
    ∃ price, GoodTable.amount? prices fuel p = some price) :
    (s.offer p prices).failure = none := by
  refine Run.failure_andThen.2 ⟨Run.failure_andThen.2 ⟨?_, (shareTechnologies_whole _).1⟩, rfl⟩
  rw [calculateCosts, Run.failure_map, Run.failure_each]
  intro t ht
  cases hfuel : t.fuel with
  | none => rfl
  | some fuel =>
    obtain ⟨price, hprice⟩ := h t ht fuel hfuel
    simp only [hprice]
    rfl

end Subsector

namespace Sector

/-- No subsector has a capacity limit or a fixed share, every subsector has technologies, and no
fixed output is negative. -/
structure Unrestricted (p : Fin n) (s : Sector n α) : Prop where
  technologies_ne_nil : ∀ x ∈ s.subsectors, x.technologies ≠ []
  limit_eq : ∀ x ∈ s.subsectors, x.parameters[p].capacityLimit = 1
  no_fixed : ∀ x ∈ s.subsectors, x.parameters[p].fixedShare = none
  fixed_nonneg : ∀ t ∈ s.technologies, ∀ fixed, t.parameters[p].fixedOutput = some fixed → 0 ≤ fixed

/-- There is a price for every fuel. -/
def Provided (p : Fin n) (prices : GoodTable α) (s : Sector n α) : Prop :=
  ∀ t ∈ s.technologies, ∀ fuel, t.fuel = some fuel →
    ∃ price, GoodTable.amount? prices fuel p = some price

/-- Somebody could supply something: a technology that is not fixed, or one with a positive fixed
output. -/
def Capable (p : Fin n) (s : Sector n α) : Prop :=
  ∃ t ∈ s.technologies, ∀ fixed, t.parameters[p].fixedOutput = some fixed → 0 < fixed

/-- A subsector that has nothing but fixed outputs has more of them than is demanded, and there is
no more of them in all than is left as it is. -/
structure Overfull (p : Fin n) (demand : α) (s : Sector n α) : Prop where
  exceeds : ∃ x ∈ s.subsectors, x.isAllFixed p = true ∧ demand < x.fixedOutputs p
  unscaled : s.fixedOutputs p ≤ demand * (1 + Quantity.shareTolerance)

variable {s : Sector n α} {demand scale : α} {prices : GoodTable α} {calibrate : Bool}

theorem Provided.offers (h : s.Provided p prices) :
    ∀ x ∈ s.subsectors, (x.offer p prices).failure = none :=
  fun x hx => Subsector.offer_succeeds fun t ht => h t (List.mem_flatMap.2 ⟨x, hx, ht⟩)

/-- Without calibration fixed supply is scaled to the demand if it exceeds it by more than the
tolerance. -/
theorem fitFactor_offering (hdemand : 0 < demand)
    (hoffers : ∀ x ∈ s.subsectors, (x.offer p prices).failure = none) :
    (s.offering p demand prices).fitFactor p demand false
      = if demand * (1 + Quantity.shareTolerance) < s.fixedOutputs p then demand / s.fixedOutputs p
        else 1 := by
  have hsupply := fixedSupply_offering demand hoffers
  by_cases hpos : 0 < s.fixedOutputs p
  · rw [← hsupply] at hpos ⊢
    exact fitFactor_false _ hdemand hpos
  · have hmost : 0 < demand * (1 + Quantity.shareTolerance) :=
      mul_pos hdemand (add_pos one_pos Quantity.shareTolerance_pos)
    rw [if_neg (not_lt.2 ((not_lt.1 hpos).trans hmost.le)), fitFactor, if_pos hdemand,
      fixedSupplyFactor, hsupply, if_pos (not_lt.1 hpos)]
    rfl

/-- A subsector that offered its price, as it contends with its fixed supply at a scale. -/
def bidder (p : Fin n) (demand : α) (prices : GoodTable α) (scale : α) (x : Subsector n α) :
    Contender α :=
  if x.isAllFixed p then fixedContender p demand prices scale x
  else (x.offer p prices).state.contender p

/-- Those who contend are the bidders. -/
theorem contenders_contending (hdemand : 0 < demand)
    (hoffers : ∀ x ∈ s.subsectors, (x.offer p prices).failure = none) :
    (s.contending p demand prices calibrate).subsectors.map (contender p demand)
      = s.subsectors.map
        (bidder p demand prices ((s.offering p demand prices).fitFactor p demand calibrate)) := by
  rw [subsectors_contending hoffers, List.map_map]
  refine List.map_congr_left fun x hx => ?_
  rw [Function.comp_apply, bidder]
  split
  · next hall => exact contender_withScale hall hdemand
  · next hall =>
    have hframed := x.framed_offer (p := p) prices
    have hopen : ((x.offer p prices).state.withScale p 1).isAllFixed p = x.isAllFixed p :=
      hframed.isAllFixed.symm
    rw [contender, if_neg (by simp [hopen, hall])]
    simp [Subsector.contender, Subsector.withScale, Subsector.update]

/-- Without calibration there are no targets to reach. -/
theorem allocateAims_false (fit : Sector n α) (demand : α) :
    allocateAims (fit.aims p demand false)
      = ⟨fit.subsectors.map (contender p demand),
        allocate (fit.subsectors.map (contender p demand))⟩ := by
  rw [allocateAims, if_neg]
  · rw [aims, List.map_map]
    rfl
  · simp [aims, targetShare]

section Bidders

variable (h : s.Unrestricted p)

include h

theorem Unrestricted.fixedOutputs_nonneg {x : Subsector n α} (hx : x ∈ s.subsectors) :
    0 ≤ x.fixedOutputs p :=
  List.sum_nonneg (List.forall_mem_map.2 (Subsector.fixedOutput_nonneg fun t ht =>
    h.fixed_nonneg t (List.mem_flatMap.2 ⟨x, hx, ht⟩)))

theorem Unrestricted.fixedOutputs_le {x : Subsector n α} (hx : x ∈ s.subsectors)
    (hall : x.isAllFixed p = true) : x.fixedOutputs p ≤ s.fixedOutputs p := by
  have hnonneg : ∀ y ∈ (s.subsectors.filter (·.isAllFixed p)).map (·.fixedOutputs p), 0 ≤ y :=
    List.forall_mem_map.2 fun y hy => h.fixedOutputs_nonneg (List.mem_filter.1 hy).1
  exact List.single_le_sum hnonneg _ (List.mem_map_of_mem (List.mem_filter.2 ⟨hx, hall⟩))

theorem Unrestricted.capacityLimit_bidder :
    ∀ c ∈ s.subsectors.map (bidder p demand prices scale), c.capacityLimit = 1 := by
  refine List.forall_mem_map.2 fun x hx => ?_
  have hlimit : (x.offer p prices).state.parameters[p].capacityLimit = 1 := by
    rw [← (x.framed_offer (p := p) prices).parameters]
    exact h.limit_eq x hx
  unfold bidder
  split <;> exact hlimit

/-- Only fixed supply makes a fixed share. -/
theorem Unrestricted.fixedPart_bidder {x : Subsector n α} (hx : x ∈ s.subsectors) :
    (bidder p demand prices scale x).fixedPart
      = if x.isAllFixed p then x.fixedOutputs p * scale / demand else 0 := by
  unfold bidder Contender.fixedPart
  split
  · rfl
  · have hnone : (x.offer p prices).state.parameters[p].fixedShare = none := by
      rw [← (x.framed_offer (p := p) prices).parameters]
      exact h.no_fixed x hx
    rw [Subsector.contender, hnone, Option.getD_none]

theorem Unrestricted.fixedTotal_bidders :
    fixedTotal (s.subsectors.map (bidder p demand prices scale))
      = s.fixedOutputs p * scale / demand := by
  have hparts : s.subsectors.map (Contender.fixedPart ∘ bidder p demand prices scale)
      = s.subsectors.map fun x =>
        if x.isAllFixed p then x.fixedOutputs p * (scale / demand) else 0 := by
    refine List.map_congr_left fun x hx => ?_
    rw [Function.comp_apply, h.fixedPart_bidder hx, mul_div_assoc]
  rw [fixedTotal_eq_sum, List.map_map, hparts, List.sum_map_ite, fixedOutputs, mul_div_assoc,
    ← List.sum_map_mul_right]
  simp

/-- A bidder is refused if its fixed supply is more than the demand. -/
theorem Unrestricted.admissible_bidder_iff (hdemand : 0 < demand) (hscale : 0 ≤ scale)
    {x : Subsector n α} (hx : x ∈ s.subsectors) :
    (bidder p demand prices scale x).Admissible ↔
      (x.isAllFixed p = true → x.fixedOutputs p * scale ≤ demand) := by
  have hlimit := h.limit_eq x hx
  have htol : (0 : α) < Quantity.shareTolerance := Quantity.shareTolerance_pos
  by_cases hall : x.isAllFixed p = true
  · have hpart : 0 ≤ x.fixedOutputs p * scale / demand :=
      div_nonneg (mul_nonneg (h.fixedOutputs_nonneg hx) hscale) hdemand.le
    rw [bidder, if_pos hall, admissible_fixedContender_iff, hlimit, div_le_one hdemand]
    constructor
    · rintro ⟨-, -, hle, -⟩ -
      exact hle
    · intro hle
      have hfits := (div_le_one hdemand).2 (hle hall)
      exact ⟨⟨zero_le_one, le_rfl⟩, hpart, hle hall, by linarith⟩
  · rw [bidder, if_neg hall]
    refine iff_of_true ?_ fun hfixed => absurd hfixed hall
    have hframed := x.framed_offer (p := p) prices
    have hlimit' : (x.offer p prices).state.parameters[p].capacityLimit = 1 := by
      rw [← hframed.parameters]
      exact hlimit
    have hnone : (x.offer p prices).state.parameters[p].fixedShare = none := by
      rw [← hframed.parameters]
      exact h.no_fixed x hx
    exact Contender.Unlimited.admissible ⟨hlimit', hnone⟩

/-- Somebody who could supply something has no fixed share, or a fixed share of something. -/
theorem Unrestricted.exists_available (hcapable : s.Capable p) (hdemand : 0 < demand)
    (hscale : 0 < scale) :
    (∃ c ∈ s.subsectors.map (bidder p demand prices scale), c.fixedShare = none) ∨
      0 < fixedTotal (s.subsectors.map (bidder p demand prices scale)) := by
  obtain ⟨t, ht, hable⟩ := hcapable
  obtain ⟨x, hx, ht⟩ := List.mem_flatMap.1 ht
  by_cases hall : x.isAllFixed p = true
  · right
    obtain ⟨fixed, hfixed⟩ :=
      Option.isSome_iff_exists.1 (Subsector.isFixed_of_isAllFixed hall t ht)
    have hpos : 0 < s.fixedOutputs p := by
      calc 0 < t.parameters[p].fixedOutput.getD 0 := by
            rw [hfixed]
            exact hable fixed hfixed
        _ ≤ x.fixedOutputs p := List.single_le_sum
            (List.forall_mem_map.2 (Subsector.fixedOutput_nonneg fun t ht =>
              h.fixed_nonneg t (List.mem_flatMap.2 ⟨x, hx, ht⟩))) _
            (List.mem_map_of_mem (f := fun t => t.parameters[p].fixedOutput.getD 0) ht)
        _ ≤ s.fixedOutputs p := h.fixedOutputs_le hx hall
    rw [h.fixedTotal_bidders]
    exact div_pos (mul_pos hpos hscale) hdemand
  · left
    refine ⟨_, List.mem_map_of_mem hx, ?_⟩
    rw [bidder, if_neg hall, Subsector.contender, ← (x.framed_offer (p := p) prices).parameters]
    exact h.no_fixed x hx

/-- The demand can be shared out unless fixed supply is refused. -/
theorem Unrestricted.allocate_bidders_iff (hcapable : s.Capable p) (hdemand : 0 < demand)
    (hscale : scale = if demand * (1 + Quantity.shareTolerance) < s.fixedOutputs p then
      demand / s.fixedOutputs p else 1) :
    (∃ a, allocate (s.subsectors.map (bidder p demand prices scale)) = .ok a) ↔
      ¬s.Overfull p demand := by
  have htol : (0 : α) < Quantity.shareTolerance := Quantity.shareTolerance_pos
  constructor
  · rintro ⟨a, ha⟩ ⟨⟨x, hx, hall, hlt⟩, hle⟩
    have hne : s.subsectors.map (bidder p demand prices scale) ≠ [] :=
      List.ne_nil_of_mem (List.mem_map_of_mem hx)
    have hadmissible := (allocate_eq_ok hne ha).1.1 _ (List.mem_map_of_mem hx)
    rw [if_neg (not_lt.2 hle)] at hscale
    rw [hscale, h.admissible_bidder_iff hdemand zero_le_one hx, mul_one] at hadmissible
    exact absurd (hadmissible hall) (not_le.2 hlt)
  · intro hfits
    obtain ⟨hpos, hparts, hwhole⟩ : 0 < scale ∧
        (∀ x ∈ s.subsectors, x.isAllFixed p = true → x.fixedOutputs p * scale ≤ demand) ∧
        s.fixedOutputs p * scale / demand ≤ 1 + Quantity.shareTolerance := by
      rw [div_le_iff₀' hdemand]
      split at hscale
      · next hmuch =>
        have hsupply : 0 < s.fixedOutputs p :=
          (mul_pos hdemand (add_pos one_pos htol)).trans hmuch
        subst hscale
        refine ⟨div_pos hdemand hsupply, fun x hx hall => ?_, ?_⟩
        · rw [mul_div_assoc', div_le_iff₀ hsupply, mul_comm]
          exact mul_le_mul_of_nonneg_left (h.fixedOutputs_le hx hall) hdemand.le
        · rw [mul_div_cancel₀ _ hsupply.ne']
          exact le_mul_of_one_le_right hdemand.le (le_add_of_nonneg_right htol.le)
      · next hlittle =>
        subst hscale
        simp only [mul_one]
        refine ⟨one_pos, fun x hx hall => ?_, not_lt.1 hlittle⟩
        exact not_lt.1 fun hlt => hfits ⟨⟨x, hx, hall, hlt⟩, not_lt.1 hlittle⟩
    refine allocate_ample ?_ h.capacityLimit_bidder (h.fixedTotal_bidders ▸ hwhole)
      (h.exists_available hcapable hdemand hpos)
    exact List.forall_mem_map.2 fun x hx =>
      (h.admissible_bidder_iff hdemand hpos.le hx).2 (hparts x hx)

end Bidders

section Service

variable {fit : Sector n α} {a : Allocation α}

/-- What is decided for a subsector without calibration: a share that is not negative, and that is
nothing if the subsector has nothing but fixed supply of nothing. -/
theorem forall₂_decided_share (hdemand : 0 < demand)
    (ha : (allocateAims (fit.aims p demand false)).outcome = .ok a) :
    List.Forall₂ (fun y d => 0 ≤ d.1.share ∧
        (y.isAllFixed p = true → y.fixedSupply p = 0 → d.1.share = 0))
      fit.subsectors (decided (fit.aims p demand false) a) := by
  have hallocate : allocate (fit.subsectors.map (contender p demand)) = .ok a := by
    rwa [allocateAims_false] at ha
  have hshares : List.Forall₂ (fun (y : Subsector n α) (share : α) => 0 ≤ share ∧
        (y.isAllFixed p = true → y.fixedSupply p = 0 → share = 0)) fit.subsectors a.shares := by
    by_cases hnil : fit.subsectors = []
    · rw [hnil] at hallocate ⊢
      obtain rfl := Except.ok.inj hallocate
      exact .nil
    · have hne : fit.subsectors.map (contender p demand) ≠ [] := mt List.map_eq_nil_iff.1 hnil
      have hboth := forall₂_and (forall₂_shares_allocate hne hallocate)
        (forall₂_nothing_allocate hne hallocate)
      rw [List.forall₂_map_left_iff] at hboth
      refine hboth.imp fun y share hy => ⟨hy.1.1, fun hall hnothing => hy.2 ?_⟩
      rw [contender, if_pos (by simp [hdemand, hall]), hnothing, zero_div]
  rw [← shares_decided ha] at hshares
  exact List.forall₂_map_right_iff.1 hshares

/-- Everybody who is awarded a share can produce it. -/
theorem serves_withAwards (hdemand : 0 < demand)
    (htechnologies : ∀ y ∈ fit.subsectors, y.technologies ≠ [])
    (ha : (allocateAims (fit.aims p demand false)).outcome = .ok a)
    (hready : ∀ z ∈ fit.withAwards p demand false a, z.Ready p) :
    ∀ z ∈ fit.withAwards p demand false a, (serveShare p demand false z).failure = none := by
  have hdecided := (List.forall₂_and_left _ _).2 ⟨htechnologies, forall₂_decided_share hdemand ha⟩
  have hserves : ∀ z ∈ fit.withAwards p demand false a,
      z.Ready p → (serveShare p demand false z).failure = none := by
    refine forall_mem_zipWith_of_forall₂ hdecided ?_
    rintro y d ⟨hne, hshare, hnothing⟩ hz
    have hgiven : (award p y d.1 d.2.1 d.2.2).results[p].share = d.1.share := by
      simp [award_eq_update, Subsector.update]
    have hsupply : (award p y d.1 d.2.1 d.2.2).fixedSupply p = y.fixedSupply p := by
      simp [award_eq_update, Subsector.update, Subsector.fixedSupply]
    rw [serveShare, hgiven, max_eq_left hdemand.le]
    by_contra hfails
    obtain ⟨hnone, hnothing', houtput⟩ := (Subsector.response_setOutput hz
      (mul_nonneg hshare hdemand.le) false).fails_iff.1 hfails
    have hall : y.isAllFixed p = true := by
      have hfixed : ∀ t ∈ y.technologies, t.isFixed p = true := by
        simpa [Subsector.variableTechnologies, award_eq_update, Subsector.update] using hnone
      rw [Subsector.isAllFixed, Bool.and_eq_true, List.all_eq_true]
      exact ⟨by simpa using hne, hfixed⟩
    rw [hnothing hall (hsupply ▸ hnothing'), zero_mul] at houtput
    exact lt_irrefl _ houtput
  exact fun z hz => hserves z hz (hready z hz)

end Service

/-- Let no subsector of a sector have a capacity limit or a fixed share, let every subsector have
technologies and every fuel a price, let no fixed output be negative, and let somebody be able to
supply something. Without calibration, the calculation for a demand fails exactly if a subsector has
nothing but fixed outputs and more of them than is demanded, although there is no more of them in
all than the tolerance lets pass. Otherwise the sector supplies the demand but for the tolerance. -/
theorem calculate_unrestricted (h : s.Unrestricted p) (hprovided : s.Provided p prices)
    (hcapable : s.Capable p) (hdemand : 0 < demand) :
    ((s.calculate p demand prices false).failure ≠ none ↔ s.Overfull p demand) ∧
      ((s.calculate p demand prices false).failure = none →
        |(s.calculate p demand prices false).state.results[p].output - demand|
          ≤ Quantity.shareTolerance * demand) := by
  have hoffers := hprovided.offers
  have hshared : (∃ a, (allocateAims
      ((s.contending p demand prices false).aims p demand false)).outcome = .ok a) ↔
        ¬s.Overfull p demand := by
    rw [allocateAims_false, contenders_contending hdemand hoffers]
    exact h.allocate_bidders_iff hcapable hdemand (fitFactor_offering hdemand hoffers)
  have htechnologies : ∀ y ∈ (s.contending p demand prices false).subsectors,
      y.technologies ≠ [] := by
    refine forall_mem_of_forall₂ (s.framed_contending demand prices false).subsectors
      fun x hx y hy => ?_
    have hlength := hy.technologies.length_eq
    intro hnil
    rw [hnil] at hlength
    exact h.technologies_ne_nil x hx (List.length_eq_zero_iff.1 hlength)
  constructor
  · rw [ne_eq, not_iff_comm, ← hshared, calculate_succeeds_iff, and_iff_right hoffers]
    refine exists_congr fun a => (and_iff_left_of_imp fun ha => ?_).symm
    exact serves_withAwards hdemand htechnologies ha (ready_withAwards h.fixed_nonneg hoffers a)
  · obtain ⟨t, ht, -⟩ := hcapable
    obtain ⟨x, hx, -⟩ := List.mem_flatMap.1 ht
    exact abs_output_sub_demand_le hdemand.le (List.ne_nil_of_mem hx)

/-- A sector with a dam and no other technology. -/
def brimmingSector (fixed : ℚ) : Sector 1 ℚ :=
  let dam : Technology 1 ℚ :=
    { Technology.new 1 ⟨"dam"⟩ none with
      parameters := Series.const 1
        { TechnologyParameters.default with
          nonEnergyCost := 1
          fixedOutput := some fixed } }
  let hydro : Subsector 1 ℚ :=
    { (Subsector.new 1 ⟨⟨"island"⟩, ⟨"power"⟩, ⟨"hydro"⟩⟩ : Subsector 1 ℚ) with
      technologies := [dam] }
  { (Sector.new 1 ⟨⟨"island"⟩, ⟨"power"⟩⟩ : Sector 1 ℚ) with subsectors := [hydro] }

theorem unrestricted_brimmingSector {fixed : ℚ} (hfixed : 0 ≤ fixed) :
    (brimmingSector fixed).Unrestricted 0 := by
  refine ⟨List.forall_mem_singleton.2 (List.cons_ne_nil _ _), ?_, ?_, ?_⟩
  · exact List.forall_mem_singleton.2 rfl
  · exact List.forall_mem_singleton.2 rfl
  · refine List.forall_mem_singleton.2 ?_
    rw [Series.getElem_const]
    rintro _ ⟨⟩
    exact hfixed

theorem provided_brimmingSector (fixed : ℚ) : (brimmingSector fixed).Provided 0 .empty :=
  List.forall_mem_singleton.2 fun _ hfuel => nomatch hfuel

theorem capable_brimmingSector {fixed : ℚ} (hfixed : 0 < fixed) :
    (brimmingSector fixed).Capable 0 := by
  refine ⟨_, List.mem_singleton_self _, ?_⟩
  rw [Series.getElem_const]
  rintro _ ⟨⟩
  exact hfixed

/-- A dam that could supply two and a half times the demand is scaled down to it. -/
theorem brimmingSector_unrestricted :
    ((brimmingSector 250).Unrestricted 0 ∧ (brimmingSector 250).Provided 0 .empty ∧
        (brimmingSector 250).Capable 0 ∧ (0 : ℚ) < 100 ∧ ¬(brimmingSector 250).Overfull 0 100) ∧
      ((brimmingSector 250).calculate 0 100 .empty false).failure = none ∧
      |((brimmingSector 250).calculate 0 100 .empty false).state.results[(0 : Fin 1)].output - 100|
        ≤ Quantity.shareTolerance * 100 := by
  have hunrestricted : (brimmingSector 250).Unrestricted 0 :=
    unrestricted_brimmingSector (by norm_num)
  have hprovided := provided_brimmingSector 250
  have hcapable : (brimmingSector 250).Capable 0 := capable_brimmingSector (by norm_num)
  have hscaled : ¬(brimmingSector 250).Overfull 0 100 := fun hover => by
    have hsupply : (brimmingSector 250).fixedOutputs 0 = 250 := by decide +kernel
    have hunscaled := hover.unscaled
    rw [hsupply, Quantity.shareTolerance, Quantity.whole_eq_cast] at hunscaled
    norm_num at hunscaled
  have hdemand : (0 : ℚ) < 100 := by norm_num
  obtain ⟨hfails, hserves⟩ := calculate_unrestricted hunrestricted hprovided hcapable hdemand
  have hok := not_not.1 (mt hfails.1 hscaled)
  exact ⟨⟨hunrestricted, hprovided, hcapable, hdemand, hscaled⟩, hok, hserves hok⟩

/-- A dam that exceeds the demand by half the tolerance is not scaled down, and its share of more
than the whole market is refused. -/
theorem brimmingSector_refused :
    (brimmingSector (100 + 5 / 100000000)).Unrestricted 0 ∧
      (brimmingSector (100 + 5 / 100000000)).Provided 0 .empty ∧
      (brimmingSector (100 + 5 / 100000000)).Capable 0 ∧
      ((brimmingSector (100 + 5 / 100000000)).calculate 0 100 .empty false).failure.isSome :=
  ⟨unrestricted_brimmingSector (by norm_num), provided_brimmingSector _,
    capable_brimmingSector (by norm_num), by decide +kernel⟩

end Sector

end NestedLogit
