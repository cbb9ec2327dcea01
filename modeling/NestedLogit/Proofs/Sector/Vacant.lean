import NestedLogit.Proofs.Sector.Filled
import NestedLogit.Proofs.Sector.Reproduction
import NestedLogit.Proofs.Sector.Unrestricted

/-!
# Subsectors without technologies

A subsector without technologies costs nothing, so that it is preferred to every other subsector
that costs something. Whatever fixed shares leave open of a demand goes to it before it goes to
those, and it refuses to produce it. Only where nothing is open the others go their way as without
it.

## Main definitions

- `Subsector.Vacant` — no technologies, and parameters as they are by default
- `Sector.FittedToData` — fixed supply that a calibration fits to calibration data

## Main statements

- `Sector.filled_of_vacant` — a demand with something open is refused
- `Sector.calculate_vacant` — what a subsector without technologies changes
- `Sector.emptyWing_refused` — a demand that would be served without it

## Design notes

Fixed supply is fitted to calibration data only if every subsector has nothing else or has data. A
subsector without technologies is neither, so that it puts an end to that, too.
-/

namespace NestedLogit

variable {n : Nat} {α : Type} {p : Fin n} [ExactQuantity α]

namespace Subsector

/-- A subsector without technologies, with the default parameters and the default share weight. -/
structure Vacant (p : Fin n) (x : Subsector n α) : Prop where
  technologies_eq : x.technologies = []
  parameters_eq : x.parameters[p] = .default
  weight_eq : x.baseShareWeight[p] = 1

theorem vacant_new (path : SubsectorPath) : (new n path : Subsector n α).Vacant p :=
  ⟨rfl, Series.getElem_const .., Series.getElem_const ..⟩

namespace Vacant

variable {x y : Subsector n α} {prices : GoodTable α}

theorem of_framed (h : x.Vacant p) (hframed : x.Framed p y) : y.Vacant p where
  technologies_eq := by
    have htechnologies := hframed.technologies
    rw [h.technologies_eq] at htechnologies
    exact List.forall₂_nil_left_iff.1 htechnologies
  parameters_eq := hframed.parameters ▸ h.parameters_eq
  weight_eq := hframed.baseShareWeight ▸ h.weight_eq

theorem isAllFixed_eq_false (h : x.Vacant p) : x.isAllFixed p = false := by
  simp [isAllFixed, h.technologies_eq]

theorem isCalibratable_eq_false (h : x.Vacant p) : x.isCalibratable p = false := by
  simp [isCalibratable, variableTechnologies, h.technologies_eq]

theorem offer_succeeds (h : x.Vacant p) : (x.offer p prices).failure = none :=
  Subsector.offer_succeeds fun t ht => by simp [h.technologies_eq] at ht

theorem price_offer (h : x.Vacant p) (prices : GoodTable α) :
    (x.offer p prices).state.results[p].price = 0 := by
  have hprepared := h.of_framed (x.framed_prepare (p := p) prices)
  rw [(offer_eq_ok h.offer_succeeds).2]
  simp [calculatePrice, update, weightedCosts, hprepared.technologies_eq]

/-- Such a subsector costs nothing and has a negative exponent, so that it is preferred. -/
theorem freeWeight_contender (h : x.Vacant p) (hprice : x.results[p].price = 0)
    (hfinite : Quantity.isFinite (0 : α) = true) : (x.contender p).freeWeight = some 1 := by
  have hexponent : (defaultLogitExponent : α) < 0 := by
    rw [defaultLogitExponent, Quantity.whole_eq_cast]
    norm_num
  simp [Contender.freeWeight, Contender.weight, logitWeight, Subsector.contender, h.parameters_eq,
    h.weight_eq, hprice, SubsectorParameters.default, hfinite, hexponent, zero_lt_one.not_ge]

theorem ready (h : x.Vacant p) (hscale : 0 ≤ x.results[p].fixedSupplyScale) : x.Ready p where
  fixed_nonneg t ht := by simp [h.technologies_eq] at ht
  scale_nonneg := hscale
  whole := by
    have hnone : x.variableShares p = [] := by
      simp [variableShares, variableTechnologies, h.technologies_eq]
    exact ⟨by simp [hnone], fun hne => absurd hnone hne⟩

/-- It produces nothing, and refuses to produce anything else. -/
theorem failure_setOutput_iff (h : x.Vacant p) (hscale : 0 ≤ x.results[p].fixedSupplyScale)
    {output : α} (houtput : 0 ≤ output) (calibrate : Bool) :
    (x.setOutput p output calibrate).failure = none ↔ output = 0 := by
  have hfails := (response_setOutput (h.ready hscale) houtput calibrate).fails_iff
  have hvariable : x.variableTechnologies p = [] := by
    simp [variableTechnologies, h.technologies_eq]
  have hsupply : x.fixedSupply p = 0 := by
    simp [fixedSupply_eq_sum, h.technologies_eq]
  rw [← not_iff_not, ← ne_eq, hfails, Unable, and_iff_right hvariable, and_iff_right hsupply]
  exact ⟨fun hpos => hpos.ne', fun hne => houtput.lt_of_ne' hne⟩

end Vacant

end Subsector

namespace Sector

variable {s : Sector n α} {demand : α} {prices : GoodTable α} {calibrate : Bool}
  {e : Subsector n α}

section Open

theorem openMarket_allocateAims (aims : List (Aim α)) :
    openMarket (allocateAims aims).contenders = openMarket (aims.map Aim.contender) := by
  have hshares : (aims.filterMap fun x => x.contender.fixedShare)
      = (allocateAims aims).contenders.filterMap Contender.fixedShare :=
    filterMap_eq_of_forall₂ (allocateAims_explained aims).2 fun {x c} hxc => hxc.fixedShare.symm
  rw [openMarket, openMarket, fixedTotal, fixedTotal, ← hshares, List.filterMap_map]
  rfl

/-- Of an open market every free contender that could take something is awarded a part. -/
theorem share_decided_pos {aims : List (Aim α)} {a : Allocation α}
    (ha : (allocateAims aims).outcome = .ok a) (hopen : 0 < openMarket (aims.map Aim.contender)) :
    ∀ d ∈ decided aims a, ∀ w, d.2.1.freeWeight = some w → 0 < d.2.1.capacityLimit →
      0 < d.1.share := by
  have hpos := forall₂_share_pos_allocate (allocateAims_allocates ha).1
    (openMarket_allocateAims aims ▸ hopen)
  rwa [← contenders_decided ha, ← shares_decided ha, List.forall₂_map_left_iff,
    List.forall₂_map_right_iff, List.forall₂_same] at hpos

/-- A subsector without technologies, as it contends: it stays one, with the price of nothing. -/
theorem exists_contending_of_vacant (he : e ∈ s.subsectors) (hvacant : e.Vacant p)
    (hoffers : ∀ x ∈ s.subsectors, (x.offer p prices).failure = none) :
    ∃ y ∈ (s.contending p demand prices calibrate).subsectors,
      y.Vacant p ∧ y.results[p].price = 0 ∧ y.results[p].fixedSupplyScale = 1 := by
  refine ⟨(e.offer p prices).state.withScale p 1, ?_, ?_, ?_, ?_⟩
  · rw [subsectors_contending hoffers]
    refine List.mem_map.2 ⟨e, he, ?_⟩
    rw [hvacant.isAllFixed_eq_false, if_neg Bool.false_ne_true]
  · exact (hvacant.of_framed (e.framed_offer prices)).of_framed (Subsector.framed_update _ _)
  · rw [← hvacant.price_offer prices]
    simp [Subsector.withScale, Subsector.update]
  · simp [Subsector.withScale, Subsector.update]

/-- With a subsector without technologies a calculation comes to its end only if fixed shares fill
the demand. -/
theorem filled_of_vacant (hfinite : Quantity.isFinite (0 : α) = true) (hdemand : 0 < demand)
    (he : e ∈ s.subsectors) (hvacant : e.Vacant p)
    (h : (s.calculate p demand prices calibrate).failure = none) :
    s.Filled p demand prices calibrate := by
  obtain ⟨hoffers, a, ha, hserves⟩ := calculate_succeeds_iff.1 h
  by_contra hunfilled
  obtain ⟨y, hy, hyvacant, hprice, hscale⟩ :=
    exists_contending_of_vacant (p := p) he hvacant hoffers
  have htarget : targetShare p demand calibrate y = none :=
    targetShare_eq_none hyvacant.isCalibratable_eq_false demand calibrate
  have hcontender : contender p demand y = y.contender p := by
    simp [contender, hyvacant.isAllFixed_eq_false]
  obtain ⟨d, hd, ⟨hleft, -⟩, hmem⟩ := exists_mem_zipWith_of_forall₂
    (f := fun x d => award p x d.1 d.2.1 d.2.2) (forall₂_decided ha) hy
  have hunchanged : d.2.1 = y.contender p :=
    (congrArg Aim.contender (hleft.eq_of_no_target htarget)).trans hcontender
  have hopen : 0 < openMarket
      (((s.contending p demand prices calibrate).aims p demand calibrate).map Aim.contender) := by
    rw [contender_aims, openMarket, Quantity.larger_eq_max]
    exact lt_max_of_lt_left (sub_pos.2 (not_le.1 hunfilled))
  have hshare : 0 < d.1.share := by
    refine share_decided_pos ha hopen d hd 1 ?_ ?_ <;> rw [hunchanged]
    · exact hyvacant.freeWeight_contender hprice hfinite
    · rw [Subsector.contender, hyvacant.parameters_eq]
      exact zero_lt_one
  -- It refuses to produce its share.
  have hserved := hserves _ hmem
  have hawarded : (award p y d.1 d.2.1 d.2.2).results[p].share = d.1.share ∧
      (award p y d.1 d.2.1 d.2.2).results[p].fixedSupplyScale = 1 := by
    simp [award_eq_update, Subsector.update, hscale]
  have hzvacant : (award p y d.1 d.2.1 d.2.2).Vacant p :=
    hyvacant.of_framed (award_eq_update y d.1 d.2.1 d.2.2 ▸ y.framed_update _)
  have houtput : 0 < d.1.share * demand := mul_pos hshare hdemand
  rw [serveShare, hawarded.1, max_eq_left hdemand.le,
    hzvacant.failure_setOutput_iff (hawarded.2 ▸ zero_le_one) houtput.le] at hserved
  exact houtput.ne' hserved

end Open

section Fit

/-- Whether a calibration fits fixed supply to what calibration data leave of a demand: there is
such a supply, and every other subsector has data. -/
structure FittedToData (p : Fin n) (calibrate : Bool) (s : Sector n α) : Prop where
  calibrate_eq : calibrate = true
  supply_pos : 0 < s.fixedOutputs p
  determined : ∀ x ∈ s.subsectors, x.isAllFixed p = true ∨ x.isCalibratable p = true

/-- Other fixed supply is scaled as without calibration. -/
theorem fitFactor_of_not_fitted (hoffers : ∀ x ∈ s.subsectors, (x.offer p prices).failure = none)
    (hfit : ¬s.FittedToData p calibrate) (demand : α) :
    (s.offering p demand prices).fitFactor p demand calibrate
      = (s.offering p demand prices).fitFactor p demand false := by
  cases calibrate with
  | false => rfl
  | true =>
    have hall : ((s.offering p demand prices).subsectors.all fun x =>
        x.isAllFixed p || x.isCalibratable p)
          = s.subsectors.all fun x => x.isAllFixed p || x.isCalibratable p :=
      (all_eq_of_forall₂ (s.framed_offering demand prices).subsectors fun hx => by
        rw [hx.isAllFixed, hx.isCalibratable]).symm
    unfold fitFactor fixedSupplyFactor
    dsimp only
    rw [fixedSupply_offering demand hoffers, hall]
    by_cases hsupply : s.fixedOutputs p ≤ 0
    · rw [if_pos hsupply, if_pos hsupply]
    · have hnone : (s.subsectors.all fun x => x.isAllFixed p || x.isCalibratable p) = false := by
        by_contra hsome
        refine hfit ⟨rfl, not_le.1 hsupply, fun x hx => ?_⟩
        simpa using List.all_eq_true.1 (Bool.eq_true_of_not_eq_false hsome) x hx
      rw [hnone]
      rfl

end Fit

section Insertion

/-- The sector with given subsectors. -/
def withSubsectors (s : Sector n α) (xs : List (Subsector n α)) : Sector n α :=
  { s with subsectors := xs }

variable {xs ys : List (Subsector n α)}

theorem fixedOutputs_insert (he : e.Vacant p) :
    (s.withSubsectors (xs ++ e :: ys)).fixedOutputs p
      = (s.withSubsectors (xs ++ ys)).fixedOutputs p := by
  simp [fixedOutputs, withSubsectors, List.filter_append, he.isAllFixed_eq_false]

theorem not_fittedToData_insert (he : e.Vacant p) :
    ¬(s.withSubsectors (xs ++ e :: ys)).FittedToData p calibrate := by
  intro hfit
  have hmem : e ∈ xs ++ e :: ys := by simp
  have hdetermined := hfit.determined e hmem
  simp [he.isAllFixed_eq_false, he.isCalibratable_eq_false] at hdetermined

/-- The others offer their prices as without it. -/
theorem offers_insert_iff (he : e.Vacant p) :
    (∀ x ∈ xs ++ e :: ys, (x.offer p prices).failure = none) ↔
      ∀ x ∈ xs ++ ys, (x.offer p prices).failure = none := by
  simp only [List.forall_mem_append, List.forall_mem_cons]
  rw [and_iff_right he.offer_succeeds]

/-- The others contend as without it, unless fixed supply was fitted to calibration data. -/
theorem contending_insert (he : e.Vacant p) (hdemand : 0 < demand)
    (hoffers : ∀ x ∈ xs ++ ys, (x.offer p prices).failure = none)
    (hfit : ¬(s.withSubsectors (xs ++ ys)).FittedToData p calibrate) :
    ∃ as bs y, as.length = xs.length ∧ y.Vacant p ∧ y.results[p].fixedSupplyScale = 1 ∧
      ((s.withSubsectors (xs ++ ys)).contending p demand prices calibrate).subsectors = as ++ bs ∧
      ((s.withSubsectors (xs ++ e :: ys)).contending p demand prices calibrate).subsectors
        = as ++ y :: bs := by
  have hoffers' := (offers_insert_iff he).2 hoffers
  have hfactor : ((s.withSubsectors (xs ++ e :: ys)).offering p demand prices).fitFactor p demand
      calibrate = ((s.withSubsectors (xs ++ ys)).offering p demand prices).fitFactor p demand
        calibrate := by
    rw [fitFactor_of_not_fitted hoffers hfit, fitFactor_offering hdemand hoffers,
      fitFactor_of_not_fitted hoffers' (not_fittedToData_insert he),
      fitFactor_offering hdemand hoffers', fixedOutputs_insert he]
  rw [subsectors_contending hoffers, subsectors_contending hoffers', hfactor]
  simp only [withSubsectors, List.map_append, List.map_cons]
  refine ⟨_, _, _, List.length_map .., ?_, ?_, rfl, rfl⟩
  · exact (he.of_framed (e.framed_offer prices)).of_framed (Subsector.framed_update _ _)
  · simp [Subsector.withScale, Subsector.update, he.isAllFixed_eq_false]

/-- It contends without a limit and without a fixed share. -/
theorem unlimited_contender_of_vacant {y : Subsector n α} (hy : y.Vacant p) (demand : α) :
    (contender p demand y).Unlimited := by
  have hcontender : contender p demand y = y.contender p := by
    simp [contender, hy.isAllFixed_eq_false]
  constructor <;> rw [hcontender, Subsector.contender, hy.parameters_eq] <;> rfl

theorem fixedTotal_insert {cs ds : List (Contender α)} {c : Contender α} (hc : c.Unlimited) :
    fixedTotal (cs ++ c :: ds) = fixedTotal (cs ++ ds) := by
  simp [fixedTotal, List.filterMap_append, hc.no_fixed]

theorem admitted_insert_iff {cs ds : List (Contender α)} {c : Contender α} (hc : c.Unlimited) :
    Admitted (cs ++ c :: ds) ↔ Admitted (cs ++ ds) := by
  rw [Admitted, Admitted, fixedTotal_insert hc]
  simp only [List.forall_mem_append, List.forall_mem_cons]
  rw [and_iff_right hc.admissible]

/-- It is awarded nothing in a market that fixed shares fill, and produces that. -/
theorem serveShare_granted_of_vacant {y : Subsector n α} (hy : y.Vacant p)
    (hscale : y.results[p].fixedSupplyScale = 1) (demand : α) (calibrate : Bool) :
    let served := serveShare p demand calibrate (granted p demand calibrate y)
    served.failure = none ∧ served.state.results[p].share = 0 ∧
      served.state.results[p].output = 0 := by
  intro served
  have hshare : (granted p demand calibrate y).results[p].share = 0 := by
    rw [share_granted, Contender.fixedPart, (unlimited_contender_of_vacant hy demand).no_fixed,
      Option.getD_none]
  have hserved : served = (granted p demand calibrate y).setOutput p 0 calibrate := by
    simp only [served, serveShare, hshare, zero_mul]
  have hvacant : (granted p demand calibrate y).Vacant p := by
    rw [granted, award_eq_update]
    exact hy.of_framed (y.framed_update _)
  have hready : 0 ≤ (granted p demand calibrate y).results[p].fixedSupplyScale := by
    simp [granted, award_eq_update, Subsector.update, hscale]
  have hok : served.failure = none := by
    rw [hserved, hvacant.failure_setOutput_iff hready le_rfl]
  rw [hserved] at hok ⊢
  exact ⟨hok, (Subsector.share_setOutput hok).trans hshare, Subsector.output_setOutput hok⟩

/-- Where fixed shares fill the demand, a subsector without technologies changes nothing. -/
theorem calculate_insert_of_filled (he : e.Vacant p) (hdemand : 0 < demand)
    (hoffers : ∀ x ∈ xs ++ ys, (x.offer p prices).failure = none)
    (hfit : ¬(s.withSubsectors (xs ++ ys)).FittedToData p calibrate) :
    let without := s.withSubsectors (xs ++ ys)
    let inserted := s.withSubsectors (xs ++ e :: ys)
    (inserted.Filled p demand prices calibrate ↔ without.Filled p demand prices calibrate) ∧
      (without.Filled p demand prices calibrate →
        ((inserted.calculate p demand prices calibrate).failure = none ↔
          (without.calculate p demand prices calibrate).failure = none) ∧
        ((inserted.calculate p demand prices calibrate).failure = none →
          ∃ xs' ys' e', xs'.length = xs.length ∧
            (without.calculate p demand prices calibrate).state.subsectors = xs' ++ ys' ∧
            (inserted.calculate p demand prices calibrate).state.subsectors = xs' ++ e' :: ys' ∧
            e'.results[p].share = 0 ∧ e'.results[p].output = 0)) := by
  intro without inserted
  obtain ⟨as, bs, y, hlength, hy, hscale, hwithout, hinserted⟩ :=
    contending_insert he hdemand hoffers hfit
  have hcontenders : without.contenders p demand prices calibrate
      = as.map (contender p demand) ++ bs.map (contender p demand) := by
    rw [contenders, hwithout, List.map_append]
  have hcontenders' : inserted.contenders p demand prices calibrate
      = as.map (contender p demand) ++ contender p demand y :: bs.map (contender p demand) := by
    rw [contenders, hinserted, List.map_append, List.map_cons]
  have hunlimited := unlimited_contender_of_vacant hy demand
  have hfilled : inserted.Filled p demand prices calibrate ↔
      without.Filled p demand prices calibrate := by
    rw [Filled, Filled, hcontenders, hcontenders', fixedTotal_insert hunlimited]
  refine ⟨hfilled, fun hfull => ?_⟩
  obtain ⟨hok, hshare, houtput⟩ := serveShare_granted_of_vacant hy hscale demand calibrate
  have hsame : (inserted.calculate p demand prices calibrate).failure = none ↔
      (without.calculate p demand prices calibrate).failure = none := by
    rw [calculate_succeeds_iff_of_filled hfull,
      calculate_succeeds_iff_of_filled (hfilled.2 hfull), hcontenders, hcontenders',
      admitted_insert_iff hunlimited, hwithout, hinserted]
    refine and_congr (offers_insert_iff he) (and_congr_right fun _ => ?_)
    simp only [List.forall_mem_append, List.forall_mem_cons]
    rw [and_iff_right hok]
  refine ⟨hsame, fun h => ?_⟩
  rw [subsectors_calculate_of_filled hfull (hsame.1 h),
    subsectors_calculate_of_filled (hfilled.2 hfull) h, hwithout, hinserted, List.map_append,
    List.map_append, List.map_cons]
  exact ⟨_, _, _, (List.length_map _).trans hlength, rfl, rfl, hshare, houtput⟩

/-- Let a subsector without technologies be inserted into a sector, and let there be a demand. The
calculation comes to its end only if the fixed shares of those who contend fill the demand, and then
everybody has their fixed share. Unless fixed supply was fitted to calibration data, it comes to its
end exactly if it does so without the inserted subsector and fixed shares fill the demand, and then
the inserted subsector has no share and the others end as they do without it. -/
theorem calculate_vacant (s : Sector n α) (xs ys : List (Subsector n α))
    (hfinite : Quantity.isFinite (0 : α) = true) (hdemand : 0 < demand) (he : e.Vacant p) :
    let without := s.withSubsectors (xs ++ ys)
    let inserted := s.withSubsectors (xs ++ e :: ys)
    ((inserted.calculate p demand prices calibrate).failure = none →
        inserted.Filled p demand prices calibrate ∧
        ((inserted.calculate p demand prices calibrate).state.subsectors.map fun x =>
            x.results[p].share)
          = (inserted.contenders p demand prices calibrate).map Contender.fixedPart) ∧
      (¬without.FittedToData p calibrate →
        ((inserted.calculate p demand prices calibrate).failure = none ↔
          (without.calculate p demand prices calibrate).failure = none ∧
            without.Filled p demand prices calibrate) ∧
        ((inserted.calculate p demand prices calibrate).failure = none →
          ∃ xs' ys' e', xs'.length = xs.length ∧
            (without.calculate p demand prices calibrate).state.subsectors = xs' ++ ys' ∧
            (inserted.calculate p demand prices calibrate).state.subsectors = xs' ++ e' :: ys' ∧
            e'.results[p].share = 0 ∧ e'.results[p].output = 0)) := by
  intro without inserted
  have hfilled : (inserted.calculate p demand prices calibrate).failure = none →
      inserted.Filled p demand prices calibrate :=
    filled_of_vacant hfinite hdemand (List.mem_append_right _ List.mem_cons_self) he
  have hoffers : (inserted.calculate p demand prices calibrate).failure = none →
      ∀ x ∈ xs ++ ys, (x.offer p prices).failure = none := fun h =>
    (offers_insert_iff he).1 (calculate_succeeds_iff.1 h).1
  refine ⟨fun h => ?_, fun hfit => ⟨⟨?_, ?_⟩, ?_⟩⟩
  · exact ⟨hfilled h, shares_calculate_of_filled (hfilled h) h⟩
  · intro h
    obtain ⟨hsame, hends⟩ := calculate_insert_of_filled he hdemand (hoffers h) hfit
    have hfull := hsame.1 (hfilled h)
    exact ⟨(hends hfull).1.1 h, hfull⟩
  · rintro ⟨h, hfull⟩
    obtain ⟨-, hends⟩ :=
      calculate_insert_of_filled he hdemand (calculate_succeeds_iff.1 h).1 hfit
    exact (hends hfull).1.2 h
  · intro h
    obtain ⟨hsame, hends⟩ := calculate_insert_of_filled he hdemand (hoffers h) hfit
    exact (hends (hsame.1 (hfilled h))).2 h

end Insertion

/-- A sector with one plant, whose output is fixed or not. -/
def plantSector (fixed : Option ℚ) : Sector 1 ℚ :=
  let plant : Technology 1 ℚ :=
    { Technology.new 1 ⟨"plant"⟩ none with
      parameters := Series.const 1
        { TechnologyParameters.default with
          nonEnergyCost := 1
          fixedOutput := fixed } }
  let used : Subsector 1 ℚ :=
    { (Subsector.new 1 ⟨⟨"island"⟩, ⟨"power"⟩, ⟨"used"⟩⟩ : Subsector 1 ℚ) with
      technologies := [plant] }
  { (Sector.new 1 ⟨⟨"island"⟩, ⟨"power"⟩⟩ : Sector 1 ℚ) with subsectors := [used] }

/-- A subsector in which no plant has been built. -/
def emptyWing : Subsector 1 ℚ :=
  Subsector.new 1 ⟨⟨"island"⟩, ⟨"power"⟩, ⟨"empty"⟩⟩

/-- The plant, with the empty wing or without it. -/
def wingedSector (fixed : Option ℚ) (wings : List (Subsector 1 ℚ)) : Sector 1 ℚ :=
  (plantSector fixed).withSubsectors ((plantSector fixed).subsectors ++ wings)

/-- Where the output of the plant is fixed and fills the demand, the wing makes no difference. -/
theorem wingedSector_calculate_vacant :
    let without := wingedSector (some 250) []
    let inserted := wingedSector (some 250) [emptyWing]
    (Quantity.isFinite (0 : ℚ) = true ∧ (0 : ℚ) < 100 ∧ emptyWing.Vacant 0 ∧
        ¬without.FittedToData 0 false ∧
        (inserted.calculate 0 100 .empty false).failure = none) ∧
      inserted.Filled 0 100 .empty false ∧
      ∃ xs' ys' e', xs'.length = 1 ∧
        (without.calculate 0 100 .empty false).state.subsectors = xs' ++ ys' ∧
        (inserted.calculate 0 100 .empty false).state.subsectors = xs' ++ e' :: ys' ∧
        e'.results[(0 : Fin 1)].share = 0 ∧ e'.results[(0 : Fin 1)].output = 0 := by
  intro without inserted
  have hdemand : (0 : ℚ) < 100 := by norm_num
  have hvacant : emptyWing.Vacant 0 := Subsector.vacant_new _
  have hfit : ¬without.FittedToData 0 false := fun hfit => nomatch hfit.calibrate_eq
  have hok : (inserted.calculate 0 100 .empty false).failure = none :=
    Option.isNone_iff_eq_none.1 (by decide +kernel)
  obtain ⟨hfilled, hends⟩ :=
    calculate_vacant (plantSector (some 250)) (plantSector (some 250)).subsectors [] rfl hdemand
      hvacant
  exact ⟨⟨rfl, hdemand, hvacant, hfit, hok⟩, (hfilled hok).1, (hends hfit).2 hok⟩

/-- Where it is not fixed, the plant serves a demand alone, and does not get to serve it with the
wing. -/
theorem emptyWing_refused :
    let without := wingedSector none []
    let inserted := wingedSector none [emptyWing]
    without.subsectors ≠ [] ∧ (∀ x ∈ without.subsectors, x.technologies ≠ []) ∧
      emptyWing.Vacant 0 ∧ (without.calculate 0 10 .empty false).failure = none ∧
      (inserted.calculate 0 10 .empty false).failure.isSome :=
  ⟨List.cons_ne_nil _ _, List.forall_mem_singleton.2 (List.cons_ne_nil _ _),
    Subsector.vacant_new _, Option.isNone_iff_eq_none.1 (by decide +kernel), by decide +kernel⟩

end Sector

end NestedLogit
