import Mathlib.Data.List.Forall2
import NestedLogit.Proofs.World.Calculation
import NestedLogit.Proofs.World.Selection

/-!
# Calculations of different periods

A calculation of the world changes what is calculated for its period in the regions it is for, and
nothing else, however it ends. What it reads are inputs, which no calculation changes. Calculations
of two periods therefore do not get in each other's way: they can be made in either order.

## Main definitions

- `Region.calculatedIf` — a region that is calculated or left as it is
- `World.Same` — no difference, with market tables compared as maps

## Main statements

- `Region.same_calculatedIf_comm` — two periods of a region, in either order
- `World.framed_calculate` — what a calculation of the world leaves alone
- `World.calculate_frames_and_commutes` — the frame, and two periods in either order
-/

namespace NestedLogit

variable {n : Nat} {α : Type} {p q k : Fin n}

open Series (At)

/-- What two lists have in common with a third they have in common with each other. -/
theorem forall₂_euclidean {α β γ : Type} {R : α → β → Prop} {R' : α → γ → Prop}
    {R'' : β → γ → Prop} {zs : List α} {xs : List β} {ys : List γ} (h : List.Forall₂ R zs xs)
    (h' : List.Forall₂ R' zs ys) (hR : ∀ z x y, R z x → R' z y → R'' x y) :
    List.Forall₂ R'' xs ys := by
  induction h generalizing ys with
  | nil =>
    cases h'
    exact .nil
  | cons hx _ ih =>
    cases h' with
    | cons hy h' => exact .cons (hR _ _ _ hx hy) (ih h')

/-- Lists that are related in several ways are related in all of them at once. -/
theorem forall₂_forall {ι β γ : Type} {R : ι → β → γ → Prop} (i : ι) {xs : List β} {ys : List γ}
    (h : ∀ i, List.Forall₂ (R i) xs ys) : List.Forall₂ (fun x y => ∀ i, R i x y) xs ys := by
  rw [List.forall₂_iff_get]
  exact ⟨(h i).length_eq, fun j hx hy i => (List.forall₂_iff_get.1 (h i)).2 j hx hy⟩

/-- Technologies with the same results of a period. -/
abbrev Technology.SameResults (k : Fin n) : Technology n α → Technology n α → Prop :=
  Technology.Alike (At k Eq)

/-- Subsectors with the same results of a period, down to the technologies. -/
abbrev Subsector.SameResults (k : Fin n) : Subsector n α → Subsector n α → Prop :=
  Subsector.Alike (At k Eq) (At k Eq)

section Trees

theorem Technology.SameResults.euclidean {z t t' : Technology n α} (h : z.SameResults k t)
    (h' : z.SameResults k t') : t.SameResults k t' :=
  ⟨h.id.symm.trans h'.id, h.fuel.symm.trans h'.fuel,
    h.baseShareWeight.symm.trans h'.baseShareWeight, h.parameters.symm.trans h'.parameters,
    Eq.trans (Eq.symm h.results) h'.results⟩

theorem Subsector.SameResults.euclidean {z x x' : Subsector n α} (h : z.SameResults k x)
    (h' : z.SameResults k x') : x.SameResults k x' :=
  ⟨h.id.symm.trans h'.id, h.regionId.symm.trans h'.regionId, h.sectorId.symm.trans h'.sectorId,
    forall₂_euclidean h.technologies h'.technologies fun _ _ _ =>
      Technology.SameResults.euclidean,
    h.baseShareWeight.symm.trans h'.baseShareWeight, h.parameters.symm.trans h'.parameters,
    Eq.trans (Eq.symm h.results) h'.results⟩

theorem Sector.SameResults.euclidean {z s s' : Sector n α} (h : z.SameResults k s)
    (h' : z.SameResults k s') : s.SameResults k s' :=
  ⟨h.id.symm.trans h'.id, h.regionId.symm.trans h'.regionId, h.good.symm.trans h'.good,
    forall₂_euclidean h.subsectors h'.subsectors fun _ _ _ => Subsector.SameResults.euclidean,
    h.finalDemand.symm.trans h'.finalDemand, Eq.trans (Eq.symm h.results) h'.results⟩

/-- Sectors with the same results of every period are the same. -/
theorem Sector.eq_of_sameResults (k : Fin n) {s s' : Sector n α}
    (h : ∀ k, s.SameResults k s') : s = s' := by
  have htechnology : ∀ {t t' : Technology n α}, (∀ k, t.SameResults k t') → t = t' :=
    fun h => (h k).eq { h k with results := fun j _ => (h j).results }
  have hsubsector : ∀ {x x' : Subsector n α}, (∀ k, x.SameResults k x') → x = x' := by
    intro x x' h
    have htechnologies := forall₂_forall k fun k => (h k).technologies
    have hframed : x.Framed k x' :=
      { h k with
        technologies := htechnologies.imp fun t t' ht => htechnology ht ▸ Technology.Framed.refl t
        results := fun j _ => (h j).results }
    exact (h k).eq hframed
  have hframed : s.Framed k s' :=
    { h k with
      subsectors := (forall₂_forall k fun k => (h k).subsectors).imp fun x x' hx =>
        hsubsector hx ▸ Subsector.Framed.refl x
      results := fun j _ => (h j).results }
  exact (h k).eq hframed

end Trees

namespace Region

/-- A calculation of one period leaves the results of another alone. -/
theorem Framed.sameResults {r r' : Region n α} (h : r.Framed p r') (hk : k ≠ p) :
    r.SameResults k r' where
  sectors := h.sectors.imp fun _ _ hs =>
    hs.mono (fun hx => hx k hk) (fun hx => hx k hk) fun hx => hx k hk
  supplies := h.market.supplies k fun e => hk (Fin.ext e)
  demands := h.market.demands k fun e => hk (Fin.ext e)
  outputValue := by
    rw [outputValue?, outputValue?, h.kind, h.outputValue k hk]

theorem SameResults.euclidean {z r r' : Region n α} (h : z.SameResults k r)
    (h' : z.SameResults k r') : r.SameResults k r' where
  sectors := forall₂_euclidean h.sectors h'.sectors fun _ _ _ => Sector.SameResults.euclidean
  supplies good := (h.supplies good).symm.trans (h'.supplies good)
  demands good := (h.demands good).symm.trans (h'.demands good)
  outputValue := h.outputValue.symm.trans h'.outputValue

theorem Framed.refl (r : Region n α) : r.Framed p r :=
  ⟨rfl, rfl, rfl, rfl, .refl _ _, List.forall₂_same.2 fun s _ => .refl s, .refl _, fun _ => rfl⟩

section TwoPeriods

variable {r x y z z' : Region n α} (hz : r.Framed p z) (hx : z.Framed q x) (hz' : r.Framed q z')
  (hy : z'.Framed p y) (hp : x.SameResults p y) (hq : x.SameResults q y)

include hz hx hz' hy hp hq

theorem Framed.sameResults_of_two_periods (k : Fin n) : x.SameResults k y := by
  by_cases hkp : k = p
  · exact hkp ▸ hp
  · by_cases hkq : k = q
    · exact hkq ▸ hq
    · -- In a third period nothing was changed on either way.
      have hzz : z'.SameResults k z := (hz'.sameResults hkq).euclidean (hz.sameResults hkp)
      have hzy : z.SameResults k y := hzz.euclidean (hy.sameResults hkp)
      exact (hx.sameResults hkq).euclidean hzy

theorem Framed.sameMarket_of_two_periods (period : Nat) : x.market.SameIn period y.market := by
  have hprices : x.market.prices = y.market.prices := by
    rw [← hx.market.prices, ← hz.market.prices, hz'.market.prices, hy.market.prices]
  by_cases hperiod : period = p
  · exact hperiod ▸ ⟨hprices ▸ .refl _ _, hp.supplies, hp.demands⟩
  · by_cases hperiod' : period = q
    · exact hperiod' ▸ ⟨hprices ▸ .refl _ _, hq.supplies, hq.demands⟩
    · exact hz.market.sameIn_of_two_periods hx.market hz'.market hy.market hperiod hperiod'

/-- Regions that come from the same one by changes in two periods, and that have the same results of
both, are the same. -/
theorem Framed.same_of_two_periods : x.Same y := by
  have hresults := hz.sameResults_of_two_periods hx hz' hy hp hq
  have hkind : x.kind = y.kind := by rw [← hx.kind, ← hz.kind, hz'.kind, hy.kind]
  have hsectors : x.sectors = y.sectors := by
    have hall := forall₂_forall p fun k => (hresults k).sectors
    rw [← List.forall₂_eq_eq_eq]
    exact hall.imp fun s s' hs => Sector.eq_of_sameResults p hs
  refine ⟨?_, ?_, hkind, ?_, hsectors, ?_, hz.sameMarket_of_two_periods hx hz' hy hp hq⟩
  · rw [← hx.id, ← hz.id, hz'.id, hy.id]
  · rw [← hx.description, ← hz.description, hz'.description, hy.description]
  · rw [← hx.carbonTax, ← hz.carbonTax, hz'.carbonTax, hy.carbonTax]
  · by_cases hgeneral : x.kind = .generalEquilibrium
    · refine Series.ext fun k => ?_
      have hvalue := (hresults k).outputValue
      rw [outputValue?, outputValue?, if_pos hgeneral, if_pos (hkind ▸ hgeneral)] at hvalue
      exact Option.some.inj hvalue
    · -- In a partial equilibrium no value of output is stored.
      have hz₀ : z.kind ≠ .generalEquilibrium := hx.kind ▸ hgeneral
      have hr₀ : r.kind ≠ .generalEquilibrium := hz.kind ▸ hz₀
      have hz₁ : z'.kind ≠ .generalEquilibrium := hz'.kind ▸ hr₀
      rw [← hx.outputValue_of_partial hz₀, ← hz.outputValue_of_partial hr₀,
        hz'.outputValue_of_partial hr₀, hy.outputValue_of_partial hz₁]

end TwoPeriods

variable [Quantity α] {calibrate : Bool}

/-- A region that is calculated, or left as it is. -/
def calculatedIf (p : Fin n) (calibrate chosen : Bool) (r : Region n α) : Region n α :=
  if chosen then (r.calculate p calibrate).state else r

theorem framed_calculatedIf (p : Fin n) (calibrate chosen : Bool) (r : Region n α) :
    r.Framed p (r.calculatedIf p calibrate chosen) := by
  unfold calculatedIf
  split
  · exact r.framed_calculate p calibrate
  · exact .refl r

/-- A change in another period makes no difference to a calculation. -/
theorem Framed.agree_calculatedIf {r r' : Region n α} (h : r.Framed q r') (hpq : p ≠ q)
    {chosen : Bool} (hok : chosen = true → (r.calculate p calibrate).failure = none) :
    (chosen = true → (r'.calculate p calibrate).failure = none) ∧
      (r.calculatedIf p calibrate chosen).SameResults p (r'.calculatedIf p calibrate chosen) := by
  cases chosen with
  | true =>
    have hagree := agree_calculate h.sameInputs p calibrate
    exact ⟨fun _ => hagree.failure.symm.trans (hok rfl), hagree.state (hok rfl)⟩
  | false => exact ⟨nofun, h.sameResults hpq⟩

/-- Calculations of two periods can be made in either order. -/
theorem same_calculatedIf_comm (hpq : p ≠ q) (r : Region n α) (calibrate chosen chosen' : Bool)
    (hp : chosen = true → (r.calculate p calibrate).failure = none)
    (hq : chosen' = true →
      ((r.calculatedIf p calibrate chosen).calculate q calibrate).failure = none) :
    (chosen' = true → (r.calculate q calibrate).failure = none) ∧
      (chosen = true →
        ((r.calculatedIf q calibrate chosen').calculate p calibrate).failure = none) ∧
      ((r.calculatedIf p calibrate chosen).calculatedIf q calibrate chosen').Same
        ((r.calculatedIf q calibrate chosen').calculatedIf p calibrate chosen) := by
  have hz := r.framed_calculatedIf p calibrate chosen
  have hx := (r.calculatedIf p calibrate chosen).framed_calculatedIf q calibrate chosen'
  have hz' := r.framed_calculatedIf q calibrate chosen'
  have hy := (r.calculatedIf q calibrate chosen').framed_calculatedIf p calibrate chosen
  have hq' : chosen' = true → (r.calculate q calibrate).failure = none := fun h =>
    (agree_calculate hz.sameInputs q calibrate).failure.trans (hq h)
  obtain ⟨hp', hresults⟩ := hz'.agree_calculatedIf hpq hp
  obtain ⟨-, hresults'⟩ := hz.agree_calculatedIf hpq.symm hq'
  -- Each calculation finds the same inputs, whichever comes first.
  refine ⟨hq', hp', hz.same_of_two_periods hx hz' hy ?_ ?_⟩
  · exact (hx.sameResults hpq).euclidean hresults
  · exact hresults'.euclidean (hy.sameResults hpq.symm)

end Region

namespace World

/-- Worlds without a difference, but for the order of entries on the markets. -/
structure Same (w w' : World n α) : Prop where
  calendar : w.calendar = w'.calendar
  calibrate : w.calibrate = w'.calibrate
  calculations : w.calculations = w'.calculations
  climate : w.climate = w'.climate
  regions : List.Forall₂ Region.Same w.regions w'.regions

/-- Worlds that differ in nothing but what is calculated for a period in the regions named, or in
all regions if none is named, and in the number of calculations. -/
structure Framed (p : Fin n) (ids : List RegionId) (w w' : World n α) : Prop where
  calendar : w.calendar = w'.calendar
  calibrate : w.calibrate = w'.calibrate
  climate : w.climate = w'.climate
  regions : List.Forall₂ (fun r r' => r.Framed p r' ∧ (¬(ids = [] ∨ r.id ∈ ids) → r' = r))
    w.regions w'.regions

variable {w w' : World n α} {ids ids' : List RegionId}

theorem Framed.regionIds (h : w.Framed p ids w') : w.regionIds = w'.regionIds :=
  map_eq_of_forall₂ h.regions fun hr => hr.1.id

/-- Which positions a calculation is for depends on the names of the regions only. -/
theorem selection_congr (h : w.regionIds = w'.regionIds) (ids : List RegionId) :
    w.selection ids = w'.selection ids := by
  have hposition : w.position? = w'.position? := by
    funext id
    have hfind : ∀ v : World n α, v.position? id = v.regionIds.findIdx? fun i => i = id := by
      intro v
      rw [regionIds, List.findIdx?_map]
      rfl
    rw [hfind, hfind, h]
  have hlength : w.regions.length = w'.regions.length := by
    simpa [regionIds] using congrArg List.length h
  rw [selection, selection, hposition, hlength]

/-- A calculation is for no other regions than those named. -/
theorem named_of_mem_selection {j : Nat} (h : j ∈ w.selection ids) (hj : j < w.regions.length) :
    ids = [] ∨ w.regions[j].id ∈ ids := by
  by_cases hids : ids = []
  · exact .inl hids
  · refine .inr ?_
    rw [selection, if_neg (by simpa using hids), mem_eraseReps, List.mem_mergeSort,
      List.mem_filterMap] at h
    obtain ⟨id, hid, hposition⟩ := h
    rw [position?, List.findIdx?_eq_some_iff_getElem] at hposition
    obtain ⟨_, hname, -⟩ := hposition
    rw [of_decide_eq_true hname]
    exact hid

/-- Members that are related to what becomes of them at their position. -/
theorem forall₂_mapIdx {β γ : Type} {R : β → γ → Prop} {f : Nat → β → γ} {xs : List β}
    (h : ∀ (j : Nat) (hj : j < xs.length), R xs[j] (f j xs[j])) :
    List.Forall₂ R xs (xs.mapIdx f) := by
  rw [List.forall₂_iff_get]
  refine ⟨List.length_mapIdx.symm, fun j hj hj' => ?_⟩
  simpa using h j hj

variable [Quantity α]

/-- A calculation leaves everything alone that does not belong to its period or to its regions,
however it ends. -/
theorem framed_calculate (w : World n α) (p : Fin n) (ids : List RegionId) :
    w.Framed p ids (w.calculate p ids).state := by
  have hregions := w.regions_calculate_eq p ids
  refine ⟨?_, ?_, ?_, hregions ▸ forall₂_mapIdx fun j hj => ?_⟩
  · rw [calculate, inPeriod_val]
    rfl
  · rw [calculate, inPeriod_val]
    rfl
  · rw [calculate, inPeriod_val]
    rfl
  · refine ⟨w.regions[j].framed_calculatedIf p w.calibrate (w.reaches p ids j), fun hnot => ?_⟩
    refine if_neg fun hreaches => hnot ?_
    rw [reaches, getsTo, Bool.and_eq_true, Nat.zero_add, decide_eq_true_eq] at hreaches
    exact named_of_mem_selection hreaches.1 hj

theorem calculations_calculate (w : World n α) (p : Fin n) (ids : List RegionId) :
    (w.calculate p ids).state.calculations = w.calculations + 1 := by
  rw [calculate, inPeriod_val]
  rfl

/-- A calculation that comes to its end calculates all regions that it is for. -/
theorem regions_calculate_of_ok (h : (w.calculate p ids).failure = none) :
    (w.calculate p ids).state.regions =
      w.regions.mapIdx fun j r => r.calculatedIf p w.calibrate (j ∈ w.selection ids) := by
  rw [regions_calculate_eq]
  refine List.mapIdx_eq_mapIdx_iff.2 fun j hj => ?_
  have hbefore : (calculateAt p w.calibrate (w.selection ids) 0 (w.regions.take j)).failure
      = none := by
    rw [failure_calculateAt]
    intro i hi hmem
    rw [List.getElem_take]
    rw [Nat.zero_add] at hmem
    exact (w.failure_calculate_eq_none p ids).1 h i _ hmem
  have hreaches : w.reaches p ids j = decide (j ∈ w.selection ids) := by
    simp [reaches, getsTo, Run.succeeded, hbefore]
  rw [hreaches]
  rfl

/-- A calculation after another one comes to its end if it does so in every region that it is for,
as the other one has left it. -/
theorem failure_calculate_calculate (hp : (w.calculate p ids).failure = none) :
    ((w.calculate p ids).state.calculate q ids').failure = none ↔
      ∀ (j : Nat) (hj : j < w.regions.length), j ∈ w.selection ids' →
        ((w.regions[j].calculatedIf p w.calibrate (j ∈ w.selection ids)).calculate q
          w.calibrate).failure = none := by
  have hframed := w.framed_calculate p ids
  rw [failure_calculate_eq_none, ← hframed.calibrate, ← selection_congr hframed.regionIds ids']
  simp only [regions_calculate_of_ok hp, List.length_mapIdx, List.getElem_mapIdx]

theorem regions_calculate_calculate (hp : (w.calculate p ids).failure = none)
    (hq : ((w.calculate p ids).state.calculate q ids').failure = none) :
    ((w.calculate p ids).state.calculate q ids').state.regions = w.regions.mapIdx fun j r =>
      (r.calculatedIf p w.calibrate (j ∈ w.selection ids)).calculatedIf q w.calibrate
        (j ∈ w.selection ids') := by
  have hframed := w.framed_calculate p ids
  rw [regions_calculate_of_ok hq, ← hframed.calibrate, ← selection_congr hframed.regionIds ids',
    regions_calculate_of_ok hp, List.mapIdx_mapIdx]
  rfl

/-- Calculations of two periods that come to their ends can be made in either order. -/
theorem same_calculate_comm (hpq : p ≠ q) (hp : (w.calculate p ids).failure = none)
    (hq : ((w.calculate p ids).state.calculate q ids').failure = none) :
    (w.calculate q ids').failure = none ∧
      ((w.calculate q ids').state.calculate p ids).failure = none ∧
      ((w.calculate p ids).state.calculate q ids').state.Same
        ((w.calculate q ids').state.calculate p ids).state := by
  have hboth := fun (j : Nat) (hj : j < w.regions.length) =>
    w.regions[j].same_calculatedIf_comm hpq w.calibrate (j ∈ w.selection ids)
      (j ∈ w.selection ids')
      (fun hmem => (w.failure_calculate_eq_none p ids).1 hp j hj (of_decide_eq_true hmem))
      (fun hmem => (failure_calculate_calculate hp).1 hq j hj (of_decide_eq_true hmem))
  have hfirst : (w.calculate q ids').failure = none :=
    (w.failure_calculate_eq_none q ids').2 fun j hj hmem => (hboth j hj).1 (decide_eq_true hmem)
  have hsecond : ((w.calculate q ids').state.calculate p ids).failure = none :=
    (failure_calculate_calculate hfirst).2 fun j hj hmem =>
      (hboth j hj).2.1 (decide_eq_true hmem)
  -- What is not in the regions is left alone on either way.
  have hdown := w.framed_calculate p ids
  have hdown' := framed_calculate (w.calculate p ids).state q ids'
  have hup := w.framed_calculate q ids'
  have hup' := framed_calculate (w.calculate q ids').state p ids
  refine ⟨hfirst, hsecond, ?_, ?_, ?_, ?_, ?_⟩
  · rw [← hdown'.calendar, ← hdown.calendar, hup.calendar, hup'.calendar]
  · rw [← hdown'.calibrate, ← hdown.calibrate, hup.calibrate, hup'.calibrate]
  · simp only [calculations_calculate]
  · rw [← hdown'.climate, ← hdown.climate, hup.climate, hup'.climate]
  · rw [regions_calculate_calculate hp hq, regions_calculate_calculate hfirst hsecond,
      List.forall₂_iff_get]
    refine ⟨by simp only [List.length_mapIdx], fun j hj hj' => ?_⟩
    simp only [List.get_eq_getElem, List.getElem_mapIdx]
    exact (hboth j (by simpa only [List.length_mapIdx] using hj)).2.2

/-- A calculation changes nothing but what is calculated for its period in the regions that it is
for, and counts one more calculation, however it ends. Calculations of two periods that come to
their ends can therefore be made in the other order as well, and it makes no difference. -/
theorem calculate_frames_and_commutes (w : World n α) (p : Fin n) (ids : List RegionId) :
    (w.Framed p ids (w.calculate p ids).state ∧
        (w.calculate p ids).state.calculations = w.calculations + 1) ∧
      ∀ (q : Fin n) (ids' : List RegionId), p ≠ q → (w.calculate p ids).failure = none →
        ((w.calculate p ids).state.calculate q ids').failure = none →
        (w.calculate q ids').failure = none ∧
          ((w.calculate q ids').state.calculate p ids).failure = none ∧
          ((w.calculate p ids).state.calculate q ids').state.Same
            ((w.calculate q ids').state.calculate p ids).state :=
  ⟨⟨w.framed_calculate p ids, w.calculations_calculate p ids⟩, fun _ _ => same_calculate_comm⟩

/-- A calendar of two years. -/
def twoYears : Calendar 2 where
  years := Series.ofFn fun p => 2020 + 10 * p.val
  nonempty := by decide
  increasing := by decide

/-- An island with two wind farms. There are historical data for the first period only. -/
def windyIsland (name : String) : Region 2 ℚ :=
  let farm (site : String) (cost output : ℚ) : Technology 2 ℚ :=
    { Technology.new 2 ⟨site⟩ none with
      parameters := Series.ofFn fun p =>
        { TechnologyParameters.default with
          nonEnergyCost := cost
          calibrationOutput := if p = 0 then some output else none } }
  let wind : Subsector 2 ℚ :=
    { (Subsector.new 2 ⟨⟨name⟩, ⟨"power"⟩, ⟨"wind"⟩⟩ : Subsector 2 ℚ) with
      technologies := [farm "coast" 1 2, farm "hills" 1 4] }
  { id := ⟨name⟩
    description := "A windy island"
    kind := .generalEquilibrium
    market := .empty
    sectors :=
      [{ (Sector.new 2 ⟨⟨name⟩, ⟨"power"⟩⟩ : Sector 2 ℚ) with
        subsectors := [wind]
        finalDemand := Series.const 2 6 }]
    carbonTax := Series.const 2 0
    outputValue := Series.const 2 0 }

/-- Two windy islands. -/
def windyWorld : World 2 ℚ where
  calendar := twoYears
  regions := [windyIsland "north", windyIsland "south"]
  calibrate := true
  calculations := 0
  climate := none

theorem windyWorld_frames_and_commutes :
    (windyWorld.Framed 0 [⟨"north"⟩] (windyWorld.calculate (0 : Fin 2) [⟨"north"⟩]).state ∧
        (windyWorld.calculate (0 : Fin 2) [⟨"north"⟩]).state.calculations = 1) ∧
      ((0 : Fin 2) ≠ 1 ∧ (windyWorld.calculate (0 : Fin 2) [⟨"north"⟩]).failure = none ∧
        ((windyWorld.calculate (0 : Fin 2) [⟨"north"⟩]).state.calculate (1 : Fin 2) []).failure
          = none) ∧
      (windyWorld.calculate (1 : Fin 2) []).failure = none ∧
      ((windyWorld.calculate (1 : Fin 2) []).state.calculate (0 : Fin 2) [⟨"north"⟩]).failure
        = none ∧
      ((windyWorld.calculate (0 : Fin 2) [⟨"north"⟩]).state.calculate (1 : Fin 2) []).state.Same
        ((windyWorld.calculate (1 : Fin 2) []).state.calculate (0 : Fin 2) [⟨"north"⟩]).state := by
  have hperiods : (0 : Fin 2) ≠ 1 := by decide
  have hfirst : (windyWorld.calculate (0 : Fin 2) [⟨"north"⟩]).failure = none := by decide +kernel
  have hsecond :
      ((windyWorld.calculate (0 : Fin 2) [⟨"north"⟩]).state.calculate (1 : Fin 2) []).failure
        = none := by decide +kernel
  obtain ⟨hframe, hcommute⟩ := windyWorld.calculate_frames_and_commutes 0 [⟨"north"⟩]
  exact ⟨hframe, ⟨hperiods, hfirst, hsecond⟩, hcommute 1 [] hperiods hfirst hsecond⟩

end World

end NestedLogit
