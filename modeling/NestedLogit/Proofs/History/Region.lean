import NestedLogit.Proofs.Quantity.Exact
import NestedLogit.Proofs.Frame
import NestedLogit.Proofs.History.Sector

/-!
# Regions forget what was calculated before

What the calculation of a period ends with depends on the inputs of the region alone. Whatever was
calculated for the period before, with other prices or taxes, completely or up to an error, leaves
no trace.

## Main definitions

- `Region.SameInputs` — the same inputs, whatever the results
- `Region.SameResults` — the same results of a period
- `Region.Same` — no difference, with market tables compared as maps

## Main statements

- `Region.agree_calculate` — regions with the same inputs are calculated in the same way
- `Region.same_of_sameResults` — no difference in a period or outside of it is none at all
- `Region.calculate_history_independent` — both for every region, and for a repeated calculation

## Design notes

The description of a region takes no part in a calculation and may differ. What is reported is part
of the way a calculation goes, so that it is the same as well.
-/

namespace NestedLogit

variable {n : Nat} {α : Type} {p : Fin n}

open Series (At)

/-- Sectors with the same inputs, whatever their results. -/
abbrev Sector.SameInputs : Sector n α → Sector n α → Prop :=
  Sector.Alike (fun _ _ => True) (fun _ _ => True) fun _ _ => True

/-- Sectors with the same inputs and the same results of a period. -/
abbrev Sector.SameResults (p : Fin n) : Sector n α → Sector n α → Prop :=
  Sector.Alike (At p Eq) (At p Eq) (At p Eq)

theorem Sector.Alike.sameInputs
    {T : Series n (TechnologyResult α) → Series n (TechnologyResult α) → Prop}
    {S : Series n (SubsectorResult α) → Series n (SubsectorResult α) → Prop}
    {C : Series n (SectorResult α) → Series n (SectorResult α) → Prop} {s s' : Sector n α}
    (h : s.Alike T S C s') : s.SameInputs s' :=
  h.mono (fun _ => trivial) (fun _ => trivial) fun _ => trivial

theorem Sector.SameResults.fuelInputs {s s' : Sector n α} (h : s.SameResults p s') :
    s.fuelInputs p = s'.fuelInputs p :=
  filterMap_eq_of_forall₂ h.technologies fun {t t'} ht => by
    have hr : t.results[p] = t'.results[p] := ht.results
    rw [ht.fuel, hr]

namespace Region

/-- Regions of the same kind with the same sectors, prices and carbon tax as inputs. -/
structure SameInputs (r r' : Region n α) : Prop where
  id : r.id = r'.id
  kind : r.kind = r'.kind
  carbonTax : r.carbonTax = r'.carbonTax
  prices : ∀ period, r.market.prices.SameIn period r'.market.prices
  sectors : List.Forall₂ Sector.SameInputs r.sectors r'.sectors

/-- Regions with the same results of a period: those of all sectors and what they consist of, the
supplies and demands on the market, and the value of output of a general equilibrium. -/
structure SameResults (p : Fin n) (r r' : Region n α) : Prop where
  sectors : List.Forall₂ (Sector.SameResults p) r.sectors r'.sectors
  supplies : r.market.supplies.SameIn p r'.market.supplies
  demands : r.market.demands.SameIn p r'.market.demands
  outputValue : r.outputValue? p = r'.outputValue? p

/-- Regions without a difference, but for the order of entries on the market. -/
structure Same (r r' : Region n α) : Prop where
  id : r.id = r'.id
  description : r.description = r'.description
  kind : r.kind = r'.kind
  carbonTax : r.carbonTax = r'.carbonTax
  sectors : r.sectors = r'.sectors
  outputValue : r.outputValue = r'.outputValue
  market : ∀ period, r.market.SameIn period r'.market

/-- What a calculation leaves alone includes the inputs. -/
theorem Framed.sameInputs {r r' : Region n α} (h : r.Framed p r') : r.SameInputs r' :=
  ⟨h.id, h.kind, h.carbonTax, fun _ => h.market.prices ▸ .refl _ _,
    h.sectors.imp fun _ _ hs => hs.sameInputs⟩

theorem sameIn_of_framed {t t' : GoodTable α} (h : t.SameIn p t')
    (h' : ∀ q, q ≠ p.val → t.SameIn q t') (q : Nat) : t.SameIn q t' := by
  by_cases hq : q = p.val
  · rw [hq]
    exact h
  · exact h' q hq

theorem same_of_sameResults {r r' : Region n α} (h : r.SameResults p r') (h' : r.Framed p r') :
    r.Same r' where
  id := h'.id
  description := h'.description
  kind := h'.kind
  carbonTax := h'.carbonTax
  sectors := eq_of_forall₂ Sector.Alike.eq h.sectors h'.sectors
  outputValue := by
    by_cases hkind : r.kind = .generalEquilibrium
    · refine Series.eq_of_at ?_ h'.outputValue
      have hvalue := h.outputValue
      rw [outputValue?, outputValue?, if_pos hkind, if_pos (h'.kind ▸ hkind)] at hvalue
      exact Option.some.inj hvalue
    · exact h'.outputValue_of_partial hkind
  market q := ⟨h'.market.prices ▸ .refl _ _, sameIn_of_framed h.supplies h'.market.supplies q,
    sameIn_of_framed h.demands h'.market.demands q⟩

variable [Quantity α]

theorem sameIn_placeFinalDemands {ss ss' : List (Sector n α)}
    (h : List.Forall₂ Sector.SameInputs ss ss') {m m' : Market α} (hm : m.SameIn p m') :
    (placeFinalDemands ss p m).SameIn p (placeFinalDemands ss' p m') := by
  unfold placeFinalDemands
  induction h generalizing m m' with
  | nil => exact hm
  | cons hs _ ih =>
    rw [List.foldl_cons, List.foldl_cons, hs.good, hs.finalDemand]
    exact ih ⟨hm.prices, hm.supplies, hm.demands.add _ _⟩

theorem sameIn_placeSector {s s' : Sector n α} (h : s.SameResults p s') {m m' : Market α}
    (hm : m.SameIn p m') : (placeSector s p m).SameIn p (placeSector s' p m') := by
  have hresults : s.results[p] = s'.results[p] := h.results
  have hfuels : ∀ (inputs : List (GoodId × α)) {t t' : GoodTable α}, t.SameIn p t' →
      GoodTable.SameIn p (inputs.foldl (fun t f => GoodTable.add t f.1 p f.2) t)
        (inputs.foldl (fun t f => GoodTable.add t f.1 p f.2) t') := by
    intro inputs
    induction inputs with
    | nil =>
      intro t t' ht
      exact ht
    | cons f rest ih =>
      intro t t' ht
      exact ih (ht.add f.1 f.2)
  unfold placeSector
  rw [h.fuelInputs, h.good, hresults]
  exact ⟨hm.prices, hm.supplies.add _ _, hfuels _ hm.demands⟩

/-- One sector goes the same way on markets that are the same. -/
theorem agree_calculateSector (id : RegionId) (tax : α) (calibrate : Bool) {m m' : Market α}
    (hm : m.SameIn p m') {s s' : Sector n α} (hs : s.SameInputs s') :
    Run.Agree (fun y y' => y.1.SameIn p y'.1 ∧ y.2.SameResults p y'.2)
      (calculateSector id tax calibrate p m s) (calculateSector id tax calibrate p m' s') := by
  have hrun := ((hs.applyCarbonTax (p := p) tax).calculate
    ((GoodTable.amount? m.demands s.good p).getD 0) hm.prices calibrate).within
    (.calculatingSector ⟨id, s.id⟩)
  unfold calculateSector
  dsimp only
  rw [← hs.id, ← hs.good, ← hm.demands s.good]
  refine hrun.map fun hresult => ⟨?_, hresult⟩
  rw [Run.succeeded, Run.succeeded, hrun.failure]
  split
  · exact sameIn_placeSector hresult hm
  · exact hm

/-- Regions with the same inputs are calculated in the same way and end with the same results. -/
theorem agree_calculate {r r' : Region n α} (h : r.SameInputs r') (p : Fin n) (calibrate : Bool) :
    Run.Agree (SameResults p) (r.calculate p calibrate) (r'.calculate p calibrate) := by
  have hmarket : (placeFinalDemands r.sectors p (r.market.clearPeriod p)).SameIn p
      (placeFinalDemands r'.sectors p (r'.market.clearPeriod p)) :=
    sameIn_placeFinalDemands h.sectors ⟨h.prices p, GoodTable.sameIn_clearPeriod _ _ _,
      GoodTable.sameIn_clearPeriod _ _ _⟩
  have hrun := Run.Agree.eachWith (S := Market.SameIn p)
    (fun hm hs => agree_calculateSector r.id r.carbonTax[p] calibrate hm hs) hmarket h.sectors
  unfold calculate
  dsimp only
  rw [← h.id, ← h.carbonTax]
  refine (hrun.map (S := fun x x' => x.kind = x'.kind ∧ x.market.SameIn p x'.market ∧
    List.Forall₂ (Sector.SameResults p) x.sectors x'.sectors) fun hx => ⟨h.kind, hx⟩).andThen ?_
  rintro x x' ⟨hkind, hm, hsectors⟩
  have hvalue : valueOfOutput x.sectors p = valueOfOutput x'.sectors p := by
    rw [valueOfOutput, valueOfOutput, map_eq_of_forall₂ hsectors fun {s s'} hs => by
      have hr : s.results[p] = s'.results[p] := hs.results
      rw [hr]]
  -- The value of output is stored in a general equilibrium only, and is not looked at otherwise.
  rw [← hkind]
  split
  · next hgeneral =>
    refine .ok ⟨hsectors, hm.supplies, hm.demands, ?_⟩
    simp [outputValue?, hgeneral, hvalue]
  · next hpartial =>
    refine .ok ⟨hsectors, hm.supplies, hm.demands, ?_⟩
    rw [outputValue?, outputValue?, if_neg hpartial, if_neg (hkind ▸ hpartial)]

/-- A calculation depends on the inputs alone: regions with the same inputs report the same, fail
for the same reason, or end with the same results, whatever was calculated before. In particular a
calculation that came to its end can be repeated and changes nothing then. -/
theorem calculate_history_independent {r r' : Region n α} (h : r.SameInputs r') (p : Fin n)
    (calibrate : Bool) :
    Run.Agree (SameResults p) (r.calculate p calibrate) (r'.calculate p calibrate) ∧
      ((r.calculate p calibrate).failure = none →
        ((r.calculate p calibrate).state.calculate p calibrate).failure = none ∧
          (r.calculate p calibrate).state.Same
            ((r.calculate p calibrate).state.calculate p calibrate).state) := by
  refine ⟨agree_calculate h p calibrate, ?_⟩
  intro hfirst
  -- A calculation leaves its own inputs alone and can thus be compared with its repetition.
  have hagree := agree_calculate (r.framed_calculate p calibrate).sameInputs p calibrate
  have hsecond := hagree.failure.symm.trans hfirst
  exact ⟨hsecond, same_of_sameResults (hagree.state hfirst) (framed_calculate _ p calibrate)⟩

/-- An island with a wind farm, whose results of the only period are given. -/
def island (t : TechnologyResult ℚ) (x : SubsectorResult ℚ) (s : SectorResult ℚ)
    (supplies : GoodTable ℚ) (value : ℚ) : Region 1 ℚ :=
  let farm : Technology 1 ℚ :=
    { (Technology.new 1 ⟨"turbine"⟩ none : Technology 1 ℚ) with results := Series.const 1 t }
  let wind : Subsector 1 ℚ :=
    { (Subsector.new 1 ⟨⟨"island"⟩, ⟨"power"⟩, ⟨"wind"⟩⟩ : Subsector 1 ℚ) with
      technologies := [farm]
      results := Series.const 1 x }
  let power : Sector 1 ℚ :=
    { (Sector.new 1 ⟨⟨"island"⟩, ⟨"power"⟩⟩ : Sector 1 ℚ) with
      subsectors := [wind]
      finalDemand := Series.const 1 6
      results := Series.const 1 s }
  { id := ⟨"island"⟩
    description := "An island"
    kind := .generalEquilibrium
    market := ⟨.empty, supplies, supplies⟩
    sectors := [power]
    carbonTax := Series.const 1 3
    outputValue := Series.const 1 value }

/-- The island before the first calculation. -/
def freshIsland : Region 1 ℚ :=
  island .initial .initial .initial .empty 0

/-- The island with results that belong to other inputs. -/
def usedIsland : Region 1 ℚ :=
  island ⟨1, 2, 3, 4, true, 1 / 2, 5, 6, 7⟩ ⟨1 / 3, 2, true, true, 5, 6, 7, 8, 9, 10, 11⟩ ⟨1, 2, 3⟩
    (GoodTable.add .empty ⟨"power"⟩ 0 17) 19

theorem sameInputs_island : freshIsland.SameInputs usedIsland :=
  ⟨rfl, rfl, rfl, fun _ => .refl _ _, .cons ⟨rfl, rfl, rfl,
    .cons ⟨rfl, rfl, rfl, .cons ⟨rfl, rfl, rfl, rfl, trivial⟩ .nil, rfl, rfl, trivial⟩ .nil,
    rfl, trivial⟩ .nil⟩

theorem island_history_independent :
    (freshIsland.SameInputs usedIsland ∧ (freshIsland.calculate 0 true).failure = none) ∧
      Run.Agree (SameResults 0) (freshIsland.calculate 0 true) (usedIsland.calculate 0 true) ∧
      ((freshIsland.calculate 0 true).state.calculate 0 true).failure = none ∧
      (freshIsland.calculate 0 true).state.Same
        ((freshIsland.calculate 0 true).state.calculate 0 true).state := by
  have h : (freshIsland.calculate 0 true).failure = none := by decide +kernel
  obtain ⟨hagree, hrepeat⟩ := calculate_history_independent sameInputs_island 0 true
  exact ⟨⟨sameInputs_island, h⟩, hagree, hrepeat h⟩

end Region

end NestedLogit
