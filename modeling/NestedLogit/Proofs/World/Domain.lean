import NestedLogit.Proofs.Region.Demand
import NestedLogit.Proofs.Sector.Domain
import NestedLogit.Proofs.World.Weights

/-!
# The domain of worlds

Wherever a run leads, no amount becomes negative and no share leaves the range of proportions. This
holds of every world whose inputs are in the domain that is asked of input data, and of whatever
state an operation leaves it in, also where the operation is refused or stops midway.

## Main definitions

- `World.InputsInDomain` — what is asked of the inputs
- `World.InDomain` — what holds of the inputs, of all results and of the markets

## Main statements

- `Region.InDomain.calculate` — a calculation stays in the domain, however it ends
- `World.InDomain.perform` — so does every operation
- `World.inDomain_performAll` — so does every run from a fresh world

## Design notes

Prices and taxes may be negative, and so may what is calculated from them: costs, average prices,
taxes paid and the value of output. A market is in the domain if all amounts are that are in its
tables, for goods and periods of the model or not.
-/

namespace NestedLogit

variable {n : Nat} {α : Type} {p : Fin n} [ExactQuantity α]

namespace OrderedMap

variable {κ : Type}

/-- No value is negative. -/
def Nonneg (m : OrderedMap κ α) : Prop :=
  ∀ e ∈ m.entries, 0 ≤ e.2

theorem nonneg_empty : (empty : OrderedMap κ α).Nonneg :=
  fun _ he => absurd he List.not_mem_nil

theorem Nonneg.filterKeys {m : OrderedMap κ α} (h : m.Nonneg) (keep : κ → Bool) :
    (m.filterKeys keep).Nonneg :=
  fun e he => h e (List.mem_filter.1 he).1

variable [DecidableEq κ]

theorem Nonneg.upsert {m : OrderedMap κ α} (h : m.Nonneg) (k : κ) {initial : α} {f : α → α}
    (hinitial : 0 ≤ initial) (hf : ∀ v, 0 ≤ v → 0 ≤ f v) : (m.upsert k initial f).Nonneg := by
  unfold OrderedMap.upsert
  split
  · refine List.forall_mem_map.2 fun e he => ?_
    dsimp only
    split
    · exact hf e.2 (h e he)
    · exact h e he
  · refine List.forall_mem_append.2 ⟨h, List.forall_mem_singleton.2 ?_⟩
    exact hf initial hinitial

theorem Nonneg.insert {m : OrderedMap κ α} (h : m.Nonneg) (k : κ) {v : α} (hv : 0 ≤ v) :
    (m.insert k v).Nonneg :=
  h.upsert k hv (f := fun _ => v) fun _ _ => hv

end OrderedMap

theorem GoodTable.nonneg_add {t : GoodTable α} (h : t.Nonneg) (good : GoodId) (period : Nat)
    {amount : α} (hamount : 0 ≤ amount) : (t.add good period amount).Nonneg :=
  h.upsert (good, period) le_rfl fun _ hv => add_nonneg hv hamount

/-- A market on which no supply and no demand is negative, in any period. -/
structure Market.InDomain (m : Market α) : Prop where
  supplies : m.supplies.Nonneg
  demands : m.demands.Nonneg

theorem Market.InDomain.clearPeriod {m : Market α} (h : m.InDomain) (period : Nat) :
    (m.clearPeriod period).InDomain :=
  ⟨h.supplies.filterKeys _, h.demands.filterKeys _⟩

namespace EmissionsAccount

/-- An account with neither negative emissions nor negative totals. -/
structure InDomain (a : EmissionsAccount α) : Prop where
  emissions : a.emissions.Nonneg
  cumulative : ∀ x ∈ a.cumulative, 0 ≤ x

variable {a : EmissionsAccount α}

theorem InDomain.setEmissions (h : a.InDomain) (region : RegionId) (period : Nat) {amount : α}
    (hamount : 0 ≤ amount) : (a.setEmissions region period amount).InDomain :=
  { h with emissions := h.emissions.insert (region, period) hamount }

theorem InDomain.total_nonneg (h : a.InDomain) (period : Nat) : 0 ≤ a.total period := by
  rw [total, Quantity.total_eq_sum]
  refine List.sum_nonneg fun x hx => ?_
  obtain ⟨e, he, hx⟩ := List.mem_filterMap.1 hx
  split at hx
  · cases hx
    exact h.emissions e he
  · cases hx

/-- Totals that are continued by emissions do not become negative. -/
theorem InDomain.extend_nonneg (h : a.InDomain) {totals : List α} (htotals : ∀ x ∈ totals, 0 ≤ x)
    (count : Nat) : ∀ x ∈ a.extend totals count, 0 ≤ x := by
  induction count generalizing totals with
  | zero => exact htotals
  | succ count ih =>
    have hlast : 0 ≤ totals.getLast?.getD 0 := by
      cases hlast : totals.getLast? with
      | none => exact le_rfl
      | some x => exact htotals x (List.mem_of_getLast? hlast)
    refine ih (List.forall_mem_append.2 ⟨htotals, List.forall_mem_singleton.2 ?_⟩)
    exact add_nonneg hlast (h.total_nonneg _)

theorem InDomain.run (h : a.InDomain) (period : Nat) : (a.run period).InDomain :=
  { h with
    cumulative := h.extend_nonneg (fun x hx => h.cumulative x (List.mem_of_mem_take hx)) _ }

end EmissionsAccount

namespace Region

/-- The inputs of all sectors are in their domain. -/
def InputsInDomain (r : Region n α) : Prop :=
  ∀ s ∈ r.sectors, s.InputsInDomain

/-- A region whose market and sectors are in their domain. -/
structure InDomain (r : Region n α) : Prop where
  market : r.market.InDomain
  sectors : ∀ s ∈ r.sectors, s.InDomain

theorem inDomain_placeFinalDemands {sectors : List (Sector n α)}
    (hsectors : ∀ s ∈ sectors, s.InDomain) {m : Market α} (hm : m.InDomain) :
    (placeFinalDemands sectors p m).InDomain := by
  unfold placeFinalDemands
  induction sectors generalizing m with
  | nil => exact hm
  | cons s rest ih =>
    obtain ⟨hs, hrest⟩ := List.forall_mem_cons.1 hsectors
    exact ih hrest
      { hm with demands := GoodTable.nonneg_add hm.demands s.good p (hs.finalDemand_nonneg p) }

/-- Placing a sector on the market adds what its technologies consume and what it produces. -/
theorem inDomain_placeSector {s : Sector n α} (hs : s.InDomain) {m : Market α}
    (hm : m.InDomain) : (placeSector s p m).InDomain := by
  have hinputs : ∀ f ∈ s.fuelInputs p, 0 ≤ f.2 := by
    intro f hf
    obtain ⟨t, ht, hf⟩ := List.mem_filterMap.1 hf
    obtain ⟨x, hx, ht⟩ := List.mem_flatMap.1 ht
    obtain ⟨fuel, -, rfl⟩ := Option.map_eq_some_iff.1 hf
    exact (((hs.subsectors x hx).technologies t ht).results p).input_nonneg
  have hadded : ∀ (inputs : List (GoodId × α)) {t : GoodTable α}, (∀ f ∈ inputs, 0 ≤ f.2) →
      t.Nonneg → (inputs.foldl (fun t f => GoodTable.add t f.1 p f.2) t).Nonneg := by
    intro inputs
    induction inputs with
    | nil => exact fun _ ht => ht
    | cons f rest ih =>
      intro t hinputs ht
      obtain ⟨hf, hrest⟩ := List.forall_mem_cons.1 hinputs
      exact ih hrest (GoodTable.nonneg_add ht f.1 p hf)
  exact ⟨GoodTable.nonneg_add hm.supplies s.good p (hs.output_nonneg p),
    hadded _ hinputs hm.demands⟩

/-- Calculating a sector on a market keeps both in the domain. -/
theorem inDomain_calculateSector (id : RegionId) (tax : α) (calibrate : Bool) {m : Market α}
    (hm : m.InDomain) {s : Sector n α} (hs : s.InDomain) :
    (calculateSector id tax calibrate p m s).Ends (fun y => y.1.InDomain ∧ y.2.InDomain)
      (fun y => y.1.InDomain ∧ y.2.InDomain) := by
  have hplaced : ∀ (succeeded : Bool) (s : Sector n α), s.InDomain →
      (if succeeded then placeSector s p m else m).InDomain ∧ s.InDomain := by
    intro succeeded s hs
    refine ⟨?_, hs⟩
    split
    · exact inDomain_placeSector hs hm
    · exact hm
  unfold calculateSector
  exact (((hs.applyCarbonTax tax).calculate _ m.prices calibrate).within _).map
    (hplaced _) (hplaced _)

namespace InDomain

variable {r : Region n α}

theorem calculate (h : r.InDomain) (calibrate : Bool) :
    (r.calculate p calibrate).Ends InDomain InDomain := by
  let market := placeFinalDemands r.sectors p (r.market.clearPeriod p)
  have hmarket : market.InDomain :=
    inDomain_placeFinalDemands h.sectors (h.market.clearPeriod p)
  have hsectors := Run.Ends.eachWith (A := Market.InDomain) hmarket fun s hs =>
    ⟨h.sectors s hs, fun m hm => inDomain_calculateSector (p := p) r.id r.carbonTax[p] calibrate hm
      (h.sectors s hs)⟩
  have hrun : ((Run.eachWith (calculateSector r.id r.carbonTax[p] calibrate p) market
      r.sectors).map fun x => { r with market := x.1, sectors := x.2 }).Ends InDomain InDomain :=
    hsectors.map (fun x hx => ⟨hx.1, hx.2⟩) fun x hx => ⟨hx.1, hx.2⟩
  unfold Region.calculate
  refine hrun.andThen fun r hr => ?_
  split
  · have hvalued : ∀ outputValue, { r with outputValue : Region n α }.InDomain :=
      fun _ => ⟨hr.market, hr.sectors⟩
    exact .ok (hvalued _) (hvalued _)
  · exact .ok hr hr

theorem carryForward (h : r.InDomain) (c : Calendar n) (p : Fin n) :
    (r.carryForward c p).InDomain :=
  { h with sectors := List.forall_mem_map.2 fun s hs => (h.sectors s hs).carryForward c p }

theorem emissions_nonneg (h : r.InDomain) (p : Fin n) : 0 ≤ r.emissions p := by
  rw [Region.emissions, Quantity.total_eq_sum]
  refine List.sum_nonneg (List.forall_mem_map.2 fun s hs => ?_)
  rw [Sector.emissions, Quantity.total_eq_sum]
  exact List.sum_nonneg (List.forall_mem_map.2 fun x hx =>
    (((h.sectors s hs).subsectors x hx).results p).emissions_nonneg)

end InDomain

end Region

theorem EmissionsAccount.InDomain.setEmissionsOf {regions : List (Region n α)}
    {a : EmissionsAccount α} (ha : a.InDomain) (hregions : ∀ r ∈ regions, r.InDomain) :
    (regions.foldl (fun a r => a.setEmissions r.id p (r.emissions p)) a).InDomain := by
  induction regions generalizing a with
  | nil => exact ha
  | cons r rest ih =>
    obtain ⟨hr, hrest⟩ := List.forall_mem_cons.1 hregions
    exact ih (ha.setEmissions r.id p (hr.emissions_nonneg p)) hrest

namespace World

/-- The account of the climate model is in its domain, if there is one. -/
def ClimateInDomain (w : World n α) : Prop :=
  ∀ a, w.climate = some a → a.InDomain

/-- The inputs of all regions are in their domain, and so is the account that a climate model starts
with. -/
structure InputsInDomain (w : World n α) : Prop where
  regions : ∀ r ∈ w.regions, r.InputsInDomain
  climate : w.ClimateInDomain

/-- A world in which nothing that stands for an amount is negative and every share is a
proportion. -/
structure InDomain (w : World n α) : Prop where
  regions : ∀ r ∈ w.regions, r.InDomain
  climate : w.ClimateInDomain

/-- An operation keeps every region in the domain. -/
theorem InDomain.onRegion {w : World n α} (o : Operation n α) {r : Region n α} (hr : r.InDomain)
    (j : Nat) : (o.onRegion w j r).InDomain := by
  refine Operation.onRegion_cases hr (fun p => ?_) (fun p _ _ _ => (hr.calculate _).always)
    (fun p _ => hr.carryForward w.calendar p) (fun _ => ?_) fun _ => ?_
  · exact { hr with market := hr.market.clearPeriod p }
  · exact ⟨hr.market, hr.sectors⟩
  · exact { hr with market := ⟨hr.market.supplies, hr.market.demands⟩ }

/-- The climate model takes up emissions and adds them up. -/
theorem InDomain.climate_perform {w : World n α} (h : w.InDomain) (o : Operation n α) :
    (o.perform w).state.ClimateInDomain := by
  have hsame := h.climate
  cases o with
  | prepare period => exact inPeriod_induction (P := ClimateInDomain) hsame fun p => hsame
  | calculate period ids => exact inPeriod_induction (P := ClimateInDomain) hsame fun p => hsame
  | finish period => exact inPeriod_induction (P := ClimateInDomain) hsame fun p => hsame
  | setCalibration on => exact hsame
  | setTax policy => exact hsame
  | setMarketPrice region good period price =>
    refine inPeriod_induction (P := ClimateInDomain) hsame fun p => ?_
    split
    · exact hsame
    · split <;> exact hsame
  | runClimate period =>
    refine inPeriod_induction (P := ClimateInDomain) hsame fun p => ?_
    split
    · exact hsame
    · next account haccount =>
      intro a ha
      cases ha
      exact ((hsame account haccount).setEmissionsOf h.regions).run p

/-- An operation stays in the domain, however it ends. -/
theorem InDomain.perform {w : World n α} (h : w.InDomain) (o : Operation n α) :
    (o.perform w).state.InDomain where
  regions := by
    rw [regions_perform]
    intro r' hr'
    obtain ⟨j, hj, rfl⟩ := List.mem_mapIdx.1 hr'
    exact InDomain.onRegion o (h.regions _ (List.getElem_mem hj)) j
  climate := h.climate_perform o

end World

section Fresh

theorem Technology.Fresh.inDomain {t : Technology n α} (h : t.Fresh) (hinputs : t.InputsInDomain) :
    t.InDomain where
  toInputsInDomain := hinputs
  results q := by
    rw [h, Series.getElem_const]
    exact ⟨zero_le_one, ⟨le_rfl, zero_le_one⟩, le_rfl, le_rfl, le_rfl⟩

theorem Subsector.Fresh.inDomain {s : Subsector n α} (h : s.Fresh) (hinputs : s.InputsInDomain) :
    s.InDomain where
  baseShareWeight_nonneg := hinputs.baseShareWeight_nonneg
  parameters := hinputs.parameters
  results q := by
    rw [h.results, Series.getElem_const]
    exact ⟨⟨le_rfl, zero_le_one⟩, zero_le_one, zero_le_one, le_rfl, le_rfl, le_rfl⟩
  technologies t ht := (h.technologies t ht).inDomain (hinputs.technologies t ht)

theorem Sector.Fresh.inDomain {s : Sector n α} (h : s.Fresh) (hinputs : s.InputsInDomain) :
    s.InDomain where
  finalDemand_nonneg := hinputs.finalDemand_nonneg
  output_nonneg q := by
    rw [h.results, Series.getElem_const]
    exact le_rfl
  subsectors x hx := (h.subsectors x hx).inDomain (hinputs.subsectors x hx)

theorem Region.Fresh.inDomain {r : Region n α} (h : r.Fresh) (hinputs : r.InputsInDomain) :
    r.InDomain where
  market := ⟨h.supplies ▸ OrderedMap.nonneg_empty, h.demands ▸ OrderedMap.nonneg_empty⟩
  sectors s hs := (h.sectors s hs).inDomain (hinputs s hs)

/-- Before anything is calculated, it is enough that the inputs are in the domain. -/
theorem World.Fresh.inDomain {w : World n α} (h : w.Fresh) (hinputs : w.InputsInDomain) :
    w.InDomain where
  regions r hr := (h r hr).inDomain (hinputs.regions r hr)
  climate := hinputs.climate

end Fresh

namespace World

/-- From a fresh world whose inputs are in their domain, whatever is done leads to a world in the
domain. -/
theorem inDomain_performAll {w : World n α} (hfresh : w.Fresh) (hinputs : w.InputsInDomain)
    (ops : List (Operation n α)) : (w.performAll ops).InDomain :=
  performAll_induction (P := InDomain) (fun o _ h => h.perform o) (hfresh.inDomain hinputs) ops

/-- The windy islands with a climate model that was not run. -/
def warmingWorld : World 2 ℚ :=
  windyWorld.setClimate .empty

/-- A run that calibrates the first year, asks for a year that does not exist, and goes on to the
second year without calibration. -/
def warmingRun : List (Operation 2 ℚ) :=
  [.prepare 0, .calculate 0 [], .runClimate 0, .finish 0, .calculate 7 [], .setCalibration false,
    .calculate 1 [⟨"north"⟩], .runClimate 1]

theorem inputsInDomain_windyIsland (name : String) : (windyIsland name).InputsInDomain := by
  have hone : ∀ q : Fin 2, 0 ≤ (Series.const 2 (1 : ℚ))[q] := by simp
  have hsix : ∀ q : Fin 2, 0 ≤ (Series.const 2 (6 : ℚ))[q] := by simp
  have hsubsector : ∀ q : Fin 2,
      (Series.const 2 (SubsectorParameters.default : SubsectorParameters ℚ))[q].InDomain := by
    intro q
    rw [Series.getElem_const]
    exact ⟨⟨zero_le_one, le_rfl⟩, fun x hx => by cases hx⟩
  have hfarm : ∀ (cost output : ℚ) (q : Fin 2), 0 ≤ output →
      (Series.ofFn fun p : Fin 2 =>
        { TechnologyParameters.default with
          nonEnergyCost := cost
          calibrationOutput := if p = 0 then some output else none })[q].InDomain := by
    intro cost output q houtput
    rw [Series.getElem_ofFn]
    refine ⟨zero_lt_one, le_rfl, (fun x hx => by cases hx), fun x hx => ?_⟩
    by_cases hq : q = 0
    · have hx : output = x := by simpa [hq] using hx
      exact hx ▸ houtput
    · simp [hq] at hx
  exact List.forall_mem_singleton.2 ⟨hsix, List.forall_mem_singleton.2 ⟨hone, hsubsector,
    List.forall_mem_cons.2 ⟨⟨hone, fun q => hfarm 1 2 q (by norm_num)⟩,
      List.forall_mem_singleton.2 ⟨hone, fun q => hfarm 1 4 q (by norm_num)⟩⟩⟩⟩

theorem warmingWorld_inDomain :
    (warmingWorld.Fresh ∧ warmingWorld.InputsInDomain) ∧
      (warmingWorld.performAll warmingRun).InDomain := by
  have hfresh : warmingWorld.Fresh := fresh_windyWorld
  have hinputs : warmingWorld.InputsInDomain := by
    refine ⟨List.forall_mem_cons.2 ⟨inputsInDomain_windyIsland "north",
      List.forall_mem_singleton.2 (inputsInDomain_windyIsland "south")⟩, fun a ha => ?_⟩
    cases ha
    exact ⟨OrderedMap.nonneg_empty, fun x hx => absurd hx List.not_mem_nil⟩
  exact ⟨⟨hfresh, hinputs⟩, inDomain_performAll hfresh hinputs warmingRun⟩

end World

end NestedLogit
