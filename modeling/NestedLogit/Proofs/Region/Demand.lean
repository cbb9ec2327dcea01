import NestedLogit.Proofs.Sector.Supply
import NestedLogit.Proofs.Sector.Order

/-!
# No demand arrives late

While the sectors of a region are calculated one after another, the demand on the market grows by
what they consume. As every sector comes before the suppliers of its fuels, the demand for a good is
complete when its supplier is calculated.

## Main definitions

- `fuelDemand` — what technologies consume of a good

## Main statements

- `Region.demand_eachWith` — the demands after a calculation, from those before
- `Region.demand_settled` — nothing is added after a sector was calculated
- `Region.calculate_balances` — what a sector is calculated for is the whole demand for its good
-/

namespace NestedLogit

variable {n : Nat} {α : Type} {p : Fin n}

namespace Region

section Steps

variable [Quantity α]

/-- A sector that is calculated on a market is calculated for the demand there, and its consumption
is added to the market. -/
theorem calculateSector_eq_ok {id : RegionId} {tax : α} {calibrate : Bool} {m : Market α}
    {s : Sector n α} (h : (calculateSector id tax calibrate p m s).failure = none) :
    let r := (calculateSector id tax calibrate p m s).state
    r.1 = placeSector r.2 p m ∧ r.2.results[p].demand = (m.demands.amount? s.good p).getD 0 := by
  have hcalculated : ((s.applyCarbonTax p tax).calculate p ((m.demands.amount? s.good p).getD 0)
      m.prices calibrate).failure = none := (Run.failure_within _ _).1 h
  refine ⟨if_pos ?_, Sector.demand_calculate hcalculated⟩
  exact Option.isNone_iff_eq_none.2 h

/-- A calculation that comes to its end has calculated every sector, from the final demands on. -/
theorem calculate_eq_ok {r : Region n α} {calibrate : Bool}
    (h : (r.calculate p calibrate).failure = none) :
    let run := Run.eachWith (calculateSector r.id r.carbonTax[p] calibrate p)
      (placeFinalDemands r.sectors p (r.market.clearPeriod p)) r.sectors
    run.failure = none ∧ (r.calculate p calibrate).state.market = run.state.1 ∧
      (r.calculate p calibrate).state.sectors = run.state.2 := by
  obtain ⟨hrun, -⟩ := Run.failure_andThen.1 h
  refine ⟨hrun, ?_⟩
  rw [calculate, Run.state_andThen hrun]
  split <;> exact ⟨rfl, rfl⟩

end Steps

end Region

variable [ExactQuantity α]

/-- What technologies consume of a good in a period. -/
def fuelDemand (good : GoodId) (p : Fin n) (ts : List (Technology n α)) : α :=
  ((ts.filter fun t => t.fuel = some good).map fun t => t.results[p].input).sum

theorem fuelDemand_append (good : GoodId) (p : Fin n) (ts us : List (Technology n α)) :
    fuelDemand good p (ts ++ us) = fuelDemand good p ts + fuelDemand good p us := by
  rw [fuelDemand, List.filter_append, List.map_append, List.sum_append]
  rfl

/-- Technologies with other fuels consume nothing of a good. -/
theorem fuelDemand_eq_zero {good : GoodId} {ts : List (Technology n α)}
    (h : good ∉ ts.filterMap (·.fuel)) : fuelDemand good p ts = 0 := by
  have hnil : ts.filter (fun t => t.fuel = some good) = [] := by
    rw [List.filter_eq_nil_iff]
    intro t ht hfuel
    exact h (List.mem_filterMap.2 ⟨t, ht, by simpa using hfuel⟩)
  rw [fuelDemand, hnil, List.map_nil, List.sum_nil]

/-- A sector without a fuel consumes nothing of it, whatever is calculated for the sector. -/
theorem fuelDemand_sector_eq_zero {good : GoodId} {s s' : Sector n α} (h : s.Framed p s')
    (hnot : good ∉ s.fuels) : fuelDemand good p s'.technologies = 0 :=
  fuelDemand_eq_zero (by rw [← Sector.fuels, ← h.fuels]; exact hnot)

theorem fuelDemand_sectors_eq_zero {good : GoodId} {ss ss' : List (Sector n α)}
    (hframed : List.Forall₂ (Sector.Framed p) ss ss') (h : ∀ s ∈ ss, good ∉ s.fuels) :
    fuelDemand good p (ss'.flatMap (·.technologies)) = 0 := by
  induction hframed with
  | nil => rfl
  | @cons s s' rest rest' hs _ ih =>
    obtain ⟨hnot, hrest⟩ := List.forall_mem_cons.1 h
    rw [List.flatMap_cons, fuelDemand_append, fuelDemand_sector_eq_zero hs hnot, ih hrest,
      add_zero]

/-- What is added to a good, out of a list of additions. -/
def addedTo (good : GoodId) (xs : List (GoodId × α)) : α :=
  (xs.map fun x => if x.1 = good then x.2 else 0).sum

theorem addedTo_eq_zero {good : GoodId} {xs : List (GoodId × α)} (h : good ∉ xs.map (·.1)) :
    addedTo good xs = 0 := by
  apply List.sum_eq_zero
  intro a ha
  obtain ⟨x, hx, rfl⟩ := List.mem_map.1 ha
  refine if_neg ?_
  intro hgood
  exact h (List.mem_map.2 ⟨x, hx, hgood⟩)

/-- Additions one after another add up. -/
theorem amount?_foldl_add {t : GoodTable α} {good : GoodId} {period : Nat} {a : α}
    (h : t.amount? good period = some a) (xs : List (GoodId × α)) :
    (xs.foldl (fun t x => GoodTable.add t x.1 period x.2) t).amount? good period
      = some (a + addedTo good xs) := by
  induction xs generalizing t a with
  | nil => simpa [addedTo] using h
  | cons x xs ih =>
    have hx : (GoodTable.add t x.1 period x.2).amount? good period
        = some (a + if x.1 = good then x.2 else 0) := by
      rw [GoodTable.amount?_add]
      by_cases hgood : good = x.1
      · subst hgood
        simp [h]
      · simp [hgood, Ne.symm hgood, h]
    rw [List.foldl_cons, ih hx, addedTo, addedTo, List.map_cons, List.sum_cons, add_assoc]

theorem addedTo_fuelInputs (good : GoodId) (s : Sector n α) :
    addedTo good (s.fuelInputs p) = fuelDemand good p s.technologies := by
  unfold Sector.fuelInputs
  induction s.technologies with
  | nil => rfl
  | cons t ts ih =>
    rw [← List.singleton_append, fuelDemand_append, ← ih, List.filterMap_append]
    cases hfuel : t.fuel with
    | none => simp [addedTo, fuelDemand, hfuel]
    | some fuel =>
      by_cases hgood : fuel = good <;> simp [addedTo, fuelDemand, hfuel, hgood]

namespace Region

/-- Placing a calculated sector adds what it consumes. -/
theorem demand_placeSector {m : Market α} {good : GoodId} {a : α}
    (h : m.demands.amount? good p = some a) (s : Sector n α) :
    (placeSector s p m).demands.amount? good p
      = some (a + fuelDemand good p s.technologies) := by
  rw [← addedTo_fuelInputs]
  exact amount?_foldl_add h _

section Run

variable {id : RegionId} {tax : α} {calibrate : Bool}

/-- A calculation of sectors adds to a demand what the sectors consume. -/
theorem demand_eachWith {m : Market α} {ss : List (Sector n α)}
    (h : (Run.eachWith (calculateSector id tax calibrate p) m ss).failure = none)
    {good : GoodId} {a : α} (ha : m.demands.amount? good p = some a) :
    let r := (Run.eachWith (calculateSector id tax calibrate p) m ss).state
    r.1.demands.amount? good p
      = some (a + fuelDemand good p (r.2.flatMap (·.technologies))) := by
  induction ss generalizing m a with
  | nil => simpa [Run.eachWith, Run.ok, fuelDemand] using ha
  | cons s rest ih =>
    obtain ⟨hs, hrest⟩ := Run.failure_eachWith_cons.1 h
    obtain ⟨hmarket, -⟩ := calculateSector_eq_ok hs
    rw [Run.eachWith_cons_of_none hs]
    dsimp only
    rw [List.flatMap_cons, fuelDemand_append, ← add_assoc]
    exact ih hrest (hmarket ▸ demand_placeSector ha _)

/-- When a sector that is in order was calculated, nothing is added to the demand for its good any
more. -/
theorem demand_settled {m : Market α} {ss : List (Sector n α)} (horder : Sector.InOrder ss)
    (hplaced : ∀ s ∈ ss, ∃ a, m.demands.amount? s.good p = some a)
    (h : (Run.eachWith (calculateSector id tax calibrate p) m ss).failure = none) :
    let r := (Run.eachWith (calculateSector id tax calibrate p) m ss).state
    List.Forall₂ (fun s s' => r.1.demands.amount? s.good p = some s'.results[p].demand) ss r.2 := by
  induction ss generalizing m with
  | nil => exact .nil
  | cons s rest ih =>
    obtain ⟨hs, hrest⟩ := Run.failure_eachWith_cons.1 h
    obtain ⟨hmarket, hdemand⟩ := calculateSector_eq_ok hs
    obtain ⟨⟨a, ha⟩, hplaced⟩ := List.forall_mem_cons.1 hplaced
    obtain ⟨hown, hown'⟩ := List.forall_mem_cons.1 horder.own
    obtain ⟨hlater, hpairwise⟩ := List.pairwise_cons.1 horder.earlier
    -- The sector does not consume its own good, and neither do those behind it.
    have hself := fuelDemand_sector_eq_zero
      (framed_calculateSector (p := p) id tax calibrate m s).2 hown
    have hothers := fuelDemand_sectors_eq_zero
      (Run.forall₂_state_eachWith Sector.Framed.refl
        (fun m s => (framed_calculateSector (p := p) id tax calibrate m s).2)
        (calculateSector id tax calibrate p m s).state.1 rest) hlater
    have hnext : (calculateSector id tax calibrate p m s).state.1.demands.amount? s.good p
        = some a := by
      rw [hmarket, demand_placeSector ha, hself, add_zero]
    rw [Run.eachWith_cons_of_none hs]
    refine .cons ?_ (ih ⟨?_, hown', hpairwise⟩ ?_ hrest)
    · have hend := demand_eachWith hrest hnext
      dsimp only at hend ⊢
      rw [hend, hothers, add_zero, hdemand, ha, Option.getD_some]
    · exact (List.nodup_cons.1 horder.nodup).2
    · intro t ht
      obtain ⟨b, hb⟩ := hplaced t ht
      exact ⟨_, hmarket ▸ demand_placeSector hb _⟩

end Run

section Placement

theorem demands_placeFinalDemands (ss : List (Sector n α)) (m : Market α) :
    (placeFinalDemands ss p m).demands
      = (ss.map fun s => (s.good, s.finalDemand[p])).foldl
        (fun t x => GoodTable.add t x.1 p x.2) m.demands := by
  unfold placeFinalDemands
  induction ss generalizing m with
  | nil => rfl
  | cons s rest ih => exact ih _

/-- Where nothing is demanded yet, sectors with different goods find their final demands. -/
theorem demand_placeFinalDemands {ss : List (Sector n α)} (h : (ss.map (·.good)).Nodup)
    {m : Market α} (hm : ∀ s ∈ ss, m.demands.amount? s.good p = none) :
    ∀ s ∈ ss, (placeFinalDemands ss p m).demands.amount? s.good p = some s.finalDemand[p] := by
  induction ss generalizing m with
  | nil => simp
  | cons s rest ih =>
    obtain ⟨hs, hrest⟩ := List.forall_mem_cons.1 hm
    obtain ⟨hnew, hnodup⟩ := List.nodup_cons.1 h
    rw [List.forall_mem_cons]
    constructor
    · -- The good was not on the market before, and no later sector adds to it.
      have hfirst : (GoodTable.add m.demands s.good p s.finalDemand[p]).amount? s.good p
          = some s.finalDemand[p] := by
        rw [GoodTable.amount?_add, if_pos ⟨rfl, rfl⟩, hs, Option.getD_none, zero_add]
      rw [demands_placeFinalDemands, List.map_cons, List.foldl_cons,
        amount?_foldl_add hfirst, addedTo_eq_zero, add_zero]
      rw [List.map_map]
      exact hnew
    · refine ih hnodup (m := { m with demands := _ }) ?_
      intro x hx
      have hother : x.good ≠ s.good := by
        intro hgood
        exact hnew (List.mem_map.2 ⟨x, hx, hgood⟩)
      rw [GoodTable.amount?_add, if_neg fun hsame => hother hsame.1]
      exact hrest x hx

end Placement

omit [ExactQuantity α] in
/-- Sectors that pass the checks have different names. -/
theorem nodup_of_checkSectors {id : RegionId} {seen : List SectorId} {ss : List (Sector n α)}
    (h : checkSectors id seen ss = .ok ()) :
    (ss.map (·.id)).Nodup ∧ ∀ s ∈ ss, s.id ∉ seen := by
  induction ss generalizing seen with
  | nil => exact ⟨.nil, by simp⟩
  | cons s rest ih =>
    rw [checkSectors] at h
    split at h
    · cases h
    · split at h
      · cases h
      · next hseen =>
        obtain ⟨hnodup, hrest⟩ := ih h
        refine ⟨List.nodup_cons.2 ⟨?_, hnodup⟩, List.forall_mem_cons.2 ⟨hseen, ?_⟩⟩
        · intro hmem
          obtain ⟨t, ht, hid⟩ := List.mem_map.1 hmem
          exact hrest t ht (hid ▸ List.mem_cons_self)
        · intro t ht hmem
          exact hrest t ht (List.mem_cons_of_mem _ hmem)

/-- The sectors of a new region are in order, if each produces the good of its name. -/
theorem inOrder_of_ofSectors {id : RegionId} {description : String} {kind : RegionKind}
    {sectors : List (Sector n α)} {r : Region n α}
    (h : ofSectors id description kind sectors = .ok r)
    (hgoods : ∀ s ∈ sectors, s.good.name = s.id.name) : Sector.InOrder r.sectors := by
  obtain ⟨⟨⟩, hcheck, h⟩ := bind_eq_ok.1 h
  have hnodup : (sectors.map (·.good)).Nodup := by
    have hmap : sectors.map (·.good) = (sectors.map (·.id)).map fun i => ⟨i.name⟩ := by
      rw [List.map_map]
      exact List.map_congr_left fun s hs => congrArg Id.mk (hgoods s hs)
    rw [hmap]
    refine (nodup_of_checkSectors hcheck).1.map fun i j hij => ?_
    exact congrArg Id.mk (Id.mk.inj hij)
  cases hordered : Sector.order sectors with
  | error e =>
    rw [hordered] at h
    cases h
  | ok ordered =>
    rw [hordered] at h
    cases h
    exact Sector.inOrder_of_order hnodup hordered

/-- What a sector is calculated for is the whole demand for its good: the final demand and what all
technologies of the region consume of it. In particular nothing was added to the demand after the
sector was calculated. -/
theorem calculate_balances {id : RegionId} {description : String} {kind : RegionKind}
    {sectors : List (Sector n α)} {r₀ r : Region n α}
    (hnew : ofSectors id description kind sectors = .ok r₀)
    (hgoods : ∀ s ∈ sectors, s.good.name = s.id.name)
    (hr : r.sectors.map (fun s => (s.good, s.fuels))
      = r₀.sectors.map fun s => (s.good, s.fuels))
    (p : Fin n) (calibrate : Bool) (h : (r.calculate p calibrate).failure = none) :
    let r' := (r.calculate p calibrate).state
    List.Forall₂ (fun s s' =>
      s'.good = s.good ∧
        r'.market.demands.amount? s.good p = some s'.results[p].demand ∧
        s'.results[p].demand = s.finalDemand[p] + fuelDemand s.good p r'.technologies)
      r.sectors r'.sectors := by
  have horder : Sector.InOrder r.sectors := by
    rw [Sector.inOrder_iff, hr, ← Sector.inOrder_iff]
    exact inOrder_of_ofSectors hnew hgoods
  obtain ⟨hrun, hmarket, hsectors⟩ := calculate_eq_ok h
  have hplaced := demand_placeFinalDemands (p := p) horder.nodup
    (m := r.market.clearPeriod p) fun s _ => by
      rw [Market.clearPeriod, GoodTable.amount?_clearPeriod, if_pos rfl]
  have hsettled := demand_settled horder (fun s hs => ⟨_, hplaced s hs⟩) hrun
  have hframed := (r.framed_calculate p calibrate).sectors
  dsimp only at hsettled ⊢
  rw [← hmarket, ← hsectors] at hsettled
  refine List.Forall₂.mp ?_ ((List.forall₂_and_left _ _).2 ⟨hplaced, hframed⟩) hsettled
  rintro s s' ⟨hfinal, hs⟩ hdemand
  -- Seen from the start, the demand at the end is the final demand and all that was added to it.
  have htotal := demand_eachWith hrun hfinal
  dsimp only at htotal
  rw [← hmarket, ← hsectors, hdemand] at htotal
  exact ⟨hs.good.symm, hdemand, Option.some.inj htotal⟩

/-- A sector with one technology. -/
def plantSector (good : String) (fuel : Option GoodId) (finalDemand : ℚ) : Sector 1 ℚ :=
  let plant : Subsector 1 ℚ :=
    { (Subsector.new 1 ⟨⟨"island"⟩, ⟨good⟩, ⟨"plants"⟩⟩ : Subsector 1 ℚ) with
      technologies := [Technology.new 1 ⟨"plant"⟩ fuel] }
  { (Sector.new 1 ⟨⟨"island"⟩, ⟨good⟩⟩ : Sector 1 ℚ) with
    subsectors := [plant]
    finalDemand := Series.const 1 finalDemand }

/-- A sector that consumes nothing. -/
def gasSector : Sector 1 ℚ := plantSector "gas" none 2

/-- A sector that consumes gas. -/
def powerSector : Sector 1 ℚ := plantSector "power" (some ⟨"gas"⟩) 6

/-- A region whose sectors were given in the wrong order. -/
def gasRegion : Region 1 ℚ where
  id := ⟨"island"⟩
  description := "An island"
  kind := .partialEquilibrium
  market := .empty
  sectors := [powerSector, gasSector]
  carbonTax := Series.const 1 0
  outputValue := Series.const 1 0

/-- The region with a price for its fuel. -/
def pricedGasRegion : Region 1 ℚ :=
  { gasRegion with market := { gasRegion.market with prices := GoodTable.put .empty ⟨"gas"⟩ 0 3 } }

theorem ofSectors_gasRegion :
    ofSectors ⟨"island"⟩ "An island" .partialEquilibrium [gasSector, powerSector]
      = .ok gasRegion := by
  cbv

theorem pricedGasRegion_succeeds : (pricedGasRegion.calculate 0 true).failure = none := by
  decide +kernel

theorem pricedGasRegion_balances :
    (ofSectors ⟨"island"⟩ "An island" .partialEquilibrium [gasSector, powerSector]
        = .ok gasRegion ∧
      (∀ s ∈ [gasSector, powerSector], s.good.name = s.id.name) ∧
      (pricedGasRegion.sectors.map fun s => (s.good, s.fuels))
        = gasRegion.sectors.map (fun s => (s.good, s.fuels)) ∧
      (pricedGasRegion.calculate 0 true).failure = none) ∧
      List.Forall₂ (fun s s' =>
        s'.good = s.good ∧
          (pricedGasRegion.calculate 0 true).state.market.demands.amount? s.good 0
            = some s'.results[(0 : Fin 1)].demand ∧
          s'.results[(0 : Fin 1)].demand = s.finalDemand[(0 : Fin 1)]
            + fuelDemand s.good 0 (pricedGasRegion.calculate 0 true).state.technologies)
        pricedGasRegion.sectors (pricedGasRegion.calculate 0 true).state.sectors := by
  have hgoods : ∀ s ∈ [gasSector, powerSector], s.good.name = s.id.name := by
    simp [gasSector, powerSector, plantSector, Sector.new]
  exact ⟨⟨ofSectors_gasRegion, hgoods, rfl, pricedGasRegion_succeeds⟩,
    calculate_balances (r := pricedGasRegion) ofSectors_gasRegion hgoods rfl 0 true
      pricedGasRegion_succeeds⟩

end Region

end NestedLogit
