import NestedLogit.Proofs.Market
import NestedLogit.Proofs.Run
import NestedLogit.Proofs.Sector.Sharing
import NestedLogit.Region

/-!
# What a calculation leaves alone

The calculation of a period changes what is calculated for that period and nothing else. It adds no
member to the tree and loses none, and this holds however the calculation ends.

## Main definitions

- `Region.Framed` — no difference outside of what is calculated for a period

## Main statements

- `Subsector.framed_setOutput` — producing an output
- `Sector.framed_calculate` — calculating a sector
- `Region.framed_calculate` — calculating a region
-/

namespace NestedLogit

variable {n : Nat} {α : Type} {p : Fin n}

/-- Handing values to the technologies that are not fixed leaves alone what handing one to any of
them does. -/
theorem forall₂_overVariable_self {β : Type} {R : Technology n α → Technology n α → Prop}
    (refl : ∀ t, R t t) {f : Technology n α → β → Technology n α} (hf : ∀ t b, R t (f t b))
    (ts : List (Technology n α)) (bs : List β) : List.Forall₂ R ts (overVariable p f ts bs) := by
  induction ts generalizing bs with
  | nil =>
    cases bs <;> exact .nil
  | cons t ts ih =>
    cases bs with
    | nil => exact List.forall₂_same.2 fun t _ => refl t
    | cons b bs =>
      rw [overVariable]
      split
      · exact .cons (refl t) (ih _)
      · exact .cons (hf t b) (ih _)

namespace Subsector

theorem framed_applyCarbonTax (s : Subsector n α) (tax : α) :
    s.Framed p (s.applyCarbonTax p tax) :=
  s.framed_mapTechnologies fun t => t.framed_update _

variable [Quantity α]

theorem framed_calculateCosts (s : Subsector n α) (prices : GoodTable α) :
    s.Framed p (s.calculateCosts p prices).state := by
  refine (s.framed_update _).trans (framed_withTechnologies _ ?_)
  refine Run.forall₂_state_each Technology.Framed.refl (fun t => ?_) _
  split
  · exact t.framed_update _
  · split
    · exact t.framed_update _
    · exact .refl t

theorem framed_shareTechnologies (s : Subsector n α) :
    s.Framed p (s.shareTechnologies p).state := by
  unfold shareTechnologies
  split
  · exact .refl s
  · refine s.framed_withTechnologies (forall₂_trans Technology.Framed.trans
      (forall₂_map_self (fun t => ?_) _)
      (forall₂_overVariable_self Technology.Framed.refl (fun t _ => t.framed_update _) _ _))
    exact (t.framed_update _).trans (Technology.framed_update _ _)

theorem framed_recalibrateTechnologies (s : Subsector n α) (variableOutput : α) :
    s.Framed p (s.recalibrateTechnologies p variableOutput).state := by
  unfold recalibrateTechnologies
  dsimp only
  split
  · exact .refl s
  · split
    · exact .refl s
    · refine s.framed_withTechnologies
        (forall₂_overVariable_self Technology.Framed.refl (fun t x => ?_) _ _)
      split
      · exact (t.framed_update _).trans (Technology.framed_update _ _)
      · exact t.framed_update _

theorem framed_produce (s : Subsector n α) (variableOutput : α) :
    s.Framed p (s.produce p variableOutput) := by
  refine s.framed_mapTechnologies fun t => ?_
  split <;> exact t.framed_update _

theorem framed_takeStock (s : Subsector n α) (output : α) :
    s.Framed p (s.takeStock p output) := by
  have hsums : ∀ f, s.Framed p ((s.update p f).calculateEmissions p) := fun f =>
    (s.framed_update f).trans (framed_update _ _)
  unfold takeStock
  dsimp only
  split
  · exact ((hsums _).trans (framed_update _ _)).trans
      (framed_mapTechnologies _ fun t => t.framed_update _)
  · exact hsums _

theorem framed_serve (s : Subsector n α) (output : α) (calibrate : Bool) :
    s.Framed p (s.serve p output calibrate).state := by
  refine Run.rel_state_andThen Framed.trans ?_ fun x =>
    (x.framed_produce _).trans (framed_takeStock _ _)
  split
  · exact s.framed_recalibrateTechnologies _
  · exact .refl s

theorem framed_fitFixedSupply (s : Subsector n α) (output : α) (calibrate : Bool) :
    s.Framed p (s.fitFixedSupply p output calibrate) := by
  unfold fitFixedSupply
  split
  · exact s.framed_update _
  · exact .refl s

/-- Producing an output changes the results of the period only. -/
theorem framed_setOutput (s : Subsector n α) (output : α) (calibrate : Bool) :
    s.Framed p (s.setOutput p output calibrate).state := by
  unfold setOutput
  split
  · exact .refl s
  · have hfit := s.framed_fitFixedSupply (p := p) output calibrate
    dsimp only
    split
    · exact hfit.trans ((framed_update _ _).trans (framed_serve _ _ _))
    · split
      · exact hfit.trans (framed_serve _ _ _)
      · exact hfit

end Subsector

namespace Sector

theorem framed_applyCarbonTax (s : Sector n α) (tax : α) : s.Framed p (s.applyCarbonTax p tax) :=
  s.framed_mapSubsectors fun x => x.framed_applyCarbonTax tax

variable [Quantity α]

theorem framed_prepareSubsectors (s : Sector n α) (prices : GoodTable α) :
    s.Framed p (s.prepareSubsectors p prices).state := by
  refine s.framed_withSubsectors (Run.forall₂_state_each Subsector.Framed.refl (fun x => ?_) _)
  exact Run.rel_state_andThen Subsector.Framed.trans
    (Run.rel_state_andThen Subsector.Framed.trans (x.framed_calculateCosts prices)
      fun x => x.framed_shareTechnologies)
    fun x => x.framed_update _

theorem framed_shareSubsectors (s : Sector n α) (demand : α) (calibrate : Bool) :
    s.Framed p (s.shareSubsectors p demand calibrate).state := by
  have hframed := s.framed_fitted (p := p) demand calibrate
  obtain ⟨⟨fit, log⟩, hfit⟩ : ∃ x, s.fitted p demand calibrate = x := ⟨_, rfl⟩
  rw [hfit] at hframed
  cases ho : (allocateAims (fit.aims p demand calibrate)).outcome with
  | error e =>
    rw [shareSubsectors_of_error hfit ho]
    exact hframed
  | ok a =>
    rw [shareSubsectors_of_ok hfit ho]
    refine hframed.trans (fit.framed_withSubsectors (framed_awardEach ?_))
    rw [length_decided ho, length_aims]

theorem framed_produce (s : Sector n α) (output : α) (calibrate : Bool) :
    s.Framed p (s.produce p output calibrate).state :=
  s.framed_withSubsectors (Run.forall₂_state_each Subsector.Framed.refl
    (fun x => x.framed_setOutput _ calibrate) _)

/-- Calculating a sector changes the results of the period only, however the calculation ends. -/
theorem framed_calculate (s : Sector n α) (demand : α) (prices : GoodTable α) (calibrate : Bool) :
    s.Framed p (s.calculate p demand prices calibrate).state := by
  have hdemand : s.Framed p (s.setDemand p demand) := s.framed_update _
  refine hdemand.trans ?_
  exact Run.rel_state_andThen Framed.trans
    (Run.rel_state_andThen Framed.trans
      (Run.rel_state_andThen Framed.trans (framed_prepareSubsectors _ prices)
        fun x => x.framed_shareSubsectors demand calibrate)
      fun x => x.framed_produce _ calibrate)
    fun x => x.framed_update _

end Sector

/-- Regions that differ in nothing but what is calculated for a period. The value of output belongs
to it in a general equilibrium only. -/
structure Region.Framed (p : Fin n) (r r' : Region n α) : Prop where
  id : r.id = r'.id
  description : r.description = r'.description
  kind : r.kind = r'.kind
  carbonTax : r.carbonTax = r'.carbonTax
  market : r.market.Framed p r'.market
  sectors : List.Forall₂ (Sector.Framed p) r.sectors r'.sectors
  outputValue : Series.Elsewhere p r.outputValue r'.outputValue
  outputValue_of_partial : r.kind ≠ .generalEquilibrium → r.outputValue = r'.outputValue

namespace Region

theorem Framed.trans {r r' r'' : Region n α} (h : r.Framed p r') (h' : r'.Framed p r'') :
    r.Framed p r'' :=
  ⟨h.id.trans h'.id, h.description.trans h'.description, h.kind.trans h'.kind,
    h.carbonTax.trans h'.carbonTax, h.market.trans h'.market,
    forall₂_trans Sector.Framed.trans h.sectors h'.sectors, h.outputValue.trans h'.outputValue,
    fun hk => (h.outputValue_of_partial hk).trans (h'.outputValue_of_partial (h.kind ▸ hk))⟩

variable [Quantity α]

theorem framed_placeFinalDemands (sectors : List (Sector n α)) (m : Market α) :
    m.Framed p (placeFinalDemands sectors p m) := by
  unfold placeFinalDemands
  induction sectors generalizing m with
  | nil => exact .refl _ m
  | cons s rest ih =>
    rw [List.foldl_cons]
    refine Market.Framed.trans ?_ (ih _)
    exact ⟨rfl, fun _ _ => .refl _ _, fun _ hq => GoodTable.sameIn_add_of_ne hq _ _ _⟩

/-- Placing amounts of goods in a period changes no other period. -/
theorem sameIn_foldl_add {q : Nat} (hq : q ≠ p) (inputs : List (GoodId × α)) (t : GoodTable α) :
    t.SameIn q (inputs.foldl (fun t f => GoodTable.add t f.1 p f.2) t) := by
  induction inputs generalizing t with
  | nil => exact .refl _ t
  | cons f rest ih => exact (GoodTable.sameIn_add_of_ne hq t f.1 f.2).trans (ih _)

theorem framed_placeSector (s : Sector n α) (m : Market α) : m.Framed p (placeSector s p m) :=
  ⟨rfl, fun _ hq => GoodTable.sameIn_add_of_ne hq _ _ _, fun _ hq => sameIn_foldl_add hq _ _⟩

theorem framed_calculateSector (id : RegionId) (tax : α) (calibrate : Bool) (m : Market α)
    (s : Sector n α) :
    m.Framed p (calculateSector id tax calibrate p m s).state.1 ∧
      s.Framed p (calculateSector id tax calibrate p m s).state.2 := by
  constructor
  · unfold calculateSector
    dsimp only [Run.state_map]
    split
    · exact framed_placeSector _ m
    · exact .refl _ m
  · exact (s.framed_applyCarbonTax tax).trans (Sector.framed_calculate _ _ _ calibrate)

/-- Calculating a region changes the results of the period only, however the calculation ends. -/
theorem framed_calculate (r : Region n α) (p : Fin n) (calibrate : Bool) :
    r.Framed p (r.calculate p calibrate).state := by
  -- The market is cleared, takes up the final demands, and is handed on from sector to sector.
  have hmarket := (Market.framed_clearPeriod p r.market).trans
    (framed_placeFinalDemands r.sectors (r.market.clearPeriod p))
  have hmarket := hmarket.trans (Run.rel_state_eachWith (Market.Framed.refl p) Market.Framed.trans
    (fun m s => (framed_calculateSector r.id r.carbonTax[p] calibrate m s).1) _ r.sectors)
  have hsectors := Run.forall₂_state_eachWith Sector.Framed.refl
    (fun m s => (framed_calculateSector (p := p) r.id r.carbonTax[p] calibrate m s).2)
    (placeFinalDemands r.sectors p (r.market.clearPeriod p)) r.sectors
  refine Run.rel_state_andThen Framed.trans
    ⟨rfl, rfl, rfl, rfl, hmarket, hsectors, .refl _, fun _ => rfl⟩ fun x => ?_
  have hall := List.forall₂_same.2 fun s (_ : s ∈ x.sectors) => Sector.Framed.refl (p := p) s
  split
  · next hkind =>
    exact ⟨rfl, rfl, rfl, rfl, .refl _ _, hall, Series.elsewhere_modify _ _,
      fun hk => absurd hkind hk⟩
  · exact ⟨rfl, rfl, rfl, rfl, .refl _ _, hall, .refl _, fun _ => rfl⟩

end Region

end NestedLogit
