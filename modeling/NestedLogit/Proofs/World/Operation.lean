import Mathlib.Data.List.Forall2
import NestedLogit.Proofs.Except
import NestedLogit.Proofs.World.Calculation

/-!
# What can be done to a world

A world goes through a sequence of operations: the calculations, preparations and completions of
periods that a solver asks for, and the settings it makes between them. An operation may be refused
or stop midway; the next one goes on from the state that it leaves. Each operation treats the
regions one by one, so that what holds of every region after an operation follows from the few ways
in which a region can be treated.

## Main definitions

- `World.Operation` — what can be done to a world
- `World.Operation.perform`, `World.performAll` — one operation, and one after another
- `World.Operation.onRegion` — what an operation does to the region at a position
- `World.Fresh` — a world in which nothing was calculated yet

## Main statements

- `World.regions_perform` — an operation treats the regions one by one
- `World.Operation.onRegion_cases` — the ways in which a region can be treated
- `World.performAll_induction`, `World.rel_performAll` — from one operation to a whole run
- `Region.fresh_ofSectors`, `World.fresh_ofRegions` — what is built is fresh

## Design notes

Periods are given by their numbers and need not exist; a region that is named need not exist either.
-/

namespace NestedLogit.World

variable {n : Nat} {α : Type}

/-- What can be done to a world once it is built. -/
inductive Operation (n : Nat) (α : Type) where
  /-- Forgets the calculated market quantities of a period. -/
  | prepare (period : Nat)
  /-- Calculates a period for some regions, or for all of them if none is named. -/
  | calculate (period : Nat) (ids : List RegionId)
  /-- Finishes a period, which carries its recalibrated share weights forward. -/
  | finish (period : Nat)
  /-- Turns calibration on or off. -/
  | setCalibration (on : Bool)
  /-- Imposes the tax of a policy. -/
  | setTax (policy : Policy n α)
  /-- Sets the price of a good in a region. -/
  | setMarketPrice (region : RegionId) (good : GoodId) (period : Nat) (price : α)
  /-- Runs the climate model up to a period. -/
  | runClimate (period : Nat)

variable [Quantity α]

/-- Performs an operation. -/
def Operation.perform : Operation n α → World n α → Run α (World n α)
  | .prepare period, w => w.prepare period
  | .calculate period ids, w => w.calculate period ids
  | .finish period, w => w.finish period
  | .setCalibration on, w => .ok (w.setCalibration on)
  | .setTax policy, w => .ok (w.setTax policy)
  | .setMarketPrice region good period price, w => w.setMarketPrice region good period price
  | .runClimate period, w => w.runClimate period

/-- Performs operations one after another, whether or not they come to their ends. -/
def performAll (w : World n α) : List (Operation n α) → World n α
  | [] => w
  | o :: ops => performAll (o.perform w).state ops

theorem performAll_append (w : World n α) (ops ops' : List (Operation n α)) :
    w.performAll (ops ++ ops') = (w.performAll ops).performAll ops' := by
  induction ops generalizing w with
  | nil => rfl
  | cons o ops ih => exact ih _

/-- What every operation keeps, a whole run keeps. -/
theorem performAll_induction {P : World n α → Prop}
    (hstep : ∀ (o : Operation n α) w, P w → P (o.perform w).state) {w : World n α} (hw : P w)
    (ops : List (Operation n α)) : P (w.performAll ops) := by
  induction ops generalizing w with
  | nil => exact hw
  | cons o ops ih => exact ih (hstep o w hw)

/-- What every operation leaves alone, a whole run leaves alone. -/
theorem rel_performAll {R : World n α → World n α → Prop} (refl : ∀ w, R w w)
    (trans : ∀ {w w' w''}, R w w' → R w' w'' → R w w'')
    (hstep : ∀ (o : Operation n α) w, R w (o.perform w).state) (w : World n α)
    (ops : List (Operation n α)) : R w (w.performAll ops) :=
  performAll_induction (P := R w) (fun o _ h => trans h (hstep o _)) (refl w) ops

section Regions

/-- What an operation does to the region at a position. -/
def Operation.onRegion (w : World n α) (j : Nat) (r : Region n α) :
    Operation n α → Region n α
  | .prepare period =>
    match w.calendar.period? period with
    | some p => r.clearPeriod p
    | none => r
  | .calculate period ids =>
    match w.calendar.period? period with
    | some p => if w.reaches p ids j then (r.calculate p w.calibrate).state else r
    | none => r
  | .finish period =>
    match w.calendar.period? period with
    | some p => r.carryForward w.calendar p
    | none => r
  | .setCalibration _ => r
  | .setTax policy => if policy.covers r.id then { r with carbonTax := policy.tax } else r
  | .setMarketPrice region good period price =>
    match w.calendar.period? period with
    | some p =>
      if Quantity.isFinite price && (w.region? region).isSome && r.id = region then
        { r with market := { r.market with prices := GoodTable.put r.market.prices good p price } }
      else r
    | none => r
  | .runClimate _ => r

omit [Quantity α] in
theorem regions_inPeriod {w : World n α} {period : Nat} {step : Fin n → Run α (World n α)}
    {f : Fin n → Nat → Region n α → Region n α}
    (hstep : ∀ p, (step p).state.regions = w.regions.mapIdx (f p)) :
    (w.inPeriod period step).state.regions = w.regions.mapIdx fun j r =>
      match w.calendar.period? period with
      | some p => f p j r
      | none => r := by
  cases h : w.calendar.period? period with
  | some p =>
    unfold inPeriod Calendar.checkPeriod
    rw [h]
    exact hstep p
  | none =>
    rw [state_inPeriod_of_none h]
    exact (List.mapIdx_eq_iff.2 fun j => by simp).symm

/-- An operation treats the regions one by one. -/
theorem regions_perform (w : World n α) (o : Operation n α) :
    (o.perform w).state.regions = w.regions.mapIdx fun j r => o.onRegion w j r := by
  have hsame : w.regions = w.regions.mapIdx fun _ r => r :=
    (List.mapIdx_eq_iff.2 fun j => by simp).symm
  have hmap : ∀ f : Region n α → Region n α, w.regions.map f = w.regions.mapIdx fun _ r => f r :=
    fun f => (List.mapIdx_eq_iff.2 fun j => by simp).symm
  cases o with
  | prepare period => exact regions_inPeriod fun p => hmap _
  | calculate period ids =>
    -- Where a calculation stops midway is a matter of which regions it reaches.
    refine regions_inPeriod fun p => ?_
    have hregions := w.regions_calculate_eq p ids
    unfold World.calculate at hregions
    rwa [inPeriod_val] at hregions
  | finish period => exact regions_inPeriod fun p => hmap _
  | setCalibration on => exact hsame
  | setTax policy => exact hmap _
  | setMarketPrice region good period price =>
    refine regions_inPeriod fun p => ?_
    cases hfinite : Quantity.isFinite price with
    | false => simpa [Run.fail] using hsame
    | true =>
      cases hregion : w.region? region with
      | none => simpa [Run.fail] using hsame
      | some r => simpa [Run.ok, modifyRegion] using hmap _
  | runClimate period =>
    refine (regions_inPeriod (f := fun _ _ r => r) fun p => ?_).trans ?_
    · split <;> exact hsame
    · refine congrArg (List.mapIdx · w.regions) (funext fun j => funext fun r => ?_)
      split <;> rfl

/-- The ways in which an operation can treat a region: it leaves the region alone, clears a period,
calculates or finishes the period that it is for, or changes a tax or a price. -/
theorem Operation.onRegion_cases {P : Region n α → Prop} {w : World n α} {j : Nat}
    {r : Region n α} {o : Operation n α} (rest : P r) (clear : ∀ p, P (r.clearPeriod p))
    (calculate : ∀ (p : Fin n) ids, o = .calculate p ids → w.reaches p ids j →
      P (r.calculate p w.calibrate).state)
    (finish : ∀ p : Fin n, o = .finish p → P (r.carryForward w.calendar p))
    (tax : ∀ carbonTax, P { r with carbonTax })
    (price : ∀ prices, P { r with market := { r.market with prices } }) : P (o.onRegion w j r) := by
  cases o with
  | prepare period =>
    rw [onRegion]
    split
    · exact clear _
    · exact rest
  | calculate period ids =>
    rw [onRegion]
    split
    · next p h =>
      split
      · next hreaches => exact calculate p ids (by rw [Calendar.eq_of_period? h]) hreaches
      · exact rest
    · exact rest
  | finish period =>
    rw [onRegion]
    split
    · next p h => exact finish p (by rw [Calendar.eq_of_period? h])
    · exact rest
  | setCalibration on => exact rest
  | setTax policy =>
    rw [onRegion]
    split
    · exact tax _
    · exact rest
  | setMarketPrice region good period amount =>
    rw [onRegion]
    split
    · split
      · exact price _
      · exact rest
    · exact rest
  | runClimate period => exact rest

/-- What holds of a region however an operation treats it holds of all regions. -/
theorem forall₂_perform {R : Region n α → Region n α → Prop} {w : World n α} {o : Operation n α}
    (h : ∀ j (r : Region n α), R r (o.onRegion w j r)) :
    List.Forall₂ R w.regions (o.perform w).state.regions := by
  rw [regions_perform, List.forall₂_iff_get]
  refine ⟨List.length_mapIdx.symm, fun j hj hj' => ?_⟩
  simpa using h j w.regions[j]

end Regions

omit [Quantity α] in
/-- What holds of a world and of what a step leaves holds whether or not the period exists. -/
theorem inPeriod_induction {P : World n α → Prop} {w : World n α} {period : Nat}
    {step : Fin n → Run α (World n α)} (hw : P w) (hstep : ∀ p, P (step p).state) :
    P (w.inPeriod period step).state := by
  unfold inPeriod
  split
  · exact hstep _
  · exact hw

end NestedLogit.World

namespace NestedLogit

variable {n : Nat} {α : Type} [Quantity α]

/-- A technology that was not calculated yet. -/
def Technology.Fresh (t : Technology n α) : Prop :=
  t.results = Series.const n .initial

/-- A subsector that was not calculated yet, and neither were its technologies. -/
structure Subsector.Fresh (s : Subsector n α) : Prop where
  results : s.results = Series.const n .initial
  technologies : ∀ t ∈ s.technologies, t.Fresh

/-- A sector that was not calculated yet, and neither were its subsectors. -/
structure Sector.Fresh (s : Sector n α) : Prop where
  results : s.results = Series.const n .initial
  subsectors : ∀ x ∈ s.subsectors, x.Fresh

/-- A region that was not calculated yet, and neither were its sectors. -/
structure Region.Fresh (r : Region n α) : Prop where
  supplies : r.market.supplies = .empty
  demands : r.market.demands = .empty
  sectors : ∀ s ∈ r.sectors, s.Fresh

/-- A world in which nothing was calculated yet. -/
def World.Fresh (w : World n α) : Prop :=
  ∀ r ∈ w.regions, r.Fresh

/-- A region that is built of fresh sectors is fresh. -/
theorem Region.fresh_ofSectors {id : RegionId} {description : String} {kind : RegionKind}
    {sectors : List (Sector n α)} {r : Region n α} (hsectors : ∀ s ∈ sectors, s.Fresh)
    (h : ofSectors id description kind sectors = .ok r) : r.Fresh := by
  obtain ⟨⟨⟩, -, h⟩ := bind_eq_ok.1 h
  unfold Sector.order at h
  split at h
  · next ordered hordered =>
    cases h
    split at hordered
    · cases hordered
      refine ⟨rfl, rfl, List.forall_mem_map.2 fun i _ => ?_⟩
      exact hsectors _ (List.get_mem _ _)
    · cases hordered
  · cases h

/-- A world of fresh regions is fresh. -/
theorem World.fresh_ofRegions {calendar : Calendar n} {regions : List (Region n α)}
    {w : World n α} (hregions : ∀ r ∈ regions, r.Fresh)
    (h : ofRegions calendar regions = .ok w) : w.Fresh := by
  obtain ⟨⟨⟩, -, h⟩ := bind_eq_ok.1 h
  cases h
  exact hregions

end NestedLogit
