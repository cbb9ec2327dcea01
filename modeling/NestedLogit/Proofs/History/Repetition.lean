import NestedLogit.Proofs.History.Region

/-!
# Calculating a region again

A calculation that came to its end can be repeated, and then leaves the region exactly as it found
it, down to the order in which goods stand on the market.

## Main statements

- `Region.clearPeriod_market_calculate` — all that a calculation changes on the market is forgotten
  with the period
- `Region.agree_market_calculate` — regions with the same inputs end with one and the same market,
  if they had the same one outside of the period
- `Region.calculate_calculate` — the calculation of a calculated region changes nothing
-/

namespace NestedLogit

variable {n : Nat} {α : Type} {p : Fin n}

namespace OrderedMap

variable {κ ν : Type}

theorem eq_of_entries {m m' : OrderedMap κ ν} (h : m.entries = m'.entries) : m = m' := by
  obtain ⟨entries, _⟩ := m
  obtain ⟨entries', _⟩ := m'
  cases h
  rfl

theorem filterKeys_filterKeys (m : OrderedMap κ ν) (keep : κ → Bool) :
    (m.filterKeys keep).filterKeys keep = m.filterKeys keep := by
  apply eq_of_entries
  show (m.entries.filter _).filter _ = m.entries.filter _
  rw [List.filter_filter]
  simp only [Bool.and_self]

theorem filterKeys_append (m : OrderedMap κ ν) {keep : κ → Bool} {k : κ} (hk : keep k = false)
    (v : ν) (h : k ∉ m.keys) : (m.append k v h).filterKeys keep = m.filterKeys keep := by
  apply eq_of_entries
  show (m.entries ++ [_]).filter _ = m.entries.filter _
  rw [List.filter_append, List.filter_cons_of_neg (by rw [hk]; decide), List.filter_nil,
    List.append_nil]

variable [DecidableEq κ]

theorem filterKeys_modify (m : OrderedMap κ ν) {keep : κ → Bool} {k : κ} (hk : keep k = false)
    (f : ν → ν) : (m.modify k f).filterKeys keep = m.filterKeys keep := by
  apply eq_of_entries
  show (m.entries.map _).filter _ = m.entries.filter _
  induction m.entries with
  | nil => rfl
  | cons e rest ih =>
    rw [List.map_cons, List.filter_cons, List.filter_cons, ih]
    by_cases he : keep e.1 = true
    · have hne : e.1 ≠ k := by
        rintro rfl
        rw [hk] at he
        cases he
      dsimp only
      rw [if_pos he, if_pos he, if_neg hne]
    · rw [if_neg he, if_neg he]

/-- What happens to a key that is not kept makes no difference to the others, nor to their order. -/
theorem filterKeys_upsert (m : OrderedMap κ ν) {keep : κ → Bool} {k : κ} (hk : keep k = false)
    (initial : ν) (f : ν → ν) : (m.upsert k initial f).filterKeys keep = m.filterKeys keep := by
  unfold upsert
  split
  · exact m.filterKeys_modify hk f
  · exact m.filterKeys_append hk _ _

end OrderedMap

namespace GoodTable

theorem clearPeriod_clearPeriod (t : GoodTable α) (period : Nat) :
    (t.clearPeriod period).clearPeriod period = t.clearPeriod period :=
  t.filterKeys_filterKeys _

variable [Quantity α]

theorem clearPeriod_add (t : GoodTable α) (good : GoodId) (period : Nat) (amount : α) :
    (t.add good period amount).clearPeriod period = t.clearPeriod period :=
  t.filterKeys_upsert (by simp) _ _

theorem clearPeriod_foldl_add (inputs : List (GoodId × α)) (period : Nat) (t : GoodTable α) :
    clearPeriod (inputs.foldl (fun t f => t.add f.1 period f.2) t) period
      = t.clearPeriod period := by
  induction inputs generalizing t with
  | nil => rfl
  | cons f rest ih => rw [List.foldl_cons, ih, clearPeriod_add]

end GoodTable

/-- Markets that are the same, down to the order of goods, once a period is forgotten. -/
def Market.SameCleared (period : Nat) (m m' : Market α) : Prop :=
  m.clearPeriod period = m'.clearPeriod period

namespace Region

theorem Same.eq {r r' : Region n α} (h : r.Same r') (hm : r.market = r'.market) : r = r' := by
  obtain ⟨id, description, kind, market, sectors, carbonTax, outputValue⟩ := r
  obtain ⟨rfl, rfl, rfl, rfl, rfl, rfl, -⟩ := h
  obtain rfl := hm
  rfl

variable [Quantity α]

theorem sameCleared_placeFinalDemands (sectors : List (Sector n α)) (m : Market α) :
    m.SameCleared p (placeFinalDemands sectors p m) := by
  unfold placeFinalDemands
  induction sectors generalizing m with
  | nil => rfl
  | cons s rest ih =>
    rw [List.foldl_cons]
    refine Eq.trans ?_ (ih _)
    simp only [Market.clearPeriod, GoodTable.clearPeriod_add]

theorem sameCleared_placeSector (s : Sector n α) (m : Market α) :
    m.SameCleared p (placeSector s p m) := by
  simp only [Market.SameCleared, placeSector, Market.clearPeriod, GoodTable.clearPeriod_add,
    GoodTable.clearPeriod_foldl_add]

theorem market_calculateSector (id : RegionId) (tax : α) (calibrate : Bool) (m : Market α)
    (s : Sector n α) :
    (calculateSector id tax calibrate p m s).state.1 =
      if (calculateSector id tax calibrate p m s).failure.isNone then
        placeSector (calculateSector id tax calibrate p m s).state.2 p m
      else m := rfl

theorem sameCleared_calculateSector (id : RegionId) (tax : α) (calibrate : Bool) (m : Market α)
    (s : Sector n α) : m.SameCleared p (calculateSector id tax calibrate p m s).state.1 := by
  rw [market_calculateSector]
  split
  · exact sameCleared_placeSector _ m
  · rfl

/-- What a calculation places on the market belongs to the period. -/
theorem clearPeriod_market_calculate (r : Region n α) (p : Fin n) (calibrate : Bool) :
    (r.calculate p calibrate).state.market.clearPeriod p = r.market.clearPeriod p := by
  have hcleared : r.market.SameCleared p (r.market.clearPeriod p) := by
    simp only [Market.SameCleared, Market.clearPeriod, GoodTable.clearPeriod_clearPeriod]
  have hplaced := hcleared.trans (sameCleared_placeFinalDemands r.sectors _)
  have hrun := hplaced.trans (Run.rel_state_eachWith (R := Market.SameCleared p) (fun _ => rfl)
    Eq.trans (sameCleared_calculateSector r.id r.carbonTax[p] calibrate) _ r.sectors)
  -- The value of output, which is calculated last, is not on the market.
  have hmarket : r.market.SameCleared p (r.calculate p calibrate).state.market := by
    refine Run.rel_state_andThen (R := fun x y : Region n α => x.market.SameCleared p y.market)
      Eq.trans hrun ?_
    intro x
    split <;> rfl
  exact hmarket.symm

theorem placeFinalDemands_congr {ss ss' : List (Sector n α)}
    (h : List.Forall₂ Sector.SameInputs ss ss') (m : Market α) :
    placeFinalDemands ss p m = placeFinalDemands ss' p m := by
  unfold placeFinalDemands
  induction h generalizing m with
  | nil => rfl
  | cons hs _ ih => rw [List.foldl_cons, List.foldl_cons, hs.good, hs.finalDemand, ih]

theorem placeSector_congr {s s' : Sector n α} (h : s.SameResults p s') (m : Market α) :
    placeSector s p m = placeSector s' p m := by
  have hresults : s.results[p] = s'.results[p] := h.results
  rw [placeSector, placeSector, h.fuelInputs, h.good, hresults]

/-- One sector leaves the same market if it finds the same. -/
theorem agree_market_calculateSector (id : RegionId) (tax : α) (calibrate : Bool)
    {m m' : Market α} (hm : m = m') {s s' : Sector n α} (hs : s.SameInputs s') :
    Run.Agree (fun y y' => y.1 = y'.1 ∧ y.2.SameResults p y'.2)
      (calculateSector id tax calibrate p m s) (calculateSector id tax calibrate p m' s') := by
  subst hm
  have hm : m.SameIn p m := ⟨.refl _ _, .refl _ _, .refl _ _⟩
  have hagree := agree_calculateSector id tax calibrate hm hs
  refine ⟨hagree.log, hagree.failure, fun hn => ?_⟩
  obtain ⟨-, hresults⟩ := hagree.state hn
  refine ⟨?_, hresults⟩
  rw [market_calculateSector, market_calculateSector, ← hagree.failure,
    placeSector_congr hresults]

/-- Regions with the same inputs end with one and the same market, if they had the same one outside
of the period. -/
theorem agree_market_calculate {r r' : Region n α} (h : r.SameInputs r')
    (hm : r.market.SameCleared p r'.market) (calibrate : Bool) :
    Run.Agree (fun x x' => x.market = x'.market) (r.calculate p calibrate)
      (r'.calculate p calibrate) := by
  have hmarket : placeFinalDemands r.sectors p (r.market.clearPeriod p) =
      placeFinalDemands r'.sectors p (r'.market.clearPeriod p) := by
    rw [placeFinalDemands_congr h.sectors, hm]
  have hrun : Run.Agree (fun y y' => y.1 = y'.1 ∧ List.Forall₂ (Sector.SameResults p) y.2 y'.2)
      (Run.eachWith (calculateSector r.id r.carbonTax[p] calibrate p) _ r.sectors)
      (Run.eachWith (calculateSector r.id r.carbonTax[p] calibrate p) _ r'.sectors) :=
    Run.Agree.eachWith (S := Eq)
      (fun hm hs => agree_market_calculateSector r.id r.carbonTax[p] calibrate hm hs) hmarket
      h.sectors
  unfold calculate
  dsimp only
  rw [← h.id, ← h.carbonTax]
  refine (hrun.map (S := fun x x' => x.kind = x'.kind ∧ x.market = x'.market)
    fun hx => ⟨h.kind, hx.1⟩).andThen ?_
  rintro x x' ⟨hkind, hmarket⟩
  rw [← hkind]
  split
  · exact .ok hmarket
  · exact .ok hmarket

/-- A region that was calculated is calculated again without an error, and stays what it is. -/
theorem calculate_calculate {r : Region n α} {calibrate : Bool}
    (h : (r.calculate p calibrate).failure = none) :
    ((r.calculate p calibrate).state.calculate p calibrate).failure = none ∧
      ((r.calculate p calibrate).state.calculate p calibrate).state
        = (r.calculate p calibrate).state := by
  -- The calculation leaves its own inputs alone and can thus be compared with its repetition.
  have hinputs := (r.framed_calculate p calibrate).sameInputs
  have hagree := agree_calculate hinputs p calibrate
  have hmarket := agree_market_calculate hinputs
    (r.clearPeriod_market_calculate p calibrate).symm calibrate
  have hsame := same_of_sameResults (hagree.state h)
    (framed_calculate (r.calculate p calibrate).state p calibrate)
  exact ⟨hagree.failure.symm.trans h, (hsame.eq (hmarket.state h)).symm⟩

end Region

end NestedLogit
