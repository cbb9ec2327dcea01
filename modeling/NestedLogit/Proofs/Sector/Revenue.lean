import NestedLogit.Proofs.Sector.Course

/-!
# What a sector earns and what its output costs

The price of a subsector is the average cost of what its technologies produce, and the price of a
sector is the average price of what its subsectors produce. Both averages are weighted by outputs in
the end, and outputs are distributed without loss, so that a sector sells its output at cost.

## Main definitions

- `totalCost` — what the outputs of technologies cost
- `SoldAtCost` — an output that sells for what it costs
- `PricedBetween` — a price between the costs of those who produce

## Main statements

- `Subsector.soldAtCost_setOutput` — a subsector sells its output at cost
- `Sector.soldAtCost_calculate` — and so does a sector
- `SoldAtCost.pricedBetween` — nothing is sold below the smallest or above the largest cost
-/

namespace NestedLogit

variable {n : Nat} {α : Type} {p : Fin n} [ExactQuantity α]

/-- What the outputs of technologies cost in a period. -/
def totalCost (p : Fin n) (ts : List (Technology n α)) : α :=
  (ts.map fun t => t.results[p].cost * t.results[p].output).sum

/-- The technologies that produce something in a period. -/
def producers (p : Fin n) (ts : List (Technology n α)) : List (Technology n α) :=
  ts.filter fun t => 0 < t.results[p].output

/-- An output that technologies produce together, at a price that brings in what it costs. -/
structure SoldAtCost (p : Fin n) (output price : α) (ts : List (Technology n α)) : Prop where
  nonneg : ∀ t ∈ ts, 0 ≤ t.results[p].output
  sum_eq : (ts.map fun t => t.results[p].output).sum = output
  revenue : price * output = totalCost p ts

/-- A price between the smallest and the largest cost of those who produce something. -/
def PricedBetween (p : Fin n) (price : α) (ts : List (Technology n α)) : Prop :=
  ∃ cheapest ∈ producers p ts, ∃ dearest ∈ producers p ts,
    (∀ t ∈ producers p ts, cheapest.results[p].cost ≤ t.results[p].cost ∧
      t.results[p].cost ≤ dearest.results[p].cost) ∧
    cheapest.results[p].cost ≤ price ∧ price ≤ dearest.results[p].cost

/-- Where nothing is produced, nothing costs anything. -/
theorem totalCost_eq_zero {ts : List (Technology n α)}
    (hnonneg : ∀ t ∈ ts, 0 ≤ t.results[p].output)
    (hsum : (ts.map fun t => t.results[p].output).sum = 0) : totalCost p ts = 0 := by
  refine List.sum_eq_zero (List.forall_mem_map.2 fun t ht => ?_)
  have hzero := List.all_zero_of_le_zero_le_of_sum_eq_zero (List.forall_mem_map.2 hnonneg) hsum
    (List.mem_map_of_mem ht)
  rw [hzero, mul_zero]

namespace SoldAtCost

variable {ts : List (Technology n α)} {output price : α}

theorem exists_producer (h : SoldAtCost p output price ts) (hpos : 0 < output) :
    producers p ts ≠ [] := by
  intro hnone
  have hall : ∀ t ∈ ts, ¬0 < t.results[p].output := by
    simpa [producers, List.filter_eq_nil_iff] using hnone
  have hzero : (ts.map fun t => t.results[p].output).sum = 0 :=
    List.sum_eq_zero (List.forall_mem_map.2 fun t ht =>
      le_antisymm (not_lt.1 (hall t ht)) (h.nonneg t ht))
  rw [h.sum_eq] at hzero
  exact hpos.ne' hzero

/-- Only those who produce count when outputs are valued. -/
theorem sum_mul_output_le (h : SoldAtCost p output price ts) {f g : Technology n α → α}
    (hfg : ∀ t ∈ producers p ts, f t ≤ g t) :
    (ts.map fun t => f t * t.results[p].output).sum
      ≤ (ts.map fun t => g t * t.results[p].output).sum := by
  refine List.sum_le_sum fun t ht => ?_
  rcases (h.nonneg t ht).eq_or_lt with hzero | hproduces
  · rw [← hzero, mul_zero, mul_zero]
  · exact mul_le_mul_of_nonneg_right (hfg t (List.mem_filter.2 ⟨ht, by simpa using hproduces⟩))
      hproduces.le

/-- A bound on the costs of all who produce bounds the price. -/
theorem le_price (h : SoldAtCost p output price ts) (hpos : 0 < output) {bound : α}
    (hbound : ∀ t ∈ producers p ts, bound ≤ t.results[p].cost) : bound ≤ price := by
  refine le_of_mul_le_mul_right ?_ hpos
  rw [h.revenue, ← h.sum_eq, ← List.sum_map_mul_left]
  exact h.sum_mul_output_le hbound

theorem price_le (h : SoldAtCost p output price ts) (hpos : 0 < output) {bound : α}
    (hbound : ∀ t ∈ producers p ts, t.results[p].cost ≤ bound) : price ≤ bound := by
  refine le_of_mul_le_mul_right ?_ hpos
  rw [h.revenue, ← h.sum_eq, ← List.sum_map_mul_left]
  exact h.sum_mul_output_le hbound

/-- What is sold at cost is sold at a price between the costs of those who produce. -/
theorem pricedBetween (h : SoldAtCost p output price ts) (hpos : 0 < output) :
    PricedBetween p price ts := by
  have hne := h.exists_producer hpos
  let cost := fun t : Technology n α => t.results[p].cost
  obtain ⟨cheapest, hcheapest⟩ : ∃ t, t ∈ List.argmin cost (producers p ts) :=
    Option.ne_none_iff_exists'.1 (mt List.argmin_eq_none.1 hne)
  obtain ⟨dearest, hdearest⟩ : ∃ t, t ∈ List.argmax cost (producers p ts) :=
    Option.ne_none_iff_exists'.1 (mt List.argmax_eq_none.1 hne)
  have hle : ∀ t ∈ producers p ts, cost cheapest ≤ cost t :=
    fun t ht => not_lt.1 (List.not_lt_of_mem_argmin ht hcheapest)
  have hge : ∀ t ∈ producers p ts, cost t ≤ cost dearest :=
    fun t ht => not_lt.1 (List.not_lt_of_mem_argmax ht hdearest)
  exact ⟨cheapest, List.argmin_mem hcheapest, dearest, List.argmax_mem hdearest,
    fun t ht => ⟨hle t ht, hge t ht⟩, h.le_price hpos hle, h.price_le hpos hge⟩

end SoldAtCost

namespace Subsector

variable {s : Subsector n α} {output : α} {calibrate : Bool}

/-- Taking stock of what is produced sets the price to its average cost. -/
theorem Produces.soldAtCost_takeStock {multiple : α} (h : s.Produces p output multiple) :
    SoldAtCost p output (s.takeStock p output).results[p].price
      (s.takeStock p output).technologies := by
  have hcost : totalCost p (s.takeStock p output).technologies = totalCost p s.technologies := by
    rw [technologies_takeStock]
    split
    · simp [totalCost, Function.comp_def, Technology.setShare, Technology.update]
    · rfl
  have hproduces := (produces_takeStock_iff output).2 h
  refine ⟨hproduces.nonneg, hproduces.sum_eq, ?_⟩
  rw [hcost, price_takeStock]
  split
  · have haverage := weightedAverage_mul_sum (s.technologies.map fun t => t.results[p].cost)
      (List.forall_mem_map.2 h.nonneg)
    rw [h.sum_eq] at haverage
    rw [haverage, List.zipWith_map, List.zipWith_self]
    rfl
  · next hnothing =>
    have hzero : output = 0 := by
      refine le_antisymm (not_lt.1 hnothing) ?_
      rw [← h.sum_eq]
      exact List.sum_nonneg (List.forall_mem_map.2 h.nonneg)
    rw [totalCost_eq_zero h.nonneg (h.sum_eq.trans hzero), hzero, mul_zero]

/-- A subsector sells what it produces at cost. -/
theorem soldAtCost_setOutput (hs : s.Ready p)
    (h : (s.setOutput p output calibrate).failure = none) :
    SoldAtCost p output (s.setOutput p output calibrate).state.results[p].price
      (s.setOutput p output calibrate).state.technologies := by
  obtain ⟨multiple, hproduces⟩ :=
    (response_setOutput hs (nonneg_of_setOutput h) calibrate).produces h
  obtain ⟨scale, hserve⟩ := exists_serve_of_ok h
  rw [hserve] at h hproduces ⊢
  obtain ⟨-, hstate⟩ := serve_eq_ok h
  rw [hstate] at hproduces ⊢
  exact ((produces_takeStock_iff output).1 hproduces).soldAtCost_takeStock

end Subsector

namespace Sector

/-- The sum over the technologies of all subsectors. -/
theorem sum_technologies (s : Sector n α) (f : Technology n α → α) :
    (s.technologies.map f).sum = (s.subsectors.map fun x => (x.technologies.map f).sum).sum := by
  rw [technologies, List.map_flatMap, List.flatMap_def, List.sum_flatten, List.map_map]
  rfl

theorem totalCost_technologies (s : Sector n α) :
    totalCost p s.technologies = (s.subsectors.map fun x => totalCost p x.technologies).sum :=
  s.sum_technologies _

/-- Taking stock of subsectors that sell their outputs at cost sets the price to the average cost of
all that is produced. -/
theorem soldAtCost_takeStock {s : Sector n α}
    (h : ∀ x ∈ s.subsectors, SoldAtCost p x.results[p].output x.results[p].price x.technologies) :
    SoldAtCost p (s.takeStock p).results[p].output (s.takeStock p).results[p].price
      (s.takeStock p).technologies := by
  have hnonneg : ∀ t ∈ s.technologies, 0 ≤ t.results[p].output := by
    intro t ht
    obtain ⟨x, hx, ht⟩ := List.mem_flatMap.1 ht
    exact (h x hx).nonneg t ht
  have houtput : (s.technologies.map fun t => t.results[p].output).sum
      = Quantity.total (s.subsectors.map fun x => x.results[p].output) := by
    rw [sum_technologies, Quantity.total_eq_sum]
    exact congrArg List.sum (List.map_congr_left fun x hx => (h x hx).sum_eq)
  have hrevenue :
      Quantity.total (s.subsectors.map fun x => x.results[p].price * x.results[p].output)
        = totalCost p s.technologies := by
    rw [totalCost_technologies, Quantity.total_eq_sum]
    exact congrArg List.sum (List.map_congr_left fun x hx => (h x hx).revenue)
  have hstock : (s.takeStock p).results[p].output
      = (s.technologies.map fun t => t.results[p].output).sum :=
    s.output_takeStock.trans houtput.symm
  refine ⟨hnonneg, hstock.symm, ?_⟩
  rw [price_takeStock, ← houtput, hrevenue, hstock]
  split
  · next hpos => exact div_mul_cancel₀ _ hpos.ne'
  · next hnothing =>
    have hzero := le_antisymm (not_lt.1 hnothing)
      (List.sum_nonneg (List.forall_mem_map.2 hnonneg))
    rw [hzero, mul_zero]
    exact (totalCost_eq_zero hnonneg hzero).symm

variable {s : Sector n α} {demand : α} {prices : GoodTable α} {calibrate : Bool}

/-- A sector sells what it produces at cost, whatever is demanded. -/
theorem soldAtCost_calculate
    (hfixed : ∀ t ∈ s.technologies, ∀ fixed, t.parameters[p].fixedOutput = some fixed → 0 ≤ fixed)
    (h : (s.calculate p demand prices calibrate).failure = none) :
    let s' := (s.calculate p demand prices calibrate).state
    SoldAtCost p s'.results[p].output s'.results[p].price s'.technologies := by
  obtain ⟨hoffers, a, ha, hserved⟩ := calculate_succeeds_iff.1 h
  obtain ⟨-, -, -, hstate⟩ := calculate_eq_ok h
  have hsubsectors := subsectors_calculate h ha
  rw [hstate] at hsubsectors ⊢
  refine soldAtCost_takeStock ?_
  have htaken : ∀ s : Sector n α, (s.takeStock p).subsectors = s.subsectors := fun _ => rfl
  rw [← htaken, hsubsectors]
  refine List.forall_mem_map.2 fun y hy => ?_
  have hok := hserved y hy
  rw [serveShare, Subsector.output_setOutput hok]
  exact Subsector.soldAtCost_setOutput (ready_withAwards hfixed hoffers a y hy) hok

end Sector

end NestedLogit
