import NestedLogit.Proofs.Calibration
import NestedLogit.Proofs.Region.Demand
import NestedLogit.Proofs.Sector.Marks
import NestedLogit.Proofs.World.Frame
import NestedLogit.Proofs.World.Operation

/-!
# What becomes of base share weights

Base share weights are inputs that a run changes in one way only: when a period is finished,
recalibrated share weights are carried forward. Which ones were recalibrated is marked in the
results of the period, so that the marks have to be right when the period is finished, whatever was
done to the world since they were set.

## Main definitions

- `World.Across` — worlds of one shape, compared subsector by subsector and technology by technology
- `Subsector.KeepsAnchors`, `Technology.KeepsAnchors` — the same base share weights at anchors
- `World.Uncalculated` — no calculation of a period gets to a region in the course of a run

## Main statements

- `Region.marks_calculate` — the marks after a calculation
- `Region.Unmarked.calculate` — without calibration there are none, however a calculation ends
- `World.baseShareWeights_performAll` — which base share weights a run changes, and when

## Design notes

A calculation that stops midway can leave marks of the one before it, so that what is marked says
something about the latest calculation only if that came to its end.
-/

namespace NestedLogit

variable {n : Nat} {α : Type} {p : Fin n}

section Across

variable {S S' : Subsector n α → Subsector n α → Prop}
  {T T' : Technology n α → Technology n α → Prop}

/-- Subsectors that are related and whose technologies are. -/
structure Subsector.Across (S : Subsector n α → Subsector n α → Prop)
    (T : Technology n α → Technology n α → Prop) (x x' : Subsector n α) : Prop where
  self : S x x'
  technologies : List.Forall₂ T x.technologies x'.technologies

/-- Sectors whose subsectors and technologies are related. -/
def Sector.Across (S : Subsector n α → Subsector n α → Prop)
    (T : Technology n α → Technology n α → Prop) (s s' : Sector n α) : Prop :=
  List.Forall₂ (Subsector.Across S T) s.subsectors s'.subsectors

/-- Regions whose subsectors and technologies are related. -/
def Region.Across (S : Subsector n α → Subsector n α → Prop)
    (T : Technology n α → Technology n α → Prop) (r r' : Region n α) : Prop :=
  List.Forall₂ (Sector.Across S T) r.sectors r'.sectors

/-- Worlds whose subsectors and technologies are related. -/
def World.Across (S : Subsector n α → Subsector n α → Prop)
    (T : Technology n α → Technology n α → Prop) (w w' : World n α) : Prop :=
  List.Forall₂ (Region.Across S T) w.regions w'.regions

namespace Region

theorem Across.refl (hS : ∀ x, S x x) (hT : ∀ t, T t t) (r : Region n α) : r.Across S T r :=
  List.forall₂_same.2 fun _ _ => List.forall₂_same.2 fun x _ =>
    ⟨hS x, List.forall₂_same.2 fun t _ => hT t⟩

theorem Across.trans (hS : ∀ {x y z}, S x y → S y z → S x z)
    (hT : ∀ {t u v}, T t u → T u v → T t v) {r r' r'' : Region n α} (h : r.Across S T r')
    (h' : r'.Across S T r'') : r.Across S T r'' := by
  refine forall₂_trans (R := Sector.Across S T) (fun hs hs' => ?_) h h'
  refine forall₂_trans (R := Subsector.Across S T) (fun hx hx' => ?_) hs hs'
  exact ⟨hS hx.self hx'.self, forall₂_trans (R := T) hT hx.technologies hx'.technologies⟩

/-- What a calculation leaves alone. -/
theorem Framed.across (hS : ∀ {x x' : Subsector n α}, x.Framed p x' → S x x')
    (hT : ∀ {t t' : Technology n α}, t.Framed p t' → T t t') {r r' : Region n α}
    (h : r.Framed p r') : r.Across S T r' :=
  h.sectors.imp fun _ _ hs => hs.subsectors.imp fun _ _ hx =>
    ⟨hS hx, hx.technologies.imp fun _ _ ht => hT ht⟩

end Region

namespace World

theorem Across.refl (hS : ∀ x, S x x) (hT : ∀ t, T t t) (w : World n α) : w.Across S T w :=
  List.forall₂_same.2 fun r _ => .refl hS hT r

theorem Across.trans (hS : ∀ {x y z}, S x y → S y z → S x z)
    (hT : ∀ {t u v}, T t u → T u v → T t v) {w w' w'' : World n α} (h : w.Across S T w')
    (h' : w'.Across S T w'') : w.Across S T w'' :=
  forall₂_trans (R := Region.Across S T)
    (fun hr hr' => Region.Across.trans (S := S) (T := T) hS hT hr hr') h h'

end World

end Across

section CarryForward

variable [Quantity α]

variable {S : Subsector n α → Subsector n α → Prop} {T : Technology n α → Technology n α → Prop}
  {c : Calendar n}

/-- What carrying forward leaves alone. -/
theorem Region.across_carryForward (hS : ∀ x, S x (x.carryForward c p))
    (hT : ∀ t, T t (t.carryForward c p)) (r : Region n α) :
    r.Across S T (r.carryForward c p) := by
  refine forall₂_map_self (R := Sector.Across S T) (fun s => ?_) r.sectors
  refine forall₂_map_self (R := Subsector.Across S T) (fun x => ⟨hS x, ?_⟩) s.subsectors
  rw [Subsector.technologies_carryForward]
  exact forall₂_map_self hT x.technologies

/-- What an operation leaves alone. -/
theorem World.Operation.across_onRegion {w : World n α} {o : World.Operation n α}
    (hS : ∀ (p : Fin n) {x x' : Subsector n α}, x.Framed p x' → S x x')
    (hT : ∀ (p : Fin n) {t t' : Technology n α}, t.Framed p t' → T t t')
    (hcarryS : ∀ p : Fin n, o = .finish p → ∀ x, S x (x.carryForward w.calendar p))
    (hcarryT : ∀ p : Fin n, o = .finish p → ∀ t, T t (t.carryForward w.calendar p))
    (j : Nat) (r : Region n α) : r.Across S T (o.onRegion w j r) := by
  have hrefl : r.Across S T r :=
    .refl (fun x => hS w.calendar.first (.refl x)) (fun t => hT w.calendar.first (.refl t)) r
  refine onRegion_cases hrefl (fun _ => hrefl) (fun p _ _ _ => ?_) (fun p ho => ?_)
    (fun _ => hrefl) fun _ => hrefl
  · exact (r.framed_calculate p w.calibrate).across (hS p) (hT p)
  · exact Region.across_carryForward (hcarryS p ho) (hcarryT p ho) r

end CarryForward

section Anchors

/-- The same anchors, and the same base share weights there. -/
structure Technology.KeepsAnchors (t t' : Technology n α) : Prop where
  anchors : t'.anchors = t.anchors
  weights : ∀ q : Fin n, t.anchors[q] = true → t'.baseShareWeight[q] = t.baseShareWeight[q]

/-- The same anchors, and the same base share weights there. -/
structure Subsector.KeepsAnchors (x x' : Subsector n α) : Prop where
  anchors : x'.anchors = x.anchors
  weights : ∀ q : Fin n, x.anchors[q] = true → x'.baseShareWeight[q] = x.baseShareWeight[q]

theorem Technology.KeepsAnchors.trans {t t' t'' : Technology n α} (h : t.KeepsAnchors t')
    (h' : t'.KeepsAnchors t'') : t.KeepsAnchors t'' :=
  ⟨h'.anchors.trans h.anchors,
    fun q hq => (h'.weights q (h.anchors ▸ hq)).trans (h.weights q hq)⟩

theorem Subsector.KeepsAnchors.trans {x x' x'' : Subsector n α} (h : x.KeepsAnchors x')
    (h' : x'.KeepsAnchors x'') : x.KeepsAnchors x'' :=
  ⟨h'.anchors.trans h.anchors,
    fun q hq => (h'.weights q (h.anchors ▸ hq)).trans (h.weights q hq)⟩

theorem Technology.Framed.keepsAnchors {t t' : Technology n α} (h : t.Framed p t') :
    t.KeepsAnchors t' :=
  ⟨h.anchors.symm, fun _ _ => by rw [h.baseShareWeight]⟩

theorem Subsector.Framed.keepsAnchors {x x' : Subsector n α} (h : x.Framed p x') :
    x.KeepsAnchors x' :=
  ⟨h.anchors.symm, fun _ _ => by rw [h.baseShareWeight]⟩

variable [Quantity α]

theorem Technology.keepsAnchors_carryForward (t : Technology n α) (c : Calendar n) (p : Fin n) :
    t.KeepsAnchors (t.carryForward c p) := by
  refine ⟨by rw [anchors, anchors, parameters_carryForward], fun q hq => ?_⟩
  rw [baseShareWeight_carryForward]
  split
  · exact Series.getElem_carryFrom_of_anchored hq
  · rfl

theorem Subsector.keepsAnchors_carryForward (x : Subsector n α) (c : Calendar n) (p : Fin n) :
    x.KeepsAnchors (x.carryForward c p) := by
  refine ⟨x.anchors_carryForward c p, fun q hq => ?_⟩
  rw [baseShareWeight_carryForward]
  split
  · exact Series.getElem_carryFrom_of_anchored hq
  · rfl

/-- No operation changes a base share weight at an anchor, and no run does. -/
theorem World.across_keepsAnchors (w : World n α) (ops : List (World.Operation n α)) :
    w.Across Subsector.KeepsAnchors Technology.KeepsAnchors (w.performAll ops) := by
  refine World.rel_performAll ?_ ?_ ?_ w ops
  · exact fun w => .refl (fun x => (Subsector.Framed.refl (p := w.calendar.first) x).keepsAnchors)
      (fun t => (Technology.Framed.refl (p := w.calendar.first) t).keepsAnchors) w
  · exact World.Across.trans (S := Subsector.KeepsAnchors) (T := Technology.KeepsAnchors)
      Subsector.KeepsAnchors.trans Technology.KeepsAnchors.trans
  · exact fun o w => World.forall₂_perform (World.Operation.across_onRegion
      (fun _ _ _ h => h.keepsAnchors) (fun _ _ _ h => h.keepsAnchors)
      (fun p _ x => x.keepsAnchors_carryForward w.calendar p)
      (fun p _ t => t.keepsAnchors_carryForward w.calendar p))

end Anchors

section Unmarked

/-- A subsector without a mark in a period, and without marked technologies. -/
def Subsector.Unmarked (p : Fin n) (x : Subsector n α) : Prop :=
  x.results[p].calibrated = false ∧ x.Marks p false

/-- A sector without marks in a period. -/
def Sector.Unmarked (p : Fin n) (s : Sector n α) : Prop :=
  ∀ x ∈ s.subsectors, x.Unmarked p

/-- A region without marks in a period. -/
def Region.Unmarked (p : Fin n) (r : Region n α) : Prop :=
  ∀ s ∈ r.sectors, s.Unmarked p

namespace Subsector

theorem Unmarked.update {x : Subsector n α} (h : x.Unmarked p)
    {f : SubsectorResult α → SubsectorResult α}
    (hf : ∀ r, (f r).calibrated = r.calibrated) : (x.update p f).Unmarked p := by
  refine ⟨?_, h.2⟩
  rw [Subsector.update, Series.getElem_modify_self, hf]
  exact h.1

variable [Quantity α]

theorem Unmarked.calculateCosts {x : Subsector n α} (h : x.Unmarked p) (prices : GoodTable α) :
    (x.calculateCosts p prices).Ends (Subsector.Unmarked p) (Subsector.Unmarked p) := by
  have hcosts : ∀ {ts : List (Technology n α)}, (∀ t ∈ ts, t.results[p].recalibrated = false) →
      ({ x.update p fun r => { r with fixedSupplyScale := 1 } with
        technologies := ts } : Subsector n α).Unmarked p :=
    fun hts => ⟨(h.update (f := fun r => { r with fixedSupplyScale := 1 }) fun _ => rfl).1, hts⟩
  refine Run.Ends.map (Run.Ends.each (P := fun t => t.results[p].recalibrated = false)
    fun t ht => ⟨h.2 t ht, ?_⟩) (fun _ => hcosts) fun _ => hcosts
  have hmark : t.results[p].recalibrated = false := h.2 t ht
  have hcost : ∀ price, (t.calculateCost p price).results[p].recalibrated = false := by
    intro price
    simpa [Technology.calculateCost, Technology.update] using hmark
  split
  · exact .ok (hcost 0) (hcost 0)
  · split
    · exact .ok (hcost _) (hcost _)
    · exact ⟨hmark, fun h => by cases h⟩

theorem Unmarked.shareTechnologies {x : Subsector n α} (h : x.Unmarked p) :
    (x.shareTechnologies p).Ends (Subsector.Unmarked p) (Subsector.Unmarked p) := by
  have hsuccess : (x.shareTechnologies p).failure = none →
      (x.shareTechnologies p).state.Unmarked p := by
    intro hshared
    refine ⟨?_, marks_shareTechnologies hshared⟩
    rw [results_shareTechnologies]
    exact h.1
  refine ⟨?_, hsuccess⟩
  cases ha : allocate ((x.variableTechnologies p).map (·.contender p)) with
  | error e =>
    rw [Subsector.shareTechnologies, ha]
    exact h
  | ok a => exact hsuccess (by rw [Subsector.shareTechnologies, ha])

theorem Unmarked.serve {x : Subsector n α} (h : x.Unmarked p) (output : α) :
    (x.serve p output false).Ends (Subsector.Unmarked p) (Subsector.Unmarked p) := by
  have hserved : (x.serve p output false).failure = none := rfl
  obtain ⟨_, _, _, _, _, hresults⟩ := results_serve hserved
  have hstate : (x.serve p output false).state.Unmarked p :=
    ⟨by rw [hresults]; exact h.1, Marks.takeStock (h.2.produce _) output⟩
  exact ⟨hstate, fun _ => hstate⟩

/-- Producing an output without calibration marks nothing. -/
theorem Unmarked.setOutput {x : Subsector n α} (h : x.Unmarked p) (output : α) :
    (x.setOutput p output false).Ends (Subsector.Unmarked p) (Subsector.Unmarked p) := by
  unfold Subsector.setOutput
  split
  · exact .fail h _
  · -- Only a calibration fits the fixed supply to the output beforehand.
    have hfit : x.fitFixedSupply p output false = x := rfl
    rw [hfit]
    dsimp only
    split
    · have hscaled : (x.scaleFixedSupply p (output / x.fixedSupply p)).Unmarked p :=
        h.update fun _ => rfl
      exact hscaled.serve output
    · split
      · exact h.serve output
      · exact .fail h _

end Subsector

namespace Sector

variable [Quantity α]

theorem Unmarked.prepareSubsectors {s : Sector n α} (h : s.Unmarked p) (prices : GoodTable α) :
    (s.prepareSubsectors p prices).Ends (Sector.Unmarked p) (Sector.Unmarked p) := by
  suffices heach : ∀ x ∈ s.subsectors, (((x.calculateCosts p prices).andThen
      (·.shareTechnologies p)).andThen fun x => .ok (x.calculatePrice p)).Ends
        (Subsector.Unmarked p) (Subsector.Unmarked p) by
    have hprepared := Run.Ends.each fun x hx => ⟨h x hx, heach x hx⟩
    exact ⟨hprepared.always, hprepared.success⟩
  intro x hx
  refine (((h x hx).calculateCosts prices).andThen fun x hx => hx.shareTechnologies).andThen
    fun x hx => ?_
  have hprice : (x.calculatePrice p).Unmarked p := hx.update fun _ => rfl
  exact .ok hprice hprice

/-- Fitting the fixed supply to a demand scales it, which is not a mark. -/
theorem Unmarked.fitted {s : Sector n α} (h : s.Unmarked p) (demand : α) :
    (s.fitted p demand false).1.Unmarked p :=
  forall_mem_of_forall₂
    (s.forall₂_fitted (R := fun x y => x.Unmarked p → y.Unmarked p) (fun _ hx => hx)
      (fun _ _ hx => hx.update fun _ => rfl) demand false)
    fun x hx _ hxy => hxy (h x hx)

theorem Unmarked.shareSubsectors {s : Sector n α} (h : s.Unmarked p) (demand : α) :
    (s.shareSubsectors p demand false).Ends (Sector.Unmarked p) (Sector.Unmarked p) := by
  have hfitted := h.fitted demand
  obtain ⟨⟨fit, log⟩, hfit⟩ : ∃ x, s.fitted p demand false = x := ⟨_, rfl⟩
  rw [hfit] at hfitted
  cases ho : (allocateAims (fit.aims p demand false)).outcome with
  | error e =>
    rw [shareSubsectors_of_error hfit ho]
    exact ⟨hfitted, nofun⟩
  | ok a =>
    rw [shareSubsectors_of_ok hfit ho]
    -- Nobody has a target, so that nobody is marked.
    have hawarded : ∀ y ∈ awardEach p fit.subsectors (decided (fit.aims p demand false) a),
        y.Unmarked p := by
      intro y hy
      obtain ⟨x, hx, d, -, c, -, rfl⟩ := exists_award_of_mem hy
      refine ⟨?_, (hfitted x hx).2⟩
      rw [award_eq_update, isSome_targetShare]
      simp [Subsector.update]
    exact ⟨hawarded, fun _ => hawarded⟩

theorem Unmarked.produce {s : Sector n α} (h : s.Unmarked p) (output : α) :
    (s.produce p output false).Ends (Sector.Unmarked p) (Sector.Unmarked p) := by
  have heach := Run.Ends.each fun x hx =>
    ⟨h x hx, (h x hx).setOutput (x.results[p].share * output)⟩
  exact ⟨heach.always, heach.success⟩

/-- A calculation without calibration marks nothing, however it ends. -/
theorem Unmarked.calculate {s : Sector n α} (h : s.Unmarked p) (demand : α)
    (prices : GoodTable α) :
    (s.calculate p demand prices false).Ends (Sector.Unmarked p) (Sector.Unmarked p) := by
  have hdemand : (s.setDemand p demand).Unmarked p := h
  unfold Sector.calculate
  refine (((hdemand.prepareSubsectors prices).andThen
    fun s hs => hs.shareSubsectors demand).andThen
    fun s hs => hs.produce (Quantity.larger demand 0)).andThen fun s hs => ?_
  have htaken : (s.takeStock p).Unmarked p := hs
  exact .ok htaken htaken

end Sector

namespace Region

variable [Quantity α]

/-- After a calculation that came to its end those are marked whose share weights it
recalibrated. -/
theorem marks_calculate {r : Region n α} {calibrate : Bool}
    (h : (r.calculate p calibrate).failure = none) :
    ∀ s ∈ (r.calculate p calibrate).state.sectors, s.Marks p calibrate := by
  obtain ⟨hrun, -, hsectors⟩ := calculate_eq_ok h
  rw [hsectors]
  refine ((Run.Ends.eachWith (A := fun _ => True) (P := fun _ => True)
    (Q := fun s : Sector n α => s.Marks p calibrate) trivial fun s _ => ⟨trivial, ?_⟩).success
      hrun).2
  exact fun m _ => ⟨⟨trivial, trivial⟩, fun hn =>
    ⟨trivial, Sector.marks_calculate ((Run.failure_within _ _).1 hn)⟩⟩

/-- A calculation without calibration marks nothing, however it ends. -/
theorem Unmarked.calculate {r : Region n α} (h : r.Unmarked p) :
    (r.calculate p false).state.Unmarked p := by
  have hsector : ∀ s ∈ r.sectors, ∀ m : Market α,
      (calculateSector r.id r.carbonTax[p] false p m s).Ends (fun y => True ∧ y.2.Unmarked p)
        (fun y => True ∧ y.2.Unmarked p) := by
    intro s hs m
    have htaxed : (s.applyCarbonTax p r.carbonTax[p]).Unmarked p := by
      refine List.forall_mem_map.2 fun x hx => ⟨(h s hs x hx).1, ?_⟩
      exact (h s hs x hx).2.mapTechnologies (fun _ => rfl) fun t => by
        simp [Technology.setCarbonTax, Technology.update]
    exact Run.Ends.map ((htaxed.calculate _ _).within _) (fun _ hs => ⟨trivial, hs⟩)
      fun _ hs => ⟨trivial, hs⟩
  let market := placeFinalDemands r.sectors p (r.market.clearPeriod p)
  have hsectors := Run.Ends.eachWith (A := fun _ => True) (t := market) trivial
    fun s hs => ⟨h s hs, fun m _ => hsector s hs m⟩
  have hrun : ((Run.eachWith (calculateSector r.id r.carbonTax[p] false p) market r.sectors).map
      fun x => { r with market := x.1, sectors := x.2 }).Ends
        (Region.Unmarked p) (Region.Unmarked p) :=
    ⟨hsectors.always.2, fun hn => (hsectors.success hn).2⟩
  refine (hrun.andThen (S := Region.Unmarked p) fun r hr => ?_).always
  split
  · exact .ok hr hr
  · exact .ok hr hr

end Region

end Unmarked

section Runs

/-- The same base share weights. -/
def Technology.SameWeights (t t' : Technology n α) : Prop :=
  t'.baseShareWeight = t.baseShareWeight

/-- The same base share weights. -/
def Subsector.SameWeights (x x' : Subsector n α) : Prop :=
  x'.baseShareWeight = x.baseShareWeight

/-- The same base share weights up to a period. -/
def Technology.SameWeightsUpTo (period : Nat) (t t' : Technology n α) : Prop :=
  ∀ q : Fin n, q.val ≤ period → t'.baseShareWeight[q] = t.baseShareWeight[q]

/-- The same base share weights up to a period. -/
def Subsector.SameWeightsUpTo (period : Nat) (x x' : Subsector n α) : Prop :=
  ∀ q : Fin n, q.val ≤ period → x'.baseShareWeight[q] = x.baseShareWeight[q]

/-- The same mark in a period. -/
def Technology.SameMark (p : Fin n) (t t' : Technology n α) : Prop :=
  t'.results[p].recalibrated = t.results[p].recalibrated

/-- The same mark in a period. -/
def Subsector.SameMark (p : Fin n) (x x' : Subsector n α) : Prop :=
  x'.results[p].calibrated = x.results[p].calibrated

/-- The same base share weights, unless there is a mark in a period. -/
def Technology.SameWeightsUnlessMarked (p : Fin n) (t t' : Technology n α) : Prop :=
  t.results[p].recalibrated = false → t.SameWeights t'

/-- The same base share weights, unless there is a mark in a period. -/
def Subsector.SameWeightsUnlessMarked (p : Fin n) (x x' : Subsector n α) : Prop :=
  x.results[p].calibrated = false → x.SameWeights x'

namespace Region

theorem sameWeights_refl (r : Region n α) :
    r.Across Subsector.SameWeights Technology.SameWeights r :=
  Across.refl (S := Subsector.SameWeights) (T := Technology.SameWeights) (fun _ => rfl)
    (fun _ => rfl) r

theorem sameMarks_refl (p : Fin n) (r : Region n α) :
    r.Across (Subsector.SameMark p) (Technology.SameMark p) r :=
  Across.refl (S := Subsector.SameMark p) (T := Technology.SameMark p) (fun _ => rfl)
    (fun _ => rfl) r

/-- A calculation of one period leaves the marks of another. -/
theorem Framed.sameMarks {r r' : Region n α} {q : Fin n} (h : r.Framed q r') (hpq : p ≠ q) :
    r.Across (Subsector.SameMark p) (Technology.SameMark p) r' :=
  h.across (fun hx => by rw [Subsector.SameMark, hx.results p hpq])
    fun ht => by rw [Technology.SameMark, ht.results p hpq]

/-- Where the marks are the same as in a region without any, there are none. -/
theorem Unmarked.of_sameMarks {r r' : Region n α} (hr : r.Unmarked p)
    (h : r.Across (Subsector.SameMark p) (Technology.SameMark p) r') : r'.Unmarked p := by
  refine forall_mem_of_forall₂ h fun s hs s' hs' => forall_mem_of_forall₂ hs' fun x hx x' hx' => ?_
  exact ⟨hx'.self.trans (hr s hs x hx).1,
    forall_mem_of_forall₂ hx'.technologies fun t ht t' ht' => ht'.trans ((hr s hs x hx).2 t ht)⟩

/-- Without marks nothing changes that does not change unless it is marked. -/
theorem Unmarked.sameWeights {r r' : Region n α} (hr : r.Unmarked p)
    (h : r.Across (Subsector.SameWeightsUnlessMarked p) (Technology.SameWeightsUnlessMarked p) r') :
    r.Across Subsector.SameWeights Technology.SameWeights r' := by
  refine ((List.forall₂_and_left _ _).2 ⟨hr, h⟩).imp fun s s' ⟨hs, hacross⟩ => ?_
  refine ((List.forall₂_and_left _ _).2 ⟨hs, hacross⟩).imp fun x x' ⟨hx, hx'⟩ => ?_
  refine ⟨hx'.self hx.1, ?_⟩
  exact ((List.forall₂_and_left _ _).2 ⟨hx.2, hx'.technologies⟩).imp fun t t' ⟨ht, ht'⟩ => ht' ht

variable [Quantity α]

/-- Carrying forward changes only share weights of what is marked. -/
theorem across_carryForward_marked (r : Region n α) (c : Calendar n) (p : Fin n) :
    r.Across (Subsector.SameWeightsUnlessMarked p) (Technology.SameWeightsUnlessMarked p)
      (r.carryForward c p) := by
  refine across_carryForward (fun x hx => ?_) (fun t ht => ?_) r
  · rw [Subsector.SameWeights, x.baseShareWeight_carryForward, hx]
    rfl
  · rw [Technology.SameWeights, t.baseShareWeight_carryForward, ht]
    rfl

theorem sameMarks_carryForward (r : Region n α) (c : Calendar n) (q : Fin n) :
    r.Across (Subsector.SameMark p) (Technology.SameMark p) (r.carryForward c q) :=
  across_carryForward (fun x => by rw [Subsector.SameMark, x.results_carryForward])
    (fun t => by rw [Technology.SameMark, t.results_carryForward]) r

end Region

namespace World

variable [Quantity α]

/-- No calculation of a period gets to the region at a position in the course of a run. -/
def Uncalculated (p : Fin n) (j : Nat) : World n α → List (Operation n α) → Prop
  | _, [] => True
  | w, o :: ops =>
    (∀ ids, o = .calculate p ids → w.reaches p ids j = false) ∧
      Uncalculated p j (o.perform w).state ops

/-- Operations other than finishing a period change no base share weight. -/
theorem across_perform_of_ne_finish (w : World n α) {o : Operation n α}
    (ho : ∀ period, o ≠ .finish period) :
    w.Across Subsector.SameWeights Technology.SameWeights (o.perform w).state :=
  forall₂_perform (Operation.across_onRegion (fun _ _ _ h => h.baseShareWeight.symm)
    (fun _ _ _ h => h.baseShareWeight.symm) (fun p hp => absurd hp (ho p))
    fun p hp => absurd hp (ho p))

/-- Finishing a period changes no base share weight up to that period. -/
theorem across_finish_upTo (w : World n α) (period : Nat) :
    w.Across (Subsector.SameWeightsUpTo period) (Technology.SameWeightsUpTo period)
      (w.finish period).state := by
  refine forall₂_perform (o := .finish period) (Operation.across_onRegion
    (fun _ _ _ h q _ => by rw [h.baseShareWeight]) (fun _ _ _ h q _ => by rw [h.baseShareWeight])
    (fun p hp x q hq => ?_) fun p hp t q hq => ?_)
  · cases hp
    rw [x.baseShareWeight_carryForward]
    split
    · exact Series.getElem_carryFrom_of_le hq
    · rfl
  · cases hp
    rw [t.baseShareWeight_carryForward]
    split
    · exact Series.getElem_carryFrom_of_le hq
    · rfl

theorem getElem?_perform (w : World n α) (o : Operation n α) (j : Nat) :
    (o.perform w).state.regions[j]? = (w.regions[j]?).map fun r => o.onRegion w j r := by
  rw [regions_perform, List.getElem?_mapIdx]

/-- Marks stay in the course of a run in which the region is not calculated again. -/
theorem sameMarks_performAll {j : Nat} {w : World n α} {ops : List (Operation n α)}
    (h : Uncalculated p j w ops) {r : Region n α} (hr : w.regions[j]? = some r) :
    ∃ r', (w.performAll ops).regions[j]? = some r' ∧
      r.Across (Subsector.SameMark p) (Technology.SameMark p) r' := by
  induction ops generalizing w r with
  | nil => exact ⟨r, hr, r.sameMarks_refl p⟩
  | cons o ops ih =>
    obtain ⟨hskipped, hrest⟩ := h
    have hstep : r.Across (Subsector.SameMark p) (Technology.SameMark p) (o.onRegion w j r) := by
      have hrefl := r.sameMarks_refl p
      refine Operation.onRegion_cases hrefl (fun _ => hrefl) (fun q ids ho hreaches => ?_)
        (fun q _ => r.sameMarks_carryForward w.calendar q) (fun _ => hrefl) fun _ => hrefl
      by_cases hq : p = q
      · subst hq
        exact absurd (hreaches.symm.trans (hskipped ids ho)) nofun
      · exact (r.framed_calculate q w.calibrate).sameMarks hq
    obtain ⟨r', hr', hrun⟩ := ih hrest (by rw [getElem?_perform, hr, Option.map_some])
    exact ⟨r', hr', Region.Across.trans (S := Subsector.SameMark p) (T := Technology.SameMark p)
      (fun h h' => h'.trans h) (fun h h' => h'.trans h) hstep hrun⟩

/-- In a world without marks that calibrates nothing, an operation changes no base share weight and
leaves no marks. -/
theorem Operation.sameWeights_onRegion {w : World n α} {o : Operation n α}
    (hoff : ∀ period ids, o = .calculate period ids → w.calibrate = false) {r : Region n α}
    (hr : ∀ p, r.Unmarked p) (j : Nat) :
    r.Across Subsector.SameWeights Technology.SameWeights (o.onRegion w j r) ∧
      ∀ p, (o.onRegion w j r).Unmarked p := by
  have hrest := r.sameWeights_refl
  refine onRegion_cases (P := fun r' => r.Across Subsector.SameWeights Technology.SameWeights r' ∧
    ∀ p, r'.Unmarked p) ⟨hrest, hr⟩ (fun _ => ⟨hrest, hr⟩) (fun q ids ho _ => ?_)
    (fun q _ => ?_) (fun _ => ⟨hrest, hr⟩) fun _ => ⟨hrest, hr⟩
  · rw [hoff q ids ho]
    have hframed := r.framed_calculate q false
    refine ⟨hframed.across (fun hx => hx.baseShareWeight.symm)
      fun ht => ht.baseShareWeight.symm, fun p => ?_⟩
    by_cases hpq : p = q
    · subst hpq
      exact (hr p).calculate
    · exact (hr p).of_sameMarks (hframed.sameMarks hpq)
  · exact ⟨(hr q).sameWeights (r.across_carryForward_marked w.calendar q),
      fun p => (hr p).of_sameMarks (r.sameMarks_carryForward w.calendar q)⟩

/-- A run without calibration changes no base share weight. -/
theorem sameWeights_performAll {w : World n α} (hw : ∀ r ∈ w.regions, ∀ p, r.Unmarked p)
    {ops : List (Operation n α)}
    (hoff : ∀ before period ids after, ops = before ++ .calculate period ids :: after →
      (w.performAll before).calibrate = false) :
    w.Across Subsector.SameWeights Technology.SameWeights (w.performAll ops) := by
  induction ops generalizing w with
  | nil => exact List.forall₂_same.2 fun r _ => r.sameWeights_refl
  | cons o ops ih =>
    have hoff₀ : ∀ period ids, o = .calculate period ids → w.calibrate = false :=
      fun period ids ho => hoff [] period ids ops (by rw [ho]; rfl)
    have hstep := fun r hr j => Operation.sameWeights_onRegion hoff₀ (hw r hr) j
    have hnext : ∀ r ∈ (o.perform w).state.regions, ∀ p, r.Unmarked p := by
      rw [regions_perform]
      intro r' hr'
      obtain ⟨j, hj, rfl⟩ := List.mem_mapIdx.1 hr'
      exact (hstep _ (List.getElem_mem hj) j).2
    -- The rest of the run is a run without calibration from a world without marks, too.
    have hrest := ih hnext fun before period ids after hops =>
      hoff (o :: before) period ids after (by rw [hops]; rfl)
    refine Across.trans (S := Subsector.SameWeights) (T := Technology.SameWeights)
      (fun h h' => h'.trans h) (fun h h' => h'.trans h) ?_ hrest
    rw [Across, regions_perform, List.forall₂_iff_get]
    refine ⟨List.length_mapIdx.symm, fun j hj hj' => ?_⟩
    simpa using (hstep _ (List.getElem_mem hj) j).1

theorem Fresh.unmarked {w : World n α} (hw : w.Fresh) : ∀ r ∈ w.regions, ∀ p, r.Unmarked p := by
  intro r hr p s hs x hx
  have hx := ((hw r hr).sectors s hs).subsectors x hx
  refine ⟨?_, fun t ht => ?_⟩
  · rw [hx.results, Series.getElem_const]
    rfl
  · rw [hx.technologies t ht, Series.getElem_const]
    rfl

/-- What can happen to base share weights. A run never changes one at an anchor. Only finishing a
period changes any, and none up to that period. Where the latest calculation of the period for a
region came to its end, finishing the period changes in that region only what this calculation
recalibrated: what it marked, which is still what is marked now. A run that calculates without
calibration changes none at all, from a fresh world on. -/
theorem baseShareWeights_performAll (w : World n α) (ops : List (Operation n α)) :
    let now := w.performAll ops
    w.Across Subsector.KeepsAnchors Technology.KeepsAnchors now ∧
      (∀ o : Operation n α, (∀ period, o ≠ .finish period) →
        now.Across Subsector.SameWeights Technology.SameWeights (o.perform now).state) ∧
      (∀ period, now.Across (Subsector.SameWeightsUpTo period) (Technology.SameWeightsUpTo period)
        (now.finish period).state) ∧
      (∀ before (p : Fin n) ids after, ops = before ++ .calculate p ids :: after →
        ∀ j r, (w.performAll before).regions[j]? = some r →
          (w.performAll before).reaches p ids j = true →
          let calculation := r.calculate p (w.performAll before).calibrate
          calculation.failure = none →
          Uncalculated p j (w.performAll (before ++ [.calculate p ids])) after →
          (∀ s ∈ calculation.state.sectors, s.Marks p (w.performAll before).calibrate) ∧
            ∃ r' r'', now.regions[j]? = some r' ∧ (now.finish p).state.regions[j]? = some r'' ∧
              calculation.state.Across (Subsector.SameMark p) (Technology.SameMark p) r' ∧
              r'.Across (Subsector.SameWeightsUnlessMarked p)
                (Technology.SameWeightsUnlessMarked p) r'') ∧
      (w.Fresh → (∀ before period ids after, ops = before ++ .calculate period ids :: after →
          (w.performAll before).calibrate = false) →
        w.Across Subsector.SameWeights Technology.SameWeights now) := by
  intro now
  refine ⟨w.across_keepsAnchors ops, fun o ho => now.across_perform_of_ne_finish ho,
    now.across_finish_upTo, ?_, fun hw hoff => sameWeights_performAll hw.unmarked hoff⟩
  intro before p ids after hops j r hr hreaches calculation hok hrest
  refine ⟨Region.marks_calculate hok, ?_⟩
  have hcalculated : (w.performAll (before ++ [.calculate p ids])).regions[j]?
      = some calculation.state := by
    rw [performAll_append]
    change ((Operation.calculate p ids).perform (w.performAll before)).state.regions[j]? = _
    rw [getElem?_perform, hr, Option.map_some, Operation.onRegion, Calendar.period?_val]
    exact congrArg some (if_pos hreaches)
  -- The region keeps the marks of the calculation until the period is finished.
  obtain ⟨r', hr', hmarks⟩ := sameMarks_performAll hrest hcalculated
  have hnow : (w.performAll (before ++ [.calculate p ids])).performAll after = now := by
    rw [← performAll_append, List.append_assoc, List.singleton_append, ← hops]
  rw [hnow] at hr'
  refine ⟨r', r'.carryForward now.calendar p, hr', ?_, hmarks,
    r'.across_carryForward_marked now.calendar p⟩
  change ((Operation.finish p).perform now).state.regions[j]? = _
  rw [getElem?_perform, hr', Option.map_some, Operation.onRegion, Calendar.period?_val]

/-- A run that calibrates the first year and goes on to the second. -/
def windyRun : List (Operation 2 ℚ) :=
  [.calculate 0 [], .setMarketPrice ⟨"north"⟩ ⟨"coal"⟩ 7 1, .calculate 1 [⟨"north"⟩]]

/-- A run that does not calibrate. -/
def calmRun : List (Operation 2 ℚ) :=
  [.setCalibration false, .calculate 0 [], .finish 0]

theorem fresh_windyWorld : windyWorld.Fresh := by
  have hfarm : ∀ name, (windyIsland name).Fresh := by
    intro name
    refine ⟨rfl, rfl, List.forall_mem_singleton.2 ⟨rfl, List.forall_mem_singleton.2 ⟨rfl, ?_⟩⟩⟩
    exact List.forall_mem_cons.2 ⟨rfl, List.forall_mem_singleton.2 rfl⟩
  exact List.forall_mem_cons.2 ⟨hfarm "north", List.forall_mem_singleton.2 (hfarm "south")⟩

theorem windyWorld_baseShareWeights :
    (windyWorld.Fresh ∧
        windyWorld.Across Subsector.SameWeights Technology.SameWeights
          (windyWorld.performAll calmRun)) ∧
      windyWorld.Across Subsector.KeepsAnchors Technology.KeepsAnchors
        (windyWorld.performAll windyRun) ∧
      let calculation := (windyIsland "north").calculate 0 true
      (windyWorld.reaches 0 [] 0 = true ∧ calculation.failure = none ∧
          Uncalculated 0 0 (windyWorld.performAll [.calculate 0 []])
            [.setMarketPrice ⟨"north"⟩ ⟨"coal"⟩ 7 1, .calculate 1 [⟨"north"⟩]]) ∧
        (∀ s ∈ calculation.state.sectors, s.Marks 0 true) ∧
        ∃ r' r'', (windyWorld.performAll windyRun).regions[0]? = some r' ∧
          ((windyWorld.performAll windyRun).finish 0).state.regions[0]? = some r'' ∧
          calculation.state.Across (Subsector.SameMark 0) (Technology.SameMark 0) r' ∧
          r'.Across (Subsector.SameWeightsUnlessMarked 0) (Technology.SameWeightsUnlessMarked 0)
            r'' := by
  have hoff : ∀ before period ids after, calmRun = before ++ .calculate period ids :: after →
      (windyWorld.performAll before).calibrate = false := by
    intro before period ids after h
    rcases before with _ | ⟨o, _ | ⟨o', _ | ⟨o'', _⟩⟩⟩
    · cases h
    · cases h
      rfl
    · cases h
    · simp [calmRun] at h
  have hreaches : windyWorld.reaches 0 [] 0 = true := by decide +kernel
  have hok : ((windyIsland "north").calculate 0 true).failure = none := by decide +kernel
  have hrest : Uncalculated 0 0 (windyWorld.performAll [.calculate 0 []])
      [.setMarketPrice ⟨"north"⟩ ⟨"coal"⟩ 7 1, .calculate 1 [⟨"north"⟩]] := by
    refine ⟨fun ids h => ?_, fun ids h => ?_, trivial⟩
    · cases h
    · simp at h
  obtain ⟨hanchors, -, -, hmarked, -⟩ := baseShareWeights_performAll windyWorld windyRun
  obtain ⟨-, -, -, -, hcalm⟩ := baseShareWeights_performAll windyWorld calmRun
  exact ⟨⟨fresh_windyWorld, hcalm fresh_windyWorld hoff⟩, hanchors, ⟨hreaches, hok, hrest⟩,
    hmarked [] 0 [] _ rfl 0 (windyIsland "north") rfl hreaches hok hrest⟩

example :
    ((windyWorld.performAll [.calculate 0 [], .finish 0]).regions.flatMap (·.technologies)).map
        (·.baseShareWeight.toList)
      = [[1, 2 / 3], [1, 4 / 3], [1, 2 / 3], [1, 4 / 3]] := by
  decide +kernel

end World

end Runs

end NestedLogit
