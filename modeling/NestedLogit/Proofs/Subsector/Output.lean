import NestedLogit.Proofs.Choice.Unlimited
import NestedLogit.Proofs.Frame
import NestedLogit.Proofs.History.Subsector

/-!
# What the technologies of a subsector produce

A subsector gives out its output without loss. The technologies whose output is not fixed have
shares that make up a whole, before and after a recalibration; fixed supply is scaled so that it
never exceeds the output, and if there is nobody for the rest, so that there is none.

## Main definitions

- `Subsector.Ready` — a subsector that is prepared to produce
- `Subsector.Produces` — technologies that together produce an output
- `Subsector.Response` — what becomes of an output

## Main statements

- `Subsector.recalibrateTechnologies_whole` — recalibration never fails, and shares out a whole
- `Subsector.produces_serve` — what is produced once fixed supply fits
- `Subsector.setOutput_conserves` — when a subsector refuses an output, and what it produces
  otherwise
-/

namespace NestedLogit

variable {n : Nat} {α : Type} {p : Fin n}

/-- Values handed to the technologies that are not fixed end up with them, in their order. -/
theorem filter_overVariable {β : Type} {f : Technology n α → β → Technology n α}
    (hf : ∀ t b, (f t b).isFixed p = t.isFixed p) {ts : List (Technology n α)} {bs : List β}
    (hlen : bs.length = (ts.filter fun t => !t.isFixed p).length) :
    (overVariable p f ts bs).filter (fun t => !t.isFixed p)
      = List.zipWith f (ts.filter fun t => !t.isFixed p) bs := by
  induction ts generalizing bs with
  | nil =>
    rw [List.length_eq_zero_iff.1 hlen]
    rfl
  | cons t ts ih =>
    cases bs with
    | nil =>
      have hnone := List.length_eq_zero_iff.1 hlen.symm
      simp [overVariable, hnone]
    | cons b bs =>
      rw [overVariable]
      cases ht : t.isFixed p with
      | true =>
        rw [List.filter_cons_of_neg (by simp [ht])] at hlen
        simpa [ht] using ih hlen
      | false =>
        rw [List.filter_cons_of_pos (by simp [ht])] at hlen
        have hfb : (f t b).isFixed p = false := (hf t b).trans ht
        simpa [ht, hfb] using ih (Nat.succ.inj hlen)

namespace Technology

variable [Quantity α]

/-- What a technology supplies: its scaled fixed output, or its share of the variable output. -/
def supply (p : Fin n) (scale variableOutput : α) (t : Technology n α) : α :=
  match t.parameters[p].fixedOutput with
  | some fixed => fixed * scale
  | none => t.results[p].share * variableOutput

omit [Quantity α] in
/-- Takes up the contender and the share that come out of a recalibration. -/
def takeUp (p : Fin n) (t : Technology n α) (x : Contender α × α) : Technology n α :=
  (if t.isCalibrated p then t.setCalibratedShareWeight p x.1.shareWeight else t).setShare p x.2

omit [Quantity α] in
theorem isFixed_takeUp (p : Fin n) (t : Technology n α) (x : Contender α × α) :
    (t.takeUp p x).isFixed p = t.isFixed p := by
  unfold takeUp
  split <;> rfl

omit [Quantity α] in
theorem parameters_takeUp (p : Fin n) (t : Technology n α) (x : Contender α × α) :
    (t.takeUp p x).parameters = t.parameters := by
  unfold takeUp
  split <;> rfl

omit [Quantity α] in
theorem share_takeUp (p : Fin n) (t : Technology n α) (x : Contender α × α) :
    (t.takeUp p x).results[p].share = x.2 := by
  simp [takeUp, setShare, update]

end Technology

namespace Subsector

/-- The shares of the technologies that are not fixed. -/
def variableShares (s : Subsector n α) (p : Fin n) : List α :=
  (s.variableTechnologies p).map fun t => t.results[p].share

theorem variableShares_overVariable {β : Type} {f : Technology n α → β → Technology n α}
    {k : β → α} (hf : ∀ t b, (f t b).isFixed p = t.isFixed p)
    (hshare : ∀ t b, (f t b).results[p].share = k b) {s : Subsector n α} {bs : List β}
    (hlen : bs.length = (s.variableTechnologies p).length) :
    ({ s with technologies := overVariable p f s.technologies bs } : Subsector n α).variableShares p
      = bs.map k := by
  unfold variableShares variableTechnologies
  rw [filter_overVariable hf hlen]
  exact map_zipWith_right (g := fun t : Technology n α => t.results[p].share) hshare hlen

section Steps

variable [Quantity α]

theorem results_shareTechnologies (s : Subsector n α) :
    (s.shareTechnologies p).state.results = s.results := by
  unfold shareTechnologies
  split <;> rfl

theorem results_recalibrateTechnologies (s : Subsector n α) (variableOutput : α) :
    (s.recalibrateTechnologies p variableOutput).state.results = s.results := by
  unfold recalibrateTechnologies
  dsimp only
  split
  · rfl
  · split <;> rfl

theorem fixedSupplyScale_calculateCosts (s : Subsector n α) (prices : GoodTable α) :
    (s.calculateCosts p prices).state.results[p].fixedSupplyScale = 1 := by
  simp [calculateCosts, update]

omit [Quantity α] in
/-- The technologies as they are before they are shared out: with their base share weights and
without shares. -/
def resetShares (s : Subsector n α) (p : Fin n) : Subsector n α :=
  s.mapTechnologies fun t => (t.resetShareWeight p).setShare p 0

/-- Technologies that are shared out are reset, and those that are not fixed get the shares that
they are allocated as contenders. -/
theorem shareTechnologies_eq_ok {s : Subsector n α} (h : (s.shareTechnologies p).failure = none) :
    ∃ a, allocate ((s.variableTechnologies p).map (·.contender p)) = .ok a ∧
      a.shares.length = ((s.resetShares p).variableTechnologies p).length ∧
      (s.shareTechnologies p).state = { s with
        technologies := overVariable p (fun t share => t.setShare p share)
          (s.resetShares p).technologies a.shares } := by
  cases ha : allocate ((s.variableTechnologies p).map (·.contender p)) with
  | error e =>
    rw [shareTechnologies, ha] at h
    cases h
  | ok a =>
    refine ⟨a, rfl, ?_, by rw [shareTechnologies, ha]; rfl⟩
    rw [allocate_length_shares ha, List.length_map]
    exact (s.framed_mapTechnologies fun t =>
      (t.framed_update _).trans (Technology.framed_update _ _)).variableTechnologies.length_eq

/-- The technologies that are not fixed end up with the shares that they are allocated. -/
theorem variableShares_shareTechnologies {s : Subsector n α}
    (h : (s.shareTechnologies p).failure = none) :
    ∃ a, allocate ((s.variableTechnologies p).map (·.contender p)) = .ok a ∧
      (s.shareTechnologies p).state.variableShares p = a.shares := by
  obtain ⟨a, ha, hlen, hstate⟩ := shareTechnologies_eq_ok h
  -- The shares are handed to technologies that were reset, as many as took part.
  have hshares := variableShares_overVariable (s := s.resetShares p) (k := fun x => x)
    (f := fun t share => t.setShare p share) (fun _ _ => rfl)
    (fun t share => by simp [Technology.setShare, Technology.update]) hlen
  rw [List.map_id'] at hshares
  exact ⟨a, ha, hstate ▸ hshares⟩

/-- What the technologies that are not fixed aim at when they are recalibrated. -/
def technologyAims (s : Subsector n α) (p : Fin n) (variableOutput : α) : List (Aim α) :=
  (s.variableTechnologies p).map fun t =>
    ⟨t.contender p, t.parameters[p].calibrationOutput.map fun target =>
      Quantity.smaller (target / variableOutput) 1⟩

theorem recalibrateTechnologies_eq (s : Subsector n α) (variableOutput : α) :
    s.recalibrateTechnologies p variableOutput =
      if variableOutput ≤ 0 || !(s.variableTechnologies p).any (·.isCalibrated p) then .ok s
      else match (recalibrate (s.technologyAims p variableOutput)).outcome with
        | .error e => .fail s (.within (.recalibratingTechnologies s.path) (.allocation e))
        | .ok allocation => .ok { s with
            technologies := overVariable p (Technology.takeUp p) s.technologies
              ((recalibrate (s.technologyAims p variableOutput)).contenders.zip
                allocation.shares) } :=
  rfl

/-- Technologies that take up the outcome of a recalibration have the shares that it gives them. -/
theorem variableShares_takeUp {s : Subsector n α} {variableOutput : α} {b : Allocation α}
    (h : (recalibrate (s.technologyAims p variableOutput)).outcome = .ok b) :
    ({ s with
      technologies := overVariable p (Technology.takeUp p) s.technologies
        ((recalibrate (s.technologyAims p variableOutput)).contenders.zip b.shares) } :
          Subsector n α).variableShares p = b.shares := by
  obtain ⟨hallocate, hcontenders⟩ := recalibrate_allocates h
  have hshares := allocate_length_shares hallocate
  rw [variableShares_overVariable (k := Prod.snd) (Technology.isFixed_takeUp p)
    (Technology.share_takeUp p), List.map_snd_zip hshares.le]
  rw [List.length_zip, hshares, Nat.min_self, hcontenders, technologyAims, List.length_map]

/-- A recalibration of the technologies that does not fail has nothing to do, or hands to those
that are not fixed the contenders and shares that their aims come to. -/
theorem recalibrateTechnologies_eq_ok {s : Subsector n α} {variableOutput : α}
    (h : (s.recalibrateTechnologies p variableOutput).failure = none) :
    ((variableOutput ≤ 0 ∨ ∀ t ∈ s.variableTechnologies p, t.isCalibrated p = false) ∧
        (s.recalibrateTechnologies p variableOutput).state = s) ∨
      ¬variableOutput ≤ 0 ∧ ∃ b, (recalibrate (s.technologyAims p variableOutput)).outcome = .ok b ∧
        ((recalibrate (s.technologyAims p variableOutput)).contenders.zip b.shares).length
          = (s.variableTechnologies p).length ∧
        (s.recalibrateTechnologies p variableOutput).state =
          { s with
            technologies := overVariable p (Technology.takeUp p) s.technologies
              ((recalibrate (s.technologyAims p variableOutput)).contenders.zip b.shares) } := by
  rw [recalibrateTechnologies_eq] at h ⊢
  split at h
  · next hnobody =>
    rw [if_pos hnobody]
    refine .inl ⟨?_, rfl⟩
    simpa [List.any_eq_false] using hnobody
  · next hsomebody =>
    rw [if_neg hsomebody]
    rw [Bool.or_eq_true, not_or, decide_eq_true_eq] at hsomebody
    refine .inr ⟨hsomebody.1, ?_⟩
    cases ho : (recalibrate (s.technologyAims p variableOutput)).outcome with
    | error e =>
      rw [ho] at h
      cases h
    | ok b =>
      obtain ⟨hallocate, hcontenders⟩ := recalibrate_allocates ho
      refine ⟨b, rfl, ?_, rfl⟩
      rw [List.length_zip, allocate_length_shares hallocate, Nat.min_self, hcontenders,
        technologyAims, List.length_map]

/-- Fixed supply does not depend on anything that is calculated but the scale. -/
theorem Framed.fixedSupply {s s' : Subsector n α} (h : s.Framed p s')
    (hscale : s'.results[p].fixedSupplyScale = s.results[p].fixedSupplyScale) :
    s'.fixedSupply p = s.fixedSupply p := by
  rw [Subsector.fixedSupply, Subsector.fixedSupply, hscale,
    filterMap_eq_of_forall₂ h.technologies fun ht => by rw [ht.parameters]]

theorem produce_eq (s : Subsector n α) (variableOutput : α) :
    s.produce p variableOutput = s.mapTechnologies fun t =>
      t.setOutput p (t.supply p s.results[p].fixedSupplyScale variableOutput) := by
  refine congrArg s.mapTechnologies (funext fun t => ?_)
  cases hfixed : t.parameters[p].fixedOutput <;> simp [Technology.supply, hfixed]

theorem technologies_takeStock (s : Subsector n α) (output : α) :
    (s.takeStock p output).technologies =
      if 0 < output then s.technologies.map fun t => t.setShare p (t.results[p].output / output)
      else s.technologies := by
  unfold takeStock
  dsimp only
  split <;> rfl

/-- Taking stock leaves everybody with what they produce. -/
theorem forall₂_takeStock (s : Subsector n α) (output : α) :
    List.Forall₂
      (fun t t' => t.parameters = t'.parameters ∧ t.results[p].output = t'.results[p].output)
      s.technologies (s.takeStock p output).technologies := by
  rw [technologies_takeStock]
  split
  · refine forall₂_map_self (fun t => ⟨rfl, ?_⟩) s.technologies
    simp [Technology.setShare, Technology.update]
  · exact List.forall₂_same.2 fun t _ => ⟨rfl, rfl⟩

end Steps

variable [ExactQuantity α]

/-- What technologies produce that are at one multiple of their fixed outputs, if these are given,
and that together produce an output. -/
structure Produces (p : Fin n) (output multiple : α) (s : Subsector n α) : Prop where
  nonneg : ∀ t ∈ s.technologies, 0 ≤ t.results[p].output
  sum_eq : (s.technologies.map fun t => t.results[p].output).sum = output
  fixed_eq : ∀ t ∈ s.technologies, ∀ fixed, t.parameters[p].fixedOutput = some fixed →
    t.results[p].output = fixed * multiple

theorem Produces.of_forall₂ {s s' : Subsector n α} {output multiple : α}
    (h : s.Produces p output multiple)
    (hsame : List.Forall₂
      (fun t t' => t.parameters = t'.parameters ∧ t.results[p].output = t'.results[p].output)
      s.technologies s'.technologies) : s'.Produces p output multiple := by
  refine ⟨?_, ?_, ?_⟩
  · refine forall_mem_of_forall₂ hsame fun t hmem t' ht => ?_
    rw [← ht.2]
    exact h.nonneg t hmem
  · rw [← map_eq_of_forall₂ hsame fun ht => ht.2]
    exact h.sum_eq
  · refine forall_mem_of_forall₂ hsame fun t hmem t' ht fixed hfixed => ?_
    rw [← ht.2]
    exact h.fixed_eq t hmem fixed (ht.1 ▸ hfixed)

theorem produces_takeStock_iff {s : Subsector n α} {output multiple : α} (output' : α) :
    (s.takeStock p output').Produces p output multiple ↔ s.Produces p output multiple := by
  have hsame := s.forall₂_takeStock (p := p) output'
  exact ⟨fun h => h.of_forall₂ (hsame.flip.imp fun _ _ ht => ⟨ht.1.symm, ht.2.symm⟩),
    fun h => h.of_forall₂ hsame⟩

/-- A subsector that is prepared to produce: neither the fixed outputs nor their scale are negative,
and the other technologies have shares of a whole. -/
structure Ready (p : Fin n) (s : Subsector n α) : Prop where
  fixed_nonneg : ∀ t ∈ s.technologies, ∀ fixed, t.parameters[p].fixedOutput = some fixed → 0 ≤ fixed
  scale_nonneg : 0 ≤ s.results[p].fixedSupplyScale
  whole : MakeWhole (s.variableShares p)

/-- Fixed outputs are an input. -/
theorem Framed.fixed_nonneg {s s' : Subsector n α} (h : s.Framed p s')
    (hs : ∀ t ∈ s.technologies, ∀ fixed, t.parameters[p].fixedOutput = some fixed → 0 ≤ fixed) :
    ∀ t ∈ s'.technologies, ∀ fixed, t.parameters[p].fixedOutput = some fixed → 0 ≤ fixed :=
  forall_mem_of_forall₂ h.technologies fun t hmem _ ht fixed hfixed =>
    hs t hmem fixed (ht.parameters ▸ hfixed)

theorem fixedSupply_eq_sum (s : Subsector n α) :
    s.fixedSupply p = (s.technologies.map fun t => t.parameters[p].fixedOutput.getD 0).sum
      * s.results[p].fixedSupplyScale := by
  rw [fixedSupply, Quantity.total_eq_sum, sum_filterMap]

theorem Ready.fixedSupply_nonneg {s : Subsector n α} (hs : s.Ready p) : 0 ≤ s.fixedSupply p := by
  rw [fixedSupply_eq_sum]
  refine mul_nonneg (List.sum_nonneg (List.forall_mem_map.2 fun t hmem => ?_)) hs.scale_nonneg
  cases hfixed : t.parameters[p].fixedOutput with
  | none => exact le_rfl
  | some fixed => exact hs.fixed_nonneg t hmem fixed hfixed

section Sharing

/-- Sharing out the variable output never fails, and gives out shares of a whole. -/
theorem shareTechnologies_whole (s : Subsector n α) :
    (s.shareTechnologies p).failure = none ∧
      MakeWhole ((s.shareTechnologies p).state.variableShares p) := by
  obtain ⟨a, ha, hwhole⟩ :
      ∃ a, allocate ((s.variableTechnologies p).map (·.contender p)) = .ok a ∧ MakeWhole a.shares :=
    allocate_unlimited (List.forall_mem_map.2 fun t _ => ⟨rfl, rfl⟩)
  have hok : (s.shareTechnologies p).failure = none := by rw [shareTechnologies, ha]
  obtain ⟨b, hb, hshares⟩ := variableShares_shareTechnologies hok
  obtain rfl := Except.ok.inj (ha.symm.trans hb)
  rw [hshares]
  exact ⟨hok, hwhole⟩

/-- Recalibration of the technologies never fails, and gives out shares of a whole again. -/
theorem recalibrateTechnologies_whole {s : Subsector n α} (hs : MakeWhole (s.variableShares p))
    (variableOutput : α) :
    (s.recalibrateTechnologies p variableOutput).failure = none ∧
      MakeWhole ((s.recalibrateTechnologies p variableOutput).state.variableShares p) := by
  rw [recalibrateTechnologies_eq]
  split
  · exact ⟨rfl, hs⟩
  · have hunlimited : ∀ x ∈ s.technologyAims p variableOutput, x.contender.Unlimited :=
      List.forall_mem_map.2 fun t _ => ⟨rfl, rfl⟩
    obtain ⟨b, hb, hwhole, -⟩ := recalibrate_unlimited hunlimited
    rw [hb]
    dsimp only [Run.ok]
    rw [variableShares_takeUp hb]
    exact ⟨rfl, hwhole⟩

theorem Ready.recalibrateTechnologies {s : Subsector n α} (hs : s.Ready p) (variableOutput : α) :
    (s.recalibrateTechnologies p variableOutput).state.Ready p where
  fixed_nonneg := (s.framed_recalibrateTechnologies variableOutput).fixed_nonneg hs.fixed_nonneg
  scale_nonneg := by
    rw [s.results_recalibrateTechnologies]
    exact hs.scale_nonneg
  whole := (recalibrateTechnologies_whole hs.whole variableOutput).2

end Sharing

section Supply

/-- Scaled fixed outputs and shares of the variable output add up to fixed supply and the variable
output. -/
theorem sum_supply (s : Subsector n α) (variableOutput : α) :
    (s.technologies.map (Technology.supply p s.results[p].fixedSupplyScale variableOutput)).sum
      = s.fixedSupply p + (s.variableShares p).sum * variableOutput := by
  have hsupply : ∀ t : Technology n α,
      t.supply p s.results[p].fixedSupplyScale variableOutput
        = t.parameters[p].fixedOutput.getD 0 * s.results[p].fixedSupplyScale
          + (if !t.isFixed p then t.results[p].share else 0) * variableOutput := by
    intro t
    cases hfixed : t.parameters[p].fixedOutput <;>
      simp [Technology.supply, Technology.isFixed, hfixed]
  have hshares : (s.technologies.map fun t => if !t.isFixed p then t.results[p].share else 0).sum
      = (s.variableShares p).sum := by
    rw [List.sum_map_ite]
    simp [variableShares, variableTechnologies]
  rw [List.map_congr_left fun t _ => hsupply t, List.sum_map_add, List.sum_map_mul_right,
    List.sum_map_mul_right, hshares, fixedSupply_eq_sum]

/-- Technologies that supply what is asked for produce it. -/
theorem produces_produce {s : Subsector n α} (hs : s.Ready p) {variableOutput output : α}
    (hnonneg : 0 ≤ variableOutput)
    (hsum : s.fixedSupply p + (s.variableShares p).sum * variableOutput = output) :
    (s.produce p variableOutput).Produces p output s.results[p].fixedSupplyScale := by
  have houtput : ∀ (t : Technology n α) (x : α), (t.setOutput p x).results[p].output = x := by
    intro t x
    simp [Technology.setOutput, Technology.update]
  rw [produce_eq]
  refine ⟨List.forall_mem_map.2 fun t hmem => ?_, ?_, List.forall_mem_map.2 fun t _ => ?_⟩
  · rw [houtput]
    cases hfixed : t.parameters[p].fixedOutput with
    | some fixed =>
      rw [Technology.supply, hfixed]
      exact mul_nonneg (hs.fixed_nonneg t hmem fixed hfixed) hs.scale_nonneg
    | none =>
      rw [Technology.supply, hfixed]
      have hvariable : t ∈ s.variableTechnologies p :=
        List.mem_filter.2 ⟨hmem, by simp [Technology.isFixed, hfixed]⟩
      exact mul_nonneg (hs.whole.nonneg _ (List.mem_map_of_mem hvariable)) hnonneg
  · rw [← hsum, ← sum_supply, mapTechnologies, List.map_map]
    exact congrArg List.sum (List.map_congr_left fun t _ => houtput t _)
  · intro fixed hfixed
    have hfixed : t.parameters[p].fixedOutput = some fixed := hfixed
    rw [houtput, Technology.supply, hfixed]

/-- Before it serves an output, a subsector recalibrates its technologies if calibration is on. This
changes shares, but neither fixed supply nor what the shares add up to. -/
theorem Ready.recalibrated {s : Subsector n α} (hs : s.Ready p) (variableOutput : α)
    (calibrate : Bool) :
    let ready := if calibrate then s.recalibrateTechnologies p variableOutput else .ok s
    ready.failure = none ∧ ready.state.Ready p ∧ s.Framed p ready.state ∧
      ready.state.results = s.results := by
  cases calibrate with
  | true =>
    exact ⟨(recalibrateTechnologies_whole hs.whole variableOutput).1,
      hs.recalibrateTechnologies variableOutput, s.framed_recalibrateTechnologies variableOutput,
      s.results_recalibrateTechnologies variableOutput⟩
  | false => exact ⟨rfl, hs, .refl s, rfl⟩

/-- Once fixed supply fits, and fills the output if there is nobody else, the output is produced. -/
theorem produces_recalibrated {s : Subsector n α} (hs : s.Ready p) {output : α}
    (hfit : s.fixedSupply p ≤ output)
    (hall : s.variableTechnologies p = [] → s.fixedSupply p = output) (calibrate : Bool) :
    let variableOutput := Quantity.larger (output - s.fixedSupply p) 0
    let ready := if calibrate then s.recalibrateTechnologies p variableOutput else .ok s
    (ready.state.produce p variableOutput).Produces p output s.results[p].fixedSupplyScale := by
  intro variableOutput ready
  have hvariable : variableOutput = output - s.fixedSupply p := by
    rw [← max_eq_left (sub_nonneg.2 hfit), ← Quantity.larger_eq_max]
  obtain ⟨-, hready, hframed, hresults⟩ := hs.recalibrated variableOutput calibrate
  have hsum : ready.state.fixedSupply p
      + (ready.state.variableShares p).sum * variableOutput = output := by
    rw [hframed.fixedSupply (by rw [hresults]), hvariable]
    by_cases hnone : s.variableTechnologies p = []
    · rw [hall hnone, sub_self, mul_zero, add_zero]
    · have hsome : ready.state.variableShares p ≠ [] := by
        intro hnil
        have hlength := (hframed.variableTechnologies (p := p)).length_eq
        rw [List.map_eq_nil_iff.1 hnil] at hlength
        exact hnone (List.length_eq_zero_iff.1 hlength)
      rw [hready.whole.sum_eq hsome, one_mul, add_sub_cancel]
  have hproduces := produces_produce hready (hvariable ▸ sub_nonneg.2 hfit) hsum
  rwa [hresults] at hproduces

theorem produces_serve {s : Subsector n α} (hs : s.Ready p) {output : α}
    (hfit : s.fixedSupply p ≤ output)
    (hall : s.variableTechnologies p = [] → s.fixedSupply p = output) (calibrate : Bool) :
    (s.serve p output calibrate).failure = none ∧
      (s.serve p output calibrate).state.Produces p output s.results[p].fixedSupplyScale := by
  obtain ⟨hready, -⟩ :=
    hs.recalibrated (Quantity.larger (output - s.fixedSupply p) 0) calibrate
  refine ⟨Run.failure_andThen.2 ⟨hready, rfl⟩, ?_⟩
  rw [serve, Run.state_andThen hready]
  exact (produces_takeStock_iff output).2 (produces_recalibrated hs hfit hall calibrate)

end Supply

section Scaling

variable {s : Subsector n α}

theorem fixedSupply_scaleFixedSupply (s : Subsector n α) (factor : α) :
    (s.scaleFixedSupply p factor).fixedSupply p = s.fixedSupply p * factor := by
  simp [fixedSupply, scaleFixedSupply, update, mul_assoc]

/-- In a calibration, fixed supply is scaled to what calibration data leave of the output. -/
theorem fixedSupply_fitFixedSupply (h : s.isCalibratable p = true) (output : α) :
    (s.fitFixedSupply p output true).fixedSupply p
      = if s.fixedSupply p ≤ 0 then s.fixedSupply p
        else max (output - s.calibrationOutput p) 0 := by
  rw [fitFixedSupply, h, if_pos (Bool.and_self true), fixedSupply_scaleFixedSupply,
    fixedSupplyScaleFactor]
  split
  · rw [mul_one]
  · next hpos => rw [Quantity.larger_eq_max, mul_div_cancel₀ _ (not_le.1 hpos).ne']

theorem Ready.scaleFixedSupply (hs : s.Ready p) {factor : α} (hfactor : 0 ≤ factor) :
    (s.scaleFixedSupply p factor).Ready p where
  fixed_nonneg := hs.fixed_nonneg
  scale_nonneg := by
    simpa [Subsector.scaleFixedSupply, update] using mul_nonneg hs.scale_nonneg hfactor
  whole := hs.whole

theorem fixedSupplyScaleFactor_nonneg (target calibrated : α) {fixed : α} :
    0 ≤ fixedSupplyScaleFactor target calibrated fixed := by
  unfold fixedSupplyScaleFactor
  split
  · exact zero_le_one
  · next hpos =>
    rw [Quantity.larger_eq_max]
    exact div_nonneg (le_max_right _ _) (not_le.1 hpos).le

theorem Ready.fitFixedSupply (hs : s.Ready p) (output : α) (calibrate : Bool) :
    (s.fitFixedSupply p output calibrate).Ready p := by
  unfold Subsector.fitFixedSupply
  split
  · exact hs.scaleFixedSupply (fixedSupplyScaleFactor_nonneg _ _)
  · exact hs

theorem technologies_fitFixedSupply (s : Subsector n α) (output : α) (calibrate : Bool) :
    (s.fitFixedSupply p output calibrate).technologies = s.technologies := by
  unfold fitFixedSupply
  split <;> rfl

/-- Fixed supply is fitted only in a calibration, and only if there is somebody to calibrate. -/
theorem fitFixedSupply_eq_self {output : α} {calibrate : Bool}
    (h : calibrate = false ∨ s.variableTechnologies p = []) :
    s.fitFixedSupply p output calibrate = s := by
  rcases h with h | h <;> simp [fitFixedSupply, isCalibratable, h]

omit [ExactQuantity α] in
theorem any_variable_iff (s : Subsector n α) :
    (s.technologies.any fun t => !t.isFixed p) = true ↔ s.variableTechnologies p ≠ [] := by
  rw [variableTechnologies, ne_eq, List.filter_eq_nil_iff]
  simp

/-- An output is served as it is, after fixed supply was scaled to it, or not at all. -/
theorem setOutput_eq (s : Subsector n α) {output : α} (houtput : 0 ≤ output) (calibrate : Bool) :
    s.setOutput p output calibrate =
      let fit := s.fitFixedSupply p output calibrate
      if output < fit.fixedSupply p ∨ s.variableTechnologies p = [] ∧ 0 < fit.fixedSupply p then
        (fit.scaleFixedSupply p (output / fit.fixedSupply p)).serve p output calibrate
      else if s.variableTechnologies p ≠ [] ∨ output ≤ 0 then fit.serve p output calibrate
      else .fail fit (.unservedOutput output fit.path) := by
  rw [setOutput, if_neg (by simpa using houtput)]
  dsimp only
  rw [technologies_fitFixedSupply]
  simp only [Bool.or_eq_true, Bool.and_eq_true, Bool.not_eq_true', ← Bool.not_eq_true,
    decide_eq_true_eq, gt_iff_lt, any_variable_iff, not_not, ne_eq]

/-- Whether a subsector has neither a technology to choose nor fixed supply for an output. -/
def Unable (p : Fin n) (output : α) (s : Subsector n α) : Prop :=
  s.variableTechnologies p = [] ∧ s.fixedSupply p = 0 ∧ 0 < output

/-- What becomes of an output: it is refused if nobody can supply it, and it is served otherwise. It
is served from a state in which fixed supply fits, which is the state that the subsector was in
unless fixed supply has to be scaled. -/
inductive Response (s : Subsector n α) (p : Fin n) (output : α) (calibrate : Bool) :
    Run α (Subsector n α) → Prop
  | refused {r : Run α (Subsector n α)} (unable : s.Unable p output) (fails : r.failure ≠ none) :
      Response s p output calibrate r
  | served {x : Subsector n α} (able : ¬s.Unable p output) (ready : x.Ready p)
      (technologies : x.technologies = s.technologies) (fits : x.fixedSupply p ≤ output)
      (fills : s.variableTechnologies p = [] → x.fixedSupply p = output)
      (unscaled : calibrate = false → s.variableTechnologies p ≠ [] →
        s.fixedSupply p ≤ output → x = s) :
      Response s p output calibrate (x.serve p output calibrate)

theorem response_setOutput (hs : s.Ready p) {output : α} (houtput : 0 ≤ output)
    (calibrate : Bool) : s.Response p output calibrate (s.setOutput p output calibrate) := by
  have hself : calibrate = false ∨ s.variableTechnologies p = [] →
      s.fitFixedSupply p output calibrate = s := fitFixedSupply_eq_self
  have htechnologies := s.technologies_fitFixedSupply (p := p) output calibrate
  have hfit := hs.fitFixedSupply output calibrate
  have hfixed := hfit.fixedSupply_nonneg
  rw [setOutput_eq s houtput]
  generalize s.fitFixedSupply p output calibrate = fit at *
  dsimp only
  split
  · next hscale =>
    -- Fixed supply is scaled to the output, and nobody else has to supply anything.
    have hpos : 0 < fit.fixedSupply p := hscale.elim houtput.trans_lt And.right
    have hscaled : (fit.scaleFixedSupply p (output / fit.fixedSupply p)).fixedSupply p
        = output := by
      rw [fixedSupply_scaleFixedSupply, mul_div_cancel₀ _ hpos.ne']
    refine .served ?_ (hfit.scaleFixedSupply (div_nonneg houtput hfixed)) htechnologies hscaled.le
      (fun _ => hscaled) ?_
    · rintro ⟨hnone, hzero, -⟩
      rw [hself (.inr hnone), hzero] at hpos
      exact lt_irrefl _ hpos
    · intro hcalibrate hsome hle
      rw [hself (.inl hcalibrate)] at hscale
      rcases hscale with hlt | ⟨hnone, -⟩
      · exact absurd hle (not_le.2 hlt)
      · exact absurd hnone hsome
  · next hscale =>
    obtain ⟨hle, hzero⟩ := not_or.1 hscale
    have hle : fit.fixedSupply p ≤ output := not_lt.1 hle
    split
    · next hserve =>
      refine .served ?_ hfit htechnologies hle ?_ fun hcalibrate _ _ => hself (.inl hcalibrate)
      · rintro ⟨hnone, -, hpos⟩
        exact hserve.elim (absurd hnone) (not_le.2 hpos)
      · intro hnone
        have hnothing : output ≤ 0 := hserve.resolve_left (not_not.2 hnone)
        exact le_antisymm hle (hnothing.trans hfixed)
    · next hserve =>
      obtain ⟨hnone, hpos⟩ := not_or.1 hserve
      have hnone := not_not.1 hnone
      have hnothing : fit.fixedSupply p ≤ 0 := not_lt.1 fun hsome => hzero ⟨hnone, hsome⟩
      rw [hself (.inr hnone)] at hnothing hfixed
      exact .refused ⟨hnone, le_antisymm hnothing hfixed, not_le.1 hpos⟩ nofun

/-- An output that is not refused is produced in full. -/
theorem Response.produces {output : α} {calibrate : Bool} {r : Run α (Subsector n α)}
    (h : s.Response p output calibrate r) (hok : r.failure = none) :
    ∃ multiple, r.state.Produces p output multiple := by
  cases h with
  | refused unable fails => exact absurd hok fails
  | @served x able hx technologies fits fills unscaled =>
    have hvariable : x.variableTechnologies p = s.variableTechnologies p :=
      congrArg (List.filter _) technologies
    exact ⟨_, (produces_serve hx fits (hvariable ▸ fills) calibrate).2⟩

/-- Nobody refuses an output who could supply it. -/
theorem Response.fails_iff {output : α} {calibrate : Bool} {r : Run α (Subsector n α)}
    (h : s.Response p output calibrate r) : r.failure ≠ none ↔ s.Unable p output := by
  cases h with
  | refused unable fails => exact iff_of_true fails unable
  | @served x able hx technologies fits fills unscaled =>
    have hvariable : x.variableTechnologies p = s.variableTechnologies p :=
      congrArg (List.filter _) technologies
    exact iff_of_false (not_not.2 (produces_serve hx fits (hvariable ▸ fills) calibrate).1) able

/-- It is produced with fixed outputs at a multiple that is one unless they have to be scaled. -/
theorem Response.conserves {output : α} {calibrate : Bool} {r : Run α (Subsector n α)}
    (h : s.Response p output calibrate r) (hscale : s.results[p].fixedSupplyScale = 1) :
    (r.failure ≠ none ↔ s.Unable p output) ∧
      (r.failure = none → ∃ multiple, 0 ≤ multiple ∧ r.state.Produces p output multiple ∧
        (calibrate = false → s.variableTechnologies p ≠ [] → s.fixedSupply p ≤ output →
          multiple = 1)) := by
  refine ⟨h.fails_iff, fun hok => ?_⟩
  cases h with
  | refused unable fails => exact absurd hok fails
  | @served x able hx technologies fits fills unscaled =>
    have hvariable : x.variableTechnologies p = s.variableTechnologies p :=
      congrArg (List.filter _) technologies
    have hproduces := (produces_serve hx fits (hvariable ▸ fills) calibrate).2
    refine ⟨_, hx.scale_nonneg, hproduces, fun hcalibrate hsome hle => ?_⟩
    rw [unscaled hcalibrate hsome hle]
    exact hscale

end Scaling

/-- The costs and then the shares of the technologies. -/
def prepare (s : Subsector n α) (p : Fin n) (prices : GoodTable α) : Run α (Subsector n α) :=
  (s.calculateCosts p prices).andThen (·.shareTechnologies p)

section Preparation

variable {s : Subsector n α} {prices : GoodTable α}

theorem framed_prepare (s : Subsector n α) (prices : GoodTable α) :
    s.Framed p (s.prepare p prices).state :=
  Run.rel_state_andThen Framed.trans (s.framed_calculateCosts prices)
    fun x => x.framed_shareTechnologies

/-- Fixed supply is not scaled in a subsector that was prepared. -/
theorem fixedSupplyScale_prepare (h : (s.prepare p prices).failure = none) :
    (s.prepare p prices).state.results[p].fixedSupplyScale = 1 := by
  obtain ⟨hcosts, -⟩ := Run.failure_andThen.1 h
  rw [prepare, Run.state_andThen hcosts, results_shareTechnologies]
  exact s.fixedSupplyScale_calculateCosts prices

theorem ready_prepare
    (hfixed : ∀ t ∈ s.technologies, ∀ fixed, t.parameters[p].fixedOutput = some fixed → 0 ≤ fixed)
    (h : (s.prepare p prices).failure = none) : (s.prepare p prices).state.Ready p where
  fixed_nonneg := (s.framed_prepare prices).fixed_nonneg hfixed
  scale_nonneg := (fixedSupplyScale_prepare h).symm ▸ zero_le_one
  whole := by
    obtain ⟨hcosts, -⟩ := Run.failure_andThen.1 h
    rw [prepare, Run.state_andThen hcosts]
    exact (shareTechnologies_whole _).2

/-- A subsector refuses an output exactly if it has neither a technology to choose nor fixed supply
for it. Otherwise the technologies together produce the output, the fixed ones at one multiple of
their fixed outputs, which is one unless fixed supply has to be scaled. -/
theorem setOutput_conserves
    (hfixed : ∀ t ∈ s.technologies, ∀ fixed, t.parameters[p].fixedOutput = some fixed → 0 ≤ fixed)
    (h : (s.prepare p prices).failure = none) {output : α} (houtput : 0 ≤ output)
    (calibrate : Bool) :
    let ready := (s.prepare p prices).state
    let served := ready.setOutput p output calibrate
    (served.failure ≠ none ↔
        ready.variableTechnologies p = [] ∧ ready.fixedSupply p = 0 ∧ 0 < output) ∧
      (served.failure = none → s.Framed p served.state ∧
        ∃ multiple, 0 ≤ multiple ∧ served.state.Produces p output multiple ∧
          (calibrate = false → ready.variableTechnologies p ≠ [] → ready.fixedSupply p ≤ output →
            multiple = 1)) := by
  intro ready served
  have hready : ready.Ready p := ready_prepare hfixed h
  have hframed : s.Framed p served.state :=
    (s.framed_prepare prices).trans (ready.framed_setOutput output calibrate)
  obtain ⟨hfails, hserves⟩ := (response_setOutput hready houtput calibrate).conserves
    (fixedSupplyScale_prepare h)
  exact ⟨hfails, fun hok => ⟨hframed, hserves hok⟩⟩

end Preparation

/-- A subsector with a fixed technology, one that is calibrated and one that is neither. -/
def hydroSubsector : Subsector 1 ℚ :=
  let technology (name : String) (fixed calibrated : Option ℚ) : Technology 1 ℚ :=
    { Technology.new 1 ⟨name⟩ none with
      parameters := Series.const 1
        { TechnologyParameters.default with
          nonEnergyCost := 1
          fixedOutput := fixed
          calibrationOutput := calibrated } }
  { (Subsector.new 1 ⟨⟨"island"⟩, ⟨"power"⟩, ⟨"renewable"⟩⟩ : Subsector 1 ℚ) with
    technologies :=
      [technology "hydro" (some 4) none, technology "wind" none (some 5),
        technology "solar" none none] }

theorem hydroSubsector_conserves :
    ((∀ t ∈ hydroSubsector.technologies, ∀ fixed,
          t.parameters[(0 : Fin 1)].fixedOutput = some fixed → 0 ≤ fixed) ∧
        (hydroSubsector.prepare 0 .empty).failure = none ∧ 0 ≤ (10 : ℚ)) ∧
      let ready := (hydroSubsector.prepare 0 .empty).state
      let served := ready.setOutput 0 10 true
      (served.failure ≠ none ↔
          ready.variableTechnologies 0 = [] ∧ ready.fixedSupply 0 = 0 ∧ 0 < (10 : ℚ)) ∧
        (served.failure = none → hydroSubsector.Framed 0 served.state ∧
          ∃ multiple, 0 ≤ multiple ∧ served.state.Produces 0 10 multiple ∧
            (true = false → ready.variableTechnologies 0 ≠ [] → ready.fixedSupply 0 ≤ 10 →
              multiple = 1)) := by
  have hfixed : ∀ t ∈ hydroSubsector.technologies, ∀ fixed,
      t.parameters[(0 : Fin 1)].fixedOutput = some fixed → 0 ≤ fixed := by
    simp [hydroSubsector]
  have h : (hydroSubsector.prepare 0 .empty).failure = none := by decide +kernel
  have houtput : 0 ≤ (10 : ℚ) := by norm_num
  exact ⟨⟨hfixed, h, houtput⟩, setOutput_conserves hfixed h houtput true⟩

example : (((hydroSubsector.prepare 0 .empty).state.setOutput 0 10 false).state.technologies.map
    fun t => t.results[(0 : Fin 1)].output) = [4, 3, 3] := by
  decide +kernel

end Subsector

end NestedLogit
