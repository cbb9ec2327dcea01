import NestedLogit.Proofs.Subsector.Fallback

/-!
# Which fallbacks a sector reports

Shares are decided by an allocation between the subsectors of a sector and by one between the
technologies of each subsector. An allocation for whose open part nobody competes is a fallback. The
calculation of a sector reports the fallback of the allocation between its subsectors, and those of
the first allocations between technologies. A fallback that a recalibration of technologies enters
later is not reported.

## Main definitions

- `Sector.subsectorAllocation` — the allocation that decides the shares of the subsectors
- `Sector.ReportsFallbacks` — that every fallback behind a share is reported

## Main statements

- `Sector.reportsFallbacks_iff` — what is reported, and when nothing is missing
- `Sector.idlePlants_silent` — a fallback that is not reported
-/

namespace NestedLogit

variable {n : Nat} {α : Type} {p : Fin n} [Quantity α]

namespace Subsector

variable {s s' : Subsector n α} {prices : GoodTable α}

/-- What is reported of the first allocation of the technologies. -/
def fallbackReport (s : Subsector n α) (p : Fin n) : List (Event α) :=
  match s.firstAllocation p with
  | .ok first => first.fallback.toList.map (.fallbackUsed (.technologies s.path) p ·)
  | .error _ => []

theorem mem_fallbackReport {path : SubsectorPath} {fallback : Fallback} :
    .fallbackUsed (.technologies path) p fallback ∈ s.fallbackReport p ↔
      s.path = path ∧ ∃ first, s.firstAllocation p = .ok first ∧
        first.fallback = some fallback := by
  unfold fallbackReport
  cases s.firstAllocation p with
  | error e => simp
  | ok first =>
    simp only [List.mem_map, Option.mem_toList, Event.fallbackUsed.injEq,
      ChoiceGroup.technologies.injEq, Except.ok.injEq, exists_eq_left', true_and]
    constructor
    · rintro ⟨_, hused, hpath, rfl⟩
      exact ⟨hpath, hused⟩
    · rintro ⟨hpath, hused⟩
      exact ⟨_, hused, hpath, rfl⟩

theorem subsectors_not_mem_fallbackReport {path : SectorPath} {period : Nat}
    {fallback : Fallback} :
    .fallbackUsed (.subsectors path) period fallback ∉ s.fallbackReport p := by
  unfold fallbackReport
  cases s.firstAllocation p <;> simp

theorem fallbackReport_eq {first : Allocation α} (h : s.firstAllocation p = .ok first) :
    s.fallbackReport p =
      first.fallback.toList.map (.fallbackUsed (.technologies s.path) p ·) := by
  rw [fallbackReport, h]

/-- The report depends on where the subsector is and on its first allocation. -/
theorem fallbackReport_congr (hpath : s.path = s'.path)
    (hfirst : s.firstAllocation p = s'.firstAllocation p) :
    s.fallbackReport p = s'.fallbackReport p := by
  rw [fallbackReport, fallbackReport, hpath, hfirst]

/-- Calculating costs reports nothing. -/
theorem log_calculateCosts (h : (s.calculateCosts p prices).failure = none) :
    (s.calculateCosts p prices).log = [] := by
  unfold calculateCosts at h ⊢
  rw [Run.log_map, Run.log_each_eq_nil (Run.failure_map _ _ ▸ h)]
  intro t
  split
  · rfl
  · split <;> rfl

/-- Sharing out the technologies reports a fallback of their first allocation. -/
theorem shareTechnologies_reports (h : (s.shareTechnologies p).failure = none) :
    (s.shareTechnologies p).state.Opened p ∧
      (s.shareTechnologies p).log = (s.shareTechnologies p).state.fallbackReport p := by
  obtain ⟨first, hfirst, hshares⟩ := variableShares_shareTechnologies h
  have hsame : (s.shareTechnologies p).state.firstAllocation p = .ok first :=
    (sameCosts_shareTechnologies s).firstAllocation ▸ hfirst
  refine ⟨⟨first, hsame, hshares⟩, ?_⟩
  rw [fallbackReport_eq hsame, ← s.framed_shareTechnologies.path, shareTechnologies, hfirst]

/-- So does a subsector that enters the competition. -/
theorem opened_of_calculatePrice
    (h : (((s.calculateCosts p prices).andThen (·.shareTechnologies p)).andThen
      fun x => .ok (x.calculatePrice p)).failure = none) :
    let run := ((s.calculateCosts p prices).andThen (·.shareTechnologies p)).andThen
      fun x => .ok (x.calculatePrice p)
    run.state.Opened p ∧ run.log = run.state.fallbackReport p := by
  intro run
  obtain ⟨hprepare, -⟩ := Run.failure_andThen.1 h
  obtain ⟨hcosts, hshared⟩ := Run.failure_andThen.1 hprepare
  obtain ⟨hopened, hlog⟩ := shareTechnologies_reports hshared
  simp only [run]
  rw [Run.log_andThen hprepare, Run.state_andThen hprepare, Run.log_andThen hcosts,
    Run.state_andThen hcosts, log_calculateCosts hcosts, hlog]
  exact ⟨hopened.of_technologies rfl, List.append_nil _⟩

end Subsector

namespace Sector

variable {s : Sector n α} {demand : α} {prices : GoodTable α} {calibrate : Bool}

/-- The allocation that decides the shares of the subsectors: that of what they aim at once their
technologies are shared out and fixed supply fits the demand. -/
def subsectorAllocation (s : Sector n α) (p : Fin n) (demand : α) (prices : GoodTable α)
    (calibrate : Bool) : Except (AllocationError α) (Allocation α) :=
  let prepared := ((s.setDemand p demand).prepareSubsectors p prices).state
  (allocateAims ((prepared.fitted p demand calibrate).1.aims p demand calibrate)).outcome

theorem log_prepareSubsectors (h : (s.prepareSubsectors p prices).failure = none) :
    (∀ x ∈ (s.prepareSubsectors p prices).state.subsectors, x.Opened p) ∧
      (s.prepareSubsectors p prices).log =
        (s.prepareSubsectors p prices).state.subsectors.flatMap (·.fallbackReport p) := by
  unfold prepareSubsectors at h ⊢
  have heach := Run.failure_map _ _ ▸ h
  have hone := fun x hx => Subsector.opened_of_calculatePrice (Run.failure_each.1 heach x hx)
  rw [Run.state_map, Run.log_map, Run.log_each heach, Run.state_each heach, List.flatMap_map]
  exact ⟨List.forall_mem_map.2 fun x hx => (hone x hx).1,
    List.flatMap_congr fun x hx => (hone x hx).2⟩

/-- Fitting fixed supply reports no fallback. -/
theorem not_fallbackUsed_of_fitted {e : Event α} (h : e ∈ (s.fitted p demand calibrate).2)
    (group : ChoiceGroup) (period : Nat) (fallback : Fallback) :
    e ≠ .fallbackUsed group period fallback := by
  rintro rfl
  unfold fitted scaleFixedSupplies at h
  split at h
  · split at h
    · next hfactor =>
      unfold fixedSupplyFactor at hfactor
      dsimp only at hfactor
      split at hfactor
      · cases hfactor
      · split at hfactor
        · cases hfactor
          cases h
        · split at hfactor
          · cases hfactor
            simp at h
          · cases hfactor
    · cases h
  · cases h

/-- Sharing out the demand leaves the technologies as they are, gives the subsectors the shares of
an allocation, and reports a fallback of it. -/
theorem shareSubsectors_reports (h : (s.shareSubsectors p demand calibrate).failure = none) :
    let shared := s.shareSubsectors p demand calibrate
    List.Forall₂ (fun x y : Subsector n α => y.technologies = x.technologies) s.subsectors
        shared.state.subsectors ∧
      ∃ a, (allocateAims ((s.fitted p demand calibrate).1.aims p demand calibrate)).outcome
          = .ok a ∧
        (shared.state.subsectors.map fun x => x.results[p].share) = a.shares ∧
        shared.log = (s.fitted p demand calibrate).2
          ++ a.fallback.toList.map (.fallbackUsed (.subsectors s.path) p ·) := by
  intro shared
  have hpath := (s.framed_fitted (p := p) demand calibrate).path
  have hfitted := s.forall₂_fitted (p := p)
    (R := fun x y : Subsector n α => y.technologies = x.technologies) (fun _ => rfl)
    (fun _ _ => rfl) demand calibrate
  obtain ⟨⟨fit, log⟩, hfit⟩ : ∃ x, s.fitted p demand calibrate = x := ⟨_, rfl⟩
  obtain ⟨a, ho, hshared⟩ := shareSubsectors_eq_ok hfit h
  have hlen : (decided (fit.aims p demand calibrate) a).length = fit.subsectors.length := by
    rw [length_decided ho, length_aims]
  rw [hfit] at hpath hfitted ⊢
  simp only [shared, hshared, hpath]
  refine ⟨?_, a, ho, ?_, rfl⟩
  · have haward : List.Forall₂ (fun x y : Subsector n α => y.technologies = x.technologies)
        fit.subsectors (awardEach p fit.subsectors (decided (fit.aims p demand calibrate) a)) :=
      forall₂_zipWith_self (fun x d => by rw [award_eq_update]; rfl) hlen.ge
    exact forall₂_trans (fun hxy hyz => hyz.trans hxy) hfitted haward
  · rw [shares_awardEach hlen, shares_decided ho]

/-- Producing an output decides the shares of the technologies, and reports nothing. -/
theorem produce_decides (hs : ∀ x ∈ s.subsectors, x.Opened p) {output : α}
    (h : (s.produce p output calibrate).failure = none) :
    let produced := s.produce p output calibrate
    (∀ z ∈ produced.state.subsectors, ∃ first last, z.Decided p calibrate first last) ∧
      s.subsectors.flatMap (·.fallbackReport p)
        = produced.state.subsectors.flatMap (·.fallbackReport p) ∧
      produced.log = [] := by
  intro produced
  have heach := Run.failure_map _ _ ▸ h
  have hone := Run.failure_each.1 heach
  simp only [produced, produce, Run.state_map, Run.log_map, Run.state_each heach]
  refine ⟨List.forall_mem_map.2 fun x hx => ?_, ?_, Run.log_each_eq_nil heach fun x => ?_⟩
  · exact (hs x hx).decided_setOutput (hone x hx)
  · rw [List.flatMap_map]
    refine List.flatMap_congr fun x hx => Subsector.fallbackReport_congr ?_ ?_
    · exact (x.framed_setOutput (p := p) _ calibrate).path
    · exact (Subsector.sameCosts_setOutput (hone x hx)).firstAllocation
  · exact x.log_setOutput _ calibrate

/-- How the shares of a sector came about and what was reported of it, if its calculation comes to
its end. -/
theorem calculate_reports (h : (s.calculate p demand prices calibrate).failure = none) :
    let run := s.calculate p demand prices calibrate
    (∀ z ∈ run.state.subsectors, ∃ first last, z.Decided p calibrate first last) ∧
      ∃ a log, s.subsectorAllocation p demand prices calibrate = .ok a ∧
        (run.state.subsectors.map fun z => z.results[p].share) = a.shares ∧
        (∀ e ∈ log, ∀ group period fallback, e ≠ .fallbackUsed group period fallback) ∧
        run.log = run.state.subsectors.flatMap (·.fallbackReport p) ++ (log
          ++ a.fallback.toList.map (.fallbackUsed (.subsectors s.path) p ·)) := by
  obtain ⟨hprepared, hshared, hproduced, hstate⟩ := calculate_eq_ok h
  have hpath : s.path = ((s.setDemand p demand).prepareSubsectors p prices).state.path :=
    ((s.setDemand p demand).framed_prepareSubsectors (p := p) prices).path
  dsimp only
  rw [log_calculate h, hstate]
  obtain ⟨hopened, hreport⟩ := log_prepareSubsectors hprepared
  generalize ha : s.subsectorAllocation p demand prices calibrate = outcome
  rw [subsectorAllocation] at ha
  rw [hreport, hpath]
  generalize ((s.setDemand p demand).prepareSubsectors p prices).state = prepared at *
  have hframed := prepared.framed_shareSubsectors (p := p) demand calibrate
  obtain ⟨htechnologies, a, ho, hshares, hshareLog⟩ := shareSubsectors_reports hshared
  rw [hshareLog]
  generalize (prepared.shareSubsectors p demand calibrate).state = shared at *
  have hopened' : ∀ y ∈ shared.subsectors, y.Opened p :=
    forall_mem_of_forall₂ htechnologies fun x hx y hxy => (hopened x hx).of_technologies hxy
  obtain ⟨hdecided, hreports, hproduceLog⟩ := produce_decides hopened' hproduced
  have hsame : prepared.subsectors.flatMap (·.fallbackReport p)
      = shared.subsectors.flatMap (·.fallbackReport p) :=
    flatMap_eq_of_forall₂ (forall₂_and htechnologies hframed.subsectors) fun hxy =>
      Subsector.fallbackReport_congr hxy.2.path
        (Subsector.SameCosts.of_technologies hxy.1).firstAllocation
  refine ⟨hdecided, a, (prepared.fitted p demand calibrate).2, ha ▸ ho,
    (shares_produce hproduced).trans hshares, ?_, ?_⟩
  · exact fun e he => not_fallbackUsed_of_fitted he
  · rw [hproduceLog, List.append_nil, hsame, hreports]
    rfl

/-- The fallback of the allocation that gives the subsectors their shares is reported, and no other
fallback between them. -/
theorem subsectors_reported_iff (h : (s.calculate p demand prices calibrate).failure = none) :
    let run := s.calculate p demand prices calibrate
    ∃ a, s.subsectorAllocation p demand prices calibrate = .ok a ∧
      (run.state.subsectors.map fun z => z.results[p].share) = a.shares ∧
      ∀ fallback, .fallbackUsed (.subsectors s.path) p fallback ∈ run.log ↔
        a.fallback = some fallback := by
  intro run
  obtain ⟨-, a, log, ha, hshares, hother, hlog⟩ := calculate_reports h
  refine ⟨a, ha, hshares, fun fallback => ?_⟩
  have hfirst : .fallbackUsed (.subsectors s.path) p fallback
      ∉ run.state.subsectors.flatMap (·.fallbackReport p) := by
    rw [List.mem_flatMap]
    rintro ⟨z, -, hz⟩
    exact Subsector.subsectors_not_mem_fallbackReport hz
  rw [hlog, List.mem_append, List.mem_append, or_iff_right hfirst,
    or_iff_right fun hin => hother _ hin _ _ _ rfl]
  simp

/-- Of the technologies of a subsector, the fallback of a first allocation is reported, and no
other. -/
theorem technologies_reported_iff (h : (s.calculate p demand prices calibrate).failure = none)
    (path : SubsectorPath) (fallback : Fallback) :
    let run := s.calculate p demand prices calibrate
    .fallbackUsed (.technologies path) p fallback ∈ run.log ↔
      ∃ z ∈ run.state.subsectors, z.path = path ∧
        ∃ first, z.firstAllocation p = .ok first ∧ first.fallback = some fallback := by
  intro run
  obtain ⟨-, a, log, -, -, hother, hlog⟩ := calculate_reports h
  have hlast : .fallbackUsed (.technologies path) p fallback
      ∉ a.fallback.toList.map (Event.fallbackUsed (α := α) (.subsectors s.path) p ·) := by
    simp
  rw [hlog, List.mem_append, List.mem_append, or_iff_left hlast,
    or_iff_left fun hin => hother _ hin _ _ _ rfl, List.mem_flatMap]
  simp only [Subsector.mem_fallbackReport]
  rfl

/-- Every fallback of an allocation that decided shares is reported, with the group that it was for:
of the one between the subsectors, and of the last one between the technologies of each. -/
structure ReportsFallbacks (s : Sector n α) (p : Fin n) (demand : α) (prices : GoodTable α)
    (calibrate : Bool) : Prop where
  subsectors : ∀ a fallback, s.subsectorAllocation p demand prices calibrate = .ok a →
    a.fallback = some fallback →
      .fallbackUsed (.subsectors s.path) p fallback
        ∈ (s.calculate p demand prices calibrate).log
  technologies : ∀ z ∈ (s.calculate p demand prices calibrate).state.subsectors,
    ∀ last fallback, z.lastAllocation p calibrate = .ok last → last.fallback = some fallback →
      .fallbackUsed (.technologies z.path) p fallback
        ∈ (s.calculate p demand prices calibrate).log

/-- If the calculation of a sector comes to its end, an allocation gave the subsectors their shares,
and a last one decided the shares of the technologies of each of them. The fallback of the former is
reported, and so are those of the first allocations between technologies, and no other. Thus every
fallback behind a share is reported if and only if no last allocation uses one that no first
allocation of a subsector of the same name used. -/
theorem reportsFallbacks_iff (h : (s.calculate p demand prices calibrate).failure = none) :
    let run := s.calculate p demand prices calibrate
    (∃ a, s.subsectorAllocation p demand prices calibrate = .ok a ∧
      (run.state.subsectors.map fun z => z.results[p].share) = a.shares ∧
      ∀ fallback, .fallbackUsed (.subsectors s.path) p fallback ∈ run.log ↔
        a.fallback = some fallback) ∧
    (∀ z ∈ run.state.subsectors, ∃ first last, z.Decided p calibrate first last) ∧
    (∀ path fallback, .fallbackUsed (.technologies path) p fallback ∈ run.log ↔
      ∃ z ∈ run.state.subsectors, z.path = path ∧
        ∃ first, z.firstAllocation p = .ok first ∧ first.fallback = some fallback) ∧
    (s.ReportsFallbacks p demand prices calibrate ↔
      ∀ z ∈ run.state.subsectors, ∀ last fallback, z.lastAllocation p calibrate = .ok last →
        last.fallback = some fallback → ∃ z' ∈ run.state.subsectors, z'.path = z.path ∧
          ∃ first, z'.firstAllocation p = .ok first ∧ first.fallback = some fallback) := by
  intro run
  obtain ⟨a, ha, hshares, hsubsectors⟩ := subsectors_reported_iff h
  have htechnologies := technologies_reported_iff h
  refine ⟨⟨a, ha, hshares, hsubsectors⟩, (calculate_reports h).1, htechnologies, ?_⟩
  constructor
  · intro hreports z hz last fallback hlast hused
    exact (htechnologies _ _).1 (hreports.technologies z hz last fallback hlast hused)
  · intro hfirst
    refine ⟨fun a' fallback ha' hused => ?_, fun z hz last fallback hlast hused => ?_⟩
    · obtain rfl := Except.ok.inj (ha.symm.trans ha')
      exact (hsubsectors fallback).2 hused
    · exact (htechnologies _ _).2 (hfirst z hz last fallback hlast hused)

/-- The only subsector of a sector of two plants. -/
def boilersPath : SubsectorPath :=
  ⟨⟨"island"⟩, ⟨"heat"⟩, ⟨"boilers"⟩⟩

/-- Two plants, one that is to produce nothing according to data, and one without a weight in the
choice. The first has a given base share weight. -/
def idlePlants (weight : ℚ) : Sector 1 ℚ :=
  let plant (name : String) (weight : ℚ) (calibrated : Option ℚ) : Technology 1 ℚ :=
    { (Technology.new 1 ⟨name⟩ none : Technology 1 ℚ) with
      baseShareWeight := Series.const 1 weight
      parameters := Series.const 1
        { TechnologyParameters.default with
          nonEnergyCost := 1
          calibrationOutput := calibrated } }
  { (Sector.new 1 ⟨⟨"island"⟩, ⟨"heat"⟩⟩ : Sector 1 ℚ) with
    subsectors :=
      [{ (Subsector.new 1 boilersPath : Subsector 1 ℚ) with
        technologies := [plant "coal" weight (some 0), plant "peat" 0 none] }] }

/-- Without any weight the market is split equally from the beginning, which is reported. -/
theorem idlePlants_reported :
    ((idlePlants 0).calculate 0 10 .empty true).failure = none ∧
      .fallbackUsed (.technologies boilersPath) 0 .equalSplit
        ∈ ((idlePlants 0).calculate 0 10 .empty true).log ∧
      (idlePlants 0).ReportsFallbacks 0 10 .empty true := by
  have h : ((idlePlants 0).calculate 0 10 .empty true).failure = none := by decide +kernel
  have hboilers : (((idlePlants 0).calculate 0 10 .empty true).state.subsectors.any fun z =>
      z.path = boilersPath) = true := by
    decide +kernel
  have hsplit : (((idlePlants 0).calculate 0 10 .empty true).state.subsectors.all fun z =>
      ((z.firstAllocation 0).toOption.any fun a => a.fallback = some .equalSplit) &&
        (z.lastAllocation 0 true).toOption.any fun a => a.fallback = some .equalSplit) = true := by
    decide +kernel
  have hboth : ∀ z ∈ ((idlePlants 0).calculate 0 10 .empty true).state.subsectors,
      (∃ first, z.firstAllocation 0 = .ok first ∧ first.fallback = some .equalSplit) ∧
        ∃ last, z.lastAllocation 0 true = .ok last ∧ last.fallback = some .equalSplit := by
    intro z hz
    obtain ⟨hfirst, hlast⟩ := Bool.and_eq_true_iff.1 (List.all_eq_true.1 hsplit z hz)
    obtain ⟨first, hfirst, hfirstUsed⟩ := exists_eq_ok_of_any hfirst
    obtain ⟨last, hlast, hlastUsed⟩ := exists_eq_ok_of_any hlast
    exact ⟨⟨first, hfirst, of_decide_eq_true hfirstUsed⟩, last, hlast, of_decide_eq_true hlastUsed⟩
  obtain ⟨-, -, hlog, hreports⟩ := reportsFallbacks_iff h
  obtain ⟨z, hz, hpath⟩ := List.any_eq_true.1 hboilers
  refine ⟨h, (hlog _ _).2 ⟨z, hz, of_decide_eq_true hpath, (hboth z hz).1⟩, hreports.2 ?_⟩
  intro z hz last fallback hlast hused
  obtain ⟨hfirst, last', hlast', hused'⟩ := hboth z hz
  obtain rfl := Except.ok.inj (hlast.symm.trans hlast')
  obtain rfl := Option.some.inj (hused.symm.trans hused')
  exact ⟨z, hz, rfl, hfirst⟩

/-- With a weight of the first plant there is a choice at first. Its recalibration leaves nobody to
choose and splits the market equally, and nothing is reported. -/
theorem idlePlants_silent :
    ((idlePlants 1).calculate 0 10 .empty true).failure = none ∧
      ((idlePlants 1).calculate 0 10 .empty true).log = [] ∧
      ¬(idlePlants 1).ReportsFallbacks 0 10 .empty true := by
  have h : ((idlePlants 1).calculate 0 10 .empty true).failure = none := by decide +kernel
  have hlog : ((idlePlants 1).calculate 0 10 .empty true).log = [] :=
    List.isEmpty_iff.1 (by decide +kernel)
  have hsplit : (((idlePlants 1).calculate 0 10 .empty true).state.subsectors.any fun z =>
      (z.lastAllocation 0 true).toOption.any fun a => a.fallback = some .equalSplit) = true := by
    decide +kernel
  refine ⟨h, hlog, fun hreports => ?_⟩
  obtain ⟨z, hz, hlast⟩ := List.any_eq_true.1 hsplit
  obtain ⟨last, hlast, hused⟩ := exists_eq_ok_of_any hlast
  have hreported := hreports.technologies z hz last .equalSplit hlast (of_decide_eq_true hused)
  rw [hlog] at hreported
  cases hreported

end Sector

end NestedLogit
