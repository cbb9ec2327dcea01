import NestedLogit.Proofs.Pointwise
import NestedLogit.Sector

/-!
# Trees that are alike

Two trees of sectors, subsectors and technologies are alike if they have the same shape, the same
names and the same inputs everywhere, and if what is calculated for them is related. The relation is
a parameter at each level, because a calculation overwrites what was calculated before step by step:
after each step a little more is the same in both trees.

## Main definitions

- `Technology.Alike`, `Subsector.Alike`, `Sector.Alike` — the same inputs and related results
- `Series.At`, `Series.Elsewhere` — related in a period, and equal in all others
- `Technology.Framed`, `Subsector.Framed`, `Sector.Framed` — no difference outside of a period's
  results

## Main statements

- `Sector.Alike.eq` — alike in a period and framed by it is the same
-/

namespace NestedLogit

variable {n : Nat} {α β : Type} {p : Fin n}

namespace Series

/-- The values of a period are related. -/
def At (p : Fin n) (R : β → β → Prop) (s s' : Series n β) : Prop :=
  R s[p] s'[p]

/-- The values of all other periods are equal. -/
def Elsewhere (p : Fin n) (s s' : Series n β) : Prop :=
  ∀ q, q ≠ p → s[q] = s'[q]

theorem Elsewhere.refl (s : Series n β) : Elsewhere p s s :=
  fun _ _ => rfl

theorem Elsewhere.trans {s s' s'' : Series n β} (h : Elsewhere p s s')
    (h' : Elsewhere p s' s'') : Elsewhere p s s'' :=
  fun q hq => (h q hq).trans (h' q hq)

theorem elsewhere_modify (s : Series n β) (f : β → β) : Elsewhere p s (s.modify p f) :=
  fun _ hq => (getElem_modify_of_ne s f hq.symm).symm

/-- Series that are equal in a period and in all others are equal. -/
theorem eq_of_at {s s' : Series n β} (h : At p Eq s s') (h' : Elsewhere p s s') : s = s' := by
  refine Series.ext fun q => ?_
  by_cases hq : q = p
  · rw [hq]
    exact h
  · exact h' q hq

theorem modify_modify (s : Series n β) (f g : β → β) :
    (s.modify p f).modify p g = s.modify p fun x => g (f x) := by
  refine ext fun q => ?_
  by_cases hq : q = p
  · rw [hq, getElem_modify_self, getElem_modify_self, getElem_modify_self]
  · rw [getElem_modify_of_ne _ _ (Ne.symm hq), getElem_modify_of_ne _ _ (Ne.symm hq),
      getElem_modify_of_ne _ _ (Ne.symm hq)]

/-- A change that makes no difference at a period makes none at all. -/
theorem modify_eq_self {s : Series n β} {f : β → β} (h : f s[p] = s[p]) : s.modify p f = s :=
  (eq_of_at (h.symm.trans (getElem_modify_self s p f).symm) (elsewhere_modify s f)).symm

/-- What holds of every period still does after a change that it holds of. -/
theorem forall_modify {P : β → Prop} {s : Series n β} (h : ∀ q : Fin n, P s[q]) {f : β → β}
    (hf : P (f s[p])) (q : Fin n) : P (s.modify p f)[q] := by
  by_cases hq : q = p
  · rw [hq, getElem_modify_self]
    exact hf
  · rw [getElem_modify_of_ne s f (Ne.symm hq)]
    exact h q

theorem at_modify {R : β → β → Prop} {s s' : Series n β} {f f' : β → β}
    (h : R (f s[p]) (f' s'[p])) : At p R (s.modify p f) (s'.modify p f') := by
  unfold At
  rw [getElem_modify_self, getElem_modify_self]
  exact h

end Series

open Series (At Elsewhere)

/-- Technologies with the same inputs and related results. -/
structure Technology.Alike
    (T : Series n (TechnologyResult α) → Series n (TechnologyResult α) → Prop)
    (t t' : Technology n α) : Prop where
  id : t.id = t'.id
  fuel : t.fuel = t'.fuel
  baseShareWeight : t.baseShareWeight = t'.baseShareWeight
  parameters : t.parameters = t'.parameters
  results : T t.results t'.results

/-- Subsectors with the same inputs, related results and technologies that are alike. -/
structure Subsector.Alike (T : Series n (TechnologyResult α) → Series n (TechnologyResult α) → Prop)
    (S : Series n (SubsectorResult α) → Series n (SubsectorResult α) → Prop)
    (s s' : Subsector n α) : Prop where
  id : s.id = s'.id
  regionId : s.regionId = s'.regionId
  sectorId : s.sectorId = s'.sectorId
  technologies : List.Forall₂ (Technology.Alike T) s.technologies s'.technologies
  baseShareWeight : s.baseShareWeight = s'.baseShareWeight
  parameters : s.parameters = s'.parameters
  results : S s.results s'.results

/-- Sectors with the same inputs, related results and subsectors that are alike. -/
structure Sector.Alike (T : Series n (TechnologyResult α) → Series n (TechnologyResult α) → Prop)
    (S : Series n (SubsectorResult α) → Series n (SubsectorResult α) → Prop)
    (C : Series n (SectorResult α) → Series n (SectorResult α) → Prop)
    (s s' : Sector n α) : Prop where
  id : s.id = s'.id
  regionId : s.regionId = s'.regionId
  good : s.good = s'.good
  subsectors : List.Forall₂ (Subsector.Alike T S) s.subsectors s'.subsectors
  finalDemand : s.finalDemand = s'.finalDemand
  results : C s.results s'.results

variable {T T' T'' : Series n (TechnologyResult α) → Series n (TechnologyResult α) → Prop}
  {S S' S'' : Series n (SubsectorResult α) → Series n (SubsectorResult α) → Prop}
  {C C' C'' : Series n (SectorResult α) → Series n (SectorResult α) → Prop}

/-- Technologies that differ in nothing but what is calculated for a period. -/
abbrev Technology.Framed (p : Fin n) : Technology n α → Technology n α → Prop :=
  Technology.Alike (Elsewhere p)

/-- Subsectors that differ in nothing but what is calculated for a period. -/
abbrev Subsector.Framed (p : Fin n) : Subsector n α → Subsector n α → Prop :=
  Subsector.Alike (Elsewhere p) (Elsewhere p)

/-- Sectors that differ in nothing but what is calculated for a period. -/
abbrev Sector.Framed (p : Fin n) : Sector n α → Sector n α → Prop :=
  Sector.Alike (Elsewhere p) (Elsewhere p) (Elsewhere p)

namespace Technology

variable {t t' t'' : Technology n α}

theorem Alike.mono (h : Alike T t t') (hT : ∀ {x y}, T x y → T' x y) : Alike T' t t' :=
  { h with results := hT h.results }

theorem Alike.update (h : Alike T t t')
    {E : TechnologyResult α → TechnologyResult α → Prop}
    {f f' : TechnologyResult α → TechnologyResult α} (hf : E (f t.results[p]) (f' t'.results[p])) :
    Alike (At p E) (t.update p f) (t'.update p f') :=
  { h with results := Series.at_modify hf }

theorem Framed.refl (t : Technology n α) : t.Framed p t :=
  ⟨rfl, rfl, rfl, rfl, .refl _⟩

theorem Framed.trans (h : t.Framed p t') (h' : t'.Framed p t'') : t.Framed p t'' :=
  ⟨h.id.trans h'.id, h.fuel.trans h'.fuel, h.baseShareWeight.trans h'.baseShareWeight,
    h.parameters.trans h'.parameters, h.results.trans h'.results⟩

theorem framed_update (t : Technology n α) (f : TechnologyResult α → TechnologyResult α) :
    t.Framed p (t.update p f) :=
  ⟨rfl, rfl, rfl, rfl, Series.elsewhere_modify _ f⟩

theorem Alike.eq (h : Alike (At p Eq) t t') (h' : t.Framed p t') : t = t' := by
  obtain ⟨id, fuel, weight, parameters, results⟩ := t
  obtain ⟨rfl, rfl, rfl, rfl, hresults⟩ := h
  obtain rfl := Series.eq_of_at hresults h'.results
  rfl

end Technology

namespace Subsector

variable {s s' s'' : Subsector n α}

theorem Alike.mono (h : Alike T S s s') (hT : ∀ {x y}, T x y → T' x y)
    (hS : ∀ {x y}, S x y → S' x y) : Alike T' S' s s' :=
  { h with
    technologies := h.technologies.imp fun _ _ ht => ht.mono hT
    results := hS h.results }

theorem Alike.update (h : Alike T S s s') {E : SubsectorResult α → SubsectorResult α → Prop}
    {f f' : SubsectorResult α → SubsectorResult α} (hf : E (f s.results[p]) (f' s'.results[p])) :
    Alike T (At p E) (s.update p f) (s'.update p f') :=
  { h with results := Series.at_modify hf }

theorem Alike.withTechnologies (h : Alike T S s s') {ts ts' : List (Technology n α)}
    (hts : List.Forall₂ (Technology.Alike T') ts ts') :
    Alike T' S { s with technologies := ts } { s' with technologies := ts' } :=
  { h with technologies := hts }

theorem Alike.mapTechnologies (h : Alike T S s s') {f f' : Technology n α → Technology n α}
    (hf : ∀ {t t'}, t.Alike T t' → (f t).Alike T' (f' t')) :
    Alike T' S (s.mapTechnologies f) (s'.mapTechnologies f') :=
  h.withTechnologies (List.rel_map (fun _ _ ht => hf ht) h.technologies)

theorem Alike.path (h : Alike T S s s') : s.path = s'.path := by
  rw [Subsector.path, Subsector.path, h.regionId, h.sectorId, h.id]

theorem Framed.refl (s : Subsector n α) : s.Framed p s :=
  ⟨rfl, rfl, rfl, List.forall₂_same.2 fun t _ => Technology.Framed.refl t, rfl, rfl, .refl _⟩

theorem Framed.trans (h : s.Framed p s') (h' : s'.Framed p s'') : s.Framed p s'' :=
  ⟨h.id.trans h'.id, h.regionId.trans h'.regionId, h.sectorId.trans h'.sectorId,
    forall₂_trans Technology.Framed.trans h.technologies h'.technologies,
    h.baseShareWeight.trans h'.baseShareWeight, h.parameters.trans h'.parameters,
    h.results.trans h'.results⟩

theorem framed_update (s : Subsector n α) (f : SubsectorResult α → SubsectorResult α) :
    s.Framed p (s.update p f) :=
  { Framed.refl s with results := Series.elsewhere_modify _ f }

theorem framed_withTechnologies (s : Subsector n α) {ts : List (Technology n α)}
    (h : List.Forall₂ (Technology.Framed p) s.technologies ts) :
    s.Framed p { s with technologies := ts } :=
  (Framed.refl (p := p) s).withTechnologies h

theorem framed_mapTechnologies (s : Subsector n α) {f : Technology n α → Technology n α}
    (hf : ∀ t : Technology n α, t.Framed p (f t)) : s.Framed p (s.mapTechnologies f) :=
  s.framed_withTechnologies (forall₂_map_self hf _)

theorem Alike.eq (h : Alike (At p Eq) (At p Eq) s s') (h' : s.Framed p s') : s = s' := by
  obtain ⟨id, regionId, sectorId, technologies, weight, parameters, results⟩ := s
  obtain ⟨rfl, rfl, rfl, htechnologies, rfl, rfl, hresults⟩ := h
  obtain rfl := eq_of_forall₂ Technology.Alike.eq htechnologies h'.technologies
  obtain rfl := Series.eq_of_at hresults h'.results
  rfl

end Subsector

namespace Sector

variable {s s' s'' : Sector n α}

theorem Alike.mono (h : Alike T S C s s') (hT : ∀ {x y}, T x y → T' x y)
    (hS : ∀ {x y}, S x y → S' x y) (hC : ∀ {x y}, C x y → C' x y) : Alike T' S' C' s s' :=
  { h with
    subsectors := h.subsectors.imp fun _ _ hs => hs.mono hT hS
    results := hC h.results }

theorem Alike.update (h : Alike T S C s s') {E : SectorResult α → SectorResult α → Prop}
    {f f' : SectorResult α → SectorResult α} (hf : E (f s.results[p]) (f' s'.results[p])) :
    Alike T S (At p E) (s.update p f) (s'.update p f') :=
  { h with results := Series.at_modify hf }

theorem Alike.withSubsectors (h : Alike T S C s s') {xs xs' : List (Subsector n α)}
    (hxs : List.Forall₂ (Subsector.Alike T' S') xs xs') :
    Alike T' S' C { s with subsectors := xs } { s' with subsectors := xs' } :=
  { h with subsectors := hxs }

theorem Alike.mapSubsectors (h : Alike T S C s s') {f f' : Subsector n α → Subsector n α}
    (hf : ∀ {x x'}, x.Alike T S x' → (f x).Alike T' S' (f' x')) :
    Alike T' S' C (s.mapSubsectors f) (s'.mapSubsectors f') :=
  h.withSubsectors (List.rel_map (fun _ _ hx => hf hx) h.subsectors)

theorem Alike.path (h : Alike T S C s s') : s.path = s'.path := by
  rw [Sector.path, Sector.path, h.regionId, h.id]

/-- The technologies of sectors that are alike. -/
theorem Alike.technologies (h : Alike T S C s s') :
    List.Forall₂ (Technology.Alike T) s.technologies s'.technologies :=
  List.rel_flatMap h.subsectors fun _ _ hx => hx.technologies

/-- The fuels of a sector are an input. -/
theorem Alike.fuels (h : Alike T S C s s') : s.fuels = s'.fuels :=
  filterMap_eq_of_forall₂ h.technologies Technology.Alike.fuel

theorem Framed.refl (s : Sector n α) : s.Framed p s :=
  ⟨rfl, rfl, rfl, List.forall₂_same.2 fun x _ => Subsector.Framed.refl x, rfl, .refl _⟩

theorem Framed.trans (h : s.Framed p s') (h' : s'.Framed p s'') : s.Framed p s'' :=
  ⟨h.id.trans h'.id, h.regionId.trans h'.regionId, h.good.trans h'.good,
    forall₂_trans Subsector.Framed.trans h.subsectors h'.subsectors,
    h.finalDemand.trans h'.finalDemand, h.results.trans h'.results⟩

theorem framed_update (s : Sector n α) (f : SectorResult α → SectorResult α) :
    s.Framed p (s.update p f) :=
  { Framed.refl s with results := Series.elsewhere_modify _ f }

theorem framed_withSubsectors (s : Sector n α) {xs : List (Subsector n α)}
    (h : List.Forall₂ (Subsector.Framed p) s.subsectors xs) :
    s.Framed p { s with subsectors := xs } :=
  (Framed.refl (p := p) s).withSubsectors h

theorem framed_mapSubsectors (s : Sector n α) {f : Subsector n α → Subsector n α}
    (hf : ∀ x : Subsector n α, x.Framed p (f x)) : s.Framed p (s.mapSubsectors f) :=
  s.framed_withSubsectors (forall₂_map_self hf _)

/-- Sectors whose results of a period are equal, and that differ in nothing else, are equal. -/
theorem Alike.eq (h : Alike (At p Eq) (At p Eq) (At p Eq) s s') (h' : s.Framed p s') : s = s' := by
  obtain ⟨id, regionId, good, subsectors, finalDemand, results⟩ := s
  obtain ⟨rfl, rfl, rfl, hsubsectors, rfl, hresults⟩ := h
  obtain rfl := eq_of_forall₂ Subsector.Alike.eq hsubsectors h'.subsectors
  obtain rfl := Series.eq_of_at hresults h'.results
  rfl

end Sector

end NestedLogit
