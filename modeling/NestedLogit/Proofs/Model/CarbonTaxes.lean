import NestedLogit.Proofs.Model.TaxRows
import NestedLogit.Proofs.World.Frame
import NestedLogit.Proofs.World.Taxation

/-!
# Policies from rows

Which rows policies can be made from, and what the policies are then: each of them covers the
regions that its rows name, its tax in a period is that of the last row up to it, and no region is
covered by two of them.

## Main definitions

- `CarbonTaxRow.Acceptable` — rows that policies can be made from
- `Policy.GivenBy` — that a policy is what its rows say

## Main statements

- `Policy.ofGroups_eq_ok_iff` — which groups of rows make policies
- `Policy.acceptable_of_ofRows`, `Policy.exists_ofRows` — which rows do
- `Policy.ofRows_unambiguous` — what the policies are, and what imposing them comes to
-/

namespace NestedLogit

variable {n : ℕ} {α : Type} {c : Calendar n} {regions : List RegionId}

/-- Rows that policies can be made from: their taxes are finite, their years are years of the
calendar, no policy has two rows for a year or none for the first one, and it has the same regions
in all of them. These are regions there are, and no other policy has them. -/
structure CarbonTaxRow.Acceptable [Quantity α] (c : Calendar n) (regions : List RegionId)
    (rows : List (CarbonTaxRow α)) : Prop where
  finite : ∀ row ∈ rows, Quantity.isFinite row.tax = true
  dated : ∀ row ∈ rows, ∃ p : Fin n, c.year p = row.year
  distinct : (rows.map fun row => (row.policy, row.year)).Nodup
  opened : ∀ row ∈ rows, ∃ row' ∈ rows, row'.policy = row.policy ∧ row'.year = c.year c.first
  alike : ∃ text : String → String, ∀ row ∈ rows, row.regions = text row.policy
  legible : ∀ row ∈ rows, Naming.Legible row.regions regions
  apart : ∀ a ∈ rows, ∀ b ∈ rows, a.policy ≠ b.policy →
    ∀ id ∈ regions, ¬(Naming.Names a.regions id ∧ Naming.Names b.regions id)

namespace Policy

variable {p : Policy n α} {covered : List RegionId}

/-- The regions of a policy, out of those there are. -/
def scope (p : Policy n α) (regions : List RegionId) : List RegionId :=
  p.regions.getD regions

theorem covers_iff {id : RegionId} (hid : id ∈ regions) :
    p.covers id = true ↔ id ∈ p.scope regions := by
  unfold covers scope
  cases p.regions with
  | none => exact iff_of_true rfl hid
  | some listed => exact decide_eq_true_iff

/-- A policy is what its rows say: it covers the regions that their texts name, and the tax of a
period is that of the row in force. -/
structure GivenBy (c : Calendar n) (regions : List RegionId) (rows : List (CarbonTaxRow α))
    (p : Policy n α) : Prop where
  covers_iff : ∀ id ∈ regions,
    (p.covers id = true ↔ ∃ row ∈ rows, row.policy = p.name ∧ Naming.Names row.regions id)
  tax : ∀ k : Fin n, ∃ row, CarbonTaxRow.InForce c rows p.name k row ∧ p.tax[k] = row.tax

variable [Quantity α] {policies : List (Policy n α)} {group : String × Sparse (CarbonTaxRow α)}
  {groups : List (String × Sparse (CarbonTaxRow α))} {rows : List (CarbonTaxRow α)}

/-- What the rows of a policy make. -/
structure MadeOf (c : Calendar n) (regions : List RegionId)
    (group : String × Sparse (CarbonTaxRow α)) (p : Policy n α) : Prop where
  name : p.name = group.1
  listed : CarbonTaxRow.listedRegions regions group.2 = .ok p.regions
  tax : (group.2.filterMap fun row => some row.tax).carryForward c 0 = .ok p.tax

section Groups

/-- The first group makes a policy if none of its regions is covered, and then come the others. -/
theorem ofGroups_cons_eq_ok :
    ofGroups c regions covered (group :: groups) = .ok policies ↔
      ∃ p rest, policies = p :: rest ∧ MadeOf c regions group p ∧
        (∀ id ∈ p.scope regions, id ∉ covered) ∧
          ofGroups c regions (covered ++ p.scope regions) groups = .ok rest := by
  obtain ⟨name, rows⟩ := group
  constructor
  · intro h
    obtain ⟨listed, hlisted, h⟩ := bind_eq_ok.1 h
    dsimp only at h
    split at h
    · cases h
    · next hfree =>
      obtain ⟨tax, htax, h⟩ := bind_eq_ok.1 h
      obtain ⟨rest, hrest, h⟩ := bind_eq_ok.1 h
      cases h
      refine ⟨_, rest, rfl, ⟨rfl, hlisted, mapError_eq_ok.1 htax⟩, fun id hid => ?_, hrest⟩
      simpa using List.find?_eq_none.1 hfree id hid
  · rintro ⟨⟨_, listed, tax⟩, rest, rfl, ⟨rfl, hlisted, htax⟩, hfree, hrest⟩
    have hnone : (listed.getD regions).find? (· ∈ covered) = none :=
      List.find?_eq_none.2 fun id hid => by simpa using hfree id hid
    refine bind_eq_ok.2 ⟨listed, hlisted, ?_⟩
    dsimp only
    rw [hnone]
    exact bind_eq_ok.2 ⟨tax, mapError_eq_ok.2 htax, bind_eq_ok.2 ⟨rest, hrest, rfl⟩⟩

/-- Groups make policies one by one, as long as none of these has a region that was covered before
or that another one has. -/
theorem ofGroups_eq_ok_iff :
    ofGroups c regions covered groups = .ok policies ↔
      List.Forall₂ (MadeOf c regions) groups policies ∧
        (∀ p ∈ policies, ∀ id ∈ p.scope regions, id ∉ covered) ∧
          policies.Pairwise fun a b => ∀ id ∈ b.scope regions, id ∉ a.scope regions := by
  induction groups generalizing covered policies with
  | nil =>
    rw [List.forall₂_nil_left_iff]
    constructor
    · intro h
      cases h
      exact ⟨rfl, by simp, .nil⟩
    · rintro ⟨rfl, -, -⟩
      rfl
  | cons group rest ih =>
    rw [ofGroups_cons_eq_ok]
    constructor
    · rintro ⟨p, others, rfl, hp, hfree, hothers⟩
      obtain ⟨hmade, hnew, hapart⟩ := ih.1 hothers
      refine ⟨.cons hp hmade, List.forall_mem_cons.2 ⟨hfree, ?_⟩, .cons ?_ hapart⟩
      · exact fun q hq id hid hcovered => hnew q hq id hid (List.mem_append_left _ hcovered)
      · exact fun q hq id hid hfirst => hnew q hq id hid (List.mem_append_right _ hfirst)
    · rintro ⟨hmade, hnew, hapart⟩
      cases hmade with
      | @cons _ p _ others hp hothers =>
        obtain ⟨hfree, hnew⟩ := List.forall_mem_cons.1 hnew
        obtain ⟨hfirst, hapart⟩ := List.pairwise_cons.1 hapart
        refine ⟨p, others, rfl, hp, hfree, ih.2 ⟨hothers, fun q hq id hid hmem => ?_, hapart⟩⟩
        rcases List.mem_append.1 hmem with hcovered | hmem
        · exact hnew q hq id hid hcovered
        · exact hfirst q hq id hid hmem

end Groups

section Makes

variable {text : String → String} (hp : MadeOf c regions group p)
  (hgroup : CarbonTaxRow.GroupOf c rows group.1 group.2)
  (htext : ∀ row ∈ rows, row.regions = text row.policy)
include hp hgroup htext

/-- A group of rows begins with a row that has the regions of the policy. -/
theorem MadeOf.exists_head :
    ∃ e others, group.2.entries = e :: others ∧ e.2.regions = text p.name := by
  obtain ⟨e, others, hentries⟩ := List.exists_cons_of_ne_nil hgroup.nonempty
  obtain ⟨hmem, hpolicy, -⟩ := (hgroup.entry e.1 e.2).1 (hentries ▸ List.mem_cons_self)
  refine ⟨e, others, hentries, ?_⟩
  rw [htext _ hmem, hpolicy, hp.name]

theorem MadeOf.legible : Naming.Legible (text p.name) regions := by
  obtain ⟨e, others, hentries, hregions⟩ := hp.exists_head hgroup htext
  exact hregions ▸ (CarbonTaxRow.listedRegions_eq_ok hentries hp.listed).1

theorem MadeOf.mem_scope_iff {id : RegionId} :
    id ∈ p.scope regions ↔ id ∈ regions ∧ Naming.Names (text p.name) id := by
  obtain ⟨e, others, hentries, hregions⟩ := hp.exists_head hgroup htext
  exact hregions ▸ (CarbonTaxRow.listedRegions_eq_ok hentries hp.listed).2 id

theorem MadeOf.givenBy : p.GivenBy c regions rows := by
  constructor
  · intro id hid
    rw [covers_iff hid, hp.mem_scope_iff hgroup htext, and_iff_right hid]
    obtain ⟨⟨period, row⟩, hrow⟩ := List.exists_mem_of_ne_nil _ hgroup.nonempty
    obtain ⟨hmem, hpolicy, -⟩ := (hgroup.entry period row).1 hrow
    constructor
    · intro hnames
      refine ⟨row, hmem, hpolicy.trans hp.name.symm, ?_⟩
      rwa [htext row hmem, hpolicy, ← hp.name]
    · rintro ⟨row, hmem, hpolicy, hnames⟩
      rwa [htext row hmem, hpolicy] at hnames
  · rw [hp.name]
    exact hgroup.exists_inForce (Sparse.carried_carryForward hp.tax)

end Makes

theorem ofRows_eq_ok : ofRows c regions rows = .ok policies ↔
    ∃ placed, CarbonTaxRow.place c [] rows = .ok placed ∧
      ∃ groups, Grouping.ofRows placed = .ok groups ∧
        ofGroups c regions [] groups.entries = .ok policies := by
  unfold ofRows
  simp only [bind_eq_ok, mapError_eq_ok]

/-- Policies that were made of rows are as the rows say. -/
theorem exists_text_of_ofRows (h : ofRows c regions rows = .ok policies) :
    ∃ text : String → String, (∀ row ∈ rows, row.regions = text row.policy) ∧
      policies.map (·.name) = (rows.map (·.policy)).eraseDups ∧
        ∀ p ∈ policies, ∃ group, MadeOf c regions group p ∧
          CarbonTaxRow.GroupOf c rows group.1 group.2 := by
  obtain ⟨placed, hplaced, groups, hgroups, h⟩ := ofRows_eq_ok.1 h
  obtain ⟨-, -, text, htext, -⟩ := CarbonTaxRow.exists_place_iff.1 ⟨placed, hplaced⟩
  have hplaces := CarbonTaxRow.forall₂_placed hplaced
  have hmade := (ofGroups_eq_ok_iff.1 h).1
  refine ⟨text, htext, ?_, forall_mem_of_forall₂ hmade fun e he p hp =>
    ⟨e, hp, CarbonTaxRow.groupOf_of_mem hplaces hgroups he⟩⟩
  rw [← CarbonTaxRow.keys_groups hplaces hgroups]
  exact (map_eq_of_forall₂ hmade fun hp => hp.name.symm).symm

theorem pairwise_apart (h : ofRows c regions rows = .ok policies) :
    policies.Pairwise (Apart regions) := by
  obtain ⟨placed, -, groups, -, h⟩ := ofRows_eq_ok.1 h
  refine (ofGroups_eq_ok_iff.1 h).2.2.imp fun hapart id hid hboth => ?_
  exact hapart id ((covers_iff hid).1 hboth.2) ((covers_iff hid).1 hboth.1)

theorem acceptable_of_ofRows (h : ofRows c regions rows = .ok policies) :
    CarbonTaxRow.Acceptable c regions rows := by
  obtain ⟨text, htext, hnames, hmade⟩ := exists_text_of_ofRows h
  have hapart := pairwise_apart h
  obtain ⟨placed, hplaced, groups, hgroups, -⟩ := ofRows_eq_ok.1 h
  obtain ⟨hfinite, hdated, -⟩ := CarbonTaxRow.exists_place_iff.1 ⟨placed, hplaced⟩
  have hpolicy : ∀ row ∈ rows, ∃ p ∈ policies, p.name = row.policy ∧
      ∃ group, MadeOf c regions group p ∧ CarbonTaxRow.GroupOf c rows group.1 group.2 := by
    intro row hrow
    have hname : row.policy ∈ policies.map (·.name) :=
      hnames ▸ List.mem_eraseDups.2 (List.mem_map_of_mem hrow)
    obtain ⟨p, hp, hname⟩ := List.mem_map.1 hname
    exact ⟨p, hp, hname, hmade p hp⟩
  constructor
  · exact hfinite
  · exact hdated
  · refine (CarbonTaxRow.nodup_places_iff (CarbonTaxRow.forall₂_placed hplaced)).1 ?_
    rcases Grouping.ofRows_cases placed with ⟨-, -, -, hnodup⟩ | ⟨e, he, -⟩
    · exact hnodup
    · cases hgroups.symm.trans he
  · intro row hrow
    obtain ⟨p, -, hname, group, hmade, hgroup⟩ := hpolicy row hrow
    have hfirst := hgroup.expandable_taxes_iff.1 (Sparse.expandable_of_carryForward hmade.tax)
    rwa [← hmade.name, hname] at hfirst
  · exact ⟨text, htext⟩
  · intro row hrow
    obtain ⟨p, -, hname, group, hmade, hgroup⟩ := hpolicy row hrow
    rw [htext row hrow, ← hname]
    exact hmade.legible hgroup htext
  · intro a ha b hb hne id hid hboth
    have hcovers : ∀ row ∈ rows, Naming.Names row.regions id →
        ∃ p ∈ policies, p.name = row.policy ∧ p.covers id = true := by
      intro row hrow hnames
      obtain ⟨p, hp, hname, group, hmade, hgroup⟩ := hpolicy row hrow
      refine ⟨p, hp, hname, ?_⟩
      exact ((hmade.givenBy hgroup htext).covers_iff id hid).2 ⟨row, hrow, hname.symm, hnames⟩
    obtain ⟨p, hp, hpname, hpcovers⟩ := hcovers a ha hboth.1
    obtain ⟨q, hq, hqname, hqcovers⟩ := hcovers b hb hboth.2
    obtain rfl := eq_of_pairwise_apart hapart hid p hp q hq hpcovers hqcovers
    exact hne (hpname.symm.trans hqname)

theorem exists_madeOf (h : CarbonTaxRow.Acceptable c regions rows)
    (hgroup : CarbonTaxRow.GroupOf c rows group.1 group.2) :
    ∃ p : Policy n α, MadeOf c regions group p := by
  obtain ⟨⟨period, row⟩, others, hentries⟩ := List.exists_cons_of_ne_nil hgroup.nonempty
  obtain ⟨hmem, hpolicy, -⟩ := (hgroup.entry period row).1 (hentries ▸ List.mem_cons_self)
  obtain ⟨listed, hlisted⟩ := CarbonTaxRow.exists_listedRegions hentries (h.legible row hmem)
  obtain ⟨first, hfirst, hfirstPolicy, hyear⟩ := h.opened row hmem
  have hexpandable := hgroup.expandable_taxes_iff.2
    ⟨first, hfirst, hfirstPolicy.trans hpolicy, hyear⟩
  have hperiods : ∀ e ∈ (group.2.filterMap fun row => some row.tax).entries, e.1 < n := by
    intro e he
    obtain ⟨-, -, -, -, p, hp, -⟩ := hgroup.mem_taxes_iff.1 he
    exact hp ▸ p.isLt
  obtain ⟨tax, htax⟩ : ∃ tax : Series n α,
      (group.2.filterMap fun row => some row.tax).carryForward c 0 = .ok tax :=
    (Sparse.exists_carryForward_iff hperiods).2 hexpandable
  exact ⟨⟨group.1, listed, tax⟩, rfl, hlisted, htax⟩

theorem exists_ofRows (h : CarbonTaxRow.Acceptable c regions rows) :
    ∃ policies : List (Policy n α), ofRows c regions rows = .ok policies := by
  obtain ⟨text, htext⟩ := h.alike
  obtain ⟨placed, hplaced⟩ : ∃ placed, CarbonTaxRow.place c [] rows = .ok placed :=
    CarbonTaxRow.exists_place_iff.2 ⟨h.finite, h.dated, text, htext, by simp⟩
  have hplaces := CarbonTaxRow.forall₂_placed hplaced
  rcases Grouping.ofRows_cases placed with ⟨groups, hgroups, -⟩ | ⟨_, -, hrepeated⟩
  · have hgroup : ∀ e ∈ groups.entries, CarbonTaxRow.GroupOf c rows e.1 e.2 := fun e he =>
      CarbonTaxRow.groupOf_of_mem hplaces hgroups he
    obtain ⟨policies, hmade⟩ := exists_forall₂ fun e he => exists_madeOf h (hgroup e he)
    refine ⟨policies, ofRows_eq_ok.2 ⟨placed, hplaced, groups, hgroups,
      ofGroups_eq_ok_iff.2 ⟨hmade, fun _ _ _ _ => List.not_mem_nil, ?_⟩⟩⟩
    have hscope : ∀ p ∈ policies, ∀ id, id ∈ p.scope regions → id ∈ regions ∧
        ∃ row ∈ rows, row.policy = p.name ∧ Naming.Names row.regions id := by
      refine forall_mem_of_forall₂ hmade fun e he p hp id hid => ?_
      have hin := ((hp.mem_scope_iff (hgroup e he) htext).1 hid).1
      exact ⟨hin, ((hp.givenBy (hgroup e he) htext).covers_iff id hin).1 ((covers_iff hin).2 hid)⟩
    have hnames : (policies.map (·.name)).Nodup := by
      rw [← map_eq_of_forall₂ hmade fun hp => hp.name.symm]
      exact groups.nodup
    refine (List.pairwise_map.1 hnames).imp_of_mem fun {p q} hp hq hne id hidq hidp => ?_
    obtain ⟨hid, a, ha, hpolicy, hnames⟩ := hscope p hp id hidp
    obtain ⟨-, b, hb, hpolicy', hnames'⟩ := hscope q hq id hidq
    refine h.apart a ha b hb ?_ id hid ⟨hnames, hnames'⟩
    rwa [hpolicy, hpolicy']
  · exact absurd ((CarbonTaxRow.nodup_places_iff hplaces).2 h.distinct) hrepeated.not_nodup

/-- Rows make policies exactly if they are acceptable. The policies are named in order of first
appearance, are what their rows say, and have no region in common. In a world of the same regions it
makes no difference in which order and how often all of them are imposed. -/
theorem ofRows_unambiguous (c : Calendar n) (regions : List RegionId)
    (rows : List (CarbonTaxRow α)) :
    ((∃ policies, ofRows c regions rows = .ok policies) ↔
        CarbonTaxRow.Acceptable c regions rows) ∧
      ∀ policies, ofRows c regions rows = .ok policies →
        policies.map (·.name) = (rows.map (·.policy)).eraseDups ∧
          (∀ p ∈ policies, p.GivenBy c regions rows) ∧
          policies.Pairwise (Apart regions) ∧
          ∀ w : World n α, (∀ r ∈ w.regions, r.id ∈ regions) →
            ∀ imposed : List (Policy n α), (∀ p, p ∈ imposed ↔ p ∈ policies) →
              imposed.foldl World.setTax w = w.underPolicies policies := by
  refine ⟨⟨fun ⟨_, h⟩ => acceptable_of_ofRows h, exists_ofRows⟩, fun policies h => ?_⟩
  obtain ⟨text, htext, hnames, hmade⟩ := exists_text_of_ofRows h
  have hapart := pairwise_apart h
  refine ⟨hnames, fun p hp => ?_, hapart, fun w hregions imposed hmem => ?_⟩
  · obtain ⟨group, hmade, hgroup⟩ := hmade p hp
    exact hmade.givenBy hgroup htext
  · exact w.foldl_setTax_eq hregions hapart hmem

/-- A tax on one island that is raised later, its rows out of order, and a tax on another. -/
def islandTaxes : List (CarbonTaxRow ℚ) :=
  [⟨"shore", " south ", 2030, 9⟩, ⟨"peak", "west", 2020, 5⟩, ⟨"shore", " south ", 2020, 4⟩]

/-- Each tax is imposed twice in a world with one of the two islands and another one. -/
theorem islandTaxes_unambiguous :
    ∃ policies : List (Policy 2 ℚ),
      ofRows World.twoYears [⟨"north"⟩, ⟨"south"⟩, ⟨"west"⟩] islandTaxes = .ok policies ∧
        (∀ r ∈ World.windyWorld.regions,
          r.id ∈ ([⟨"north"⟩, ⟨"south"⟩, ⟨"west"⟩] : List RegionId)) ∧
        (∀ p, p ∈ policies.reverse ++ policies ↔ p ∈ policies) ∧
        ((policies.reverse ++ policies).foldl World.setTax World.windyWorld).regions.map
          (fun r => (r.carbonTax[(0 : Fin 2)], r.carbonTax[(1 : Fin 2)])) = [(0, 0), (4, 9)] := by
  obtain ⟨policies, h, htaxes⟩ : ∃ policies : List (Policy 2 ℚ),
      ofRows World.twoYears [⟨"north"⟩, ⟨"south"⟩, ⟨"west"⟩] islandTaxes = .ok policies ∧
        decide ((World.windyWorld.underPolicies policies).regions.map
          (fun r => (r.carbonTax[(0 : Fin 2)], r.carbonTax[(1 : Fin 2)]))
            = [(0, 0), (4, 9)]) = true :=
    exists_eq_ok_of_any (by decide +kernel)
  have hregions : ∀ r ∈ World.windyWorld.regions,
      r.id ∈ ([⟨"north"⟩, ⟨"south"⟩, ⟨"west"⟩] : List RegionId) := by
    decide
  have hmem : ∀ p, p ∈ policies.reverse ++ policies ↔ p ∈ policies := by simp
  obtain ⟨-, -, -, himposed⟩ := (ofRows_unambiguous _ _ _).2 policies h
  refine ⟨policies, h, hregions, hmem, ?_⟩
  rw [himposed World.windyWorld hregions _ hmem]
  exact of_decide_eq_true htaxes

end Policy

end NestedLogit
