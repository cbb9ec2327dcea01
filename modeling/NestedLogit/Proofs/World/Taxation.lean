import Mathlib.Data.List.Pairwise
import NestedLogit.World

/-!
# Worlds under policies

Policies that do not compete for a region can be imposed in any order and however often: a region
comes under the tax of the policy that covers it, and a region that none covers keeps the tax it
had.

## Main definitions

- `Policy.Apart` — that two policies have no region in common
- `World.underPolicies` — a world under the taxes of policies

## Main statements

- `Policy.foldl_imposeIn` — what imposing policies comes to in one region
- `World.foldl_setTax` — policies are imposed in each region for itself
- `World.foldl_setTax_eq` — in which order and how often policies are imposed does not matter
-/

namespace NestedLogit

variable {n : ℕ} {α : Type} {regions : List RegionId} {policies imposed : List (Policy n α)}
  {p : Policy n α} {r : Region n α}

/-- A region under the tax of the policy that covers it, if there is one. -/
def Region.underPolicies (policies : List (Policy n α)) (r : Region n α) : Region n α :=
  match policies.find? (·.covers r.id) with
  | some p => { r with carbonTax := p.tax }
  | none => r

/-- A world with every region under the tax of the policy that covers it. -/
def World.underPolicies (w : World n α) (policies : List (Policy n α)) : World n α :=
  { w with regions := w.regions.map (·.underPolicies policies) }

namespace Policy

/-- Two policies have no region in common, out of those there are. -/
def Apart (regions : List RegionId) (a b : Policy n α) : Prop :=
  ∀ id ∈ regions, ¬(a.covers id = true ∧ b.covers id = true)

theorem eq_of_pairwise_apart (h : policies.Pairwise (Apart regions)) {id : RegionId}
    (hid : id ∈ regions) :
    ∀ a ∈ policies, ∀ b ∈ policies, a.covers id = true → b.covers id = true → a = b := by
  have hsymm : Std.Symm fun a b : Policy n α =>
      a.covers id = true → b.covers id = true → a = b :=
    ⟨fun _ _ hab hb ha => (hab ha hb).symm⟩
  have honly : policies.Pairwise fun a b => a.covers id = true → b.covers id = true → a = b :=
    h.imp fun hab ha hb => absurd ⟨ha, hb⟩ (hab id hid)
  exact fun a ha b hb => honly.forall_of_forall (fun _ _ _ _ => rfl) ha hb

/-- Imposes a policy in one region. -/
def imposeIn (r : Region n α) (p : Policy n α) : Region n α :=
  if p.covers r.id then { r with carbonTax := p.tax } else r

@[simp]
theorem imposeIn_id (r : Region n α) (p : Policy n α) : (imposeIn r p).id = r.id := by
  unfold imposeIn
  split <;> rfl

theorem foldl_imposeIn_of_not_covers (h : ∀ q ∈ imposed, ¬q.covers r.id = true) :
    imposed.foldl imposeIn r = r := by
  induction imposed with
  | nil => rfl
  | cons q rest ih =>
    obtain ⟨hq, hrest⟩ := List.forall_mem_cons.1 h
    rw [List.foldl_cons, imposeIn, if_neg hq, ih hrest]

/-- Only the policy that covers a region counts, however often it is imposed. -/
theorem foldl_imposeIn_of_covers (hmem : p ∈ imposed) (hcovers : p.covers r.id = true)
    (honly : ∀ q ∈ imposed, q.covers r.id = true → q = p) :
    imposed.foldl imposeIn r = { r with carbonTax := p.tax } := by
  induction imposed generalizing r with
  | nil => cases hmem
  | cons q rest ih =>
    obtain ⟨hq, hrest⟩ := List.forall_mem_cons.1 honly
    rw [List.foldl_cons]
    by_cases hagain : p ∈ rest
    · -- What is imposed first is overwritten later, and no other field has changed.
      rw [ih hagain (by rwa [imposeIn_id]) (by rwa [imposeIn_id])]
      unfold imposeIn
      split <;> rfl
    · obtain rfl : p = q := (List.mem_cons.1 hmem).resolve_right hagain
      rw [imposeIn, if_pos hcovers]
      refine foldl_imposeIn_of_not_covers fun q' hq' hcovers' => hagain ?_
      exact hrest q' hq' hcovers' ▸ hq'

theorem foldl_imposeIn (hmem : ∀ q, q ∈ imposed ↔ q ∈ policies)
    (honly : ∀ a ∈ policies, ∀ b ∈ policies, a.covers r.id = true → b.covers r.id = true → a = b) :
    imposed.foldl imposeIn r = r.underPolicies policies := by
  unfold Region.underPolicies
  split
  · next p hfound =>
    have hp : p ∈ policies := List.mem_of_find?_eq_some hfound
    have hcovers : p.covers r.id = true := by simpa using List.find?_some hfound
    refine foldl_imposeIn_of_covers ((hmem p).2 hp) hcovers fun q hq hcovers' => ?_
    exact honly q ((hmem q).1 hq) p hp hcovers' hcovers
  · next hnone =>
    refine foldl_imposeIn_of_not_covers fun q hq => ?_
    exact List.find?_eq_none.1 hnone q ((hmem q).1 hq)

end Policy

namespace World

/-- Policies that are imposed one after the other are imposed in each region for itself. -/
theorem foldl_setTax (w : World n α) (imposed : List (Policy n α)) :
    imposed.foldl setTax w
      = { w with regions := w.regions.map fun r => imposed.foldl Policy.imposeIn r } := by
  induction imposed generalizing w with
  | nil => simp
  | cons p rest ih =>
    rw [List.foldl_cons, ih]
    simp [setTax, Policy.imposeIn]

/-- Policies that do not compete for a region of the world come to the same in any order and however
often they are imposed. -/
theorem foldl_setTax_eq (w : World n α) (hregions : ∀ r ∈ w.regions, r.id ∈ regions)
    (hapart : policies.Pairwise (Policy.Apart regions)) (hmem : ∀ p, p ∈ imposed ↔ p ∈ policies) :
    imposed.foldl setTax w = w.underPolicies policies := by
  rw [foldl_setTax, underPolicies]
  congr 1
  refine List.map_congr_left fun r hr => Policy.foldl_imposeIn hmem ?_
  exact Policy.eq_of_pairwise_apart hapart (hregions r hr)

end World

end NestedLogit
