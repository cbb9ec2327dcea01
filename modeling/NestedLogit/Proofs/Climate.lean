import Mathlib.Algebra.BigOperators.Group.List.Lemmas
import Mathlib.Algebra.BigOperators.Intervals
import NestedLogit.Climate
import NestedLogit.Proofs.Market
import NestedLogit.Proofs.Quantity.Exact

/-!
# What an account of emissions adds up

An account may be given emissions of any period at any time, and be run up to any period in between.
A total is booked by a run of its period, or by the first run that passes the period; later runs of
later periods do not book it again. The cumulative total of a run is therefore the sum of the totals
that were booked, each with the emissions of the time of its booking.

## Main definitions

- `EmissionsAccount.Operation`, `EmissionsAccount.after` — histories, and what they leave
- `EmissionsAccount.lastAmount?` — what was last set for a region and a period
- `EmissionsAccount.booking` — the history at the time at which a period was booked

## Main statements

- `EmissionsAccount.total_after` — a total counts every region once, with its last amount
- `EmissionsAccount.cumulative_after` — the cumulative totals after a history
- `EmissionsAccount.cumulative_run` — what a run reports, and when that is up to date

## Design notes

A history is a list of operations whose latest comes first, so that what a history says about the
past is a recursion on it.
-/

namespace NestedLogit

open Finset

variable {α : Type}

/-- The running sums of the first values of a function. -/
def runningSums [AddCommMonoid α] (f : ℕ → α) (m : ℕ) : List α :=
  (List.range m).map fun k => ∑ q ∈ range (k + 1), f q

section RunningSums

variable [AddCommMonoid α] {f g : ℕ → α} {m : ℕ}

@[simp] theorem length_runningSums : (runningSums f m).length = m := by
  simp [runningSums]

theorem runningSums_succ :
    runningSums f (m + 1) = runningSums f m ++ [∑ q ∈ range (m + 1), f q] := by
  simp [runningSums, List.range_succ]

theorem runningSums_congr (h : ∀ q < m, f q = g q) : runningSums f m = runningSums g m := by
  apply List.map_congr_left
  intro k hk
  apply sum_congr rfl
  intro q hq
  rw [List.mem_range] at hk
  rw [mem_range] at hq
  exact h q (by omega)

theorem take_runningSums (k : ℕ) : (runningSums f m).take k = runningSums f (min k m) := by
  rw [runningSums, ← List.map_take, List.take_range, runningSums]

theorem getElem?_runningSums {k : ℕ} :
    (runningSums f m)[k]? = if k < m then some (∑ q ∈ range (k + 1), f q) else none := by
  by_cases h : k < m
  · simp [runningSums, h]
  · simp [runningSums, h]

theorem getLast?_runningSums : (runningSums f m).getLast?.getD 0 = ∑ q ∈ range m, f q := by
  cases m with
  | zero => rfl
  | succ m => simp [runningSums_succ]

end RunningSums

namespace EmissionsAccount

/-- What can be done to an account. -/
inductive Operation (α : Type) where
  /-- Sets the emissions of a region in a period. -/
  | set (region : RegionId) (period : ℕ) (amount : α)
  /-- Runs the model up to a period. -/
  | run (period : ℕ)

/-- The account that a history leaves. -/
def after [Quantity α] : List (Operation α) → EmissionsAccount α
  | [] => empty
  | .set region period amount :: earlier => (after earlier).setEmissions region period amount
  | .run period :: earlier => (after earlier).run period

/-- The amount that was last set for a region in a period. -/
def lastAmount? (region : RegionId) (period : ℕ) : List (Operation α) → Option α
  | [] => none
  | .set region' period' amount :: earlier =>
    if (region, period) = (region', period') then some amount
    else lastAmount? region period earlier
  | .run _ :: earlier => lastAmount? region period earlier

/-- The regions for which an amount was set. -/
def regions : List (Operation α) → Finset RegionId
  | [] => ∅
  | .set region _ _ :: earlier => insert region (regions earlier)
  | .run _ :: earlier => regions earlier

/-- How many periods have a cumulative total: those up to the one of the latest run. -/
def reach : List (Operation α) → ℕ
  | [] => 0
  | .set _ _ _ :: earlier => reach earlier
  | .run period :: _ => period + 1

/-- The history at the time at which the total of a period was booked. A run books its own period
and those before it that have no total yet. -/
def booking (q : ℕ) : List (Operation α) → List (Operation α)
  | [] => []
  | .set _ _ _ :: earlier => booking q earlier
  | .run period :: earlier =>
    if q < period ∧ q < reach earlier then booking q earlier else earlier

theorem mem_regions_of_lastAmount? {region : RegionId} {period : ℕ} {history : List (Operation α)}
    {amount : α} (h : lastAmount? region period history = some amount) :
    region ∈ regions history := by
  induction history with
  | nil => cases h
  | cons op earlier ih =>
    cases op with
    | run period' => exact ih h
    | set region' period' amount' =>
      rw [regions, mem_insert]
      by_cases hkey : (region, period) = (region', period')
      · exact .inl (congrArg Prod.fst hkey)
      · rw [lastAmount?, if_neg hkey] at h
        exact .inr (ih h)

theorem get?_emissions_after [Quantity α] (history : List (Operation α)) (region : RegionId)
    (period : ℕ) :
    (after history).emissions.get? (region, period) = lastAmount? region period history := by
  induction history with
  | nil => rfl
  | cons op earlier ih =>
    cases op with
    | run period' => exact ih
    | set region' period' amount =>
      change ((after earlier).emissions.upsert (region', period') amount fun _ => amount).get? _ = _
      rw [OrderedMap.get?_upsert, ih]
      rfl

variable [ExactQuantity α]

/-- The amount under a key, or nothing. -/
def amountAt (entries : List ((RegionId × ℕ) × α)) (key : RegionId × ℕ) : α :=
  ((entries.find? fun e => e.1 = key).map (·.2)).getD 0

/-- The sum of the entries of one period, taken region by region. -/
theorem sum_entries_eq {entries : List ((RegionId × ℕ) × α)} (hnodup : (entries.map (·.1)).Nodup)
    {s : Finset RegionId} (hs : ∀ e ∈ entries, e.1.1 ∈ s) (q : ℕ) :
    (entries.filterMap fun e => if e.1.2 = q then some e.2 else none).sum
      = ∑ r ∈ s, amountAt entries (r, q) := by
  induction entries with
  | nil => simp [amountAt]
  | cons e rest ih =>
    obtain ⟨⟨r', q'⟩, x⟩ := e
    rw [List.map_cons, List.nodup_cons] at hnodup
    rw [List.forall_mem_cons] at hs
    have ih := ih hnodup.2 hs.2
    by_cases hq : q' = q
    · subst hq
      -- The key does not come again, so that its region counts for nothing in the rest.
      have hnone : rest.find? (fun e => e.1 = (r', q')) = none := by
        rw [List.find?_eq_none]
        intro e he hkey
        exact hnodup.1 (List.mem_map.2 ⟨e, he, of_decide_eq_true hkey⟩)
      have hsplit : ∀ r ∈ s, amountAt (((r', q'), x) :: rest) (r, q')
          = (if r = r' then x else 0) + amountAt rest (r, q') := by
        intro r _
        by_cases hr : r = r'
        · subst hr
          simp [amountAt, hnone]
        · simp [amountAt, hr, Ne.symm hr]
      rw [sum_congr rfl hsplit, sum_add_distrib, sum_ite_eq' s r', if_pos hs.1, ← ih]
      simp
    · have hskip : ∀ r ∈ s, amountAt (((r', q'), x) :: rest) (r, q) = amountAt rest (r, q) := by
        intro r _
        simp [amountAt, hq]
      rw [sum_congr rfl hskip, ← ih]
      simp [hq]

/-- A total counts every region once, with the amount that was last set for it. -/
theorem total_after (history : List (Operation α)) {s : Finset RegionId}
    (hs : regions history ⊆ s) (q : ℕ) :
    (after history).total q = ∑ r ∈ s, (lastAmount? r q history).getD 0 := by
  have hmem : ∀ e ∈ (after history).emissions.entries, e.1.1 ∈ s := by
    intro e he
    have hkey : (after history).emissions.get? (e.1.1, e.1.2) ≠ none := by
      rw [Ne, OrderedMap.get?_eq_none_iff, not_not]
      exact List.mem_map_of_mem he
    obtain ⟨amount, hamount⟩ := Option.ne_none_iff_exists'.1 hkey
    rw [get?_emissions_after] at hamount
    exact hs (mem_regions_of_lastAmount? hamount)
  rw [total, Quantity.total_eq_sum, sum_entries_eq (after history).emissions.nodup hmem]
  exact sum_congr rfl fun r _ => by rw [← get?_emissions_after]; rfl

/-- Totals are continued by the totals of the periods that follow. -/
theorem extend_runningSums {a : EmissionsAccount α} {f : ℕ → α} {m : ℕ}
    (hf : ∀ q, m ≤ q → f q = a.total q) (count : ℕ) :
    a.extend (runningSums f m) count = runningSums f (m + count) := by
  induction count generalizing m with
  | zero => rfl
  | succ count ih =>
    have hnext : (runningSums f m).getLast?.getD 0 + a.total m = ∑ q ∈ range (m + 1), f q := by
      rw [getLast?_runningSums, sum_range_succ, hf m le_rfl]
    rw [extend, length_runningSums, hnext, ← runningSums_succ, ih fun q hq => hf q (by omega)]
    congr 1
    omega

/-- The cumulative totals after a history: there is one for every period up to that of the latest
run, and each adds up the totals as they were booked. -/
theorem cumulative_after (history : List (Operation α)) :
    (after history).cumulative
      = runningSums (fun q => (after (booking q history)).total q) (reach history) := by
  induction history with
  | nil => rfl
  | cons op earlier ih =>
    cases op with
    | set region period amount => exact ih
    | run period =>
      -- The totals before the period are kept as they were booked; all later ones are booked now.
      have hkept : (after earlier).cumulative.take period
          = runningSums (fun q => (after (booking q (.run period :: earlier))).total q)
              (min period (reach earlier)) := by
        rw [ih, take_runningSums]
        apply runningSums_congr
        intro q hq
        rw [booking, if_pos (by omega)]
      have hbooked : ∀ q, min period (reach earlier) ≤ q →
          (after (booking q (.run period :: earlier))).total q = (after earlier).total q := by
        intro q hq
        rw [booking, if_neg (by omega)]
      change (after earlier).extend _ _ = _
      rw [hkept, extend_runningSums hbooked, length_runningSums, reach]
      congr 1
      omega

theorem cumulative?_after (history : List (Operation α)) (k : ℕ) :
    (after history).cumulative? k
      = if k < reach history then
          some (∑ q ∈ range (k + 1), (after (booking q history)).total q)
        else none := by
  rw [cumulative?, cumulative_after, getElem?_runningSums]

/-- After a run there are cumulative totals up to its period and no further. The one of its period
adds up what was booked for the periods before and the present total of its own. It adds up the
present totals of all periods exactly if those booked before amount to the same, so for instance if
no region's emissions of an earlier period were changed since they were booked. -/
theorem cumulative_run (history : List (Operation α)) (p : ℕ) :
    let a := (after history).run p
    let booked := fun q => (after (booking q (.run p :: history))).total q
    (∀ k, p < k → a.cumulative? k = none) ∧
      a.cumulative? p = some (∑ q ∈ range p, booked q + a.total p) ∧
      (a.cumulative? p = some (∑ q ∈ range (p + 1), a.total q) ↔
        ∑ q ∈ range p, booked q = ∑ q ∈ range p, a.total q) ∧
      ((∀ q < p, ∀ r, lastAmount? r q (booking q (.run p :: history)) = lastAmount? r q history) →
        a.cumulative? p = some (∑ q ∈ range (p + 1), a.total q)) ∧
      ∀ q, a.total q = ∑ r ∈ regions history, (lastAmount? r q history).getD 0 := by
  intro a booked
  have hrun : ∀ k, a.cumulative? k
      = if k < p + 1 then some (∑ q ∈ range (k + 1), booked q) else none :=
    cumulative?_after (.run p :: history)
  have hown : booked p = a.total p := by
    change (after (booking p (.run p :: history))).total p = (after history).total p
    rw [booking, if_neg (by omega)]
  have hp : a.cumulative? p = some (∑ q ∈ range p, booked q + a.total p) := by
    rw [hrun, if_pos (by omega), sum_range_succ, hown]
  have hiff : a.cumulative? p = some (∑ q ∈ range (p + 1), a.total q) ↔
      ∑ q ∈ range p, booked q = ∑ q ∈ range p, a.total q := by
    rw [hp, sum_range_succ, Option.some.injEq, add_left_inj]
  refine ⟨?_, hp, hiff, ?_, fun q => total_after history (Subset.refl _) q⟩
  · intro k hk
    rw [hrun, if_neg (by omega)]
  · intro hsame
    rw [hiff]
    apply sum_congr rfl
    intro q hq
    have hboth : regions history ⊆ regions history ∪ regions (booking q (.run p :: history)) :=
      subset_union_left
    change (after (booking q (.run p :: history))).total q = (after history).total q
    rw [total_after history hboth q, total_after _ subset_union_right q]
    exact sum_congr rfl fun r _ => by rw [hsame q (mem_range.1 hq) r]

/-- Emissions that are corrected after they were booked. -/
def correctedHistory : List (Operation ℚ) :=
  [.set ⟨"Atlantis"⟩ 0 2, .run 0, .set ⟨"Atlantis"⟩ 0 1]

/-- A run of the next period goes on from the total that was booked before the correction. -/
theorem correctedHistory_stale :
    let a := (after correctedHistory).run 1
    a.cumulative? 1 = some 1 ∧ ∑ q ∈ range 2, a.total q = 2 := by
  decide +kernel

end EmissionsAccount

end NestedLogit
