import Mathlib.Data.List.Nodup
import Mathlib.Tactic.Basic
import NestedLogit.Market

/-!
# Laws of market tables

What is found in a table after a change. Additions to one good in one period leave everything else
alone, and a period that is cleared is empty.

## Main statements

- `OrderedMap.get?_upsert`, `OrderedMap.get?_filterKeys` — looking up after a change
- `GoodTable.amount?_add`, `GoodTable.amount?_clearPeriod` — amounts after a change
-/

namespace NestedLogit

namespace OrderedMap

variable {κ ν μ : Type} [DecidableEq κ]

theorem get?_eq_none_iff {m : OrderedMap κ ν} {k : κ} : m.get? k = none ↔ k ∉ m.keys := by
  rw [get?, Option.map_eq_none_iff, List.find?_eq_none]
  simp only [keys, List.mem_map, not_exists, not_and, decide_eq_true_eq]

/-- Looking up a key finds the entry under it. -/
theorem mem_entries_iff {m : OrderedMap κ ν} {k : κ} {v : ν} :
    (k, v) ∈ m.entries ↔ m.get? k = some v := by
  constructor
  · intro hmem
    cases hfind : m.entries.find? fun e => e.1 = k with
    | none =>
      exact absurd (decide_eq_true rfl) (List.find?_eq_none.1 hfind _ hmem)
    | some e =>
      have hkey : e.1 = k := by simpa using List.find?_some hfind
      have he := List.inj_on_of_nodup_map m.nodup (List.mem_of_find?_eq_some hfind) hmem hkey
      rw [get?, hfind, he]
      rfl
  · intro hget
    obtain ⟨e, hfind, rfl⟩ := Option.map_eq_some_iff.1 hget
    have hkey : e.1 = k := by simpa using List.find?_some hfind
    exact hkey ▸ List.mem_of_find?_eq_some hfind

theorem get?_mapValues (m : OrderedMap κ ν) (f : κ → ν → μ) (k : κ) :
    (m.mapValues f).get? k = (m.get? k).map (f k) := by
  unfold get? mapValues
  rw [List.find?_map, Option.map_map, Option.map_map]
  cases h : m.entries.find? fun e => e.1 = k with
  | none => simp [Function.comp_def, h]
  | some e =>
    have hk : e.1 = k := by simpa using List.find?_some h
    simp [Function.comp_def, h, hk]

theorem get?_modify (m : OrderedMap κ ν) (k : κ) (f : ν → ν) (k' : κ) :
    (m.modify k f).get? k' = if k' = k then (m.get? k').map f else m.get? k' := by
  rw [modify, get?_mapValues]
  split <;> simp

theorem get?_append (m : OrderedMap κ ν) (k : κ) (v : ν) (h : k ∉ m.keys) (k' : κ) :
    (m.append k v h).get? k' = if k' = k then some v else m.get? k' := by
  have hnone := get?_eq_none_iff.2 h
  by_cases hk : k' = k
  · subst hk
    rw [if_pos rfl]
    simp only [get?, Option.map_eq_none_iff] at hnone
    simp [get?, append, List.find?_append, hnone]
  · rw [if_neg hk]
    simp [get?, append, List.find?_append, Ne.symm hk]

theorem get?_upsert (m : OrderedMap κ ν) (k : κ) (initial : ν) (f : ν → ν) (k' : κ) :
    (m.upsert k initial f).get? k' =
      if k' = k then some (f ((m.get? k).getD initial)) else m.get? k' := by
  unfold upsert
  split
  · next hmem =>
    rw [get?_modify]
    by_cases hk : k' = k
    · subst hk
      obtain ⟨v, hv⟩ := Option.ne_none_iff_exists'.1 fun hn => get?_eq_none_iff.1 hn hmem
      simp [hv]
    · rw [if_neg hk, if_neg hk]
  · next hmem => rw [get?_append, get?_eq_none_iff.2 hmem, Option.getD_none]

/-- A key that is not there is added at the end. -/
theorem keys_upsert (m : OrderedMap κ ν) (k : κ) (initial : ν) (f : ν → ν) :
    (m.upsert k initial f).keys = if k ∈ m.keys then m.keys else m.keys ++ [k] := by
  unfold upsert
  split
  · exact keys_modify m k f
  · simp [append, keys]

theorem get?_filterKeys (m : OrderedMap κ ν) (keep : κ → Bool) (k : κ) :
    (m.filterKeys keep).get? k = if keep k then m.get? k else none := by
  unfold get? filterKeys
  rw [List.find?_filter]
  by_cases hk : keep k = true
  · rw [if_pos hk]
    congr 2
    funext e
    by_cases he : e.1 = k
    · simp [he, hk]
    · simp [he]
  · rw [if_neg hk, Option.map_eq_none_iff, List.find?_eq_none]
    intro e _ he
    simp only [decide_eq_true_eq] at he
    exact hk (he.2 ▸ he.1)

end OrderedMap

namespace GoodTable

variable {α : Type}

theorem amount?_add [Quantity α] (t : GoodTable α) (good : GoodId) (period : Nat) (amount : α)
    (good' : GoodId) (period' : Nat) :
    (t.add good period amount).amount? good' period' =
      if good' = good ∧ period' = period then some ((t.amount? good period).getD 0 + amount)
      else t.amount? good' period' := by
  rw [amount?, add, OrderedMap.get?_upsert]
  simp only [Prod.mk.injEq]
  rfl

theorem amount?_clearPeriod (t : GoodTable α) (period : Nat) (good : GoodId) (period' : Nat) :
    (t.clearPeriod period).amount? good period' =
      if period' = period then none else t.amount? good period' := by
  rw [amount?, clearPeriod, OrderedMap.get?_filterKeys]
  by_cases h : period' = period <;> simp [h, amount?]

/-- Tables with the same amounts in a period, in whatever order. -/
def SameIn (period : Nat) (t t' : GoodTable α) : Prop :=
  ∀ good, t.amount? good period = t'.amount? good period

theorem SameIn.refl (period : Nat) (t : GoodTable α) : SameIn period t t :=
  fun _ => rfl

theorem SameIn.symm {period : Nat} {t t' : GoodTable α} (h : SameIn period t t') :
    SameIn period t' t :=
  fun good => (h good).symm

theorem SameIn.trans {period : Nat} {t t' t'' : GoodTable α} (h : SameIn period t t')
    (h' : SameIn period t' t'') : SameIn period t t'' :=
  fun good => (h good).trans (h' good)

theorem SameIn.add [Quantity α] {period : Nat} {t t' : GoodTable α} (h : SameIn period t t')
    (good : GoodId) (amount : α) : SameIn period (t.add good period amount)
      (t'.add good period amount) := by
  intro good'
  rw [amount?_add, amount?_add, h good, h good']

theorem sameIn_add_of_ne [Quantity α] {period period' : Nat} (h : period' ≠ period)
    (t : GoodTable α) (good : GoodId) (amount : α) :
    SameIn period' t (t.add good period amount) := by
  intro good'
  rw [amount?_add, if_neg fun hk => h hk.2]

theorem sameIn_clearPeriod (period : Nat) (t t' : GoodTable α) :
    SameIn period (t.clearPeriod period) (t'.clearPeriod period) := by
  intro good
  rw [amount?_clearPeriod, amount?_clearPeriod, if_pos rfl, if_pos rfl]

theorem sameIn_clearPeriod_of_ne {period period' : Nat} (h : period' ≠ period)
    (t : GoodTable α) : SameIn period' t (t.clearPeriod period) := by
  intro good
  rw [amount?_clearPeriod, if_neg h]

end GoodTable

namespace Market

variable {α : Type}

/-- Markets that are the same in a period. -/
structure SameIn (period : Nat) (m m' : Market α) : Prop where
  prices : m.prices.SameIn period m'.prices
  supplies : m.supplies.SameIn period m'.supplies
  demands : m.demands.SameIn period m'.demands

/-- Markets with the same prices whose supplies and demands differ in one period at most. -/
structure Framed (period : Nat) (m m' : Market α) : Prop where
  prices : m.prices = m'.prices
  supplies : ∀ period', period' ≠ period → m.supplies.SameIn period' m'.supplies
  demands : ∀ period', period' ≠ period → m.demands.SameIn period' m'.demands

theorem Framed.refl (period : Nat) (m : Market α) : Framed period m m :=
  ⟨rfl, fun _ _ => .refl _ _, fun _ _ => .refl _ _⟩

theorem Framed.trans {period : Nat} {m m' m'' : Market α} (h : Framed period m m')
    (h' : Framed period m' m'') : Framed period m m'' :=
  ⟨h.prices.trans h'.prices, fun q hq => (h.supplies q hq).trans (h'.supplies q hq),
    fun q hq => (h.demands q hq).trans (h'.demands q hq)⟩

/-- Markets that come from the same one by changes in two periods, in either order, are the same in
every other period. -/
theorem Framed.sameIn_of_two_periods {p q : Nat} {m x y z z' : Market α} (hz : Framed p m z)
    (hx : Framed q z x) (hz' : Framed q m z') (hy : Framed p z' y) {period : Nat}
    (hp : period ≠ p) (hq : period ≠ q) : SameIn period x y := by
  have hprices : x.prices = y.prices := by
    rw [← hx.prices, ← hz.prices, hz'.prices, hy.prices]
  refine ⟨hprices ▸ .refl _ _, ?_, ?_⟩
  · have hdown := (hz.supplies period hp).trans (hx.supplies period hq)
    have hup := (hz'.supplies period hq).trans (hy.supplies period hp)
    exact hdown.symm.trans hup
  · have hdown := (hz.demands period hp).trans (hx.demands period hq)
    have hup := (hz'.demands period hq).trans (hy.demands period hp)
    exact hdown.symm.trans hup

theorem framed_clearPeriod (period : Nat) (m : Market α) :
    Framed period m (m.clearPeriod period) :=
  ⟨rfl, fun _ hq => GoodTable.sameIn_clearPeriod_of_ne hq _,
    fun _ hq => GoodTable.sameIn_clearPeriod_of_ne hq _⟩

end Market

end NestedLogit
