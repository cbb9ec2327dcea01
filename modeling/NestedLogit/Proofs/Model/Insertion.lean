import Mathlib.Data.List.Nodup
import NestedLogit.Model.Placement
import NestedLogit.Proofs.Except
import NestedLogit.Proofs.Pointwise

/-!
# Tables of new entries

Rows are put into a table one after another, and each under the keys it stands for. A table that is
accepted consists of the entries of all rows, in the order of the rows, and no key is among those of
two rows.

## Main definitions

- `OrderedMap.StandsFor` — that entries are those of a row

## Main statements

- `OrderedMap.entries_insertRows` — the entries of a table
- `OrderedMap.perm_insertRows` — its keys, if what the rows stand for is known otherwise
-/

namespace NestedLogit.OrderedMap

variable {ε κ μ ν ρ : Type} [DecidableEq κ] {m m' : OrderedMap κ ν}

theorem insertNew_eq_ok {k : κ} {v : ν} (h : m.insertNew k v = .ok m') :
    m'.entries = m.entries ++ [(k, v)] := by
  unfold insertNew insertNew? at h
  by_cases hk : k ∈ m.keys
  · rw [dif_pos hk] at h
    cases h
  · rw [dif_neg hk] at h
    cases h
    rfl

theorem insertEach_eq_ok {entry : κ → Except ε ν} {duplicate : DuplicateKey κ → ε} {keys : List κ}
    (h : m.insertEach entry duplicate keys = .ok m') :
    ∃ added, m'.entries = m.entries ++ added ∧ added.map (·.1) = keys ∧
      ∀ e ∈ added, entry e.1 = .ok e.2 := by
  induction keys generalizing m with
  | nil =>
    cases h
    exact ⟨[], (List.append_nil _).symm, rfl, by simp⟩
  | cons k rest ih =>
    obtain ⟨v, hv, h⟩ := bind_eq_ok.1 h
    obtain ⟨next, hnext, h⟩ := bind_eq_ok.1 h
    obtain ⟨added, hentries, hkeys, hadded⟩ := ih h
    have hnext := insertNew_eq_ok (mapError_eq_ok.1 hnext)
    refine ⟨(k, v) :: added, ?_, congrArg (k :: ·) hkeys, List.forall_mem_cons.2 ⟨hv, hadded⟩⟩
    rw [hentries, hnext, List.append_assoc, List.singleton_append]

variable {keys : ρ → Except ε (List κ)} {entry : ρ → κ → Except ε ν}
  {duplicate : DuplicateKey κ → ε} {rows : List ρ}

/-- The entries of a row are under the keys it stands for, and each is the one for its key. -/
structure StandsFor (keys : ρ → Except ε (List κ)) (entry : ρ → κ → Except ε ν) (row : ρ)
    (entries : List (κ × ν)) : Prop where
  keys : keys row = .ok (entries.map (·.1))
  entry : ∀ e ∈ entries, entry row e.1 = .ok e.2

theorem insertRows_eq_ok (h : m.insertRows keys entry duplicate rows = .ok m') :
    ∃ added, m'.entries = m.entries ++ added.flatten ∧
      List.Forall₂ (StandsFor keys entry) rows added := by
  induction rows generalizing m with
  | nil =>
    cases h
    exact ⟨[], (List.append_nil _).symm, .nil⟩
  | cons row rest ih =>
    obtain ⟨rowKeys, hrowKeys, h⟩ := bind_eq_ok.1 h
    obtain ⟨next, hnext, h⟩ := bind_eq_ok.1 h
    obtain ⟨first, hfirst, hkeys, hentry⟩ := insertEach_eq_ok hnext
    obtain ⟨added, hentries, hadded⟩ := ih h
    refine ⟨first :: added, ?_, .cons ⟨hkeys ▸ hrowKeys, hentry⟩ hadded⟩
    rw [hentries, hfirst, List.append_assoc, List.flatten_cons]

/-- A table consists of the entries of its rows, in their order. -/
theorem entries_insertRows (h : insertRows keys entry duplicate empty rows = .ok m) :
    ∃ added, m.entries = added.flatten ∧ List.Forall₂ (StandsFor keys entry) rows added :=
  insertRows_eq_ok h

theorem exists_row_of_mem_entries (h : insertRows keys entry duplicate empty rows = .ok m)
    {e : κ × ν} (he : e ∈ m.entries) :
    ∃ row ∈ rows, (∃ l, keys row = .ok l ∧ e.1 ∈ l) ∧ entry row e.1 = .ok e.2 := by
  obtain ⟨added, hentries, hadded⟩ := entries_insertRows h
  rw [hentries] at he
  obtain ⟨es, hes, hmem⟩ := List.mem_flatten.1 he
  have hrows : ∀ es ∈ added, ∃ row ∈ rows, StandsFor keys entry row es :=
    forall_mem_of_forall₂ hadded fun row hrow _ hstands => ⟨row, hrow, hstands⟩
  obtain ⟨row, hrow, hstands⟩ := hrows es hes
  exact ⟨row, hrow, ⟨_, hstands.keys, List.mem_map_of_mem hmem⟩, hstands.entry e hmem⟩

theorem exists_entry_of_mem_rows (h : insertRows keys entry duplicate empty rows = .ok m)
    {row : ρ} (hrow : row ∈ rows) :
    ∃ l, keys row = .ok l ∧ ∀ k ∈ l, ∃ v, entry row k = .ok v := by
  obtain ⟨added, -, hadded⟩ := entries_insertRows h
  have hrows : ∀ row ∈ rows, ∃ es, StandsFor keys entry row es :=
    forall_mem_of_forall₂ hadded.flip fun es _ _ hstands => ⟨es, hstands⟩
  obtain ⟨es, hstands⟩ := hrows row hrow
  exact ⟨_, hstands.keys, List.forall_mem_map.2 fun e he => ⟨e.2, hstands.entry e he⟩⟩

/-- The keys of a table are those that its rows stand for. -/
theorem perm_insertRows {places : ρ → List κ}
    (hplaces : ∀ row l, keys row = .ok l → l.Nodup → l.Perm (places row))
    (h : insertRows keys entry duplicate empty rows = .ok m) :
    m.keys.Perm (rows.flatMap places) := by
  obtain ⟨added, hentries, hadded⟩ := entries_insertRows h
  have hnodup : ((added.flatten).map (·.1)).Nodup := hentries ▸ m.nodup
  rw [OrderedMap.keys, hentries]
  clear h hentries
  -- The keys of a row are permuted among themselves, and rows stay in their order.
  induction hadded with
  | nil => exact .refl _
  | @cons row es _ _ hrow _ ih =>
    rw [List.flatten_cons, List.map_append] at hnodup ⊢
    rw [List.flatMap_cons]
    obtain ⟨hhead, hrest, -⟩ := List.nodup_append'.1 hnodup
    exact (hplaces row _ hrow.keys hhead).append (ih hrest)

theorem keys_update (m : OrderedMap κ ν) (f : ν → μ → ν) (updates : List (κ × μ)) :
    (m.update f updates).keys = m.keys :=
  keys_mapValues m _

/-- What holds of all values and of what updates make of them holds after the updates. -/
theorem forall_mem_update {P : κ → ν → Prop} {f : ν → μ → ν} {updates : List (κ × μ)}
    (h : ∀ e ∈ m.entries, P e.1 e.2) (hf : ∀ k v u, (k, u) ∈ updates → P k v → P k (f v u)) :
    ∀ e ∈ (m.update f updates).entries, P e.1 e.2 := by
  refine List.forall_mem_map.2 fun e he => ?_
  dsimp only
  cases hlookup : updates.lookup e.1 with
  | none => exact h e he
  | some u =>
    obtain ⟨l₁, l₂, rfl, -⟩ := List.lookup_eq_some_iff.1 hlookup
    exact hf _ _ _ (List.mem_append_right _ List.mem_cons_self) (h e he)

end NestedLogit.OrderedMap
