/-!
# Ordered maps

Values under keys, in the order in which the keys were first put in. Replacing a value keeps the
place of its key. No key occurs twice, which is part of the type.
-/

namespace NestedLogit

/-- Values under different keys, in the order of insertion. -/
structure OrderedMap (κ ν : Type) where
  entries : List (κ × ν)
  nodup : (entries.map (·.1)).Nodup

namespace OrderedMap

variable {κ ν : Type}

/-- The map without keys. -/
def empty : OrderedMap κ ν :=
  ⟨[], .nil⟩

instance : Inhabited (OrderedMap κ ν) := ⟨empty⟩

/-- The keys, in the order of insertion. -/
def keys (m : OrderedMap κ ν) : List κ :=
  m.entries.map (·.1)

/-- The values, in the order in which their keys were inserted. -/
def values (m : OrderedMap κ ν) : List ν :=
  m.entries.map (·.2)

/-- The number of keys. -/
def size (m : OrderedMap κ ν) : Nat :=
  m.entries.length

/-- The entries whose keys pass a test. -/
def filterKeys (m : OrderedMap κ ν) (keep : κ → Bool) : OrderedMap κ ν where
  entries := m.entries.filter fun e => keep e.1
  nodup := m.nodup.sublist (List.filter_sublist.map _)

/-- Every value replaced by a function of its key and itself. -/
def mapValues {μ : Type} (m : OrderedMap κ ν) (f : κ → ν → μ) : OrderedMap κ μ where
  entries := m.entries.map fun e => (e.1, f e.1 e.2)
  nodup := by simpa [List.map_map, Function.comp_def] using m.nodup

variable [DecidableEq κ]

/-- The value under a key. -/
def get? (m : OrderedMap κ ν) (k : κ) : Option ν :=
  (m.entries.find? fun e => e.1 = k).map (·.2)

/-- Whether there is a value under a key. -/
def contains (m : OrderedMap κ ν) (k : κ) : Bool :=
  decide (k ∈ m.keys)

/-- Changes the value under a key, if there is one. -/
def modify (m : OrderedMap κ ν) (k : κ) (f : ν → ν) : OrderedMap κ ν :=
  m.mapValues fun k' v => if k' = k then f v else v

/-- Adds a key that is not there at the end. -/
def append (m : OrderedMap κ ν) (k : κ) (v : ν) (h : k ∉ m.keys) : OrderedMap κ ν where
  entries := m.entries ++ [(k, v)]
  nodup := by
    rw [List.map_append, List.nodup_append]
    refine ⟨m.nodup, by simp, fun a ha b hb => ?_⟩
    simp only [List.map_cons, List.map_nil, List.mem_singleton] at hb
    rintro rfl
    exact h (hb ▸ ha)

/-- Puts a value under a key: in the key's place if it has one, else at the end. -/
def insert (m : OrderedMap κ ν) (k : κ) (v : ν) : OrderedMap κ ν :=
  if h : k ∈ m.keys then m.modify k fun _ => v else m.append k v h

/-- Changes the value under a key, which is first put in with a given value if it is not there. -/
def upsert (m : OrderedMap κ ν) (k : κ) (initial : ν) (f : ν → ν) : OrderedMap κ ν :=
  if h : k ∈ m.keys then m.modify k f else m.append k (f initial) h

/-- Puts a value under a key that must not be there. -/
def insertNew? (m : OrderedMap κ ν) (k : κ) (v : ν) : Option (OrderedMap κ ν) :=
  if h : k ∈ m.keys then none else some (m.append k v h)

omit [DecidableEq κ] in
@[simp] theorem keys_empty : (empty : OrderedMap κ ν).keys = [] := rfl

omit [DecidableEq κ] in
@[simp] theorem keys_mapValues {μ : Type} (m : OrderedMap κ ν) (f : κ → ν → μ) :
    (m.mapValues f).keys = m.keys := by
  simp [keys, mapValues, List.map_map, Function.comp_def]

@[simp] theorem keys_modify (m : OrderedMap κ ν) (k : κ) (f : ν → ν) :
    (m.modify k f).keys = m.keys := by
  simp [modify]

omit [DecidableEq κ] in
@[simp] theorem keys_filterKeys (m : OrderedMap κ ν) (keep : κ → Bool) :
    (m.filterKeys keep).keys = m.keys.filter keep := by
  simp [keys, filterKeys, List.filter_map, Function.comp_def]

end OrderedMap

end NestedLogit
