import Mathlib.Data.List.Forall2

/-!
# Lists that are related member by member

What two lists have in common whose members are related one by one: functions that do not tell
related members apart give the same results.
-/

namespace NestedLogit

variable {α β γ δ : Type} {R : α → β → Prop} {xs : List α} {ys : List β}

theorem map_eq_of_forall₂ {f : α → γ} {g : β → γ} (h : List.Forall₂ R xs ys)
    (hfg : ∀ {x y}, R x y → f x = g y) : xs.map f = ys.map g := by
  induction h with
  | nil => rfl
  | cons hxy _ ih => rw [List.map_cons, List.map_cons, hfg hxy, ih]

theorem flatMap_eq_of_forall₂ {f : α → List γ} {g : β → List γ} (h : List.Forall₂ R xs ys)
    (hfg : ∀ {x y}, R x y → f x = g y) : xs.flatMap f = ys.flatMap g := by
  rw [List.flatMap_def, List.flatMap_def, map_eq_of_forall₂ h hfg]

theorem filterMap_eq_of_forall₂ {f : α → Option γ} {g : β → Option γ} (h : List.Forall₂ R xs ys)
    (hfg : ∀ {x y}, R x y → f x = g y) : xs.filterMap f = ys.filterMap g := by
  induction h with
  | nil => rfl
  | cons hxy _ ih => rw [List.filterMap_cons, List.filterMap_cons, hfg hxy, ih]

theorem all_eq_of_forall₂ {f : α → Bool} {g : β → Bool} (h : List.Forall₂ R xs ys)
    (hfg : ∀ {x y}, R x y → f x = g y) : xs.all f = ys.all g := by
  induction h with
  | nil => rfl
  | cons hxy _ ih => rw [List.all_cons, List.all_cons, hfg hxy, ih]

theorem any_eq_of_forall₂ {f : α → Bool} {g : β → Bool} (h : List.Forall₂ R xs ys)
    (hfg : ∀ {x y}, R x y → f x = g y) : xs.any f = ys.any g := by
  induction h with
  | nil => rfl
  | cons hxy _ ih => rw [List.any_cons, List.any_cons, hfg hxy, ih]

theorem isEmpty_eq_of_forall₂ (h : List.Forall₂ R xs ys) : xs.isEmpty = ys.isEmpty := by
  cases h <;> rfl

theorem zipWith_eq_of_forall₂ {f : α → δ → γ} {g : β → δ → γ} (h : List.Forall₂ R xs ys)
    (hfg : ∀ {x y}, R x y → f x = g y) (zs : List δ) :
    List.zipWith f xs zs = List.zipWith g ys zs := by
  induction h generalizing zs with
  | nil => rfl
  | cons hxy _ ih =>
    cases zs with
    | nil => rfl
    | cons z zs => rw [List.zipWith_cons_cons, List.zipWith_cons_cons, hfg hxy, ih]

theorem forall₂_zipWith {α' β' : Type} {R' : α' → β' → Prop} {f : α → δ → α'} {g : β → δ → β'}
    (h : List.Forall₂ R xs ys) (hfg : ∀ {x y} z, R x y → R' (f x z) (g y z)) (zs : List δ) :
    List.Forall₂ R' (List.zipWith f xs zs) (List.zipWith g ys zs) := by
  induction h generalizing zs with
  | nil => exact .nil
  | cons hxy _ ih =>
    cases zs with
    | nil => exact .nil
    | cons z zs => exact .cons (hfg z hxy) (ih zs)

/-- Members that are combined with something stay related to what others are, if there is something
for each of them. -/
theorem forall₂_zipWith_right {R' : α → γ → Prop} {f : β → δ → γ} (h : List.Forall₂ R xs ys)
    (hf : ∀ {x y} z, R x y → R' x (f y z)) {zs : List δ} (hlen : ys.length ≤ zs.length) :
    List.Forall₂ R' xs (List.zipWith f ys zs) := by
  induction h generalizing zs with
  | nil => exact .nil
  | cons hxy _ ih =>
    cases zs with
    | nil => cases hlen
    | cons z zs => exact .cons (hf z hxy) (ih (Nat.le_of_succ_le_succ hlen))

theorem forall₂_zipWith_self {R : α → α → Prop} {f : α → δ → α} (hf : ∀ x z, R x (f x z))
    {xs : List α} {zs : List δ} (hlen : xs.length ≤ zs.length) :
    List.Forall₂ R xs (List.zipWith f xs zs) := by
  have hsame : List.Forall₂ Eq xs xs := List.forall₂_same.2 fun _ _ => rfl
  exact forall₂_zipWith_right hsame (fun {x _} z hxy => hxy ▸ hf x z) hlen

theorem forall₂_map_self {R : α → α → Prop} {f : α → α} (hf : ∀ x, R x (f x)) (xs : List α) :
    List.Forall₂ R xs (xs.map f) := by
  rw [List.forall₂_map_right_iff, List.forall₂_same]
  exact fun x _ => hf x

/-- What is combined with members is all there is to see of the combinations, as far as a function
does not look at the members. -/
theorem map_zipWith_right {f : α → δ → β} {g : β → γ} {k : δ → γ} (hfg : ∀ x z, g (f x z) = k z)
    {xs : List α} {zs : List δ} (hlen : zs.length = xs.length) :
    (List.zipWith f xs zs).map g = zs.map k := by
  induction xs generalizing zs with
  | nil =>
    rw [List.length_eq_zero_iff.1 hlen]
    rfl
  | cons x xs ih =>
    obtain ⟨z, zs, rfl⟩ := List.exists_cons_of_length_eq_add_one hlen
    rw [List.zipWith_cons_cons, List.map_cons, List.map_cons, hfg, ih (Nat.succ.inj hlen)]

/-- Likewise as far as members are related to what they are combined with. -/
theorem map_zipWith_of_forall₂ {R : α → δ → Prop} {f : α → δ → β} {g : β → γ} {k : δ → γ}
    {xs : List α} {zs : List δ} (h : List.Forall₂ R xs zs)
    (hfg : ∀ {x z}, R x z → g (f x z) = k z) : (List.zipWith f xs zs).map g = zs.map k := by
  induction h with
  | nil => rfl
  | cons hxz _ ih => rw [List.zipWith_cons_cons, List.map_cons, List.map_cons, hfg hxz, ih]

/-- What holds of the members on the right as well. -/
theorem forall₂_and_right {P : β → Prop} (h : List.Forall₂ R xs ys) (hP : ∀ y ∈ ys, P y) :
    List.Forall₂ (fun x y => R x y ∧ P y) xs ys := by
  induction h with
  | nil => exact .nil
  | cons hxy _ ih =>
    rw [List.forall_mem_cons] at hP
    exact .cons ⟨hxy, hP.1⟩ (ih hP.2)

theorem forall₂_and {S : α → β → Prop} (h : List.Forall₂ R xs ys) (h' : List.Forall₂ S xs ys) :
    List.Forall₂ (fun x y => R x y ∧ S x y) xs ys := by
  induction h with
  | nil => exact .nil
  | cons hxy _ ih =>
    cases h' with
    | cons hxy' h' => exact .cons ⟨hxy, hxy'⟩ (ih h')

/-- Members that are related to those of two lists are related to the pairs. -/
theorem forall₂_zip_right {S : α → γ → Prop} {zs : List γ} (h : List.Forall₂ R xs ys)
    (h' : List.Forall₂ S xs zs) :
    List.Forall₂ (fun x yz => R x yz.1 ∧ S x yz.2) xs (ys.zip zs) := by
  induction h generalizing zs with
  | nil => exact .nil
  | cons hxy _ ih =>
    cases h' with
    | cons hxz h' => exact .cons ⟨hxy, hxz⟩ (ih h')

/-- What follows from being related holds of what is combined. -/
theorem forall_mem_zipWith_of_forall₂ {P : γ → Prop} {f : α → β → γ} (h : List.Forall₂ R xs ys)
    (hf : ∀ {x y}, R x y → P (f x y)) : ∀ z ∈ List.zipWith f xs ys, P z := by
  induction h with
  | nil => simp
  | cons hxy _ ih => exact List.forall_mem_cons.2 ⟨hf hxy, ih⟩

/-- Likewise together with the first of the two members. -/
theorem forall₂_zipWith_of_forall₂ {P : α → γ → Prop} {f : α → β → γ} (h : List.Forall₂ R xs ys)
    (hf : ∀ {x y}, R x y → P x (f x y)) : List.Forall₂ P xs (List.zipWith f xs ys) := by
  induction h with
  | nil => exact .nil
  | cons hxy _ ih => exact .cons (hf hxy) ih

/-- Every member is combined with something that it is related to. -/
theorem exists_mem_zipWith_of_forall₂ {f : α → β → γ} (h : List.Forall₂ R xs ys) {x : α}
    (hx : x ∈ xs) : ∃ y ∈ ys, R x y ∧ f x y ∈ List.zipWith f xs ys := by
  induction h with
  | nil => cases hx
  | @cons x' y' xs ys hxy _ ih =>
    rcases List.mem_cons.1 hx with rfl | hx
    · exact ⟨y', List.mem_cons_self, hxy, List.mem_cons_self⟩
    · obtain ⟨y, hy, hxy, hmem⟩ := ih hx
      exact ⟨y, List.mem_cons_of_mem _ hy, hxy, List.mem_cons_of_mem _ hmem⟩

/-- What follows from being related to a member holds of all who are. -/
theorem forall_mem_of_forall₂ {P : β → Prop} (h : List.Forall₂ R xs ys)
    (hP : ∀ x ∈ xs, ∀ y, R x y → P y) : ∀ y ∈ ys, P y := by
  induction h with
  | nil => simp
  | cons hxy _ ih =>
    rw [List.forall_mem_cons] at hP ⊢
    exact ⟨hP.1 _ hxy, ih hP.2⟩

/-- Members that are each related to something are related to a list. -/
theorem exists_forall₂ (h : ∀ x ∈ xs, ∃ y, R x y) : ∃ ys, List.Forall₂ R xs ys := by
  induction xs with
  | nil => exact ⟨[], .nil⟩
  | cons x xs ih =>
    obtain ⟨⟨y, hy⟩, hrest⟩ := List.forall_mem_cons.1 h
    obtain ⟨ys, hys⟩ := ih hrest
    exact ⟨y :: ys, .cons hy hys⟩

theorem forall₂_trans {R : α → α → Prop} (hR : ∀ {x y z}, R x y → R y z → R x z)
    {xs ys zs : List α} (h : List.Forall₂ R xs ys) (h' : List.Forall₂ R ys zs) :
    List.Forall₂ R xs zs := by
  induction h generalizing zs with
  | nil => exact h'
  | cons hxy _ ih =>
    cases h' with
    | cons hyz h' => exact .cons (hR hxy hyz) (ih h')

/-- Two relations that together amount to equality do so member by member. -/
theorem eq_of_forall₂ {R R' : α → α → Prop} (heq : ∀ {x y}, R x y → R' x y → x = y)
    {xs ys : List α} (h : List.Forall₂ R xs ys) (h' : List.Forall₂ R' xs ys) : xs = ys := by
  induction h with
  | nil => rfl
  | cons hxy _ ih =>
    cases h' with
    | cons hxy' h' => rw [heq hxy hxy', ih h']

/-- Lists that are joined are the same up to order if they are so one by one. -/
theorem perm_flatMap_of_forall₂ {f : α → List γ} {g : β → List γ}
    (h : List.Forall₂ (fun x y => (f x).Perm (g y)) xs ys) :
    (xs.flatMap f).Perm (ys.flatMap g) := by
  induction h with
  | nil => exact .refl _
  | cons hxy _ ih =>
    rw [List.flatMap_cons, List.flatMap_cons]
    exact hxy.append ih

end NestedLogit
