import Mathlib.Data.List.Forall2
import NestedLogit.Run

/-!
# Laws of runs

What holds of a calculation in several steps, taken from what holds of each step: when it comes to
its end and what it leaves then, what it leaves alone however it ends, and when two calculations go
the same way.

## Main definitions

- `Run.Agree` — two runs that go the same way
- `Run.SameEnd` — two runs that leave the same and stop for the same reason
- `Run.Ends` — what holds however a run ends, and what holds if it comes to its end

## Main statements

- `Run.failure_each`, `Run.state_each`, `Run.log_each` — the members of a list, one after another
- `Run.forall_mem_state_each` — what holds of all of them then
- `Run.forall₂_state_each`, `Run.forall₂_state_eachWith` — what they leave alone
- `Run.Agree.each`, `Run.Agree.eachWith` — two lists, one after another
- `Run.Ends.each`, `Run.Ends.eachWith` — what holds of the members in the end
-/

namespace NestedLogit.Run

variable {α σ σ' τ τ' : Type}

section Steps

theorem andThen_of_none {r : Run α σ} (h : r.failure = none) (next : σ → Run α σ) :
    r.andThen next =
      ⟨(next r.state).state, r.log ++ (next r.state).log, (next r.state).failure⟩ := by
  simp [andThen, h]

theorem andThen_of_some {r : Run α σ} {e : CalculationError α} (h : r.failure = some e)
    (next : σ → Run α σ) : r.andThen next = r := by
  simp [andThen, h]

variable {f : σ → Run α σ} {g : τ → σ → Run α (τ × σ)} {t : τ} {x : σ}

theorem each_cons_of_none (h : (f x).failure = none) (xs : List σ) :
    each f (x :: xs) =
      ⟨(f x).state :: (each f xs).state, (f x).log ++ (each f xs).log, (each f xs).failure⟩ := by
  rw [each]
  simp [h]

theorem each_cons_of_some {e : CalculationError α} (h : (f x).failure = some e) (xs : List σ) :
    each f (x :: xs) = ⟨(f x).state :: xs, (f x).log, some e⟩ := by
  rw [each]
  simp [h]

theorem eachWith_cons_of_none (h : (g t x).failure = none) (xs : List σ) :
    eachWith g t (x :: xs) =
      let r := eachWith g (g t x).state.1 xs
      ⟨(r.state.1, (g t x).state.2 :: r.state.2), (g t x).log ++ r.log, r.failure⟩ := by
  rw [eachWith]
  simp [h]

theorem eachWith_cons_of_some {e : CalculationError α} (h : (g t x).failure = some e)
    (xs : List σ) :
    eachWith g t (x :: xs) =
      ⟨((g t x).state.1, (g t x).state.2 :: xs), (g t x).log, some e⟩ := by
  rw [eachWith]
  simp [h]

theorem each_congr {f g : σ → Run α σ} {xs : List σ} (h : ∀ x ∈ xs, f x = g x) :
    each f xs = each g xs := by
  induction xs with
  | nil => rfl
  | cons x xs ih =>
    obtain ⟨hx, hxs⟩ := List.forall_mem_cons.1 h
    rw [each, each, hx, ih hxs]

end Steps

section Success

theorem failure_andThen {r : Run α σ} {next : σ → Run α σ} :
    (r.andThen next).failure = none ↔ r.failure = none ∧ (next r.state).failure = none := by
  cases h : r.failure with
  | none => simp [andThen_of_none h]
  | some e => simp [andThen_of_some h, h]

theorem state_andThen {r : Run α σ} (h : r.failure = none) (next : σ → Run α σ) :
    (r.andThen next).state = (next r.state).state := by
  rw [andThen_of_none h]

theorem log_andThen {r : Run α σ} (h : r.failure = none) (next : σ → Run α σ) :
    (r.andThen next).log = r.log ++ (next r.state).log := by
  rw [andThen_of_none h]

/-- Calculating the members of a list in turn comes to its end if each calculation does. -/
theorem failure_each {f : σ → Run α σ} {xs : List σ} :
    (each f xs).failure = none ↔ ∀ x ∈ xs, (f x).failure = none := by
  induction xs with
  | nil => exact iff_of_true rfl (by simp)
  | cons x xs ih =>
    rw [List.forall_mem_cons, ← ih]
    cases h : (f x).failure with
    | none => simp [each_cons_of_none h]
    | some e => simp [each_cons_of_some h]

theorem state_each {f : σ → Run α σ} {xs : List σ} (h : (each f xs).failure = none) :
    (each f xs).state = xs.map fun x => (f x).state := by
  induction xs with
  | nil => rfl
  | cons x xs ih =>
    obtain ⟨hx, hxs⟩ := List.forall_mem_cons.1 (failure_each.1 h)
    rw [each_cons_of_none hx, List.map_cons, ih (failure_each.2 hxs)]

/-- What is reported by members that all come to their ends is reported one after another. -/
theorem log_each {f : σ → Run α σ} {xs : List σ} (h : (each f xs).failure = none) :
    (each f xs).log = xs.flatMap fun x => (f x).log := by
  induction xs with
  | nil => rfl
  | cons x xs ih =>
    obtain ⟨hx, hxs⟩ := List.forall_mem_cons.1 (failure_each.1 h)
    rw [each_cons_of_none hx, List.flatMap_cons, ih (failure_each.2 hxs)]

theorem log_each_eq_nil {f : σ → Run α σ} {xs : List σ} (h : (each f xs).failure = none)
    (hf : ∀ x, (f x).log = []) : (each f xs).log = [] := by
  rw [log_each h, List.flatMap_eq_nil_iff]
  exact fun x _ => hf x

theorem failure_eachWith_cons {f : τ → σ → Run α (τ × σ)} {t : τ} {x : σ} {xs : List σ} :
    (eachWith f t (x :: xs)).failure = none ↔
      (f t x).failure = none ∧ (eachWith f (f t x).state.1 xs).failure = none := by
  cases h : (f t x).failure with
  | none => simp [eachWith_cons_of_none h]
  | some e => simp [eachWith_cons_of_some h]

/-- What the calculation of a member comes to holds of every member in the end. -/
theorem forall_mem_state_each {Q : σ → Prop} {f : σ → Run α σ} {xs : List σ}
    (hf : ∀ x ∈ xs, (f x).failure = none → Q (f x).state) (h : (each f xs).failure = none) :
    ∀ y ∈ (each f xs).state, Q y := by
  rw [state_each h, List.forall_mem_map]
  exact fun x hx => hf x hx (failure_each.1 h x hx)

@[simp] theorem failure_map (r : Run α σ) (f : σ → τ) : (r.map f).failure = r.failure := rfl

@[simp] theorem state_map (r : Run α σ) (f : σ → τ) : (r.map f).state = f r.state := rfl

@[simp] theorem log_map (r : Run α σ) (f : σ → τ) : (r.map f).log = r.log := rfl

@[simp] theorem failure_within (r : Run α σ) (a : Activity) :
    (r.within a).failure = none ↔ r.failure = none := by
  simp [within]

end Success

section Frame

/-- What each of two steps leaves alone, both of them together leave alone. -/
theorem rel_state_andThen {R : σ → σ → Prop} (hR : ∀ {a b c}, R a b → R b c → R a c) {s : σ}
    {r : Run α σ} {next : σ → Run α σ} (hr : R s r.state) (hnext : ∀ s, R s (next s).state) :
    R s (r.andThen next).state := by
  cases h : r.failure with
  | none =>
    rw [andThen_of_none h]
    exact hR hr (hnext r.state)
  | some e =>
    rw [andThen_of_some h]
    exact hr

/-- What the calculation of a member leaves alone stays as it is for every member, calculated or
not. -/
theorem forall₂_state_each {R : σ → σ → Prop} (refl : ∀ x, R x x) {f : σ → Run α σ}
    (hf : ∀ x, R x (f x).state) (xs : List σ) : List.Forall₂ R xs (each f xs).state := by
  induction xs with
  | nil => exact .nil
  | cons x xs ih =>
    cases h : (f x).failure with
    | none =>
      rw [each_cons_of_none h]
      exact .cons (hf x) ih
    | some e =>
      rw [each_cons_of_some h]
      exact .cons (hf x) (List.forall₂_same.2 fun y _ => refl y)

theorem forall₂_state_eachWith {R : σ → σ → Prop} (refl : ∀ x, R x x)
    {f : τ → σ → Run α (τ × σ)} (hf : ∀ t x, R x (f t x).state.2) (t : τ) (xs : List σ) :
    List.Forall₂ R xs (eachWith f t xs).state.2 := by
  induction xs generalizing t with
  | nil => exact .nil
  | cons x xs ih =>
    cases h : (f t x).failure with
    | none =>
      rw [eachWith_cons_of_none h]
      exact .cons (hf t x) (ih _)
    | some e =>
      rw [eachWith_cons_of_some h]
      exact .cons (hf t x) (List.forall₂_same.2 fun y _ => refl y)

/-- What the calculation of a member leaves alone of the shared state stays as it is. -/
theorem rel_state_eachWith {R : τ → τ → Prop} (refl : ∀ t, R t t)
    (trans : ∀ {a b c}, R a b → R b c → R a c) {f : τ → σ → Run α (τ × σ)}
    (hf : ∀ t x, R t (f t x).state.1) (t : τ) (xs : List σ) :
    R t (eachWith f t xs).state.1 := by
  induction xs generalizing t with
  | nil => exact refl t
  | cons x xs ih =>
    cases h : (f t x).failure with
    | none =>
      rw [eachWith_cons_of_none h]
      exact trans (hf t x) (ih _)
    | some e =>
      rw [eachWith_cons_of_some h]
      exact hf t x

end Frame

/-- Two runs that report the same and stop for the same reason, or come to their ends in states that
are related. -/
structure Agree (R : σ → σ' → Prop) (r : Run α σ) (r' : Run α σ') : Prop where
  log : r.log = r'.log
  failure : r.failure = r'.failure
  state : r.failure = none → R r.state r'.state

namespace Agree

variable {R : σ → σ' → Prop} {S : τ → τ' → Prop}

theorem ok {s : σ} {s' : σ'} (h : R s s') : Agree R (.ok s : Run α σ) (.ok s') :=
  ⟨rfl, rfl, fun _ => h⟩

theorem fail {s : σ} {s' : σ'} {e e' : CalculationError α} (h : e = e') :
    Agree R (.fail s e) (.fail s' e') :=
  ⟨rfl, congrArg some h, fun hn => by cases hn⟩

theorem map {r : Run α σ} {r' : Run α σ'} (h : Agree R r r') {f : σ → τ} {f' : σ' → τ'}
    (hf : ∀ {s s'}, R s s' → S (f s) (f' s')) : Agree S (r.map f) (r'.map f') :=
  ⟨h.log, h.failure, fun hn => hf (h.state hn)⟩

theorem within {r : Run α σ} {r' : Run α σ'} (h : Agree R r r') (a : Activity) :
    Agree R (r.within a) (r'.within a) where
  log := h.log
  failure := congrArg (fun e => Option.map (CalculationError.within a) e) h.failure
  state hn := h.state ((failure_within r a).1 hn)

theorem andThen {r : Run α σ} {r' : Run α σ'} (h : Agree R r r') {R' : σ → σ' → Prop}
    {next : σ → Run α σ} {next' : σ' → Run α σ'}
    (hnext : ∀ {s s'}, R s s' → Agree R' (next s) (next' s')) :
    Agree R' (r.andThen next) (r'.andThen next') := by
  cases hr : r.failure with
  | none =>
    rw [andThen_of_none hr, andThen_of_none (h.failure ▸ hr)]
    have hs := hnext (h.state hr)
    exact ⟨congrArg₂ _ h.log hs.log, hs.failure, hs.state⟩
  | some e =>
    rw [andThen_of_some hr, andThen_of_some (h.failure ▸ hr)]
    exact ⟨h.log, h.failure, fun hn => absurd (hr.symm.trans hn) nofun⟩

/-- Runs of members that go the same way go the same way one after another. -/
theorem each {R' : σ → σ' → Prop} {f : σ → Run α σ} {f' : σ' → Run α σ'}
    (hf : ∀ {x x'}, R x x' → Agree R' (f x) (f' x')) {xs : List σ} {xs' : List σ'}
    (h : List.Forall₂ R xs xs') :
    Agree (List.Forall₂ R') (Run.each f xs) (Run.each f' xs') := by
  induction h with
  | nil => exact ok .nil
  | @cons x x' xs xs' hx _ ih =>
    have hx := hf hx
    cases hr : (f x).failure with
    | none =>
      rw [each_cons_of_none hr, each_cons_of_none (hx.failure ▸ hr)]
      exact ⟨congrArg₂ _ hx.log ih.log, ih.failure, fun hn => .cons (hx.state hr) (ih.state hn)⟩
    | some e =>
      rw [each_cons_of_some hr, each_cons_of_some (hx.failure ▸ hr)]
      exact ⟨hx.log, rfl, fun hn => by cases hn⟩

/-- Runs that hand on related states go the same way one after another. -/
theorem eachWith {R' : σ → σ' → Prop} {f : τ → σ → Run α (τ × σ)}
    {f' : τ' → σ' → Run α (τ' × σ')}
    (hf : ∀ {t t' x x'}, S t t' → R x x' →
      Agree (fun y y' => S y.1 y'.1 ∧ R' y.2 y'.2) (f t x) (f' t' x'))
    {t : τ} {t' : τ'} (ht : S t t') {xs : List σ} {xs' : List σ'} (h : List.Forall₂ R xs xs') :
    Agree (fun y y' => S y.1 y'.1 ∧ List.Forall₂ R' y.2 y'.2)
      (Run.eachWith f t xs) (Run.eachWith f' t' xs') := by
  induction h generalizing t t' with
  | nil => exact ok ⟨ht, .nil⟩
  | @cons x x' xs xs' hx _ ih =>
    have hx := hf ht hx
    cases hr : (f t x).failure with
    | none =>
      rw [eachWith_cons_of_none hr, eachWith_cons_of_none (hx.failure ▸ hr)]
      obtain ⟨ht', hx'⟩ := hx.state hr
      have ih := ih ht'
      exact ⟨congrArg₂ _ hx.log ih.log, ih.failure,
        fun hn => ⟨(ih.state hn).1, .cons hx' (ih.state hn).2⟩⟩
    | some e =>
      rw [eachWith_cons_of_some hr, eachWith_cons_of_some (hx.failure ▸ hr)]
      exact ⟨hx.log, rfl, fun hn => by cases hn⟩

end Agree

/-- Two runs that leave the same state and stop for the same reason, if they stop. They may report
different events. -/
structure SameEnd (r r' : Run α σ) : Prop where
  state : r.state = r'.state
  failure : r.failure = r'.failure

namespace SameEnd

variable {r r' : Run α σ}

theorem of_eq (h : r = r') : SameEnd r r' :=
  h ▸ ⟨rfl, rfl⟩

/-- The second step has to end the same way only from where the first comes to its end. -/
theorem andThen (h : SameEnd r r') {next next' : σ → Run α σ}
    (hnext : r.failure = none → SameEnd (next r.state) (next' r.state)) :
    SameEnd (r.andThen next) (r'.andThen next') := by
  cases hr : r.failure with
  | none =>
    rw [andThen_of_none hr, andThen_of_none (h.failure ▸ hr), ← h.state]
    exact ⟨(hnext hr).state, (hnext hr).failure⟩
  | some e =>
    rw [andThen_of_some hr, andThen_of_some (h.failure ▸ hr)]
    exact h

end SameEnd

/-- What holds of the state that a calculation leaves: always, and if it comes to its end. -/
structure Ends (P Q : σ → Prop) (r : Run α σ) : Prop where
  always : P r.state
  success : r.failure = none → Q r.state

namespace Ends

variable {P Q S : σ → Prop} {s : σ} {r : Run α σ}

theorem ok (hP : P s) (hQ : Q s) : Ends P Q (.ok s : Run α σ) :=
  ⟨hP, fun _ => hQ⟩

theorem fail (hP : P s) (e : CalculationError α) : Ends P Q (.fail s e) :=
  ⟨hP, nofun⟩

theorem map {P' Q' : τ → Prop} (h : r.Ends P Q) {f : σ → τ} (hP : ∀ s, P s → P' (f s))
    (hQ : ∀ s, Q s → Q' (f s)) : (r.map f).Ends P' Q' :=
  ⟨hP _ h.always, fun hn => hQ _ (h.success hn)⟩

theorem within (h : r.Ends P Q) (a : Activity) : (r.within a).Ends P Q :=
  ⟨h.always, fun hn => h.success ((failure_within r a).1 hn)⟩

/-- The second step starts from what holds if the first comes to its end. -/
theorem andThen (h : r.Ends P Q) {next : σ → Run α σ}
    (hnext : ∀ s, Q s → (next s).Ends P S) : (r.andThen next).Ends P S := by
  cases hr : r.failure with
  | none =>
    rw [andThen_of_none hr]
    have hend := hnext _ (h.success hr)
    exact ⟨hend.always, hend.success⟩
  | some e =>
    rw [andThen_of_some hr]
    exact ⟨h.always, fun hn => absurd (hr.symm.trans hn) nofun⟩

/-- Members that are not calculated have to be as they should be already. -/
theorem each {f : σ → Run α σ} {xs : List σ} (h : ∀ x ∈ xs, P x ∧ (f x).Ends P Q) :
    (Run.each f xs).Ends (fun ys => ∀ y ∈ ys, P y) (fun ys => ∀ y ∈ ys, Q y) := by
  induction xs with
  | nil => exact ok (by simp) (by simp)
  | cons x xs ih =>
    obtain ⟨⟨-, hx⟩, hxs⟩ := List.forall_mem_cons.1 h
    have ih := ih hxs
    cases hr : (f x).failure with
    | none =>
      rw [each_cons_of_none hr]
      exact ⟨List.forall_mem_cons.2 ⟨hx.always, ih.always⟩,
        fun hn => List.forall_mem_cons.2 ⟨hx.success hr, ih.success hn⟩⟩
    | some e =>
      rw [each_cons_of_some hr]
      exact ⟨List.forall_mem_cons.2 ⟨hx.always, fun y hy => (hxs y hy).1⟩, nofun⟩

/-- Likewise with a state that is handed on, of which the same holds all along. -/
theorem eachWith {A : τ → Prop} {f : τ → σ → Run α (τ × σ)} {t : τ} {xs : List σ} (ht : A t)
    (h : ∀ x ∈ xs, P x ∧
      ∀ t, A t → (f t x).Ends (fun y => A y.1 ∧ P y.2) (fun y => A y.1 ∧ Q y.2)) :
    (Run.eachWith f t xs).Ends (fun ys => A ys.1 ∧ ∀ y ∈ ys.2, P y)
      (fun ys => A ys.1 ∧ ∀ y ∈ ys.2, Q y) := by
  induction xs generalizing t with
  | nil => exact ok ⟨ht, by simp⟩ ⟨ht, by simp⟩
  | cons x xs ih =>
    obtain ⟨⟨-, hx⟩, hxs⟩ := List.forall_mem_cons.1 h
    have hx := hx t ht
    cases hr : (f t x).failure with
    | none =>
      rw [eachWith_cons_of_none hr]
      have ih := ih hx.always.1 hxs
      exact ⟨⟨ih.always.1, List.forall_mem_cons.2 ⟨hx.always.2, ih.always.2⟩⟩,
        fun hn => ⟨(ih.success hn).1,
          List.forall_mem_cons.2 ⟨(hx.success hr).2, (ih.success hn).2⟩⟩⟩
    | some e =>
      rw [eachWith_cons_of_some hr]
      exact ⟨⟨hx.always.1,
        List.forall_mem_cons.2 ⟨hx.always.2, fun y hy => (hxs y hy).1⟩⟩, nofun⟩

end Ends

end NestedLogit.Run
