/-!
# Series

One value for each period of a model. The number of periods is part of the type and never changes,
so that a period of the model is an index `Fin n` and reading at one cannot fail. The operations
whose names end in `?` take any number for a period and refuse one that the series does not have.
-/

namespace NestedLogit

/-- A value for every one of `n` periods. -/
structure Series (n : Nat) (α : Type) where
  values : Vector α n
  deriving DecidableEq, Repr

/-- Why a list of values is no series: it does not have one value per period. -/
structure SeriesLengthError where
  expected : Nat
  given : Nat
  deriving DecidableEq, Repr

/-- The message for values that are too many or too few. -/
def SeriesLengthError.message (e : SeriesLengthError) : String :=
  s!"Expected {e.expected} periods of data, got {e.given}"

namespace Series

variable {n : Nat} {α β : Type}

instance : GetElem (Series n α) (Fin n) α fun _ _ => True where
  getElem s p _ := s.values.get p

/-- The series with given values. -/
def ofFn (f : Fin n → α) : Series n α :=
  ⟨.ofFn f⟩

/-- The series with the same value in every period. -/
def const (n : Nat) (value : α) : Series n α :=
  ofFn fun _ => value

/-- The series with the values of a list, which has to hold one per period. -/
def ofList (n : Nat) (values : List α) : Except SeriesLengthError (Series n α) :=
  if h : values.length = n then .ok ⟨⟨values.toArray, by simpa using h⟩⟩
  else .error ⟨n, values.length⟩

/-- The values in order. -/
def toList (s : Series n α) : List α :=
  s.values.toList

/-- Changes every value. -/
def map (f : α → β) (s : Series n α) : Series n β :=
  ⟨s.values.map f⟩

/-- The period with a given number, if the series has it. -/
def period? (n period : Nat) : Option (Fin n) :=
  if h : period < n then some ⟨period, h⟩ else none

/-- The value in a period, if the series has it. -/
def get? (s : Series n α) (period : Nat) : Option α :=
  (period? n period).map (s[·])

/-- Changes the value of one period. -/
def modify (s : Series n α) (p : Fin n) (f : α → α) : Series n α :=
  ⟨s.values.set p.val (f s[p]) p.isLt⟩

/-- Replaces the value of a period that the series has. -/
def set? (s : Series n α) (period : Nat) (value : α) : Option (Series n α) :=
  (period? n period).map fun p => s.modify p fun _ => value

/-- Gives every period from `start` on the same value. -/
def fillFrom (s : Series n α) (start : Nat) (value : α) : Series n α :=
  ofFn fun p => if start ≤ p.val then value else s[p]

/-- Gives every period from `start` on the same value, where `start` is at most the end. -/
def fillFrom? (s : Series n α) (start : Nat) (value : α) : Option (Series n α) :=
  if start ≤ n then some (s.fillFrom start value) else none

/-- The values with their periods, in order. -/
def toPairs (s : Series n α) : List (Fin n × α) :=
  (List.finRange n).map fun p => (p, s[p])

theorem period?_val (p : Fin n) : period? n p = some p :=
  dif_pos p.isLt

/-- The period with a given number has that number. -/
theorem eq_of_period? {period : Nat} {p : Fin n} (h : period? n period = some p) : period = p := by
  unfold period? at h
  split at h
  · exact congrArg Fin.val (Option.some.inj h)
  · cases h

theorem getElem_eq_values (s : Series n α) (p : Fin n) : s[p] = s.values[p] := rfl

@[ext] theorem ext {s t : Series n α} (h : ∀ p : Fin n, s[p] = t[p]) : s = t := by
  obtain ⟨v⟩ := s
  obtain ⟨w⟩ := t
  congr 1
  exact Vector.ext fun i hi => by simpa [getElem_eq_values] using h ⟨i, hi⟩

@[simp] theorem getElem_ofFn (f : Fin n → α) (p : Fin n) : (ofFn f)[p] = f p := by
  simp [getElem_eq_values, ofFn]

@[simp] theorem getElem_const (value : α) (p : Fin n) : (const n value)[p] = value := by
  simp [const]

@[simp] theorem getElem_map (f : α → β) (s : Series n α) (p : Fin n) :
    (s.map f)[p] = f s[p] := by
  simp [getElem_eq_values, map]

@[simp] theorem getElem_modify_self (s : Series n α) (p : Fin n) (f : α → α) :
    (s.modify p f)[p] = f s[p] := by
  simp [getElem_eq_values, modify]

theorem getElem_modify_of_ne (s : Series n α) {p q : Fin n} (f : α → α) (h : p ≠ q) :
    (s.modify p f)[q] = s[q] := by
  have : p.val ≠ q.val := fun e => h (Fin.ext e)
  simp [getElem_eq_values, modify, this]

@[simp] theorem getElem_fillFrom (s : Series n α) (start : Nat) (value : α) (p : Fin n) :
    (s.fillFrom start value)[p] = if start ≤ p.val then value else s[p] := by
  simp [fillFrom]

end Series

end NestedLogit
