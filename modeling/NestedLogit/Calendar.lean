import NestedLogit.Series

/-!
# Calendars

The years that the periods of a model stand for. A calendar has at least one period, and its years
increase; both are part of the type, so that the length of time between two periods is positive.
-/

namespace NestedLogit

/-- The years of the `n` periods of a model. -/
structure Calendar (n : Nat) where
  /-- The year of each period. -/
  years : Series n Nat
  /-- There is a first period. -/
  nonempty : 0 < n
  /-- A later period has a later year. -/
  increasing : ∀ p q : Fin n, p < q → years[p] < years[q]

/-- Why a list of years is no calendar. -/
inductive CalendarError where
  | empty
  | unordered
  deriving DecidableEq, Repr

/-- The message for years that make no calendar. -/
def CalendarError.message : CalendarError → String
  | .empty => "Model must have at least one period"
  | .unordered => "Model years must be unique and in order"

/-- A period that is asked for and that the calendar does not have. -/
structure PeriodOutOfRange where
  period : Nat
  periods : Nat
  deriving DecidableEq, Repr

/-- The message for a period that the calendar does not have. -/
def PeriodOutOfRange.message (e : PeriodOutOfRange) : String :=
  s!"Period {e.period} is out of range (model has {e.periods} periods)"

/-- A year that is asked for and is not the year of a period. -/
structure NotAModelYear where
  year : Nat
  deriving DecidableEq, Repr

/-- The message for a year without a period. -/
def NotAModelYear.message (e : NotAModelYear) : String :=
  s!"{e.year} is not a model year"

/-- Whether each value is less than the next one. -/
def isIncreasing {α : Type} [LT α] [DecidableLT α] : List α → Bool
  | a :: b :: rest => a < b && isIncreasing (b :: rest)
  | _ => true

theorem isIncreasing_iff_pairwise (years : List Nat) :
    isIncreasing years = true ↔ years.Pairwise (· < ·) := by
  induction years with
  | nil => simp [isIncreasing]
  | cons a rest ih =>
    cases rest with
    | nil => simp [isIncreasing]
    | cons b rest =>
      simp only [isIncreasing, Bool.and_eq_true, decide_eq_true_eq, ih, List.pairwise_cons]
      grind

namespace Calendar

variable {n : Nat}

/-- The calendar of a list of years, which must be non-empty and increasing. -/
def ofYears (years : List Nat) : Except CalendarError (Calendar years.length) :=
  if hn : years.length = 0 then .error .empty
  else if h : isIncreasing years then .ok {
    years := ⟨⟨years.toArray, by simp⟩⟩
    nonempty := by omega
    increasing := fun p q hpq => by
      have hp := (isIncreasing_iff_pairwise years).1 h
      simpa [Series.getElem_eq_values] using
        List.pairwise_iff_getElem.1 hp p q p.isLt q.isLt hpq }
  else .error .unordered

/-- The first period. -/
def first (c : Calendar n) : Fin n :=
  ⟨0, c.nonempty⟩

/-- The year of a period. -/
def year (c : Calendar n) (p : Fin n) : Nat :=
  c.years[p]

/-- The year of a period, if the calendar has it. -/
def year? (c : Calendar n) (period : Nat) : Option Nat :=
  c.years.get? period

/-- The period with a given number, if the calendar has it. -/
def period? (_ : Calendar n) (period : Nat) : Option (Fin n) :=
  Series.period? n period

/-- A calendar has all of its periods. -/
theorem period?_val (c : Calendar n) (p : Fin n) : c.period? p = some p :=
  Series.period?_val p

/-- The period with a given number has that number. -/
theorem eq_of_period? {period : Nat} {c : Calendar n} {p : Fin n}
    (h : c.period? period = some p) : period = p :=
  Series.eq_of_period? h

/-- The period of a year, if there is one. -/
def periodOfYear? (c : Calendar n) (year : Nat) : Option (Fin n) :=
  (List.finRange n).find? fun p => c.year p == year

/-- The period with a given number; a number beyond the last period is an error. -/
def checkPeriod (c : Calendar n) (period : Nat) : Except PeriodOutOfRange (Fin n) :=
  match c.period? period with
  | some p => .ok p
  | none => .error ⟨period, n⟩

theorem checkPeriod_val (c : Calendar n) (p : Fin n) : c.checkPeriod p = .ok p := by
  rw [checkPeriod, c.period?_val p]

/-- The period of a year, which has to be a year of the model. -/
def periodForYear (c : Calendar n) (year : Nat) : Except NotAModelYear (Fin n) :=
  match c.periodOfYear? year with
  | some p => .ok p
  | none => .error ⟨year⟩

/-- How many years after period `p` period `q` begins. -/
def span (c : Calendar n) (p q : Fin n) : Nat :=
  c.year q - c.year p

theorem span_pos (c : Calendar n) {p q : Fin n} (h : p < q) : 0 < c.span p q :=
  Nat.sub_pos_of_lt (c.increasing p q h)

end Calendar

end NestedLogit
