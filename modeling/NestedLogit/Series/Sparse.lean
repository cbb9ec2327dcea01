import NestedLogit.Calendar
import NestedLogit.Quantity

/-!
# Sparse values

Values that input data give for some periods only, and the three ways in which they become a series:
each value is carried forward to the next given period, values between two given periods are
interpolated by year, or a value applies only in the period it is given for.

## Design notes

The periods of sparse values increase. Data that name a period twice are a matter of `Grouping`;
here the later value replaces the earlier one.
-/

namespace NestedLogit

/-- Values for some periods, in the order of the periods. -/
structure Sparse (α : Type) where
  entries : List (Nat × α)
  increasing : entries.Pairwise fun a b => a.1 < b.1

/-- Why sparse values do not make a series. -/
inductive SparseError where
  /-- Values are given, but none for the first period, whose year is named. -/
  | firstYearMissing (year : Nat)
  /-- A value is given for a period that the calendar does not have. -/
  | noSuchPeriod
  deriving DecidableEq, Repr

/-- The message for sparse values that make no series. -/
def SparseError.message : SparseError → String
  | .firstYearMissing year => s!"Data must be provided for the first model year ({year})"
  | .noSuchPeriod => "No such period"

namespace Sparse

variable {α β : Type} {n : Nat}

/-- Puts a value into entries with increasing periods. -/
def put (period : Nat) (value : α) : List (Nat × α) → List (Nat × α)
  | [] => [(period, value)]
  | (q, w) :: rest =>
    if period < q then (period, value) :: (q, w) :: rest
    else if period = q then (period, value) :: rest
    else (q, w) :: put period value rest

theorem fst_mem_put {period : Nat} {value : α} {entries : List (Nat × α)} {e : Nat × α}
    (h : e ∈ put period value entries) : e = (period, value) ∨ e ∈ entries := by
  induction entries with
  | nil => simpa [put] using h
  | cons head rest ih =>
    obtain ⟨q, w⟩ := head
    simp only [put] at h
    split at h
    · simpa using h
    · split at h
      · simp only [List.mem_cons] at h ⊢
        exact h.imp_right .inr
      · simp only [List.mem_cons] at h ⊢
        exact h.elim (fun e => .inr (.inl e)) fun e => (ih e).imp_right .inr

theorem pairwise_put {period : Nat} {value : α} {entries : List (Nat × α)}
    (h : entries.Pairwise fun a b => a.1 < b.1) :
    (put period value entries).Pairwise fun a b => a.1 < b.1 := by
  induction entries with
  | nil => simp [put]
  | cons head rest ih =>
    obtain ⟨q, w⟩ := head
    rw [List.pairwise_cons] at h
    simp only [put]
    split
    · next hlt =>
      refine .cons (fun e he => ?_) (.cons h.1 h.2)
      rcases List.mem_cons.1 he with rfl | he
      · exact hlt
      · exact Nat.lt_trans hlt (h.1 e he)
    · split
      · next heq => exact .cons (fun e he => heq ▸ h.1 e he) h.2
      · next hlt hne =>
        refine .cons (fun e he => ?_) (ih h.2)
        rcases fst_mem_put he with rfl | he
        · show q < period
          omega
        · exact h.1 e he

/-- No values. -/
def empty : Sparse α :=
  ⟨[], .nil⟩

instance : Inhabited (Sparse α) := ⟨empty⟩

/-- Gives a value for a period, replacing one that is there. -/
def insert (s : Sparse α) (period : Nat) (value : α) : Sparse α :=
  ⟨put period value s.entries, pairwise_put s.increasing⟩

/-- The values of a list of pairs; a later pair replaces an earlier one of the same period. -/
def ofList (pairs : List (Nat × α)) : Sparse α :=
  pairs.foldl (fun s e => s.insert e.1 e.2) empty

/-- The value given for a period. -/
def get? (s : Sparse α) (period : Nat) : Option α :=
  s.entries.lookup period

/-- Whether a value is given for a period. -/
def contains (s : Sparse α) (period : Nat) : Bool :=
  (s.get? period).isSome

/-- Whether no values are given. -/
def isEmpty (s : Sparse α) : Bool :=
  s.entries.isEmpty

/-- The periods for which values are given. -/
def periods (s : Sparse α) : List Nat :=
  s.entries.map (·.1)

/-- Picks out one parameter of the rows given, where the row has it. -/
def filterMap (f : α → Option β) (s : Sparse α) : Sparse β where
  entries := s.entries.filterMap fun e => (f e.2).map (e.1, ·)
  increasing := by
    refine List.Pairwise.filterMap _ (fun a b hab x hx y hy => ?_) s.increasing
    obtain ⟨v, -, rfl⟩ := Option.map_eq_some_iff.1 hx
    obtain ⟨w, -, rfl⟩ := Option.map_eq_some_iff.1 hy
    exact hab

/-- Fills a series with each entry's value from the entry's period to the end, so that later entries
cover earlier ones. -/
def fill (series : Series n α) : List (Nat × α) → Option (Series n α)
  | [] => some series
  | (period, value) :: rest => (series.fillFrom? period value).bind (fill · rest)

/-- Carries each value forward to the period before the next given one. Without values every period
takes the default; otherwise the first period has to be given. -/
def carryForward (c : Calendar n) (s : Sparse α) (default : α) :
    Except SparseError (Series n α) :=
  if s.isEmpty then .ok (Series.const n default)
  else if s.contains 0 then
    match fill (Series.const n default) s.entries with
    | some series => .ok series
    | none => .error .noSuchPeriod
  else .error (.firstYearMissing (c.year c.first))

/-- Marks the periods of entries as given. -/
def mark (given : Series n Bool) : List (Nat × α) → Option (Series n Bool)
  | [] => some given
  | (period, _) :: rest => (given.set? period true).bind (mark · rest)

section Interpolation

variable [Quantity α]

/-- The value at period `p` on the line from one value at period `a` to another at period `b`, drawn
over the years. -/
def onLine (c : Calendar n) (a b p : Fin n) (fromValue toValue : α) : α :=
  fromValue + (toValue - fromValue) * (Quantity.whole (c.span a p) / Quantity.whole (c.span a b))

/-- Puts the values on the line between two given periods into the periods strictly between. -/
def drawLine (c : Calendar n) (series : Series n α) (a b : Fin n) (fromValue toValue : α) :
    Series n α :=
  Series.ofFn fun p => if a < p ∧ p < b then onLine c a b p fromValue toValue else series[p]

/-- Draws a line between each two neighbouring entries. -/
def drawLines (c : Calendar n) (series : Series n α) : List (Nat × α) → Option (Series n α)
  | (a, v) :: (b, w) :: rest => do
    let p ← c.period? a
    let q ← c.period? b
    drawLines c (drawLine c series p q v w) ((b, w) :: rest)
  | _ => some series

/-- Interpolates between the given periods and holds the last value to the end. The second series
tells which periods are given. -/
def interpolate (c : Calendar n) (s : Sparse α) (default : α) :
    Except SparseError (Series n α × Series n Bool) := do
  let carried ← s.carryForward c default
  match mark (Series.const n false) s.entries, drawLines c carried s.entries with
  | some given, some drawn => .ok (drawn, given)
  | _, _ => .error .noSuchPeriod

end Interpolation

/-- Puts each value into its own period and nowhere else. -/
def spread (series : Series n (Option α)) : List (Nat × α) → Option (Series n (Option α))
  | [] => some series
  | (period, value) :: rest => (series.set? period (some value)).bind (spread · rest)

/-- The series of values that apply only in the period they are given for. -/
def perPeriod (n : Nat) (s : Sparse α) : Except SparseError (Series n (Option α)) :=
  match spread (Series.const n none) s.entries with
  | some series => .ok series
  | none => .error .noSuchPeriod

end Sparse

end NestedLogit
