import NestedLogit.CalculationError
import NestedLogit.Event

/-!
# Runs

The result of a calculation that changes a state: the state as the calculation leaves it, what it
reported, and why it stopped, if it did not come to its end. A calculation that stops keeps what it
did up to then.
-/

namespace NestedLogit

/-- The result of a calculation on a state `σ`. -/
structure Run (α σ : Type) where
  /-- The state as the calculation leaves it. -/
  state : σ
  /-- What was reported, in order. -/
  log : List (Event α)
  /-- Why the calculation stopped early, if it did. -/
  failure : Option (CalculationError α)

namespace Run

variable {α σ τ : Type} {n : Nat}

/-- A calculation that came to its end and reported nothing. -/
def ok (s : σ) : Run α σ :=
  ⟨s, [], none⟩

/-- A calculation that stopped. -/
def fail (s : σ) (e : CalculationError α) : Run α σ :=
  ⟨s, [], some e⟩

/-- Whether the calculation came to its end. -/
def succeeded (r : Run α σ) : Bool :=
  r.failure.isNone

/-- Goes on from the state that a calculation leaves, unless it stopped. -/
def andThen (r : Run α σ) (next : σ → Run α σ) : Run α σ :=
  match r.failure with
  | some _ => r
  | none =>
    let r' := next r.state
    ⟨r'.state, r.log ++ r'.log, r'.failure⟩

/-- Looks at the state in another way. -/
def map (r : Run α σ) (f : σ → τ) : Run α τ :=
  ⟨f r.state, r.log, r.failure⟩

/-- Puts events in front of what a calculation reports. -/
def after (events : List (Event α)) (r : Run α σ) : Run α σ :=
  { r with log := events ++ r.log }

/-- Says in the course of which activity a calculation stopped. -/
def within (activity : Activity) (r : Run α σ) : Run α σ :=
  { r with failure := r.failure.map (.within activity) }

/-- Calculates the members of a list in turn. The first that stops ends the calculation, and the
members behind it stay as they are. -/
def each (f : σ → Run α σ) : List σ → Run α (List σ)
  | [] => ok []
  | s :: rest =>
    let r := f s
    match r.failure with
    | some e => ⟨r.state :: rest, r.log, some e⟩
    | none =>
      let r' := each f rest
      ⟨r.state :: r'.state, r.log ++ r'.log, r'.failure⟩

/-- Calculates the members of a list in turn and hands a shared state on from each to the next. -/
def eachWith (f : τ → σ → Run α (τ × σ)) : τ → List σ → Run α (τ × List σ)
  | t, [] => ok (t, [])
  | t, s :: rest =>
    let r := f t s
    match r.failure with
    | some e => ⟨(r.state.1, r.state.2 :: rest), r.log, some e⟩
    | none =>
      let r' := eachWith f r.state.1 rest
      ⟨(r'.state.1, r.state.2 :: r'.state.2), r.log ++ r'.log, r'.failure⟩

/-- Runs a calculation of a period, given by its number, which the state has to have. -/
def ofPeriod (s : σ) (period? : Option (Fin n)) (f : Fin n → Run α σ) : Run α σ :=
  match period? with
  | some p => f p
  | none => fail s .noSuchPeriod

@[simp] theorem each_nil (f : σ → Run α σ) : each f [] = ok [] := rfl

end Run

end NestedLogit
