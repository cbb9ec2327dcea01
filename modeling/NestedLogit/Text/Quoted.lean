import NestedLogit.Id
import NestedLogit.Text.Hidden

/-!
# Quoted texts

A text between double quotes in a message, in which quotes, backslashes and characters that would
not show are spelt out.
-/

namespace NestedLogit.Text

/-- A whole number in base sixteen, in lower case. -/
def hexadecimal (n : Nat) : String :=
  String.ofList (Nat.toDigits 16 n)

/-- What stands for a character between quotes. -/
def escape (c : Char) : String :=
  if c = '"' then "\\\""
  else if c = '\\' then "\\\\"
  else if c = '\n' then "\\n"
  else if c = '\r' then "\\r"
  else if c = '\t' then "\\t"
  else if c.toNat = 0 then "\\0"
  else if isHidden c then "\\u\x7b" ++ hexadecimal c.toNat ++ "\x7d"
  else c.toString

/-- A text between quotes. -/
def quoted (s : String) : String :=
  "\"" ++ String.join (s.toList.map escape) ++ "\""

end NestedLogit.Text

namespace NestedLogit

/-- Keys that messages spell out. -/
class Spell (κ : Type) where
  /-- A key as messages spell it out. -/
  spell : κ → String

export Spell (spell)

instance : Spell String := ⟨Text.quoted⟩

instance {kind : IdKind} : Spell (Id kind) :=
  ⟨fun id => s!"{kind.label}({Text.quoted id.name})"⟩

instance {κ μ : Type} [Spell κ] [Spell μ] : Spell (κ × μ) :=
  ⟨fun k => s!"({spell k.1}, {spell k.2})"⟩

instance : Spell SectorPath :=
  ⟨fun p => s!"({spell p.region}, {spell p.sector})"⟩

instance : Spell SubsectorPath :=
  ⟨fun p => s!"({spell p.region}, {spell p.sector}, {spell p.subsector})"⟩

instance : Spell TechnologyPath :=
  ⟨fun p =>
    s!"({spell p.region}, {spell p.sector}, {spell p.subsector}, {spell p.technology})"⟩

end NestedLogit
