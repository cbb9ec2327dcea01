/-!
# Identifiers

The names of the things that a model consists of. A name carries the kind of thing it stands for, so
that a region cannot be looked up where a sector is meant.
-/

namespace NestedLogit

/-- The kinds of things that have names. -/
inductive IdKind where
  | region
  | sector
  | subsector
  | technology
  | good
  deriving DecidableEq, Repr

/-- The word for a kind in messages that spell a name out. -/
def IdKind.label : IdKind → String
  | .region => "RegionID"
  | .sector => "SectorID"
  | .subsector => "SubsectorID"
  | .technology => "TechnologyID"
  | .good => "GoodID"

/-- The name of a thing of a given kind. -/
structure Id (kind : IdKind) where
  name : String
  deriving DecidableEq, Repr, Inhabited

instance {kind : IdKind} : ToString (Id kind) := ⟨Id.name⟩

/-- The name of a region. -/
abbrev RegionId := Id .region

/-- The name of a sector within its region. -/
abbrev SectorId := Id .sector

/-- The name of a subsector within its sector. -/
abbrev SubsectorId := Id .subsector

/-- The name of a technology within its subsector. -/
abbrev TechnologyId := Id .technology

/-- The name of a good. -/
abbrev GoodId := Id .good

/-- A name that is looked up in a set without it. -/
structure UnknownId where
  name : String
  deriving DecidableEq, Repr

/-- The message for a name that is not in the set. -/
def UnknownId.message (e : UnknownId) : String :=
  s!"Unknown ID {e.name} found"

namespace Id

variable {kind : IdKind}

/-- Whether one name comes before another; names are ordered by their characters' code points. -/
def le (a b : Id kind) : Bool :=
  a.name ≤ b.name

/-- Names in order, each once. -/
def sorted (ids : List (Id kind)) : List (Id kind) :=
  (ids.mergeSort le).eraseReps

/-- The member of a set of names that is spelt a given way. -/
def find (ids : List (Id kind)) (name : String) : Except UnknownId (Id kind) :=
  match ids.find? fun id => id.name = name with
  | some id => .ok id
  | none => .error ⟨name⟩

end Id

/-- The place of a sector: its region and its name. -/
structure SectorPath where
  region : RegionId
  sector : SectorId
  deriving DecidableEq, Repr

/-- The place of a subsector: its region, its sector and its name. -/
structure SubsectorPath where
  region : RegionId
  sector : SectorId
  subsector : SubsectorId
  deriving DecidableEq, Repr

/-- The place of a technology: its region, sector and subsector and its name. -/
structure TechnologyPath where
  region : RegionId
  sector : SectorId
  subsector : SubsectorId
  technology : TechnologyId
  deriving DecidableEq, Repr

/-- The sector of a subsector. -/
def SubsectorPath.parent (p : SubsectorPath) : SectorPath :=
  ⟨p.region, p.sector⟩

/-- The subsector of a technology. -/
def TechnologyPath.parent (p : TechnologyPath) : SubsectorPath :=
  ⟨p.region, p.sector, p.subsector⟩

/-- A sector's place in words. -/
def SectorPath.text (p : SectorPath) : String :=
  s!"{p.sector} in region {p.region}"

/-- A subsector's place in words. -/
def SubsectorPath.text (p : SubsectorPath) : String :=
  s!"{p.subsector} of sector {p.sector} in region {p.region}"

/-- A technology's place in words. -/
def TechnologyPath.text (p : TechnologyPath) : String :=
  s!"{p.technology} in subsector {p.subsector} of sector {p.sector} in region {p.region}"

end NestedLogit
