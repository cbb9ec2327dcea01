import NestedLogit.Id
import NestedLogit.Text.Blank

/-!
# Lists of regions

How input data name the regions that a row applies to: the word `all`, or names with semicolons
between them. Blank space around the list and around each name does not count.
-/

namespace NestedLogit

/-- Why a text names no regions. -/
inductive RegionListError where
  | blank
  | unknown (cause : UnknownId)
  deriving DecidableEq, Repr

/-- The message for a text that names no regions. -/
def RegionListError.message : RegionListError → String
  | .blank => "No regions provided"
  | .unknown cause => cause.message

/-- Whether a text is the word for all regions. -/
def isAllRegions (s : String) : Bool :=
  Text.sameIgnoringCase s "all"

/-- The regions that a text names, out of the regions there are. -/
def parseRegions (s : String) (regions : List RegionId) :
    Except RegionListError (List RegionId) :=
  let trimmed := Text.trim s
  if trimmed.isEmpty then .error .blank
  else if isAllRegions trimmed then .ok regions
  else
    ((Text.cut ';' trimmed.toList).mapM fun part =>
      Id.find regions (String.ofList (Text.trimChars part))).mapError .unknown

/-- The regions that a row names, in order and each once. -/
def parseRowRegions (s : String) (regions : List RegionId) :
    Except RegionListError (List RegionId) :=
  (parseRegions s regions).map Id.sorted

end NestedLogit
