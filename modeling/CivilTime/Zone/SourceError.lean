/-!
# Errors of zone data

What a source of zone data reports: an identifier it does not know, or data it cannot use,
with a word on what is wrong.
-/
namespace CivilTime.Zone

inductive SourceError where
  /-- The identifier is not known. -/
  | notFound
  /-- A value of the data lies outside its supported range. -/
  | outOfRange (detail : String)
  /-- The data could not be read. -/
  | malformed (detail : String)
  /-- The data contradicts itself. -/
  | inconsistent (detail : String)
  deriving DecidableEq, Repr

namespace SourceError

def display : SourceError → String
  | notFound => "Time zone identifier does not exist."
  | outOfRange detail => "Range error: " ++ detail
  | malformed detail => "Parse error: " ++ detail
  | inconsistent detail => "Implementation error: " ++ detail

end SourceError
end CivilTime.Zone
