/-!
Why a YAML text has no value. A malformed text is told apart from a well-formed one whose scalars
are not what their tags promise.
-/

namespace Outline.Yaml

inductive Fault where
  /-- Not a document of the language, or one that uses what has no meaning here. -/
  | malformed
  | badNumber
  /-- A number is beyond the range in which it is computed with. -/
  | tooLarge
  | emptyNumber
  | badTruthValue
  | badMoment
  deriving DecidableEq, Repr

end Outline.Yaml
