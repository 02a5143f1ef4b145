import Dataflow.Entity.Text

/-!
# Contracts

Abstract values come from constructors that ask for something: a set that is not
empty, a member that is there. Counts ask for room in their word. A call that breaks
the rule names it.
-/

namespace Dataflow

/-- The rule that a call breaks. -/
inductive Violation where
  /-- A sentinel location was passed where an object's location is asked for. -/
  | sentinel
  /-- Known locations were asked for, and none was given. -/
  | noLocations
  /-- Known locations were given with a nullness that says nothing. -/
  | indefiniteNullness
  /-- A value that is not null was to contain the null location. -/
  | nullLocation
  /-- Captured addresses were asked for, and none was given. -/
  | noCaptures
  /-- The nullness of captured addresses was to be changed. -/
  | captureNullness
  /-- A null value was to become one that may be null. -/
  | nullMayBeNull
  /-- A class of copies was asked for, and no entity was given. -/
  | noCopies
  /-- An entity was to join something that is no class of copies. -/
  | joinUnknown
  /-- An entity was to leave something that is no class of copies. -/
  | leaveUnknown
  /-- An entity was to leave a class it is not in. -/
  | notMember (entity : Entity)
  /-- The only entity of a class was to leave it. -/
  | lastMember (entity : Entity)
  /-- All entities of a class were to leave it. -/
  | everyMember
  /-- Literal content was asked for, and no literal was given. -/
  | noLiterals
  /-- An entity of unknown objects was to name a location. -/
  | unstable (entity : Entity)
  /-- A count was to grow beyond a machine word. -/
  | countOverflow
  deriving DecidableEq, Repr

/-- What is wrong. -/
def Violation.message : Violation → String
  | sentinel => "use the null_location/no_location singletons for sentinel locations"
  | noLocations => "known locations require a non-empty location set"
  | indefiniteNullness => "known locations require a definite null state"
  | nullLocation => "a NotNull value cannot contain the null location"
  | noCaptures => "known l-value captures require a non-empty capture set"
  | captureNullness => "l-value captures carry no null state"
  | nullMayBeNull => "a definitely-null value cannot become maybe-null"
  | noCopies => "a known copy value needs at least one entity"
  | joinUnknown => "entities can only join a known copy value"
  | leaveUnknown => "entities can only leave a known copy value"
  | notMember entity => entity.text ++ " is not part of this copy value"
  | lastMember entity => "removing " ++ entity.text ++ " would leave an empty copy value"
  | everyMember => "removing every entity would leave an empty copy value"
  | noLiterals => "literal content needs at least one literal"
  | unstable entity => entity.text ++ " has no stable identity to build a location from"
  | countOverflow => "attempt to add with overflow"

/-- The result of a call that may break a rule. -/
abbrev Checked (α : Type) := Except Violation α

end Dataflow
