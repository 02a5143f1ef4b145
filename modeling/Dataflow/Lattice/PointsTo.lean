import Dataflow.Collections.FinSet
import Dataflow.Entity.Contract

/-!
# Points-to values

Constructors, changes of nullness, and the lattice. A value with known locations
has at least one location, a nullness that says something, and no null location
if it is not null (`PointsTo.Valid`). Merging unites locations; widening gives them
up as soon as they grow, because a location may name an entity that hangs off
further locations, without end.
-/

namespace Dataflow

namespace Location

/-- Whether the location stands for no object. -/
def isSentinel : Location → Bool
  | null | noLocation => true
  | allocation .. | entity _ => false

end Location

namespace PointsTo

/-! ### Parts -/

/-- The locations, none if they are not known. -/
def locations : PointsTo → List Location
  | known l _ => l
  | _ => []

/-- The captures, none if the value is no address of captured storage. -/
def captureSet : PointsTo → List OperationId
  | captures c => c
  | _ => []

/-- Whether the reference may be null. -/
def nullness : PointsTo → Nullness
  | undefined => .undefined
  | invalid => .invalid
  | unknown => .maybeNull
  | unknownNull => .null
  | unknownNotNull => .notNull
  | known _ n => n
  | captures _ => .notNull

/-- Whether the locations are known. -/
def isKnown : PointsTo → Bool
  | known .. => true
  | _ => false

/-- Whether the value says nothing about where it points. -/
def isUnknown : PointsTo → Bool
  | unknown | unknownNull | unknownNotNull => true
  | _ => false

/-- Whether the value is an address of captured storage. -/
def isCapture : PointsTo → Bool
  | captures _ => true
  | _ => false

/-- The locations that stand for objects. -/
def heapLocations (v : PointsTo) : List Location := v.locations.filter fun l => !l.isSentinel

/-- The name of the value's kind. -/
def kindText : PointsTo → String
  | undefined => "Undefined"
  | invalid => "Invalid"
  | unknown => "Unknown"
  | unknownNull => "UnknownNull"
  | unknownNotNull => "UnknownNotNull"
  | known .. => "KnownLocations"
  | captures _ => "KnownLValueCaptures"

/-! ### Constructors -/

/-- A value that references nothing that can be analysed, such as a number. -/
def noLocation : PointsTo := known [.noLocation] .notNull

/-- The null reference. -/
def nullLocation : PointsTo := known [.null] .null

/-- The unknown value of a nullness. -/
def unknownWith : Nullness → PointsTo
  | .null => unknownNull
  | .notNull => unknownNotNull
  | _ => unknown

/-- One object's location. -/
def ofLocation (l : Location) (mayBeNull : Bool) : Checked PointsTo :=
  if l.isSentinel then .error .sentinel
  else .ok (known [l] (if mayBeNull then .maybeNull else .notNull))

/-- Some locations. -/
def ofLocations (l : List Location) (n : Nullness) : Checked PointsTo :=
  if l.isEmpty then .error .noLocations
  else if !n.isDefinite then .error .indefiniteNullness
  else if n == .notNull && l.contains .null then .error .nullLocation
  else .ok (known (Ascending.ofList id l) n)

/-- The address of storage that one of some operations captured. -/
def ofCaptures (operations : List OperationId) : Checked PointsTo :=
  if operations.isEmpty then .error .noCaptures
  else .ok (captures (Ascending.ofList id operations))

/-! ### Changes of nullness -/

/-- The value on a path on which it is not null. -/
def makeNonNull (v : PointsTo) : Checked PointsTo :=
  if v.isCapture then .error .captureNullness
  else if v.nullness = .notNull then .ok v
  else
    match v.locations.filter (· ≠ .null) with
    | [] => .ok unknownNotNull
    | l => ofLocations l .notNull

/-- The value on a path on which it is null. -/
def makeNull (v : PointsTo) : Checked PointsTo :=
  if v.isCapture then .error .captureNullness
  else if v.nullness = .null then .ok v
  else if v.locations.isEmpty then .ok unknownNull
  else ofLocations v.locations .null

/-- The value where it may be null. -/
def makeMayBeNull (v : PointsTo) : Checked PointsTo :=
  if v.isCapture then .error .captureNullness
  else if v.nullness = .null then .error .nullMayBeNull
  else if v.nullness = .maybeNull then .ok v
  else if v.locations.isEmpty then .ok unknown
  else ofLocations v.locations .maybeNull

/-! ### The lattice -/

/-- The least value. -/
def bottom : PointsTo := undefined

/-- The greatest value. -/
def top : PointsTo := unknown

/-- What holds if either value may hold. -/
def merge (a b : PointsTo) : PointsTo :=
  if a = b then a
  else
    match a, b with
    | undefined, b => b
    | a, undefined => a
    | invalid, b => b
    | a, invalid => a
    | unknown, _ => unknown
    | _, unknown => unknown
    | captures c, captures d => captures (Ascending.union id c d)
    | captures _, _ => unknown
    | _, captures _ => unknown
    | known l m, known k n => known (Ascending.union id l k) (m.merge n)
    | a, b => unknownWith (a.nullness.merge b.nullness)

@[simp]
theorem merge_self (a : PointsTo) : merge a a = a := by
  simp [merge]

/-- Merges, and gives up all locations if that adds something to the first value. -/
def widen (previous next : PointsTo) : PointsTo :=
  let merged := merge previous next
  if merged = previous then merged else unknownWith merged.nullness

/-- The values that the constructors make. -/
def Valid : PointsTo → Prop
  | known l n => Ascending id l ∧ l ≠ [] ∧ n.isDefinite = true ∧ (n = .notNull → ¬ .null ∈ l)
  | captures c => Ascending id c ∧ c ≠ []
  | _ => True

end PointsTo

end Dataflow
