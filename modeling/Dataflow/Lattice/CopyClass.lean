import Dataflow.Collections.FinSet
import Dataflow.Entity.Contract
import Dataflow.Lattice.Basic

/-!
# Classes of copies

The entities that hold the same value. Entities stay copies only if they are
copies on every path, so merging intersects classes. A class is never empty
(`CopyClass.Valid`).
-/

namespace Dataflow

/-- The entities that hold the same value. -/
inductive CopyClass where
  /-- Nothing is known yet. -/
  | notApplicable
  /-- The path cannot be taken. -/
  | invalid
  /-- No entity is known to hold the value. -/
  | unknown
  /-- All of these entities hold the value. -/
  | known (members : FinSet Entity)
  deriving DecidableEq

namespace CopyClass

/-! ### Parts -/

/-- The entities, none if they are not known. -/
def members : CopyClass → FinSet Entity
  | known s => s
  | _ => FinSet.empty

/-- Whether the entities are known. -/
def isKnown : CopyClass → Bool
  | known _ => true
  | _ => false

/-- Whether the entity is known to hold the value. -/
def contains (c : CopyClass) (e : Entity) : Bool := c.members.contains e

/-- The name of the value's kind. -/
def kindText : CopyClass → String
  | notApplicable => "NotApplicable"
  | invalid => "Invalid"
  | unknown => "Unknown"
  | known _ => "Known"

/-- The text of the class. -/
def text : CopyClass → String
  | known s => "\x7b" ++ Text.commaSeparated (Text.sorted (s.toList.map (·.text))) ++ "\x7d"
  | c => c.kindText

/-! ### Constructors and changes -/

/-- The class of some entities. -/
def ofMembers (s : FinSet Entity) : Checked CopyClass :=
  if s.isEmpty then .error .noCopies else .ok (known s)

/-- The class of an entity that has no copies. -/
def singleton (e : Entity) : CopyClass := known (FinSet.singleton e)

/-- The class with another entity. -/
def add (e : Entity) : CopyClass → Checked CopyClass
  | known s => ofMembers (s.insert e)
  | _ => .error .joinUnknown

/-- The class without one of its entities, which must not be the last. -/
def remove (e : Entity) : CopyClass → Checked CopyClass
  | known s =>
    if !s.contains e then .error (.notMember e)
    else if s.size ≤ 1 then .error (.lastMember e)
    else ofMembers (s.erase e)
  | _ => .error .leaveUnknown

/-- The set without some of its members, one after the other. -/
def removeEach (s : FinSet Entity) : List Entity → Checked (FinSet Entity)
  | [] => .ok s
  | e :: es => if s.contains e then removeEach (s.erase e) es else .error (.notMember e)

/-- The class without some of its entities, which must not be all. -/
def removeAll (l : List Entity) : CopyClass → Checked CopyClass
  | known s => do
    let rest ← removeEach s l
    if rest.isEmpty then .error .everyMember else ofMembers rest
  | _ => .error .leaveUnknown

/-! ### The lattice -/

/-- The least value. -/
def bottom : CopyClass := notApplicable

/-- The greatest value. -/
def top : CopyClass := unknown

/-- What holds if either value may hold. -/
def merge (a b : CopyClass) : CopyClass :=
  if a = b then a
  else
    match a, b with
    | notApplicable, b => b
    | a, notApplicable => a
    | invalid, b => b
    | a, invalid => a
    | unknown, _ => unknown
    | _, unknown => unknown
    | known s, known t =>
      let common := s.inter t
      if common.isEmpty then unknown else known common

/-- The values that the constructors make. -/
def Valid : CopyClass → Prop
  | known s => s ≠ FinSet.empty
  | _ => True

end CopyClass

end Dataflow
