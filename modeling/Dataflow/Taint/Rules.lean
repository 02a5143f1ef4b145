import Dataflow.Program.Basic

/-!
# Taint rules

A configuration says which methods and members bring untrusted data in, which
methods clean it, and which arguments of which methods it must not reach. Rules
about types that the program does not know are dropped. The rules for one sink add
up.
-/

namespace Dataflow

/-- Where untrusted data comes from. -/
inductive SourceRule where
  /-- The result of a method. -/
  | method (typeName method : String)
  /-- A read of a field or property. -/
  | member (typeName member : String)
  deriving DecidableEq, Repr

/-- A method that returns clean data. -/
structure SanitizerRule where
  /-- The declaring type. -/
  typeName : String
  /-- The method. -/
  method : String
  deriving DecidableEq, Repr

/-- A method that must not get untrusted data. -/
structure SinkRule where
  /-- The declaring type. -/
  typeName : String
  /-- The method. -/
  method : String
  /-- The positions of the sensitive parameters. -/
  parameters : List UInt32
  deriving DecidableEq, Repr

/-- Sources, sanitizers and sinks. -/
structure TaintConfig where
  /-- The sources. -/
  sources : List SourceRule
  /-- The sanitizers. -/
  sanitizers : List SanitizerRule
  /-- The sinks. -/
  sinks : List SinkRule
  deriving DecidableEq, Repr

/-- The configuration without rules. -/
def TaintConfig.empty : TaintConfig := ⟨[], [], []⟩

/-- A member of a type, by names. -/
abbrev MemberName := String × String

/-- The rules about known types. -/
structure TaintRules where
  /-- The methods whose results are untrusted. -/
  sourceMethods : FinSet MemberName
  /-- The members whose values are untrusted. -/
  sourceMembers : FinSet MemberName
  /-- The methods whose results are clean. -/
  sanitizers : FinSet MemberName
  /-- The sensitive positions of each sink; all positions if none is listed. -/
  sinks : FinMap MemberName (FinSet UInt32)

namespace TaintRules

/-- Adds the rule of a sink to those there are. -/
def addSink (sinks : FinMap MemberName (FinSet UInt32)) (rule : SinkRule) :
    FinMap MemberName (FinSet UInt32) :=
  let name := (rule.typeName, rule.method)
  sinks.insert name (((sinks.find? name).getD FinSet.empty).union (FinSet.ofList rule.parameters))

/-- The rules of a configuration about the known types. -/
def ofConfig (known : KnownTypes) (config : TaintConfig) : TaintRules where
  sourceMethods := FinSet.ofList <| config.sources.filterMap fun
    | .method t m => if known.contains t then some (t, m) else none
    | .member .. => none
  sourceMembers := FinSet.ofList <| config.sources.filterMap fun
    | .member t m => if known.contains t then some (t, m) else none
    | .method .. => none
  sanitizers := FinSet.ofList <| config.sanitizers.filterMap fun r =>
    if known.contains r.typeName then some (r.typeName, r.method) else none
  sinks := (config.sinks.filter fun r => known.contains r.typeName).foldl addSink FinMap.empty

/-- The name by which rules know a symbol; symbols without a declaring type have none. -/
def nameOf (s : Symbol) : Option MemberName := s.containingType.map fun t => (t, s.name)

/-- Whether the results of a method are untrusted. -/
def isSourceMethod (r : TaintRules) (s : Symbol) : Bool := (nameOf s).any r.sourceMethods.contains

/-- Whether the values of a member are untrusted. -/
def isSourceMember (r : TaintRules) (s : Symbol) : Bool := (nameOf s).any r.sourceMembers.contains

/-- Whether the results of a method are clean. -/
def isSanitizer (r : TaintRules) (s : Symbol) : Bool := (nameOf s).any r.sanitizers.contains

/-- Whether an argument of a method is sensitive. -/
def isSinkArgument (r : TaintRules) (s : Symbol) (ordinal : UInt32) : Bool :=
  ((nameOf s).bind r.sinks.find?).any fun positions =>
    positions.isEmpty || positions.contains ordinal

/-- Whether a method has sensitive arguments. -/
def isSink (r : TaintRules) (s : Symbol) : Bool := (nameOf s).any r.sinks.contains

/-- Whether there is no rule. -/
def isEmpty (r : TaintRules) : Bool :=
  r.sourceMethods.isEmpty && r.sourceMembers.isEmpty && r.sanitizers.isEmpty && r.sinks.isEmpty

end TaintRules

end Dataflow
