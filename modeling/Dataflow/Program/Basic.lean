import Dataflow.Collections.FinMap
import Dataflow.Graph.Text

/-!
# Programs

A program is the set of method bodies that are available, by the methods they
belong to, and the types that it knows by name. A call of a method without a body
is opaque to every analysis.
-/

namespace Dataflow

/-- The types that are known by name. -/
abbrev KnownTypes := FinMap String TypeRef

/-- The known types of a list; of equal names the last type stays. -/
def KnownTypes.ofList (types : List TypeRef) : KnownTypes :=
  FinMap.ofList (types.map fun t => (t.name, t))

/-- Method bodies and types. -/
structure Program where
  /-- The types, in the order in which they were declared. -/
  types : List TypeRef
  /-- The bodies by method. -/
  methods : FinMap Symbol Graph

namespace Program

/-- The program without types and bodies. -/
def empty : Program := ⟨[], FinMap.empty⟩

/-- The program of a list of bodies; of two bodies of one method the last stays. -/
def ofGraphs (types : List TypeRef) (graphs : List Graph) : Program :=
  ⟨types, FinMap.ofList (graphs.map fun g => (g.owner, g))⟩

/-- The program with a body in place of any body of the same method. -/
def addMethod (g : Graph) (p : Program) : Program := ⟨p.types, p.methods.insert g.owner g⟩

/-- The body of a method. -/
def body? (p : Program) (method : Symbol) : Option Graph := p.methods.find? method

/-- The methods with a body, in their order. -/
def methodList (p : Program) : List Symbol := p.methods.keys.toList

/-- The bodies, in the order of their methods. -/
def graphs (p : Program) : List Graph := p.methods.values

/-- The first method that answers to a plain or a qualified name. -/
def findMethod? (p : Program) (query : String) : Option Symbol :=
  p.methodList.find? (·.answersTo query)

/-- The types that the program knows. -/
def knownTypes (p : Program) : KnownTypes := KnownTypes.ofList p.types

/-- Every body is filed under its own method and passes the rules of graphs. -/
def Valid (p : Program) : Prop :=
  ∀ m g, p.body? m = some g → g.owner = m ∧ g.Valid

end Program

end Dataflow
