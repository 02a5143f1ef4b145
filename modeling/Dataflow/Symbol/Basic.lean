import Dataflow.Collections.Comparison

/-!
# Symbols and types

A symbol names a declared thing of the analysed program: a local, a parameter, a
field or a method. Symbols are compared by content, in the order of their
fields; no identity beyond the content exists.
-/

namespace Dataflow

/-! ### Kinds -/

/-- What a symbol declares. -/
inductive SymbolKind where
  /-- A local variable. -/
  | localVar
  /-- A parameter of a method. -/
  | parameter
  /-- A field of each object of a type. -/
  | field
  /-- A field of a type, with one storage cell in all. -/
  | staticField
  /-- A method. -/
  | method
  deriving DecidableEq, Repr

namespace SymbolKind

/-- The place of the kind in the order of kinds. -/
def rank : SymbolKind → Nat
  | localVar => 0
  | parameter => 1
  | field => 2
  | staticField => 3
  | method => 4

theorem rank_inj {a b : SymbolKind} (h : a.rank = b.rank) : a = b := by
  cases a <;> cases b <;> simp_all [rank]

instance : Ord SymbolKind := ⟨compareOn rank⟩

instance : Std.TransOrd SymbolKind := inferInstanceAs (Std.TransCmp (compareOn rank))

instance : Std.LawfulEqOrd SymbolKind :=
  lawfulEqOrd_of fun _ _ h => rank_inj (compareOn_eq_iff.1 h)

/-- The name of the kind. -/
def text : SymbolKind → String
  | localVar => "Local"
  | parameter => "Parameter"
  | field => "Field"
  | staticField => "StaticField"
  | method => "Method"

end SymbolKind

/-- How a parameter, or an argument bound to it, passes its value. -/
inductive RefKind where
  /-- The callee gets a copy. -/
  | value
  /-- The callee reads and writes the caller's storage. -/
  | ref
  /-- The callee writes the caller's storage. -/
  | out
  deriving DecidableEq, Repr

namespace RefKind

/-- The place of the kind in the order of kinds. -/
def rank : RefKind → Nat
  | value => 0
  | ref => 1
  | out => 2

theorem rank_inj {a b : RefKind} (h : a.rank = b.rank) : a = b := by
  cases a <;> cases b <;> simp_all [rank]

instance : Ord RefKind := ⟨compareOn rank⟩

instance : Std.TransOrd RefKind := inferInstanceAs (Std.TransCmp (compareOn rank))

instance : Std.LawfulEqOrd RefKind :=
  lawfulEqOrd_of fun _ _ h => rank_inj (compareOn_eq_iff.1 h)

/-- Whether the callee may write through the parameter. -/
def isByRef : RefKind → Bool
  | value => false
  | ref | out => true

/-- The name of the kind. -/
def text : RefKind → String
  | value => "Value"
  | ref => "Ref"
  | out => "Out"

end RefKind

/-! ### Types -/

/-- A named type. Only the name and whether its values live on the heap matter. -/
structure TypeRef where
  /-- The full name. -/
  name : String
  /-- Whether values of the type are references to heap objects. -/
  isReference : Bool
  deriving DecidableEq, Repr

namespace TypeRef

instance : Ord TypeRef := ⟨compareLex (compareOn name) (compareOn isReference)⟩

instance : Std.TransOrd TypeRef :=
  inferInstanceAs (Std.TransCmp (compareLex (compareOn name) (compareOn isReference)))

instance : Std.LawfulEqOrd TypeRef :=
  lawfulEqOrd_of fun a b h => by
    obtain ⟨h₁, h₂⟩ := compareLex_eq_iff.1 h
    cases a
    cases b
    simp_all [compareOn_eq_iff]

/-- The reference type of a name. -/
def reference (name : String) : TypeRef := ⟨name, true⟩

/-- The value type of a name. -/
def value (name : String) : TypeRef := ⟨name, false⟩

/-- Whether values of a type live on the heap; without a declared type they are assumed to. -/
def holdsReference (type : Option TypeRef) : Bool :=
  match type with
  | none => true
  | some t => t.isReference

/-- The name of a type, or a question mark. -/
def nameOrUnknown (type : Option TypeRef) : String :=
  match type with
  | none => "?"
  | some t => t.name

end TypeRef

/-! ### Symbols -/

/-- A declared thing of the analysed program. -/
structure Symbol where
  /-- The plain name. -/
  name : String
  /-- What is declared. -/
  kind : SymbolKind
  /-- The declared type; of a method, the type it returns. -/
  type : Option TypeRef
  /-- The declaring type of a field or method. -/
  containingType : Option String
  /-- How a parameter passes its value. -/
  refKind : RefKind
  /-- The position of a parameter, zero for everything else. -/
  ordinal : UInt32
  deriving DecidableEq, Repr

namespace Symbol

instance : Ord Symbol :=
  ⟨compareLex (compareOn name) <| compareLex (compareOn kind) <| compareLex (compareOn type) <|
    compareLex (compareOn containingType) <| compareLex (compareOn refKind) (compareOn ordinal)⟩

instance : Std.TransOrd Symbol :=
  inferInstanceAs (Std.TransCmp <|
    compareLex (compareOn name) <| compareLex (compareOn kind) <| compareLex (compareOn type) <|
      compareLex (compareOn containingType) <| compareLex (compareOn refKind) (compareOn ordinal))

instance : Std.LawfulEqOrd Symbol :=
  lawfulEqOrd_of fun a b h => by
    obtain ⟨h₁, h⟩ := compareLex_eq_iff.1 h
    obtain ⟨h₂, h⟩ := compareLex_eq_iff.1 h
    obtain ⟨h₃, h⟩ := compareLex_eq_iff.1 h
    obtain ⟨h₄, h⟩ := compareLex_eq_iff.1 h
    obtain ⟨h₅, h₆⟩ := compareLex_eq_iff.1 h
    cases a
    cases b
    simp_all [compareOn_eq_iff]

/-- A local variable. -/
def localVar (name : String) (type : Option TypeRef) : Symbol :=
  ⟨name, .localVar, type, none, .value, 0⟩

/-- A method of a type. -/
def method (containingType name : String) (type : Option TypeRef) : Symbol :=
  ⟨name, .method, type, some containingType, .value, 0⟩

/-- Whether the symbol is a static field, which has one storage cell in all. -/
def isStatic (s : Symbol) : Bool := s.kind == .staticField

/-- Whether the symbol holds references. -/
def isReference (s : Symbol) : Bool := TypeRef.holdsReference s.type

/-- Members and methods are written with their declaring type, where they have one. -/
def text (s : Symbol) : String :=
  match s.kind, s.containingType with
  | .field, some t | .staticField, some t | .method, some t => t ++ "." ++ s.name
  | _, _ => s.name

/-- Whether a query for a method means this symbol: by the plain name or by `Type.name`. -/
def answersTo (s : Symbol) (query : String) : Bool :=
  s.name == query || s.containingType.any fun t => t ++ "." ++ s.name == query

end Symbol

end Dataflow
