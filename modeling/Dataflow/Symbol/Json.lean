import Dataflow.Symbol.Basic
import Dataflow.Json.Decode

/-!
# Symbols and types as JSON

Every field is written. Of a type, only the name must be there to be read, of a
symbol, the name and the kind.
-/

namespace Dataflow

namespace SymbolKind

/-- The kind by its name. -/
def toJson (k : SymbolKind) : Json := .string k.text

/-- Reads a kind. -/
def ofJson (j : Json) : Decoded SymbolKind := do
  match ← j.asChoice with
  | ("Local", c) => Json.unit .localVar c
  | ("Parameter", c) => Json.unit .parameter c
  | ("Field", c) => Json.unit .field c
  | ("StaticField", c) => Json.unit .staticField c
  | ("Method", c) => Json.unit .method c
  | _ => .error .mismatch

end SymbolKind

namespace RefKind

/-- The kind by its name. -/
def toJson (k : RefKind) : Json := .string k.text

/-- Reads a kind. -/
def ofJson (j : Json) : Decoded RefKind := do
  match ← j.asChoice with
  | ("Value", c) => Json.unit .value c
  | ("Ref", c) => Json.unit .ref c
  | ("Out", c) => Json.unit .out c
  | _ => .error .mismatch

end RefKind

namespace TypeRef

/-- The record of a type. -/
def toJson (t : TypeRef) : Json :=
  .object [("name", .string t.name), ("is_reference_type", .bool t.isReference)]

/-- Reads a type; types are reference types unless said otherwise. -/
def ofJson (j : Json) : Decoded TypeRef := do
  match ← j.fields ["name", "is_reference_type"] with
  | [name, isReference] =>
    return ⟨← Json.required Json.asString name, ← Json.orElse true Json.asBool isReference⟩
  | _ => .error .mismatch

end TypeRef

namespace Symbol

/-- The record of a symbol. -/
def toJson (s : Symbol) : Json :=
  .object [
    ("name", .string s.name),
    ("kind", s.kind.toJson),
    ("ty", Json.ofOption TypeRef.toJson s.type),
    ("containing_type", Json.ofOption Json.string s.containingType),
    ("ref_kind", s.refKind.toJson),
    ("ordinal", Json.ofUInt32 s.ordinal)]

/-- Reads a symbol. -/
def ofJson (j : Json) : Decoded Symbol := do
  match ← j.fields ["name", "kind", "ty", "containing_type", "ref_kind", "ordinal"] with
  | [name, kind, type, containingType, refKind, ordinal] =>
    return {
      name := ← Json.required Json.asString name
      kind := ← Json.required SymbolKind.ofJson kind
      type := ← Json.optional TypeRef.ofJson type
      containingType := ← Json.optional Json.asString containingType
      refKind := ← Json.orElse .value RefKind.ofJson refKind
      ordinal := ← Json.orElse 0 Json.asUInt32 ordinal }
  | _ => .error .mismatch

end Symbol

end Dataflow
