import Dataflow.Operation.Json
import Dataflow.Proofs.Json.Decoding
import Dataflow.Proofs.Operation.Subtree

/-!
# Operations are restored

Operations are read with a bound on their depth, which is the depth of the value that is read. An operand stands
deeper in the value than the operation, so the bound that is left is enough for it.

## What is proved

Symbols, types, constants and operators are restored. The content of an operation is restored if its operands are
(`contentOfJson_toJson`, one case for each kind of operation), and an operand is less deep (`depth_toJson_lt`). So by
induction over operands every operation is restored with any bound that is not less than its depth
(`ofJsonWithin_toJson`).
-/

namespace Dataflow

open Json (asOption ofOption asList asOption_ofOption asList_ofList)

/-! ### Parts of operations -/

@[simp]
theorem SymbolKind.ofJson_toJson (k : SymbolKind) : ofJson k.toJson = .ok k := by
  cases k <;> rfl

@[simp]
theorem RefKind.ofJson_toJson (k : RefKind) : ofJson k.toJson = .ok k := by
  cases k <;> rfl

@[simp]
theorem BinaryOperator.ofJson_toJson (o : BinaryOperator) : ofJson o.toJson = .ok o := by
  cases o <;> rfl

@[simp]
theorem Literal.ofJson_toJson (l : Literal) : ofJson l.toJson = .ok l := by
  cases l <;> simp [ofJson, toJson, Json.unit]

@[simp]
theorem OperationId.ofJson_toJson (i : OperationId) : ofJson i.toJson = .ok i := by
  simp [ofJson, toJson]

@[simp]
theorem CaptureId.ofJson_toJson (i : CaptureId) : ofJson i.toJson = .ok i := by
  simp [ofJson, toJson]

@[simp]
theorem SourceSpan.ofJson_toJson (s : SourceSpan) : ofJson s.toJson = .ok s := by
  simp [ofJson, toJson]

@[simp]
theorem TypeRef.ofJson_toJson (t : TypeRef) : ofJson t.toJson = .ok t := by
  simp [ofJson, toJson]

@[simp]
theorem TypeRef.asOption_toJson (t : Option TypeRef) : asOption ofJson (ofOption toJson t) = .ok t :=
  asOption_ofOption fun t _ => ⟨t.ofJson_toJson, by simp [toJson]⟩

@[simp]
theorem Symbol.ofJson_toJson (s : Symbol) : ofJson s.toJson = .ok s := by
  have containing : asOption Json.asString (ofOption Json.string s.containingType) = .ok s.containingType :=
    asOption_ofOption fun _ _ => ⟨rfl, by simp⟩
  simp [ofJson, toJson, containing]

@[simp]
theorem Symbol.asOption_toJson (s : Option Symbol) : asOption ofJson (ofOption toJson s) = .ok s :=
  asOption_ofOption fun s _ => ⟨s.ofJson_toJson, by simp [toJson]⟩

/-! ### Depth of values -/

namespace Json

theorem depth_pos (j : Json) : 0 < j.depth := by
  cases j <;> simp [depth]

theorem depth_le_itemsDepth {j : Json} {items : List Json} (h : j ∈ items) : j.depth ≤ itemsDepth items := by
  induction items with
  | nil => cases h
  | cons k items ih =>
    rw [itemsDepth]
    rcases List.mem_cons.1 h with rfl | h
    · exact Nat.le_max_left _ _
    · exact Nat.le_trans (ih h) (Nat.le_max_right _ _)

end Json

/-! ### Operands -/

/-- The record of an argument. -/
def Argument.toJson (a : Argument Operation) : Json :=
  .object [("parameter", ofOption Symbol.toJson a.parameter), ("value", a.value.toJson), ("ref_kind", a.refKind.toJson)]

namespace Operation

theorem toJson_ne_null (op : Operation) : op.toJson ≠ .null := by
  cases op <;> simp [toJson, record]

theorem optionToJson_eq (op : Option Operation) : optionToJson op = ofOption toJson op := by
  cases op <;> rfl

theorem listToJson_eq (ops : List Operation) : listToJson ops = ops.map toJson := by
  induction ops with
  | nil => rfl
  | cons op ops ih => rw [listToJson, List.map_cons, ih]

theorem argumentsToJson_eq (args : List (Argument Operation)) : argumentsToJson args = args.map Argument.toJson := by
  induction args with
  | nil => rfl
  | cons a args ih => rw [argumentsToJson, List.map_cons, ih, Argument.toJson]

section Operands

variable {read : Json → Decoded Operation}

theorem asOption_optionToJson {owner : Option Operation} (h : ∀ o ∈ owner, read o.toJson = .ok o) :
    asOption read (optionToJson owner) = .ok owner := by
  rw [optionToJson_eq]
  exact asOption_ofOption fun o ho => ⟨h o ho, toJson_ne_null o⟩

theorem asList_listToJson {ops : List Operation} (h : ∀ o ∈ ops, read o.toJson = .ok o) :
    asList read (.array (listToJson ops)) = .ok ops := by
  rw [listToJson_eq]
  exact asList_ofList h

theorem argumentOfJson_toJson {a : Argument Operation} (h : read a.value.toJson = .ok a.value) :
    argumentOfJson read a.toJson = .ok a := by
  simp [argumentOfJson, Argument.toJson, h]

theorem asList_argumentsToJson {args : List (Argument Operation)} (h : ∀ a ∈ args, read a.value.toJson = .ok a.value) :
    asList (argumentOfJson read) (.array (argumentsToJson args)) = .ok args := by
  rw [argumentsToJson_eq]
  exact asList_ofList fun a ha => argumentOfJson_toJson (h a ha)

end Operands

/-! ### Contents -/

/-- An operation is the record of a content that is read back if the operands are. -/
theorem contentOfJson_toJson {read : Json → Decoded Operation} {op : Operation}
    (h : ∀ o ∈ op.operands, read o.toJson = .ok o) :
    ∃ content make, op.toJson = record op.info content ∧ contentOfJson read content = .ok make ∧
      make op.info = op := by
  cases op with
  | literal _ value =>
    refine ⟨_, fun i => .literal i value, rfl, ?_, rfl⟩
    simp [contentOfJson]
  | localRef _ symbol =>
    refine ⟨_, fun i => .localRef i symbol, rfl, ?_, rfl⟩
    simp [contentOfJson]
  | parameterRef _ symbol =>
    refine ⟨_, fun i => .parameterRef i symbol, rfl, ?_, rfl⟩
    simp [contentOfJson]
  | receiverRef => exact ⟨_, .receiverRef, rfl, rfl, rfl⟩
  | fieldRef _ owner field =>
    refine ⟨_, fun i => .fieldRef i owner field, rfl, ?_, rfl⟩
    have howner := asOption_optionToJson fun o ho => h o (Option.mem_toList.2 ho)
    simp [contentOfJson, howner]
  | elementRef _ array indices =>
    refine ⟨_, fun i => .elementRef i array indices, rfl, ?_, rfl⟩
    have harray := h array List.mem_cons_self
    have hindices := asList_listToJson fun o ho => h o (List.mem_cons_of_mem _ ho)
    simp [contentOfJson, harray, hindices]
  | objectCreation _ arguments =>
    refine ⟨_, fun i => .objectCreation i arguments, rfl, ?_, rfl⟩
    have harguments := asList_argumentsToJson fun a ha => h a.value (List.mem_map_of_mem ha)
    simp [contentOfJson, harguments]
  | arrayCreation _ dimensions =>
    refine ⟨_, fun i => .arrayCreation i dimensions, rfl, ?_, rfl⟩
    have hdimensions : asList read (.array (listToJson dimensions)) = .ok dimensions := asList_listToJson h
    simp [contentOfJson, hdimensions]
  | assignment _ target value =>
    refine ⟨_, fun i => .assignment i target value, rfl, ?_, rfl⟩
    have htarget := h target (by simp [operands])
    have hvalue := h value (by simp [operands])
    simp [contentOfJson, htarget, hvalue]
  | invocation _ method receiver arguments =>
    refine ⟨_, fun i => .invocation i method receiver arguments, rfl, ?_, rfl⟩
    have hreceiver := asOption_optionToJson fun o ho => h o (List.mem_append_left _ (Option.mem_toList.2 ho))
    have harguments := asList_argumentsToJson fun a ha =>
      h a.value (List.mem_append_right _ (List.mem_map_of_mem ha))
    simp [contentOfJson, hreceiver, harguments]
  | binary _ operator left right =>
    refine ⟨_, fun i => .binary i operator left right, rfl, ?_, rfl⟩
    have hleft := h left (by simp [operands])
    have hright := h right (by simp [operands])
    simp [contentOfJson, hleft, hright]
  | conversion _ operand =>
    refine ⟨_, fun i => .conversion i operand, rfl, ?_, rfl⟩
    have hoperand := h operand (by simp [operands])
    simp [contentOfJson, hoperand]
  | capture _ temporary value byLocation =>
    refine ⟨_, fun i => .capture i temporary value byLocation, rfl, ?_, rfl⟩
    have hvalue := h value (by simp [operands])
    simp [contentOfJson, hvalue]
  | captureRef _ temporary =>
    refine ⟨_, fun i => .captureRef i temporary, rfl, ?_, rfl⟩
    simp [contentOfJson]
  | ret _ value =>
    refine ⟨_, fun i => .ret i value, rfl, ?_, rfl⟩
    have hvalue := asOption_optionToJson fun o ho => h o (Option.mem_toList.2 ho)
    simp [contentOfJson, hvalue]
  | invalid => exact ⟨_, .invalid, rfl, rfl, rfl⟩

/-! ### Depth -/

/-- An operand stands deeper than the operation. -/
theorem depth_toJson_lt {op o : Operation} (h : o ∈ op.operands) : o.toJson.depth < op.toJson.depth := by
  have option {x : Option Operation} (ho : o ∈ x.toList) : o.toJson.depth ≤ (optionToJson x).depth := by
    obtain rfl := Option.mem_toList.1 ho
    exact Nat.le_refl _
  have list {ops : List Operation} (ho : o ∈ ops) : o.toJson.depth ≤ Json.itemsDepth (listToJson ops) := by
    rw [listToJson_eq]
    exact Json.depth_le_itemsDepth (List.mem_map_of_mem ho)
  have arguments {args : List (Argument Operation)} (ho : o ∈ args.map (·.value)) :
      o.toJson.depth ≤ Json.itemsDepth (argumentsToJson args) := by
    obtain ⟨a, ha, rfl⟩ := List.mem_map.1 ho
    rw [argumentsToJson_eq]
    refine Nat.le_trans ?_ (Json.depth_le_itemsDepth (List.mem_map_of_mem ha))
    simp only [Argument.toJson, Json.depth, Json.membersDepth]
    omega
  cases op <;> simp only [operands, List.not_mem_nil, List.mem_cons, List.mem_append, or_false] at h <;>
    simp only [toJson, record, Json.depth, Json.membersDepth]
  case fieldRef =>
    have := option h
    omega
  case elementRef =>
    rcases h with rfl | h
    · omega
    · have := list h
      omega
  case objectCreation =>
    have := arguments h
    omega
  case arrayCreation =>
    have := list h
    omega
  case assignment => rcases h with rfl | rfl <;> omega
  case invocation =>
    rcases h with h | h
    · have := option h
      omega
    · have := arguments h
      omega
  case binary => rcases h with rfl | rfl <;> omega
  case conversion =>
    subst h
    omega
  case capture =>
    subst h
    omega
  case ret =>
    have := option h
    omega

/-! ### Operations -/

/-- An operation is restored with any bound on its depth. -/
theorem ofJsonWithin_toJson (op : Operation) : ∀ {depth : Nat}, op.toJson.depth ≤ depth →
    ofJsonWithin depth op.toJson = .ok op := by
  induction op using operandInduction with
  | h op ih =>
    intro depth bound
    cases depth with
    | zero => exact absurd bound (Nat.not_le_of_gt op.toJson.depth_pos)
    | succ depth =>
      have operands : ∀ o ∈ op.operands, ofJsonWithin depth o.toJson = .ok o := fun o ho =>
        ih o ho (Nat.le_of_lt_succ (Nat.lt_of_lt_of_le (depth_toJson_lt ho) bound))
      obtain ⟨content, make, hop, hcontent, hmake⟩ := contentOfJson_toJson operands
      simp [hop, record, ofJsonWithin, hcontent, hmake]

@[simp]
theorem ofJson_toJson (op : Operation) : ofJson op.toJson = .ok op :=
  ofJsonWithin_toJson op (Nat.le_refl _)

end Operation

end Dataflow
