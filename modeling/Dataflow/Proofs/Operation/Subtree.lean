import Dataflow.Graph.Basic
import Mathlib.Data.List.Nodup
import Mathlib.Data.List.Pairwise
import Mathlib.Logic.Relation

/-!
# Trees of operations

The analyses record what they learn under the identifiers of operations. What they
recorded is still there at the end only if no other operation has the same identifier, so
here the operations of trees, of blocks and of bodies are listed and told apart.

## What is proved

The tree of an operation is made of the trees of its operands and itself (`subtree_eq`); this
gives an induction over operands (`operandInduction`). It lists the operations that occur in the
operation at any depth (`mem_subtree_iff`). In a body whose identifiers are
distinct an identifier belongs to one operation (`DistinctIds.id_inj`), the identifiers of a
block are distinct, and different blocks share none (`DistinctIds.not_mem_of_ne`).
-/

namespace Dataflow

namespace Operation

/-- All operations of some trees. -/
def subtrees (ops : List Operation) : List Operation := ops.flatMap subtree

/-- The identifiers in some trees. -/
def idsIn (ops : List Operation) : List OperationId := (subtrees ops).map (·.id)

@[simp]
theorem subtrees_nil : subtrees [] = [] := rfl

@[simp]
theorem subtrees_cons (op : Operation) (ops : List Operation) :
    subtrees (op :: ops) = op.subtree ++ subtrees ops := rfl

@[simp]
theorem subtrees_append (ops ops' : List Operation) : subtrees (ops ++ ops') = subtrees ops ++ subtrees ops' :=
  List.flatMap_append

theorem subtrees_flatMap {α : Type} (f : α → List Operation) (l : List α) :
    subtrees (l.flatMap f) = l.flatMap fun a => subtrees (f a) :=
  List.flatMap_assoc

theorem subtreeOption_eq (op : Option Operation) : subtreeOption op = subtrees op.toList := by
  cases op with
  | none => simp [subtreeOption]
  | some op => simp [subtreeOption]

theorem subtreeList_eq (ops : List Operation) : subtreeList ops = subtrees ops := by
  induction ops with
  | nil => simp [subtreeList]
  | cons op ops ih => simp [subtreeList, ih]

theorem subtreeArguments_eq (args : List (Argument Operation)) :
    subtreeArguments args = subtrees (args.map (·.value)) := by
  induction args with
  | nil => simp [subtreeArguments]
  | cons a args ih =>
    cases a
    simp [subtreeArguments, ih]

/-- The tree of an operation: those of its operands in the order of evaluation, and itself. -/
theorem subtree_eq (op : Operation) : op.subtree = subtrees op.operands ++ [op] := by
  cases op <;>
    simp [subtree, operands, subtreeOption_eq, subtreeList_eq, subtreeArguments_eq]

theorem mem_subtree_self (op : Operation) : op ∈ op.subtree := by
  rw [subtree_eq]
  simp

theorem subtree_subset_of_mem {op : Operation} {ops : List Operation} (h : op ∈ ops) :
    ∀ o ∈ op.subtree, o ∈ subtrees ops :=
  fun _ ho => List.mem_flatMap.2 ⟨op, h, ho⟩

/-- The operations below the operands belong to the tree. -/
theorem subtrees_operands_subset (op : Operation) : ∀ o ∈ subtrees op.operands, o ∈ op.subtree := by
  intro o ho
  rw [subtree_eq]
  exact List.mem_append_left _ ho

/-- The tree of an operand is a part of the tree. -/
theorem mem_subtree_of_mem_operands {op o a : Operation} (ho : o ∈ op.operands) (ha : a ∈ o.subtree) : a ∈ op.subtree :=
  subtrees_operands_subset op a (subtree_subset_of_mem ho a ha)

@[simp]
theorem idsIn_nil : idsIn [] = [] := rfl

@[simp]
theorem idsIn_cons (op : Operation) (ops : List Operation) :
    idsIn (op :: ops) = op.subtree.map (·.id) ++ idsIn ops := by
  simp [idsIn]

theorem idsIn_append (ops ops' : List Operation) : idsIn (ops ++ ops') = idsIn ops ++ idsIn ops' := by
  simp [idsIn]

theorem idsIn_singleton (op : Operation) : idsIn [op] = op.subtree.map (·.id) := by
  simp

theorem not_mem_idsIn_cons {op : Operation} {ops : List Operation} {id : OperationId} :
    id ∉ idsIn (op :: ops) ↔ id ∉ op.subtree.map (·.id) ∧ id ∉ idsIn ops := by
  rw [idsIn_cons, List.mem_append, not_or]

/-- Trees in a row have distinct identifiers if the first and the others have, and share none. -/
theorem nodup_idsIn_cons {op : Operation} {ops : List Operation} :
    (idsIn (op :: ops)).Nodup ↔ (op.subtree.map (·.id)).Nodup ∧ (idsIn ops).Nodup ∧
      ∀ id ∈ op.subtree.map (·.id), id ∉ idsIn ops := by
  rw [idsIn_cons, List.nodup_append']
  exact Iff.rfl

/-- The identifiers of a tree: those below the operands, and the operation's own. -/
theorem map_id_subtree (op : Operation) : op.subtree.map (·.id) = idsIn op.operands ++ [op.id] := by
  rw [subtree_eq, List.map_append]
  rfl

theorem nodup_operands {op : Operation} (nodup : (op.subtree.map (·.id)).Nodup) : (idsIn op.operands).Nodup := by
  rw [map_id_subtree] at nodup
  exact (List.nodup_append.1 nodup).1

theorem id_mem_subtree (op : Operation) : op.id ∈ op.subtree.map (·.id) :=
  List.mem_map_of_mem op.mem_subtree_self

/-- In a tree with distinct identifiers no operand has that of the operation. -/
theorem id_not_mem_operands {op : Operation} (nodup : (op.subtree.map (·.id)).Nodup) : op.id ∉ idsIn op.operands := by
  rw [map_id_subtree, List.nodup_append'] at nodup
  exact fun h => nodup.2.2 h List.mem_cons_self

/-- In trees with distinct identifiers each tree has distinct identifiers. -/
theorem nodup_of_mem {op : Operation} {ops : List Operation} (h : op ∈ ops) (nodup : (idsIn ops).Nodup) :
    (op.subtree.map (·.id)).Nodup := by
  rw [idsIn, subtrees, List.map_flatMap, List.Nodup, List.pairwise_flatMap] at nodup
  exact nodup.1 op h

theorem id_mem_idsIn {op : Operation} {ops : List Operation} (h : op ∈ subtrees ops) : op.id ∈ idsIn ops :=
  List.mem_map.2 ⟨op, h, rfl⟩

/-! ### Induction over operands -/

theorem sizeOf_lt_of_mem_operands {op o : Operation} (h : o ∈ op.operands) : sizeOf o < sizeOf op := by
  have argument : ∀ {args : List (Argument Operation)}, o ∈ args.map (·.value) → sizeOf o < sizeOf args := by
    intro args ho
    obtain ⟨a, ha, rfl⟩ := List.mem_map.1 ho
    have := List.sizeOf_lt_of_mem ha
    cases a
    simp only [Argument.mk.sizeOf_spec] at this ⊢
    omega
  have option : ∀ {x : Option Operation}, o ∈ x.toList → sizeOf o < sizeOf x := by
    intro x ho
    cases x with
    | none => cases ho
    | some x =>
      obtain rfl : o = x := by simpa using ho
      simp only [Option.some.sizeOf_spec]
      omega
  cases op <;> simp only [operands, List.not_mem_nil, List.mem_cons, List.mem_append, or_false] at h
  case fieldRef i owner f =>
    have := option h
    simp only [Operation.fieldRef.sizeOf_spec]
    omega
  case elementRef i array indices =>
    simp only [Operation.elementRef.sizeOf_spec]
    rcases h with rfl | h
    · omega
    · have := List.sizeOf_lt_of_mem h
      omega
  case objectCreation i args =>
    have := argument h
    simp only [Operation.objectCreation.sizeOf_spec]
    omega
  case arrayCreation i dims =>
    have := List.sizeOf_lt_of_mem h
    simp only [Operation.arrayCreation.sizeOf_spec]
    omega
  case assignment i target value =>
    simp only [Operation.assignment.sizeOf_spec]
    rcases h with rfl | rfl <;> omega
  case invocation i m receiver args =>
    simp only [Operation.invocation.sizeOf_spec]
    rcases h with h | h
    · have := option h
      omega
    · have := argument h
      omega
  case binary i o left right =>
    simp only [Operation.binary.sizeOf_spec]
    rcases h with rfl | rfl <;> omega
  case conversion i operand =>
    simp only [Operation.conversion.sizeOf_spec]
    rcases h with rfl
    omega
  case capture i c value l =>
    simp only [Operation.capture.sizeOf_spec]
    rcases h with rfl
    omega
  case ret i value =>
    have := option h
    simp only [Operation.ret.sizeOf_spec]
    omega

/-- What holds of an operation if it holds of its operands holds of all operations. -/
theorem operandInduction {P : Operation → Prop} (h : ∀ op, (∀ o ∈ op.operands, P o) → P op) (op : Operation) :
    P op :=
  h op fun o ho =>
    have := sizeOf_lt_of_mem_operands ho
    operandInduction h o
termination_by sizeOf op

/-- A tree in a tree is a part of it. -/
theorem subtree_trans {op o a : Operation} (ho : o ∈ op.subtree) (ha : a ∈ o.subtree) : a ∈ op.subtree := by
  induction op using operandInduction with
  | h op ih =>
    rw [subtree_eq] at ho
    rcases List.mem_append.1 ho with ho | ho
    · obtain ⟨x, hx, hox⟩ := List.mem_flatMap.1 ho
      exact mem_subtree_of_mem_operands hx (ih x hx hox)
    · obtain rfl := List.mem_singleton.1 ho
      exact ha

theorem subtrees_trans {ops : List Operation} {o a : Operation} (ho : o ∈ subtrees ops) (ha : a ∈ o.subtree) :
    a ∈ subtrees ops := by
  obtain ⟨op, hop, ho⟩ := List.mem_flatMap.1 ho
  exact subtree_subset_of_mem hop a (subtree_trans ho ha)

/-- The operands of what is in some trees are in them too. -/
theorem mem_subtrees_of_mem_operands {ops : List Operation} {op o : Operation} (hop : op ∈ subtrees ops)
    (ho : o ∈ op.operands) : o ∈ subtrees ops :=
  subtrees_trans hop (mem_subtree_of_mem_operands ho o.mem_subtree_self)

/-- An operation occurs in another one: it is that one, or an operand of one that occurs in it. -/
def Contains : Operation → Operation → Prop := Relation.ReflTransGen fun op o => o ∈ op.operands

/-- The tree lists what occurs in the operation. -/
theorem mem_subtree_iff {op o : Operation} : o ∈ op.subtree ↔ op.Contains o := by
  constructor
  · intro h
    induction op using operandInduction with
    | h op ih =>
      rw [subtree_eq] at h
      rcases List.mem_append.1 h with h | h
      · obtain ⟨a, ha, h⟩ := List.mem_flatMap.1 h
        exact .head ha (ih a ha h)
      · obtain rfl := List.mem_singleton.1 h
        exact .refl
  · intro h
    induction h with
    | refl => exact op.mem_subtree_self
    | tail _ ho ih => exact subtree_trans ih (mem_subtree_of_mem_operands ho (mem_subtree_self _))

end Operation

namespace Graph

/-- No two operations of the body share an identifier. -/
def DistinctIds (g : Graph) : Prop := (Operation.idsIn g.operations).Nodup

instance (g : Graph) : Decidable g.DistinctIds := inferInstanceAs (Decidable (List.Nodup _))

variable {g : Graph}

/-- The trees of a block are trees of the body. -/
theorem subtrees_allOperations_subset {b : Block} (hb : b ∈ g.blocks) :
    ∀ o ∈ Operation.subtrees b.allOperations, o ∈ Operation.subtrees g.operations := by
  intro o ho
  rw [operations, Operation.subtrees_flatMap]
  exact List.mem_flatMap.2 ⟨b, hb, ho⟩

/-- The operations of a block are operations of the body. -/
theorem allOperations_subset {b : Block} (hb : b ∈ g.blocks) :
    ∀ o ∈ b.allOperations, o ∈ Operation.subtrees g.operations := fun o ho =>
  subtrees_allOperations_subset hb o (Operation.subtree_subset_of_mem ho o o.mem_subtree_self)

/-- An identifier belongs to one operation. -/
theorem DistinctIds.id_inj (h : g.DistinctIds) {o o' : Operation} (ho : o ∈ Operation.subtrees g.operations)
    (ho' : o' ∈ Operation.subtrees g.operations) (hid : o.id = o'.id) : o = o' :=
  List.inj_on_of_nodup_map h ho ho' hid

/-- The identifiers of the body, block by block. -/
theorem idsIn_operations (g : Graph) :
    Operation.idsIn g.operations = g.blocks.flatMap fun b => Operation.idsIn b.allOperations := by
  rw [Operation.idsIn, operations, Operation.subtrees_flatMap, List.map_flatMap]
  rfl

/-- The operations of a body are counted with all that occurs in them. -/
theorem operationCount_eq (g : Graph) : g.operationCount = (Operation.idsIn g.operations).length := by
  have count (ops : List Operation) (n : Nat) :
      ops.foldl (fun n op => n + op.treeSize) n = n + (Operation.idsIn ops).length := by
    induction ops generalizing n with
    | nil => rfl
    | cons op ops ih =>
      rw [List.foldl_cons, ih, Operation.idsIn_cons, List.length_append, List.length_map, Operation.treeSize]
      omega
  exact (count _ 0).trans (Nat.zero_add _)

/-- The identifiers of a block are distinct. -/
theorem DistinctIds.block (h : g.DistinctIds) {b : Block} (hb : b ∈ g.blocks) :
    (Operation.idsIn b.allOperations).Nodup := by
  rw [DistinctIds, idsIn_operations, List.Nodup, List.pairwise_flatMap] at h
  exact h.1 b hb

/-- Different blocks have different identifiers. -/
theorem DistinctIds.not_mem_of_ne (h : g.DistinctIds) {b c : Block} (hb : b ∈ g.blocks) (hc : c ∈ g.blocks)
    (hne : b ≠ c) {i : OperationId} (hi : i ∈ Operation.idsIn b.allOperations) :
    i ∉ Operation.idsIn c.allOperations := by
  rw [DistinctIds, idsIn_operations, List.Nodup, List.pairwise_flatMap] at h
  have symm : Std.Symm fun b c : Block => ∀ i ∈ Operation.idsIn b.allOperations,
      ∀ j ∈ Operation.idsIn c.allOperations, i ≠ j :=
    ⟨fun _ _ hbc i hi j hj => (hbc j hj i hi).symm⟩
  exact fun hi' => List.Pairwise.forall h.2 hb hc hne i hi i hi' rfl

end Graph

end Dataflow
