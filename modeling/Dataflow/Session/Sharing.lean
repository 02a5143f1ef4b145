import Dataflow.Session.Cache

/-!
# Caches that clients share

Clients of one cache ask at the same time, and their steps come in any order. Each key has a
slot, which is made when the key is asked for the first time. A client looks up the slot of its
key and from then on has to do with this slot only: it takes the result that is there, or computes
one if nobody else is at it, or waits. A computation that fails leaves the slot empty, for the next
client to try.
-/

namespace Dataflow

/-- What a slot holds. -/
inductive Slot (α : Type) where
  /-- There is no result, and nobody computes one. -/
  | empty
  /-- A client is at it. -/
  | busy
  /-- The result. -/
  | full (result : Stored α)

/-- A cache as its clients share it. -/
structure SharedCache (δ α : Type) where
  /-- The slots with their keys, in the order in which they were made. -/
  slots : List (CacheKey δ × Slot α)
  /-- How many computations were started. -/
  computations : Nat

namespace SharedCache

variable {δ α : Type}

/-- The cache that nobody has asked yet. -/
def empty : SharedCache δ α := ⟨[], 0⟩

/-- Where the slot of a key is. -/
def indexOf? [BEq δ] (key : CacheKey δ) (c : SharedCache δ α) : Option Nat := c.slots.findIdx? (·.1 == key)

/-- Where the slot of a key is; it is made if need be. -/
def slotFor [BEq δ] (key : CacheKey δ) (c : SharedCache δ α) : Nat × SharedCache δ α :=
  match c.indexOf? key with
  | some i => (i, c)
  | none => (c.slots.length, { c with slots := c.slots ++ [(key, .empty)] })

/-- What a slot holds. -/
def content? (i : Nat) (c : SharedCache δ α) : Option (Slot α) := c.slots[i]?.map (·.2)

/-- Changes what a slot holds. -/
def put (i : Nat) (s : Slot α) (c : SharedCache δ α) : SharedCache δ α :=
  { c with slots := c.slots.modify i fun e => (e.1, s) }

/-- A computation is started. -/
def count (c : SharedCache δ α) : SharedCache δ α := { c with computations := c.computations + 1 }

/-- What the slot of a key holds; a slot that is not made yet is as good as empty. -/
def slot [BEq δ] (key : CacheKey δ) (c : SharedCache δ α) : Slot α :=
  ((c.indexOf? key).bind fun i => c.content? i).getD .empty

/-- The completed result for a key. -/
def find? [BEq δ] (key : CacheKey δ) (c : SharedCache δ α) : Option (Stored α) :=
  match c.slot key with
  | .full r => some r
  | _ => none

end SharedCache

/-- What a client asks for: a result of some type. -/
structure Demand (δ α : Type) where
  /-- The key. -/
  key : CacheKey δ
  /-- Whether a result is of the type. -/
  accepts : α → Bool

/-- How far a client has come. -/
inductive Phase (α ε : Type) where
  /-- It has not looked up the slot yet. -/
  | asking
  /-- It has the slot, and waits for a result or for its turn to compute. -/
  | waiting (slot : Nat)
  /-- It is the one that computes for the slot, and is about to start. -/
  | admitted (slot : Nat)
  /-- It computes a result; the computation has a number. -/
  | computing (slot number : Nat)
  /-- It has the answer. -/
  | answered (answer : Except ε (Stored α))

/-- A step of a client. -/
inductive ClientStep (α ε : Type) where
  /-- It looks up the slot. -/
  | lookUp (client : Nat)
  /-- It takes the result that is there. -/
  | take (client : Nat)
  /-- It gets its turn to compute. -/
  | enter (client : Nat)
  /-- It starts to compute. -/
  | compute (client : Nat)
  /-- Its computation succeeds. -/
  | succeed (client : Nat) (value : α)
  /-- Its computation fails. -/
  | fail (client : Nat) (failure : ε)

namespace ClientStep

variable {α ε : Type}

/-- Whose step it is. -/
def client : ClientStep α ε → Nat
  | lookUp i | take i | enter i | compute i | succeed i _ | fail i _ => i

/-- Whether a computation is started. -/
def isStart : ClientStep α ε → Bool
  | compute _ => true
  | _ => false

/-- Whether a computation succeeds. -/
def isSuccess : ClientStep α ε → Bool
  | succeed .. => true
  | _ => false

/-- Whether the step is about a computation. -/
def computes : ClientStep α ε → Bool
  | enter _ | compute _ | succeed .. | fail .. => true
  | lookUp _ | take _ => false

end ClientStep

/-- A cache and its clients, who are numbered. -/
structure Traffic (δ α ε : Type) where
  /-- The cache. -/
  cache : SharedCache δ α
  /-- How far each client has come. -/
  phase : Nat → Phase α ε

namespace Traffic

variable {δ α ε : Type}

/-- No client has done anything yet. -/
def start : Traffic δ α ε := ⟨SharedCache.empty, fun _ => .asking⟩

/-- A client comes to another phase, and the cache changes. -/
def move (t : Traffic δ α ε) (i : Nat) (phase : Phase α ε) (cache : SharedCache δ α) : Traffic δ α ε where
  cache := cache
  phase := fun j => if j = i then phase else t.phase j

variable [BEq δ] (demands : Nat → Demand δ α) (mistyped : AnalysisKind → ε)

/-- What a client answers that finds a result. -/
def answerOf (i : Nat) (r : Stored α) : Except ε (Stored α) :=
  if (demands i).accepts r.value then .ok r else .error (mistyped (demands i).key.kind)

/-- A step, if it is possible. What a computation comes to is up to the client, but its result is of the
type that the client asks for. -/
def step (t : Traffic δ α ε) : ClientStep α ε → Option (Traffic δ α ε)
  | .lookUp i =>
    match t.phase i with
    | .asking =>
      let (slot, cache) := t.cache.slotFor (demands i).key
      some (t.move i (.waiting slot) cache)
    | _ => none
  | .take i =>
    match t.phase i with
    | .waiting slot =>
      match t.cache.content? slot with
      | some (.full r) => some (t.move i (.answered (answerOf demands mistyped i r)) t.cache)
      | _ => none
    | _ => none
  | .enter i =>
    match t.phase i with
    | .waiting slot =>
      match t.cache.content? slot with
      | some .empty => some (t.move i (.admitted slot) (t.cache.put slot .busy))
      | _ => none
    | _ => none
  | .compute i =>
    match t.phase i with
    | .admitted slot => some (t.move i (.computing slot (t.cache.computations + 1)) t.cache.count)
    | _ => none
  | .succeed i value =>
    match t.phase i with
    | .computing slot number =>
      if (demands i).accepts value then
        some (t.move i (.answered (.ok ⟨number, value⟩)) (t.cache.put slot (.full ⟨number, value⟩)))
      else none
    | _ => none
  | .fail i e =>
    match t.phase i with
    | .computing slot _ => some (t.move i (.answered (.error e)) (t.cache.put slot .empty))
    | _ => none

/-- Some steps, one after the other, if all are possible. -/
def run (t : Traffic δ α ε) (steps : List (ClientStep α ε)) : Option (Traffic δ α ε) :=
  steps.foldlM (step demands mistyped) t

end Traffic

end Dataflow
