import Dataflow.Proofs.Arrays.Program
import Dataflow.Proofs.Entity.Resolver
import Dataflow.Proofs.Visit.Steps

/-!
# Visits of operations over an array

What an analysis says about memories is an `Account`. It is sound if each kind of operation keeps it true; the walk over
operation trees is then the same for all analyses that read and write entities as usual.

The entity of an element is named by the locals in its indices, not by what they hold. So where an element is read, an
account has to say what it knows of the cell at hand; a condition on reads is there for this.

## What is proved

`visit_visited`: after the visit of an operation the state fits every memory that an evaluation of the operation leaves,
and the values that were noted describe what was evaluated on the way.
-/

namespace Dataflow

/-- The position in the entity of an element. -/
def Subscript.index (owner : Symbol) : Subscript → ElementIndex
  | .constant i => .constant i
  | .localVar x => .entity (.localVar x owner)
  | .result id => .operation id

namespace Arrays

variable {V Ω : Type}

/-! ### Entities -/

/-- The entity of an element of the arrays at some locations, if it is to have one. -/
def elementAt (ctx : Context V) (info : OperationInfo) (array : PointsTo) (indices : List Subscript) : Option Entity :=
  if array.isKnown || ctx.tracksUnknown then some (.element array (indices.map (·.index ctx.owner)) info.type) else none

/-- The entity that a local or an element stands for in a state. -/
def placeOf (A : Analysis V) (ctx : Context V) (s : State V) : Operation → Option Entity
  | .localRef _ x => some (.localVar x ctx.owner)
  | .elementRef i (.localRef j x) indices =>
    elementAt ctx i (A.location ctx (.localRef j x) (State.valueOr A.domain s (.localVar x ctx.owner)))
      (indices.map Operation.subscript)
  | _ => none

/-- What is read from an entity, or where there is none. -/
def readOf (A : Analysis V) (s : State V) (op : Operation) (e : Option Entity) : V :=
  e.elim (A.unknownValue op) (State.valueOr A.domain s)

/-- The state after a write to an entity, or to where there is none. -/
def written (A : Analysis V) (e : Option Entity) (a : V) (s : State V) : State V :=
  e.elim s fun e => State.write A.domain e a s

/-! ### Accounts -/

/-- How states and values are read as statements about memories. -/
structure Account (V Ω : Type) where
  /-- The memory is one that the state allows. -/
  fits : State V → Memory Ω → Prop
  /-- The value is one that the abstract value allows. -/
  describes : V → Value Ω → Prop
  /-- What is known from elsewhere of the operations that yield the array which was made by an operation. -/
  allowed : Operation → OperationInfo → Prop

namespace Account

variable (R : Account V Ω)

/-- The value that is noted for an operation describes what it was evaluated to. -/
def Explains (values : FinMap OperationId V) (ev : Event Ω) : Prop :=
  ∃ a, values.find? ev.operation.id = some a ∧ R.describes a ev.value

variable {R} in
/-- Only what is noted for the operation matters. -/
theorem Explains.congr {values values' : FinMap OperationId V} {ev : Event Ω} (h : R.Explains values ev)
    (same : values'.find? ev.operation.id = values.find? ev.operation.id) : R.Explains values' ev := by
  obtain ⟨a, ha, hdescribes⟩ := h
  exact ⟨a, same.trans ha, hdescribes⟩

/-- What is known from elsewhere of the locals that yield the array while an operation is evaluated. -/
def Permits (may : Reads Ω) (op : Operation) (mem : Memory Ω) : Prop :=
  ∀ j x site, Emits may op mem ⟨.localRef j x, .array site⟩ → R.allowed (.localRef j x) site

/-- The same while some operations are evaluated one after the other. -/
def PermitsAll (may : Reads Ω) (ops : List Operation) (mem : Memory Ω) : Prop :=
  ∀ j x site, EmitsAll may ops mem ⟨.localRef j x, .array site⟩ → R.allowed (.localRef j x) site

variable {R} in
theorem PermitsAll.head {may : Reads Ω} {op : Operation} {ops : List Operation} {mem : Memory Ω}
    (h : R.PermitsAll may (op :: ops) mem) : R.Permits may op mem :=
  fun j x site hev => h j x site (emitsAll_cons.2 (.inl hev))

variable {R} in
theorem PermitsAll.tail {may : Reads Ω} {op : Operation} {ops : List Operation} {mem mem₁ : Memory Ω} {v : Value Ω}
    (h : R.PermitsAll may (op :: ops) mem) (hop : Eval may op mem v mem₁) : R.PermitsAll may ops mem₁ :=
  fun j x site hev => h j x site (emitsAll_cons.2 (.inr ⟨v, mem₁, hop, hev⟩))

/-- Every hook keeps the statements true. -/
structure Sound [DecidableEq V] (may : Reads Ω) (A : Analysis V) (ctx : Context V) : Prop where
  /-- Reads have no effect. -/
  reference : ∀ op e m, Visit.Ensures (A.reference ctx op e) m fun a m' => m' = m ∧ a = readOf A m.state op e
  /-- Stores are writes. -/
  assign : ∀ op e a m, Visit.Ensures (A.assign ctx op e a) m fun b m' =>
    m' = { m with state := written A e a m.state } ∧ b = a
  /-- A merge allows what either state allows. -/
  merge : ∀ s t mem, R.fits s mem ∨ R.fits t mem → R.fits (State.merge A.domain s t) mem
  /-- A state that is widened by another one allows what that allows. -/
  widen : ∀ s t mem, R.fits t mem → R.fits (State.widen A.domain s t) mem
  /-- The initial state fits the memory at the start. -/
  initial : ∀ s, A.initialState ctx = .ok s → R.fits s .start
  /-- Constants. -/
  literal : ∀ op l, R.describes (A.literal op l) (.datum (.literal l))
  /-- Locals. -/
  localVar : ∀ s mem x v, R.fits s mem → mem.vars x = some v →
    R.describes (State.valueOr A.domain s (.localVar x ctx.owner)) v
  /-- Elements. -/
  element : ∀ i j x indices s mem site cells position, R.fits s mem → mem.array = some (site, cells) →
    List.Forall₂ mem.Denotes (indices.map Operation.subscript) position →
      may mem (indices.map Operation.subscript) position → R.allowed (.localRef j x) site →
        R.describes (readOf A s (.elementRef i (.localRef j x) indices)
          (placeOf A ctx s (.elementRef i (.localRef j x) indices))) (.datum (cells position))
  /-- Operators. -/
  binary : ∀ op operator a b m, Visit.Ensures (A.binary ctx op operator a b) m fun c m' =>
    m' = m ∧ ∀ u v w, R.describes a (.datum u) → R.describes b (.datum v) →
      (Meaning.ofLiterals Ω).binary op operator u v w → R.describes c (.datum w)
  /-- New arrays. -/
  creation : ∀ i dimensions m, Visit.Ensures (A.createArray ctx (.arrayCreation i dimensions)) m fun a m' =>
    m' = m ∧ R.describes a (.array i)
  /-- The array is made. -/
  make : ∀ s mem site cells, R.fits s mem → mem.array = none → R.fits s (mem.make site cells)
  /-- Assignments to locals. -/
  set : ∀ s mem x a v, R.fits s mem → R.describes a v →
    R.fits (written A (some (.localVar x ctx.owner)) a s) (mem.set x v)
  /-- Assignments to elements. The entity is the one that the element had in an earlier state. -/
  store : ∀ i j x indices s₀ s mem site cells position a d, R.fits s mem → mem.array = some (site, cells) →
    List.Forall₂ Subscript.MayName (indices.map Operation.subscript) position → R.allowed (.localRef j x) site →
      R.describes a (.datum d) →
        R.fits (written A (placeOf A ctx s₀ (.elementRef i (.localRef j x) indices)) a s)
          (mem.store (indices.map Operation.subscript) position d)
  /-- The end of a local's scope. -/
  forget : ∀ x s s' mem, R.fits s mem → A.forget (.localVar x ctx.owner) s = .ok s' →
    R.fits s' { mem with vars := mem.vars.set x none }

end Account

/-! ### What is known after visits -/

/-- The resolver names the storage of the body, and remembers only what it would answer anew. -/
structure Resolves (ctx : Context V) (m : Machine V) : Prop where
  /-- The names belong to the body. -/
  method : m.notes.resolver.method = ctx.owner
  /-- What is remembered. -/
  faithful : m.notes.resolver.Faithful ctx

theorem Resolves.congr {ctx : Context V} {m m' : Machine V} (h : Resolves ctx m)
    (same : m'.notes.resolver = m.notes.resolver) : Resolves ctx m' :=
  ⟨same ▸ h.method, same ▸ h.faithful⟩

/-- An operation was visited, with an abstract value. -/
structure Visited (R : Account V Ω) (may : Reads Ω) (A : Analysis V) (ctx : Context V) (op : Operation) (m : Machine V)
    (a : V) (m' : Machine V) : Prop where
  /-- Storage has its names. -/
  resolves : Resolves ctx m'
  /-- The value was noted. -/
  noted : m'.notes.values.find? op.id = some a
  /-- Values were noted for this operation and those below it only. -/
  others : ∀ id ∉ op.subtree.map (·.id), m'.notes.values.find? id = m.notes.values.find? id
  /-- Constants, locals and elements are visited without an effect. -/
  state : op.isSubscript = true ∨ op.isPlace = true → m'.state = m.state
  /-- The entity of a local or an element was noted. -/
  entity : op.isPlace = true → m'.notes.entities.find? op.id = placeOf A ctx m.state op
  /-- Its value is what the entity has. -/
  value : op.isPlace = true → a = readOf A m.state op (placeOf A ctx m.state op)
  /-- The state fits the memory that an evaluation leaves, and the value describes the result. -/
  sound : ∀ mem, R.fits m.state mem → R.Permits may op mem → ∀ v mem', Eval may op mem v mem' →
    R.fits m'.state mem' ∧ R.describes a v
  /-- The noted values describe what is evaluated on the way. -/
  events : ∀ mem, R.fits m.state mem → R.Permits may op mem → ∀ ev, Emits may op mem ev →
    R.Explains m'.notes.values ev

/-- Some operations were visited one after the other. -/
structure SeenAll (R : Account V Ω) (may : Reads Ω) (ctx : Context V) (ops : List Operation) (m : Machine V)
    (seen : List (Seen V)) (m' : Machine V) : Prop where
  /-- Storage has its names. -/
  resolves : Resolves ctx m'
  /-- Values were noted for these operations and those below them only. -/
  others : ∀ id ∉ Operation.idsIn ops, m'.notes.values.find? id = m.notes.values.find? id
  /-- The state fits the memory that an evaluation leaves, and the values describe the results. -/
  sound : ∀ mem, R.fits m.state mem → R.PermitsAll may ops mem → ∀ vs mem', EvalAll may ops mem vs mem' →
    R.fits m'.state mem' ∧ List.Forall₂ (fun s v => R.describes s.value v) seen vs
  /-- The noted values describe what is evaluated on the way. -/
  events : ∀ mem, R.fits m.state mem → R.PermitsAll may ops mem → ∀ ev, EmitsAll may ops mem ev →
    R.Explains m'.notes.values ev

section Walk

variable {R : Account V Ω} {may : Reads Ω} {A : Analysis V} {ctx : Context V}
variable {usual : Call V → Visit V V}

/-- What is to be shown of the visits of an operation. -/
def Spec (R : Account V Ω) (may : Reads Ω) (A : Analysis V) (ctx : Context V) (op : Operation) (m : Machine V) (a : V)
    (m' : Machine V) : Prop :=
  op ∈ Operation.subtrees ctx.graph.operations → (op.subtree.map (·.id)).Nodup → Resolves ctx m →
    Visited R may A ctx op m a m'

/-- Whatever is evaluated on the way is the operation or below it. -/
theorem mem_subtree_of_emits {op : Operation} {mem : Memory Ω} {ev : Event Ω} (h : Emits may op mem ev) :
    ev.operation ∈ op.subtree := by
  induction h with
  | self _ => exact Operation.mem_subtree_self _
  | array _ => simp [Operation.subtree]
  | operand _ hops _ _ ih => exact Operation.mem_subtree_of_mem_operands (by simp [hops]) ih
  | target _ => simp [Operation.subtree]
  | value _ ih => exact Operation.mem_subtree_of_mem_operands (by simp [Operation.operands]) ih

/-- Visits of operands in a row add up. -/
theorem seenAll_of_trail {ops : List Operation} {m m' : Machine V} {seen : List (Seen V)}
    (trail : Analysis.Trail (Spec R may A ctx) ops m seen m')
    (hops : ∀ o ∈ ops, o ∈ Operation.subtrees ctx.graph.operations) (nodup : (Operation.idsIn ops).Nodup)
    (resolves : Resolves ctx m) : SeenAll R may ctx ops m seen m' := by
  induction trail with
  | nil m =>
    refine ⟨resolves, fun _ _ => rfl, fun mem hfits _ vs mem' heval => ?_, fun _ _ _ _ h => absurd h not_emitsAll_nil⟩
    cases heval
    exact ⟨hfits, .nil⟩
  | @cons op ops m m₁ m₂ a seen first others ih =>
    obtain ⟨nodupFirst, nodupRest, disjoint⟩ := Operation.nodup_idsIn_cons.1 nodup
    have visited := first (hops op List.mem_cons_self) nodupFirst resolves
    have rest := ih (fun o ho => hops o (List.mem_cons_of_mem _ ho)) nodupRest visited.resolves
    refine ⟨rest.resolves, fun id hid => ?_, fun mem hfits permits vs mem' heval => ?_,
      fun mem hfits permits ev hev => ?_⟩
    · rw [Operation.not_mem_idsIn_cons] at hid
      rw [rest.others id hid.2, visited.others id hid.1]
    · cases heval with
      | cons hop hops =>
        obtain ⟨hfits₁, hdescribes⟩ := visited.sound mem hfits permits.head _ _ hop
        obtain ⟨hfits', hall⟩ := rest.sound _ hfits₁ (permits.tail hop) _ _ hops
        exact ⟨hfits', .cons hdescribes hall⟩
    · rcases emitsAll_cons.1 hev with hev | ⟨v, mem₁, hop, hev⟩
      · have hmem := List.mem_map_of_mem (f := (·.id)) (mem_subtree_of_emits hev)
        exact (visited.events mem hfits permits.head ev hev).congr (rest.others _ (disjoint _ hmem))
      · obtain ⟨hfits₁, -⟩ := visited.sound mem hfits permits.head _ _ hop
        exact rest.events _ hfits₁ (permits.tail hop) ev hev

/-- The machine once the value of an operation is noted. -/
def withValue (m : Machine V) (op : Operation) (a : V) : Machine V :=
  { m with notes := { m.notes with values := m.notes.values.insert op.id a } }

/-- An operation after its operands, before its value is noted. -/
theorem Visited.node {op : Operation} {m m' : Machine V} {a : V} (nodup : (op.subtree.map (·.id)).Nodup)
    (resolves : Resolves ctx m')
    (others : ∀ id ∉ Operation.idsIn op.operands, m'.notes.values.find? id = m.notes.values.find? id)
    (state : op.isSubscript = true ∨ op.isPlace = true → m'.state = m.state)
    (place : op.isPlace = true →
      m'.notes.entities.find? op.id = placeOf A ctx m.state op ∧ a = readOf A m.state op (placeOf A ctx m.state op))
    (sound : ∀ mem, R.fits m.state mem → R.Permits may op mem → ∀ v mem', Eval may op mem v mem' →
      R.fits m'.state mem' ∧ R.describes a v)
    (events : ∀ mem, R.fits m.state mem → R.Permits may op mem → ∀ ev, Emits may op mem ev →
      (∃ mem', Eval may op mem ev.value mem' ∧ ev.operation = op) ∨
        ev.operation ∈ Operation.subtrees op.operands ∧ R.Explains m'.notes.values ev) :
    Visited R may A ctx op m a (withValue m' op a) := by
  have fresh := Operation.id_not_mem_operands nodup
  refine ⟨resolves.congr rfl, FinMap.find?_insert_self _ _ _, fun id hid => ?_, state, fun h => (place h).1,
    fun h => (place h).2, sound, fun mem hfits permits ev hev => ?_⟩
  · rw [Operation.map_id_subtree, List.mem_append, not_or, List.mem_singleton] at hid
    exact (FinMap.find?_insert_ne _ _ hid.2).trans (others id hid.1)
  · rcases events mem hfits permits ev hev with ⟨mem', heval, hself⟩ | ⟨hmem, explained⟩
    · refine ⟨a, ?_, (sound mem hfits permits _ mem' heval).2⟩
      rw [hself]
      exact FinMap.find?_insert_self _ _ _
    · exact explained.congr (FinMap.find?_insert_ne _ _ (ne_of_mem_of_not_mem (Operation.id_mem_idsIn hmem) fresh))

/-! ### Own steps -/

/-- An analysis that reads entities as they are. -/
theorem reference_ensures
    (found : ∀ op e, A.reference ctx op (some e) = do return State.valueOr A.domain (← Visit.state) e)
    (missing : ∀ op, A.reference ctx op none = pure (A.unknownValue op)) (op : Operation) (e : Option Entity)
    (m : Machine V) : Visit.Ensures (A.reference ctx op e) m fun a m' => m' = m ∧ a = readOf A m.state op e := by
  cases e with
  | none =>
    rw [missing, Visit.ensures_pure]
    exact ⟨rfl, rfl⟩
  | some e =>
    rw [found, Visit.ensures_bind, Visit.ensures_state, Visit.ensures_pure]
    exact ⟨rfl, rfl⟩

variable [DecidableEq V]

/-- A local or an element is read once it is resolved. -/
theorem read_ensures (S : R.Sound may A ctx) (distinct : ctx.graph.DistinctIds) {op : Operation}
    (hop : op ∈ Operation.subtrees ctx.graph.operations) {m : Machine V} (resolves : Resolves ctx m)
    {owner : Option PointsTo} {indices : List ElementIndex} {e : Option Entity}
    (he : m.notes.resolver.entity? op owner indices = e) :
    Visit.Ensures (Visit.resolve op owner indices >>= A.reference ctx op) m fun a m' =>
      Resolves ctx m' ∧ m'.notes.values = m.notes.values ∧ m'.state = m.state ∧ m'.notes.entities.find? op.id = e ∧
        a = readOf A m.state op e := by
  rw [Visit.ensures_bind, Visit.ensures_resolve]
  obtain ⟨answer, faithful⟩ := resolves.faithful.resolve distinct hop owner indices
  rw [answer, he]
  refine (S.reference op e _).mono fun a m' h => ?_
  obtain ⟨rfl, rfl⟩ := h
  refine ⟨⟨(Resolver.resolve_method _ _ _ _).trans resolves.method, faithful⟩, rfl, rfl, ?_, rfl⟩
  cases e with
  | none => exact FinMap.find?_erase_self _ _
  | some e => exact FinMap.find?_insert_self _ _ _

omit [DecidableEq V] in
/-- The indices of an element are visited without an effect. -/
theorem subscripts_seen {indices : List Operation} {m m' : Machine V} {seen : List (Seen V)}
    (trail : Analysis.Trail (Spec R may A ctx) indices m seen m') (subscripts : ∀ o ∈ indices, o.isSubscript = true)
    (hops : ∀ o ∈ indices, o ∈ Operation.subtrees ctx.graph.operations) (nodup : (Operation.idsIn indices).Nodup)
    (resolves : Resolves ctx m) :
    m'.state = m.state ∧ List.zipWith Analysis.positionOf indices (seen.map (·.entity)) =
      (indices.map Operation.subscript).map (·.index ctx.owner) := by
  induction trail with
  | nil => exact ⟨rfl, rfl⟩
  | @cons op ops m m₁ m₂ a seen first others ih =>
    obtain ⟨nodupFirst, nodupRest, -⟩ := Operation.nodup_idsIn_cons.1 nodup
    have visited := first (hops op List.mem_cons_self) nodupFirst resolves
    obtain ⟨state, positions⟩ := ih (fun o ho => subscripts o (List.mem_cons_of_mem _ ho))
      (fun o ho => hops o (List.mem_cons_of_mem _ ho)) nodupRest visited.resolves
    have hop := subscripts op List.mem_cons_self
    refine ⟨state.trans (visited.state (.inl hop)), ?_⟩
    have position : Analysis.positionOf op (m₁.notes.entities.find? op.id) = op.subscript.index ctx.owner := by
      cases op with
      | literal i l =>
        cases l with
        | integer n => rfl
        | _ => cases hop
      | localRef i x =>
        rw [visited.entity rfl]
        rfl
      | _ => cases hop
    simp only [List.map_cons, List.zipWith_cons_cons, position, positions]

/-- Constants. -/
theorem literal_visited (S : R.Sound may A ctx) {i : OperationInfo} {l : Literal}
    (nodup : ((Operation.literal i l).subtree.map (·.id)).Nodup) {m : Machine V} (resolves : Resolves ctx m) :
    Visited R may A ctx (.literal i l) m (A.literal (.literal i l) l)
      (withValue m (.literal i l) (A.literal (.literal i l) l)) := by
  refine .node nodup resolves (fun _ _ => rfl) (fun _ => rfl) (fun h => by cases h)
    (fun mem hfits _ v mem' heval => ?_) fun mem _ _ ev hev => ?_
  · cases heval
    exact ⟨hfits, S.literal _ l⟩
  · cases hev with
    | self heval => exact .inl ⟨_, heval, rfl⟩
    | operand strict => cases strict

/-- Locals. -/
theorem localRef_visited (S : R.Sound may A ctx) (distinct : ctx.graph.DistinctIds) {i : OperationInfo} {x : Symbol}
    (hop : Operation.localRef i x ∈ Operation.subtrees ctx.graph.operations)
    (nodup : ((Operation.localRef i x).subtree.map (·.id)).Nodup) {m : Machine V} (resolves : Resolves ctx m) :
    Visit.Ensures (A.own ctx usual (.localRef i x) []) m fun a m' =>
      Visited R may A ctx (.localRef i x) m a (withValue m' (.localRef i x) a) := by
  have he : m.notes.resolver.entity? (.localRef i x) none [] = some (.localVar x ctx.owner) :=
    congrArg (fun method => some (Entity.localVar x method)) resolves.method
  refine (read_ensures S distinct hop resolves he).mono fun a m' h => ?_
  obtain ⟨resolves', values, state, entity, rfl⟩ := h
  refine .node nodup resolves' (fun _ _ => by rw [values]) (fun _ => state) (fun _ => ⟨entity, rfl⟩)
    (fun mem hfits _ v mem' heval => ?_) fun mem _ _ ev hev => ?_
  · cases heval with
    | localRef hx => exact ⟨state ▸ hfits, S.localVar _ mem x v hfits hx⟩
  · cases hev with
    | self heval => exact .inl ⟨_, heval, rfl⟩
    | operand strict => cases strict

/-- Elements. -/
theorem elementRef_visited (S : R.Sound may A ctx) (distinct : ctx.graph.DistinctIds) {i j : OperationInfo} {x : Symbol}
    {indices : List Operation}
    (hop : Operation.elementRef i (.localRef j x) indices ∈ Operation.subtrees ctx.graph.operations)
    (subscripts : ∀ o ∈ indices, o.isSubscript = true)
    (hops : ∀ o ∈ Operation.localRef j x :: indices, o ∈ Operation.subtrees ctx.graph.operations)
    (nodup : ((Operation.elementRef i (.localRef j x) indices).subtree.map (·.id)).Nodup) {m m₁ : Machine V}
    (resolves : Resolves ctx m) {seen : List (Seen V)}
    (trail : Analysis.Trail (Spec R may A ctx) (.localRef j x :: indices) m seen m₁) :
    Visit.Ensures (A.own ctx usual (.elementRef i (.localRef j x) indices) seen) m₁ fun a m' =>
      Visited R may A ctx (.elementRef i (.localRef j x) indices) m a
        (withValue m' (.elementRef i (.localRef j x) indices) a) := by
  have nodupAll : (Operation.idsIn (.localRef j x :: indices)).Nodup := Operation.nodup_operands nodup
  have all := seenAll_of_trail trail hops nodupAll resolves
  cases trail with
  | @cons _ _ _ m₀ _ b seen first others =>
    obtain ⟨nodupArray, nodupRest, distinctArray⟩ := Operation.nodup_idsIn_cons.1 nodupAll
    have array := first (hops _ List.mem_cons_self) nodupArray resolves
    have rest := seenAll_of_trail others (fun o ho => hops o (List.mem_cons_of_mem _ ho)) nodupRest array.resolves
    obtain ⟨state, positions⟩ := subscripts_seen others subscripts (fun o ho => hops o (List.mem_cons_of_mem _ ho))
      nodupRest array.resolves
    have state : m₁.state = m.state := state.trans (array.state (.inr rfl))
    have hb : b = State.valueOr A.domain m.state (.localVar x ctx.owner) := array.value rfl
    -- The value of the array is still noted when the indices were visited.
    have noted : m₁.notes.values.find? j.id = some b := by
      rw [rest.others j.id fun h => ?_]
      · exact array.noted
      · exact distinctArray j.id (Operation.id_mem_subtree (.localRef j x)) h
    have he : m₁.notes.resolver.entity? (.elementRef i (.localRef j x) indices) (some (A.location ctx (.localRef j x) b))
        (List.zipWith Analysis.positionOf indices (seen.map (·.entity))) =
          placeOf A ctx m.state (.elementRef i (.localRef j x) indices) := by
      rw [positions, hb]
      unfold Resolver.entity? Resolver.owner? placeOf elementAt
      rw [all.resolves.faithful.tracksUnknown]
      dsimp only [Option.getD_some]
      split <;> rfl
    refine (read_ensures S distinct hop all.resolves he).mono fun a m' h => ?_
    obtain ⟨resolves', values, state', entity, rfl⟩ := h
    refine .node nodup resolves' (fun id hid => by rw [values]; exact all.others id hid) (fun _ => state'.trans state)
      (fun _ => ⟨entity, by rw [state]⟩) (fun mem hfits permits v mem' heval => ?_) fun mem hfits permits ev hev => ?_
    · cases heval with
      | element hx harray hposition hmay =>
        rw [state', state]
        exact ⟨hfits, S.element i j x indices _ mem _ _ _ hfits harray hposition hmay (permits j x _ (.array hx))⟩
    · cases hev with
      | self heval => exact .inl ⟨_, heval, rfl⟩
      | array hx =>
        refine .inr ⟨by simp [Operation.operands, Operation.subtree], b, by rw [values]; exact noted, ?_⟩
        exact hb ▸ S.localVar _ mem x _ hfits hx
      | operand strict => cases strict

omit [DecidableEq V] in
/-- Operators, new arrays and returns, after their operands: `result` is what the operation does itself. -/
theorem strict_visited {op : Operation} (strict : op.isStrict = true) (nodup : (op.subtree.map (·.id)).Nodup)
    {m m₁ m' : Machine V} {seen : List (Seen V)} {a : V} (all : SeenAll R may ctx op.operands m seen m₁)
    (state : m'.state = m₁.state) (resolver : m'.notes.resolver = m₁.notes.resolver)
    (values : m'.notes.values = m₁.notes.values)
    (result : ∀ mem v mem', Eval may op mem v mem' → ∃ vs mem₁, EvalAll may op.operands mem vs mem₁ ∧
      (R.fits m₁.state mem₁ → List.Forall₂ (fun s v => R.describes s.value v) seen vs →
        R.fits m₁.state mem' ∧ R.describes a v)) :
    Visited R may A ctx op m a (withValue m' op a) := by
  have noPlace : ¬(op.isSubscript = true ∨ op.isPlace = true) := by
    cases op <;> simp_all [Operation.isStrict, Operation.isSubscript, Operation.isPlace]
  have operands {mem : Memory Ω} (permits : R.Permits may op mem) : R.PermitsAll may op.operands mem := by
    rintro j x site ⟨before, o, after, vs, mem₁, hsplit, hbefore, hev⟩
    exact permits j x site (.operand strict hsplit hbefore hev)
  refine .node nodup (all.resolves.congr resolver) (fun id hid => by rw [values]; exact all.others id hid)
    (fun h => absurd h noPlace) (fun h => absurd (.inr h) noPlace) (fun mem hfits permits v mem' heval => ?_)
    fun mem hfits permits ev hev => ?_
  · obtain ⟨vs, mem₁, hoperands, howns⟩ := result mem v mem' heval
    obtain ⟨hfits₁, hall⟩ := all.sound mem hfits (operands permits) vs mem₁ hoperands
    rw [state]
    exact howns hfits₁ hall
  · cases hev with
    | self heval => exact .inl ⟨_, heval, rfl⟩
    | operand _ hsplit hbefore hev =>
      have explained := all.events mem hfits (operands permits) ev ⟨_, _, _, _, _, hsplit, hbefore, hev⟩
      refine .inr ⟨?_, values ▸ explained⟩
      rw [hsplit]
      exact Operation.subtree_subset_of_mem (by simp) _ (mem_subtree_of_emits hev)
    | array | target | value => cases strict

/-- What an index names at the moment is what it may name. -/
theorem mayName_of_denotes {mem : Memory Ω} {indices : List Subscript} {position : List (Datum Ω)}
    (h : List.Forall₂ mem.Denotes indices position) : List.Forall₂ Subscript.MayName indices position := by
  refine h.imp fun index d hd => ?_
  cases index with
  | constant n => exact hd
  | localVar | result => trivial

omit [DecidableEq V] in
/-- When an element was visited then a value is noted for the local with the array, even if there is no such cell. -/
theorem Visited.explains_array {i j : OperationInfo} {x : Symbol} {indices : List Operation} {m m' : Machine V} {a : V}
    (visited : Visited R may A ctx (.elementRef i (.localRef j x) indices) m a m') {mem : Memory Ω} {v : Value Ω}
    (hfits : R.fits m.state mem) (hx : mem.vars x = some v)
    (allowed : ∀ site, v = .array site → R.allowed (.localRef j x) site) :
    R.Explains m'.notes.values ⟨.localRef j x, v⟩ := by
  refine visited.events mem hfits (fun j' x' site hev => ?_) _ (.array hx)
  cases hev with
  | array hx' => exact allowed site (Option.some.inj (hx.symm.trans hx'))
  | operand strict => cases strict

/-- Assignments to locals and elements. -/
theorem assignment_visited (S : R.Sound may A ctx) {i : OperationInfo} {target value : Operation}
    (place : target.isPlace = true) (hops : ∀ o ∈ [target, value], o ∈ Operation.subtrees ctx.graph.operations)
    (nodup : ((Operation.assignment i target value).subtree.map (·.id)).Nodup) {m m₁ : Machine V}
    (resolves : Resolves ctx m) {seen : List (Seen V)}
    (trail : Analysis.Trail (Spec R may A ctx) [target, value] m seen m₁) :
    Visit.Ensures (A.own ctx usual (.assignment i target value) seen) m₁ fun a m' =>
      Visited R may A ctx (.assignment i target value) m a (withValue m' (.assignment i target value) a) := by
  have nodupAll : (Operation.idsIn [target, value]).Nodup := Operation.nodup_operands nodup
  have all := seenAll_of_trail trail hops nodupAll resolves
  cases trail with
  | @cons _ _ _ m₀ _ _ _ first rest =>
    cases rest with
    | @cons _ _ _ _ _ b _ second rest =>
      cases rest
      rw [Operation.nodup_idsIn_cons, Operation.idsIn_singleton] at nodupAll
      obtain ⟨nodupTarget, nodupValue, disjoint⟩ := nodupAll
      have target' := first (hops _ (by simp)) nodupTarget resolves
      have value' := second (hops _ (by simp)) nodupValue target'.resolves
      have start : m₀.state = m.state := target'.state (.inr place)
      have permitsValue {mem : Memory Ω} (permits : R.Permits may (.assignment i target value) mem) :
          R.Permits may value mem := fun j x site hev => permits j x site (.value hev)
      refine (S.assign _ _ _ _).mono fun a m' h => ?_
      obtain ⟨rfl, rfl⟩ := h
      rw [target'.entity place]
      refine .node nodup (all.resolves.congr rfl) all.others
        (fun h => by simp [Operation.isSubscript, Operation.isPlace] at h) (fun h => by cases h) (fun mem hfits permits v mem' heval => ?_) fun mem hfits permits ev hev => ?_
      · cases heval with
        | assignment heval =>
          obtain ⟨hfits₁, hdescribes⟩ := value'.sound mem (start ▸ hfits) (permitsValue permits) _ _ heval
          exact ⟨S.set _ _ _ _ _ hfits₁ hdescribes, hdescribes⟩
        | store hx hposition heval harray =>
          obtain ⟨hfits₁, hdescribes⟩ := value'.sound mem (start ▸ hfits) (permitsValue permits) _ _ heval
          refine ⟨S.store _ _ _ _ _ _ _ _ _ _ _ _ hfits₁ harray (mayName_of_denotes hposition) ?_ hdescribes, hdescribes⟩
          exact permits _ _ _ (.target hx)
      · cases hev with
        | self heval => exact .inl ⟨_, heval, rfl⟩
        | operand strict => cases strict
        | @target _ j k x indices _ _ _ hx =>
          have hmem : Operation.localRef k x ∈ (Operation.elementRef j (.localRef k x) indices).subtree := by
            simp [Operation.subtree]
          refine .inr ⟨Operation.subtree_subset_of_mem (by simp [Operation.operands]) _ hmem, ?_⟩
          have explained := target'.explains_array hfits hx fun site hv =>
            permits k x site (.target (hx.trans (hv ▸ rfl)))
          -- It is still noted when the value was visited.
          exact explained.congr (value'.others _ (disjoint _ (List.mem_map_of_mem hmem)))
        | value hev =>
          refine .inr ⟨?_, value'.events mem (start ▸ hfits) (permitsValue permits) ev hev⟩
          exact Operation.subtree_subset_of_mem (by simp [Operation.operands]) _ (mem_subtree_of_emits hev)

/-- Operators. -/
theorem binary_visited (S : R.Sound may A ctx) {i : OperationInfo} {operator : BinaryOperator} {left right : Operation}
    (nodup : ((Operation.binary i operator left right).subtree.map (·.id)).Nodup) {m m₁ : Machine V}
    {seen : List (Seen V)} (trail : Analysis.Trail (Spec R may A ctx) [left, right] m seen m₁)
    (all : SeenAll R may ctx [left, right] m seen m₁) :
    Visit.Ensures (A.own ctx usual (.binary i operator left right) seen) m₁ fun a m' =>
      Visited R may A ctx (.binary i operator left right) m a (withValue m' (.binary i operator left right) a) := by
  cases trail with
  | cons _ rest =>
    cases rest with
    | cons _ rest =>
      cases rest
      refine (S.binary _ operator _ _ m₁).mono fun a m' h => ?_
      obtain ⟨rfl, howns⟩ := h
      refine strict_visited rfl nodup all rfl rfl rfl fun mem v mem' heval => ?_
      cases heval with
      | binary hall hw =>
        refine ⟨_, _, hall, fun hfits hseen => ⟨hfits, ?_⟩⟩
        cases hseen with
        | cons hleft hrest =>
          cases hrest with
          | cons hright _ => exact howns _ _ _ hleft hright hw

/-- New arrays. -/
theorem creation_visited (S : R.Sound may A ctx) {i : OperationInfo} {dimensions : List Operation}
    (nodup : ((Operation.arrayCreation i dimensions).subtree.map (·.id)).Nodup) {m m₁ : Machine V} {seen : List (Seen V)}
    (all : SeenAll R may ctx dimensions m seen m₁) :
    Visit.Ensures (A.own ctx usual (.arrayCreation i dimensions) seen) m₁ fun a m' =>
      Visited R may A ctx (.arrayCreation i dimensions) m a (withValue m' (.arrayCreation i dimensions) a) := by
  refine (S.creation i dimensions m₁).mono fun a m' h => ?_
  obtain ⟨rfl, hdescribes⟩ := h
  refine strict_visited rfl nodup all rfl rfl rfl fun mem v mem' heval => ?_
  cases heval with
  | creation cells hall hnone => exact ⟨_, _, hall, fun hfits _ => ⟨S.make _ _ i cells hfits hnone, hdescribes⟩⟩

omit [DecidableEq V] in
/-- Returns. -/
theorem ret_visited {i : OperationInfo} {value : Option Operation}
    (nodup : ((Operation.ret i value).subtree.map (·.id)).Nodup) {m m₁ : Machine V} {seen : List (Seen V)}
    (trail : Analysis.Trail (Spec R may A ctx) value.toList m seen m₁)
    (all : SeenAll R may ctx value.toList m seen m₁) :
    Visit.Ensures (A.own ctx usual (.ret i value) seen) m₁ fun a m' =>
      Visited R may A ctx (.ret i value) m a (withValue m' (.ret i value) a) := by
  cases value with
  | none =>
    cases trail
    refine (Visit.ensures_pure _ _ _).2 (strict_visited rfl nodup all rfl rfl rfl fun mem v mem' heval => ?_)
    cases heval
  | some value =>
    cases trail with
    | cons _ rest =>
      cases rest
      show Visit.Ensures (do
        Visit.recordReturn i.id _
        return _) m₁ _
      rw [Visit.ensures_bind, Visit.ensures_recordReturn, Visit.ensures_pure]
      refine strict_visited rfl nodup all rfl rfl rfl fun mem v mem' heval => ?_
      cases heval with
      | ret hall =>
        refine ⟨_, _, hall, fun hfits hseen => ⟨hfits, ?_⟩⟩
        cases hseen with
        | cons hvalue _ => exact hvalue

/-! ### Trees -/

/-- A visit of an operation keeps the account true. -/
theorem visit_visited (S : R.Sound may A ctx) (shaped : ctx.graph.OverArray) (distinct : ctx.graph.DistinctIds)
    (op : Operation) (m : Machine V) : Visit.Ensures (A.visit ctx usual op) m (Spec R may A ctx op m) := by
  refine Analysis.visit_ensures (T := Spec R may A ctx) (fun op m seen m₁ trail a m' hown hop nodup resolves => ?_) op m
  have hops : ∀ o ∈ op.operands, o ∈ Operation.subtrees ctx.graph.operations := fun o ho =>
    Operation.mem_subtrees_of_mem_operands hop ho
  have all := seenAll_of_trail trail hops (Operation.nodup_operands nodup) resolves
  have hover := shaped op hop
  suffices h : Visit.Ensures (A.own ctx usual op seen) m₁ fun a m' => Visited R may A ctx op m a (withValue m' op a) from
    h a m' hown
  cases op with
  | literal i l =>
    cases trail
    exact (Visit.ensures_pure _ _ _).2 (literal_visited S nodup resolves)
  | localRef i x =>
    cases trail
    exact localRef_visited S distinct hop nodup resolves
  | elementRef i array indices =>
    cases array with
    | localRef j x =>
      have subscripts : ∀ o ∈ indices, o.isSubscript = true := by
        simpa [Operation.isOverArray, Operation.isLocal] using hover
      exact elementRef_visited S distinct hop subscripts hops nodup resolves trail
    | _ => simp [Operation.isOverArray, Operation.isLocal] at hover
  | assignment i target value => exact assignment_visited S hover hops nodup resolves trail
  | binary i operator left right => exact binary_visited S nodup trail all
  | arrayCreation i dimensions => exact creation_visited S nodup all
  | ret i value => exact ret_visited nodup trail all
  | _ => cases hover

end Walk

end Arrays

end Dataflow
