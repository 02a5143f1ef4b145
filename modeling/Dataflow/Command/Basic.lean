import Dataflow.Session.Basic

/-!
# Commands

What a user can ask for on the command line: the list of a program's methods, or the
analysis of one or all of them. Options may stand anywhere and are written as
`--name value` or `--name=value`; `--pessimistic` may stand alone.
-/

namespace Dataflow

/-- How an analysis is to be run, as far as a user can say. -/
structure CommandOptions where
  /-- What happens at a call. -/
  handling : CallHandling
  /-- What is learnt from the points-to analysis. -/
  pointsToUse : PointsToUse
  /-- Whether an opaque call changes everything that is not local. -/
  pessimistic : Bool
  /-- Whether the analysis of literal content uses classes of copies. -/
  usesCopies : Bool
  /-- The file of taint rules. -/
  taintFile : Option String
  /-- Which analysis. -/
  kind : AnalysisKind
  /-- The name of the method, if only one is to be analysed. -/
  method : Option String
  deriving DecidableEq, Repr

namespace CommandOptions

/-- The options of a user who gives none. -/
def usual : CommandOptions where
  handling := .none
  pointsToUse := .complete
  pessimistic := false
  usesCopies := false
  taintFile := none
  kind := .pointsTo
  method := none

/-- The configuration of an analysis. -/
def config (o : CommandOptions) : Config :=
  { Config.usual with
    calls := CallConfig.usual o.handling
    pointsToUse := o.pointsToUse
    usesCopies := o.usesCopies
    pessimistic := o.pessimistic }

/-- Sets an option that has a value. -/
def set (o : CommandOptions) (name value : String) : Except String CommandOptions := do
  match name with
  | "--interprocedural" => return { o with handling := ← CallHandling.ofName value }
  | "--points-to" => return { o with pointsToUse := ← PointsToUse.ofName value }
  | "--pessimistic" =>
    match value with
    | "true" => return { o with pessimistic := true }
    | "false" => return { o with pessimistic := false }
    | _ => .error ("`" ++ value ++ "` is neither `true` nor `false`")
  | "--taint" => return { o with taintFile := some value }
  | "--kind" => return { o with kind := ← AnalysisKind.ofName value }
  | "--method" => return { o with method := some value }
  | _ => .error ("unknown option `" ++ name ++ "`")

/-- Whether an option takes the next word as its value. -/
def takesNext (name : String) : Bool :=
  ["--interprocedural", "--points-to", "--taint", "--kind", "--method"].contains name

/-- An option and its value, if the word holds both. -/
def split? (word : String) : Option (String × String) :=
  match word.toList.span (· ≠ '=') with
  | (name, '=' :: value) => some (String.ofList name, String.ofList value)
  | _ => none

/-- The options among some words, and the other words. -/
def parse (o : CommandOptions) (others : List String) : List String →
    Except String (CommandOptions × List String)
  | [] => return (o, others.reverse)
  | "--copy" :: words => parse { o with usesCopies := true } others words
  | "--pessimistic" :: words => parse { o with pessimistic := true } others words
  | [word] =>
    if takesNext word then .error ("`" ++ word ++ "` needs a value") else parseWord o others word []
  | word :: next :: words =>
    if takesNext word then do parse (← o.set word next) others words
    else parseWord o others word (next :: words)
where
  /-- The options among some words, of which the first is no option with a value after it. -/
  parseWord (o : CommandOptions) (others : List String) (word : String) (words : List String) :
      Except String (CommandOptions × List String) := do
    if word.startsWith "--" then
      match split? word with
      | some (name, value) => parse (← o.set name value) others words
      | none => .error ("unknown option `" ++ word ++ "`")
    else parse o (word :: others) words

end CommandOptions

/-- What a user asks for. -/
inductive Command where
  /-- The methods of the program in a file. -/
  | methods (file : String)
  /-- An analysis of the program in a file. -/
  | analyze (file : String) (options : CommandOptions)
  deriving DecidableEq, Repr

namespace Command

/-- How to ask. -/
def usage : String :=
  "usage: dataflow methods PROGRAM\n" ++
  "       dataflow analyze PROGRAM [--kind points-to|copy|value-content|taint] [--method NAME] [--copy]\n" ++
  "                [--interprocedural none|summary|context] [--points-to none|partial|complete]\n" ++
  "                [--pessimistic[=true|false]] [--taint RULES]"

/-- What the words of a command line ask for. -/
def parse (words : List String) : Except String Command := do
  match ← CommandOptions.usual.parse [] words with
  | (_, ["methods", file]) => return .methods file
  | (o, ["analyze", file]) => return .analyze file o
  | _ => .error usage

/-- The methods that options name. -/
def methodsOf (p : Program) (o : CommandOptions) : Except String (List Symbol) :=
  match o.method with
  | none => .ok p.methodList
  | some name =>
    match p.findMethod? name with
    | some m => .ok [m]
    | none => .error ("no method named " ++ name)

/-- What is printed for a method. -/
def paragraph (m : Symbol) : Option (Stored Outcome) → String
  | some o => o.value.text
  | none => m.text ++ ": no body"

/-- What is printed for some methods, up to the first failure. -/
def paragraphs (s : Session) (o : CommandOptions) (taint : TaintConfig) :
    List Symbol → Desk → List String × Option Failure
  | [], _ => ([], none)
  | m :: ms, desk =>
    match (s.analyzeMethod o.kind m o.config taint).run desk with
    | (.ok outcome, desk) =>
      let (texts, failure) := paragraphs s o taint ms desk
      (paragraph m outcome :: texts, failure)
    | (.error f, _) => ([], some f)

/-- What is printed for an analysis of a program, up to the first failure. -/
def report (p : Program) (taint : TaintConfig) (o : CommandOptions) :
    Except String (List String × Option Failure) := do
  return paragraphs (Session.ofProgram 0 p) o taint (← methodsOf p o) Desk.clean

end Command

end Dataflow
