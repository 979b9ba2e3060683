import AccessPolicy.Decision.Basic
import AccessPolicy.Function.Basic
import AccessPolicy.Stream.Source
import AccessPolicy.Value.Operator

/-!
# What an expression is evaluated in

A context binds variables and perhaps `@`, provides functions, sources, combining algorithms
and the libraries that operators rely on, and maps short names to qualified ones. In target
mode nothing may be evaluated whose value could change or whose evaluation could be cut
short.
-/

namespace AccessPolicy

/-- What an evaluation is for. -/
inductive Mode where
  | target
  | body
deriving DecidableEq, Repr

/-- The documents that a request for a decision is about. -/
structure Request where
  subject : Json
  action : Json
  resource : Json
  environment : Json := .null
deriving DecidableEq

/-- The variables in scope. -/
abbrev Bindings := Dict String Value

/-- What an expression is evaluated in. -/
structure Context where
  bindings : Bindings := []
  relative : Option Value := none
  functions : Functions := []
  sources : Sources := []
  algorithms : Algorithms := []
  imports : Dict String String := []
  libraries : Libraries := {}
  mode : Mode := .body

namespace Context

/-- The context with a variable bound. -/
def bind (ctx : Context) (name : String) (v : Value) : Context :=
  { ctx with bindings := Dict.insert ctx.bindings name v }

/-- The context with several variables bound. -/
def bindAll (ctx : Context) (bindings : Bindings) : Context :=
  bindings.foldl (fun ctx entry => ctx.bind entry.1 entry.2) ctx

/-- The context with other variables in scope. -/
def within (ctx : Context) (scope : Bindings) : Context := { ctx with bindings := scope }

/-- The context with the parts of a request bound to variables of their names. -/
def bindRequest (ctx : Context) (r : Request) : Context :=
  (((ctx.bind "subject" (Value.of r.subject)).bind "action" (Value.of r.action)).bind
    "resource" (Value.of r.resource)).bind "environment" (Value.of r.environment)

/-- The context in which `@` stands for a value. -/
def about (ctx : Context) (v : Value) : Context := { ctx with relative := some v }

/-- The context with the imports of a document. -/
def importing (ctx : Context) (imports : Dict String String) : Context :=
  { ctx with imports := imports }

/-- The context in a mode. -/
def inMode (ctx : Context) (mode : Mode) : Context := { ctx with mode := mode }

/-- The qualified name that a name stands for. -/
def resolve (ctx : Context) (name : String) : String :=
  (Dict.get? ctx.imports name).getD name

/-- The value of a variable. -/
def lookup (ctx : Context) (name : String) : Value :=
  match Dict.get? ctx.bindings name with
  | some v => v
  | none => Value.fault (.unbound name)

/-- The value that `@` stands for. -/
def subject (ctx : Context) : Value :=
  match ctx.relative with
  | some v => v
  | none => Value.fault .relativeUnbound

/-- Calls a function by the qualified name and reports the call. -/
def call (ctx : Context) (name : String) (arguments : List Value) : Value × List Event :=
  let result := ctx.functions.callReporting (ctx.resolve name) arguments
  (result.1, result.2.map .called)

end Context

end AccessPolicy
