import AccessPolicy.Value.Fault

/-!
# Functions

A function computes a value from a list of values, or fails. What it fails with becomes an
error value that names the function.
-/

namespace AccessPolicy

/-- A function that expressions can call. -/
abbrev Function := List Value → Except CallFailure Value

/-- The functions that can be called, by name. -/
abbrev Functions := Dict String Function

namespace Functions

/-- Adds a function, in place of any other of its name. -/
def add (functions : Functions) (name : String) (f : Function) : Functions :=
  Dict.insert functions name f

/-- Calls a function by name. -/
def call (functions : Functions) (name : String) (arguments : List Value) : Value :=
  match Dict.get? functions name with
  | none => Value.fault (.unknownFunction name)
  | some f =>
    match f arguments with
    | .ok v => v
    | .error failure => Value.fault (.functionFailed name failure)

/-- Calls a function by name and reports that it was called, if there is one. -/
def callReporting (functions : Functions) (name : String) (arguments : List Value) :
    Value × List String :=
  (call functions name arguments, if Dict.hasKey functions name then [name] else [])

end Functions

end AccessPolicy
