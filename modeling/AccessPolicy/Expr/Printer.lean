import AccessPolicy.Expr.Basic

/-!
# The text of expressions

Operators are written with all their parentheses, so that the text shows how the expression
is built. Names are written as they are, without quotes or escapes of their own.
-/

namespace AccessPolicy

mutual

/-- The text of an expression. -/
def Expr.text : Expr → String
  | .literal document => document.text
  | .undefined => "undefined"
  | .var name => name
  | .relative => "@"
  | .object members => "\x7b" ++ ", ".intercalate (Expr.memberTexts members) ++ "\x7d"
  | .array items => "[" ++ ", ".intercalate (Expr.texts items) ++ "]"
  | .unary op operand => op.symbol ++ "(" ++ operand.text ++ ")"
  | .binary op left right => "(" ++ left.text ++ " " ++ op.symbol ++ " " ++ right.text ++ ")"
  | .call name arguments => name ++ "(" ++ ", ".intercalate (Expr.texts arguments) ++ ")"
  | .finder name arguments head =>
    (if head then "|<" else "<") ++ name ++ Expr.listText (Expr.texts arguments) ++ ">"
  | .path base steps => base.text ++ "".intercalate (Step.texts steps)
  | .filter base edits =>
    base.text ++ " |- \x7b" ++ ", ".intercalate (Edit.texts edits) ++ "\x7d"
  | .template base body => base.text ++ " :: " ++ body.text

/-- The texts of some expressions. -/
def Expr.texts : List Expr → List String
  | [] => []
  | e :: es => e.text :: Expr.texts es

/-- The texts of the members of an object. -/
def Expr.memberTexts : List (String × Expr) → List String
  | [] => []
  | (key, e) :: members => ("\"" ++ key ++ "\": " ++ e.text) :: Expr.memberTexts members

/-- The texts of some arguments as a list, which is left out if it is empty. -/
def Expr.listText (texts : List String) : String :=
  if texts.isEmpty then "" else "(" ++ ", ".intercalate texts ++ ")"

/-- The text of a step. -/
def Step.text : Step → String
  | .select selector => selector.text
  | .computed selector => "[(" ++ selector.text ++ ")]"
  | .condition test => "[?(" ++ test.text ++ ")]"
  | .finder name arguments head =>
    (if head then "|<" else ".<") ++ name ++ Expr.listText (Expr.texts arguments) ++ ">"

/-- The texts of some steps. -/
def Step.texts : List Step → List String
  | [] => []
  | s :: ss => s.text :: Step.texts ss

/-- The text of an edit. -/
def Edit.text : Edit → String
  | .remove each target =>
    (if each then "each " else "") ++ "@" ++ "".intercalate (Step.texts target) ++ " : remove"
  | .apply each target name arguments =>
    (if each then "each " else "") ++ "@" ++ "".intercalate (Step.texts target) ++ " : " ++ name
      ++ "(" ++ ", ".intercalate (Expr.texts arguments) ++ ")"

/-- The texts of some edits. -/
def Edit.texts : List Edit → List String
  | [] => []
  | e :: es => e.text :: Edit.texts es

end

end AccessPolicy
