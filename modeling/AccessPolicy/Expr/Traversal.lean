import AccessPolicy.Expr.Basic

/-!
# The expressions inside an expression

Checks of an expression look at each expression inside it, a whole before its parts and the
parts in the order in which they are written. The expressions inside the steps of a path and
inside the edits of a filter count as well.
-/

namespace AccessPolicy

mutual

/-- An expression and all expressions inside it, in order. -/
def Expr.nodes : Expr → List Expr
  | .literal document => [.literal document]
  | .undefined => [.undefined]
  | .var name => [.var name]
  | .relative => [.relative]
  | .object members => .object members :: Expr.nodesOfMembers members
  | .array items => .array items :: Expr.nodesOfAll items
  | .unary op operand => .unary op operand :: operand.nodes
  | .binary op left right => .binary op left right :: (left.nodes ++ right.nodes)
  | .call name arguments => .call name arguments :: Expr.nodesOfAll arguments
  | .finder name arguments head => .finder name arguments head :: Expr.nodesOfAll arguments
  | .path base steps => .path base steps :: (base.nodes ++ Step.nodesOfAll steps)
  | .filter base edits => .filter base edits :: (base.nodes ++ Edit.nodesOfAll edits)
  | .template base body => .template base body :: (base.nodes ++ body.nodes)

/-- The nodes of some expressions. -/
def Expr.nodesOfAll : List Expr → List Expr
  | [] => []
  | e :: es => e.nodes ++ Expr.nodesOfAll es

/-- The nodes of the values of some members. -/
def Expr.nodesOfMembers : List (String × Expr) → List Expr
  | [] => []
  | (_, e) :: members => e.nodes ++ Expr.nodesOfMembers members

/-- The nodes of the expressions in a step. -/
def Step.nodes : Step → List Expr
  | .select _ => []
  | .computed selector => selector.nodes
  | .condition test => test.nodes
  | .finder _ arguments _ => Expr.nodesOfAll arguments

/-- The nodes of the expressions in some steps. -/
def Step.nodesOfAll : List Step → List Expr
  | [] => []
  | s :: ss => s.nodes ++ Step.nodesOfAll ss

/-- The nodes of the expressions in an edit. -/
def Edit.nodes : Edit → List Expr
  | .remove _ target => Step.nodesOfAll target
  | .apply _ target _ arguments => Step.nodesOfAll target ++ Expr.nodesOfAll arguments

/-- The nodes of the expressions in some edits. -/
def Edit.nodesOfAll : List Edit → List Expr
  | [] => []
  | e :: es => e.nodes ++ Edit.nodesOfAll es

end

end AccessPolicy
