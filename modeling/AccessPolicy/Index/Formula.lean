import AccessPolicy.Index.Literal

/-!
# Formulas in disjunctive form

A clause holds when all its literals do, and a formula holds when one of its clauses does. A
formula is kept *reduced*: no clause has a constant literal, or a literal together with its
opposite, or all the literals of another clause; and shorter clauses stand before longer ones.
The connectives give up where the clauses would be more than a limit allows.
-/

namespace AccessPolicy

/-- A list of literals that must all hold, each listed once. -/
structure Clause where
  literals : List Literal := []
deriving DecidableEq

namespace Clause

/-- Adds a literal, unless it is listed. -/
def add (c : Clause) (l : Literal) : Clause :=
  if c.literals.contains l then c else ⟨c.literals ++ [l]⟩

/-- The clause of some literals. -/
def ofList (ls : List Literal) : Clause := ls.foldl add {}

/-- How many literals a clause has. -/
def length (c : Clause) : Nat := c.literals.length

/-- Whether some literal of a list is the opposite of a later one. -/
def opposed : List Literal → Bool
  | [] => false
  | l :: ls => ls.any l.contradicts || opposed ls

/-- Whether a clause cannot hold. -/
def isContradiction (c : Clause) : Bool := opposed c.literals

/-- Whether all literals of a clause are literals of another one, so that the first clause
holds whenever the second does. -/
def subsumes (c d : Clause) : Bool := c.literals.all d.literals.contains

/-- The clause of the literals of two clauses. -/
def and (c d : Clause) : Clause := d.literals.foldl add c

/-- The literals that need an evaluation, if all others hold. -/
def withoutConstants? : List Literal → Option (List Literal)
  | [] => some []
  | l :: ls =>
    match l.constant? with
    | some false => none
    | some true => withoutConstants? ls
    | none => (withoutConstants? ls).map (l :: ·)

/-- The text of a clause. -/
def text (c : Clause) : String :=
  if c.literals.isEmpty then "true" else " & ".intercalate (c.literals.map Literal.text)

end Clause

/-- A list of clauses of which one must hold. -/
structure Formula where
  clauses : List Clause := []
deriving DecidableEq

namespace Formula

/-- Adds a clause, unless a clause that is already there holds whenever the new one does. -/
def keep (kept : List Clause) (c : Clause) : List Clause :=
  if kept.any (·.subsumes c) then kept else kept ++ [c]

/-- The clauses that can hold, without their constants. -/
def candidates (cs : List Clause) : List Clause :=
  (cs.filterMap fun c => (Clause.withoutConstants? c.literals).map Clause.mk).filter
    fun c => !c.isContradiction

/-- The reduced formula of some clauses. -/
def ofClauses (cs : List Clause) : Formula :=
  ⟨((candidates cs).mergeSort fun c d => c.length ≤ d.length).foldl keep []⟩

/-- The formula that always or never holds. -/
def constant (value : Bool) : Formula := ⟨if value then [{}] else []⟩

/-- The formula of one literal. -/
def literal (l : Literal) : Formula := ofClauses [Clause.ofList [l]]

/-- How many clauses a formula has. -/
def length (f : Formula) : Nat := f.clauses.length

/-- The formula that holds when one of two formulas does. -/
def or? (f g : Formula) (limit : Nat) : Option Formula :=
  if limit < f.length + g.length then none else some (ofClauses (f.clauses ++ g.clauses))

/-- The formula that holds when two formulas do. -/
def and? (f g : Formula) (limit : Nat) : Option Formula :=
  if limit < f.length * g.length then none
  else some (ofClauses (f.clauses.flatMap fun c => g.clauses.map c.and))

/-- The formula that holds when a clause does not. -/
def negateClause (c : Clause) : Formula :=
  ofClauses (c.literals.map fun l => Clause.ofList [l.negate])

/-- The formula that holds when a formula does and none of some clauses does. -/
def andNot? (limit : Nat) : Formula → List Clause → Option Formula
  | f, [] => some f
  | f, c :: cs =>
    match f.and? (negateClause c) limit with
    | some g => andNot? limit g cs
    | none => none

/-- The formula that holds when a formula does not. -/
def negate? (f : Formula) (limit : Nat) : Option Formula :=
  andNot? limit (constant true) f.clauses

/-- The text of a formula. -/
def text (f : Formula) : String :=
  if f.clauses.isEmpty then "false"
  else " | ".intercalate (f.clauses.map fun c => "(" ++ c.text ++ ")")

end Formula

/-! ## The formula of a target -/

namespace Expr

/-- The literal of an expression as a whole. -/
def asLiteral (e : Expr) (imports : Dict String String) : Literal :=
  ⟨.expression e imports, false⟩

/-- The formula of a target. Truth values and the operators `&`, `|` and `!` are taken apart,
and everything else is a predicate. -/
def formula? (imports : Dict String String) (limit : Nat) : Expr → Option Formula
  | .literal (.bool value) => some (Formula.constant value)
  | .binary .eagerAnd left right => do
    let f ← left.formula? imports limit
    let g ← right.formula? imports limit
    f.and? g limit
  | .binary .eagerOr left right => do
    let f ← left.formula? imports limit
    let g ← right.formula? imports limit
    f.or? g limit
  | .unary .not operand => do
    let f ← operand.formula? imports limit
    f.negate? limit
  | e => some (Formula.literal (e.asLiteral imports))

/-- The formula of a target, or the one literal of the whole target where the clauses would
be more than the limit allows. -/
def normalize (target : Expr) (imports : Dict String String) (limit : Nat) : Formula :=
  (target.formula? imports limit).getD (Formula.literal (target.asLiteral imports))

end Expr

/-- The formula of the target of a document; without a target it always holds. -/
def Document.formula (d : Document) (limit : Nat) : Formula :=
  match d.target with
  | some target => target.normalize d.imports limit
  | none => Formula.constant true

end AccessPolicy
