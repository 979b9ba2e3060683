import AccessPolicy.Proofs.Value.Bare

/-!
# What expressions mean

The value of an expression is a stream because attributes change. If what every finder looks up
were known and did not change, the value could be computed outright: that is what an expression
**means**. Meanings are bare values in a bare context; the record of an operator is of no
account, since no operation depends on it.

The meaning of an edit goes down a document in the same way as the edit does, with a function
from documents to values in the place of the stream of each.
-/

namespace AccessPolicy

/-! ## Editing outright -/

/-- A step of an edit whose conditions are computed outright. -/
inductive RevisionStep where
  | select (selector : Selector)
  | condition (test : Json → Value)
  | unsupported (text : String)

namespace RevisionStep

/-- The object of some results under their keys. -/
def objectOf (members : List (String × Value)) : Value :=
  Value.objectOf (members.map Prod.fst) (members.map Prod.snd)

/-- Revises the items of an array at some places. -/
def reviseAt (next : Json → Value) (chosen : List Nat) (items : List Json) : Value :=
  Value.arrayOf (items.zipIdx.map fun (item, i) =>
    if chosen.contains i then next item else Value.of item)

/-- Revises the members of an object that have some names. -/
def reviseNamed (next : Json → Value) (names : List String) (members : List (String × Json)) :
    Value :=
  objectOf (members.map fun (key, value) =>
    (key, if names.contains key then next value else Value.of value))

mutual

/-- Revises the members of some name of an object, or of the items of an array. -/
def reviseKey (name : String) (next : Json → Value) : Json → Value
  | .object members =>
    if Dict.hasKey members name then reviseNamed next [name] members
    else Value.of (.object members)
  | .array items => Value.arrayOf (reviseKeyOfItems name next items)
  | document => Value.of document

/-- Revises the members of some name of some items. -/
def reviseKeyOfItems (name : String) (next : Json → Value) : List Json → List Value
  | [] => []
  | item :: items => reviseKey name next item :: reviseKeyOfItems name next items

end

mutual

/-- Revises the members of some name at every depth. -/
def reviseEverywhere (name : String) (next : Json → Value) : Json → Value
  | .object members => objectOf (reviseEverywhereInMembers name next members)
  | .array items => Value.arrayOf (reviseEverywhereInItems name next items)
  | document => Value.of document

/-- Revises the members of some name in some items, at every depth. -/
def reviseEverywhereInItems (name : String) (next : Json → Value) : List Json → List Value
  | [] => []
  | item :: items => reviseEverywhere name next item :: reviseEverywhereInItems name next items

/-- Revises those of some members that have some name, and goes on in the others. -/
def reviseEverywhereInMembers (name : String) (next : Json → Value) :
    List (String × Json) → List (String × Value)
  | [] => []
  | (key, value) :: members =>
    (key, if key = name then next value else reviseEverywhere name next value)
      :: reviseEverywhereInMembers name next members

end

/-- Revises the children of a container that meet a condition. -/
def reviseIf (test : Json → Value) (next : Json → Value) (child : Json) : Value :=
  match Value.requireBool (test child) with
  | .ok true => next child
  | .ok false => Value.of child
  | .error e => e

/-- Follows a selector into a document. -/
def reviseSelected (s : Selector) (next : Json → Value) (document : Json) : Value :=
  match s, document with
  | .key name, document => reviseKey name next document
  | .recursiveKey name, document => reviseEverywhere name next document
  | .index position, .array items =>
    match Position.resolve? position items.length with
    | some i => reviseAt next [i] items
    | none => Value.fault (.indexOutOfBounds position items.length)
  | .slice first last stride, .array items =>
    match Position.slice? items.length first last stride with
    | some places => reviseAt next places items
    | none => Value.fault .zeroStride
  | .indices positions, .array items =>
    reviseAt next (Selector.places positions items.length) items
  | .wildcard, .array items => Value.arrayOf (items.map next)
  | .wildcard, .object members => objectOf (members.map fun (key, value) => (key, next value))
  | .keys names, .object members => reviseNamed next names members
  | .index _, document => Value.mismatch .array (Value.of document)
  | .slice _ _ _, document => Value.mismatch .array (Value.of document)
  | .indices _, document => Value.mismatch .array (Value.of document)
  | .wildcard, document => Value.mismatch .container (Value.of document)
  | .keys _, document => Value.mismatch .object (Value.of document)
  | s, _ => Value.fault (.unsupportedTarget s.text)

/-- Follows a step into a document. -/
def revise (step : RevisionStep) (next : Json → Value) (document : Json) : Value :=
  match step, document with
  | select s, document => reviseSelected s next document
  | condition test, .array items => Value.arrayOf (items.map (reviseIf test next))
  | condition test, .object members =>
    objectOf (members.map fun (key, value) => (key, reviseIf test next value))
  | condition _, document => Value.mismatch .container (Value.of document)
  | unsupported text, _ => Value.fault (.unsupportedTarget text)

/-- Goes down into a document along some steps and applies an action to what they reach. -/
def reviseAlong (action : Json → Value) : List RevisionStep → Json → Value
  | [] => action
  | step :: steps => step.revise (reviseAlong action steps)

/-- Revises a document from its root, or from each of its items. -/
def reviseDocument (each : Bool) (steps : List RevisionStep) (action : (root part : Json) → Value)
    (document : Json) : Value :=
  if each then
    match document with
    | .array items => Value.arrayOf (items.map fun item => reviseAlong (action item) steps item)
    | _ => Value.fault .eachOfNonArray
  else reviseAlong (action document) steps document

end RevisionStep

/-! ## Meanings -/

/-- What an operator that may skip its right operand comes to. -/
def BinaryOperator.computeLazily (op : BinaryOperator) (left right : Value) : Value :=
  match Value.requireBool left with
  | .error e => e
  | .ok b =>
    if b = op.decisive then Value.bool b
    else
      match Value.requireBool right with
      | .ok b => Value.bool b
      | .error e => e

/-- The variables in scope, with bare values. -/
def Bindings.bare (scope : Bindings) : Bindings := scope.map fun entry => (entry.1, entry.2.bare)

namespace Context

/-- A context as far as meanings depend on it: bare values, and no sources. -/
def bare (ctx : Context) : Context :=
  { ctx with
    bindings := ctx.bindings.bare
    relative := ctx.relative.map Value.bare
    sources := [] }

/-- What a finder finds about a subject, given the value of each attribute for each query. -/
def found (ctx : Context) (attributes : String → Query → Value) (subject : Value) (name : String)
    (arguments : List Value) : Value :=
  match ctx.mode with
  | .target => Value.fault .finderInTarget
  | .body =>
    match Value.firstError? arguments with
    | some e => e
    | none => attributes (ctx.resolve name) ⟨subject, arguments, ctx.bindings⟩

end Context

/-- A query as far as meanings depend on it: bare values. -/
def Query.bare (q : Query) : Query where
  subject := q.subject.bare
  arguments := q.arguments.map Value.bare
  bindings := Bindings.bare q.bindings

/-- What the edits of a value come to, given what they make of a document. -/
def Value.revisedBy (v : Value) (edits : Value → Value) : Value :=
  match v.outcome with
  | .error _ _ => v
  | .undefined => Value.fault .filteredUndefined
  | .defined _ => edits v

section

variable (attributes : String → Query → Value)

mutual

/-- **What an expression means**, given the value of each attribute for each query. -/
def Expr.meaning : Expr → Context → Value
  | .literal document, _ => Value.of document
  | .undefined, _ => Value.undefined
  | .var name, ctx => ctx.lookup name
  | .relative, ctx => ctx.subject
  | .object members, ctx =>
    Value.objectOf (members.map Prod.fst) (Expr.meaningOfMembers members ctx)
  | .array items, ctx => Value.strictArrayOf (Expr.meaningOfAll items ctx)
  | .unary op operand, ctx => (op.apply ctx.libraries (operand.meaning ctx)).bare
  | .binary op left right, ctx =>
    if op.isLazy then
      match ctx.mode with
      | .target => Value.fault (.lazyInTarget op.lazyLabel)
      | .body => op.computeLazily (left.meaning ctx) (right.meaning ctx)
    else (op.applyAll ctx.libraries [left.meaning ctx, right.meaning ctx]).bare
  | .call name arguments, ctx => (ctx.callWith name (Expr.meaningOfAll arguments ctx)).1.bare
  | .finder name arguments _, ctx =>
    ctx.found attributes Value.undefined name (Expr.meaningOfAll arguments ctx)
  | .path base steps, ctx => Step.meaningOfAll steps ctx (base.meaning ctx)
  | .filter base edits, ctx =>
    (base.meaning ctx).revisedBy fun v => Edit.meaningOfAll edits ctx v
  | .template base body, ctx =>
    match (base.meaning ctx).outcome with
    | .defined (.array items) =>
      Value.arrayOf (items.map fun item => body.meaning (ctx.about (Value.of item)))
    | .defined _ => body.meaning (ctx.about (base.meaning ctx))
    | _ => base.meaning ctx

/-- What some expressions mean. -/
def Expr.meaningOfAll : List Expr → Context → List Value
  | [], _ => []
  | e :: es, ctx => e.meaning ctx :: Expr.meaningOfAll es ctx

/-- What the values of some members mean. -/
def Expr.meaningOfMembers : List (String × Expr) → Context → List Value
  | [], _ => []
  | (_, e) :: members, ctx => e.meaning ctx :: Expr.meaningOfMembers members ctx

/-- What a step makes of a value. -/
def Step.meaning : Step → Context → Value → Value
  | .select selector, _, v => selector.select v
  | .computed selector, ctx, v =>
    if v.isError then v else v.selectBy (selector.meaning (ctx.about v))
  | .condition test, ctx, v =>
    if v.isError then v
    else
      match v.children? with
      | none => Value.mismatch .container v
      | some elements =>
        Value.arrayWhere elements (elements.map fun x => test.meaning (ctx.about (Value.of x)))
  | .finder name arguments _, ctx, v =>
    if v.isError then v else ctx.found attributes v name (Expr.meaningOfAll arguments ctx)

/-- What some steps make of a value, one after another. -/
def Step.meaningOfAll : List Step → Context → Value → Value
  | [], _, v => v
  | s :: ss, ctx, v => Step.meaningOfAll ss ctx (s.meaning ctx v)

/-- A step of an edit, with its condition computed outright. -/
def Step.toRevision : Step → Context → RevisionStep
  | .select selector, _ => .select selector
  | .condition test, ctx => .condition fun x => test.meaning (ctx.about (Value.of x))
  | .computed selector, _ => .unsupported (Step.computed selector).text
  | .finder name arguments head, _ => .unsupported (Step.finder name arguments head).text

/-- The steps of an edit, with their conditions computed outright. -/
def Step.toRevisions : List Step → Context → List RevisionStep
  | [], _ => []
  | s :: ss, ctx => s.toRevision ctx :: Step.toRevisions ss ctx

/-- What an edit makes of a document. -/
def Edit.meaning : Edit → Context → Json → Value
  | .remove each target, ctx, document =>
    RevisionStep.reviseDocument each (Step.toRevisions target ctx) (fun _ _ => Value.undefined)
      document
  | .apply each target name arguments, ctx, document =>
    RevisionStep.reviseDocument each (Step.toRevisions target ctx)
      (fun root part =>
        (ctx.callOn name part (Expr.meaningOfAll arguments (ctx.about (Value.of root)))).1.bare)
      document

/-- What some edits make of a value, one after another. -/
def Edit.meaningOfAll : List Edit → Context → Value → Value
  | [], _, v => v
  | e :: es, ctx, v =>
    Edit.meaningOfAll es ctx
      (match v.document? with
      | some document => e.meaning ctx document
      | none => v)

end

end

end AccessPolicy
