import AccessPolicy.Evaluation.Filter
import AccessPolicy.Expr.Printer
import AccessPolicy.Stream.Distinct
import AccessPolicy.Stream.Head

/-!
# Evaluating expressions

The value of an expression is a stream, because the finders in it follow their sources. An
expression gives a new value when a part of it does, and never the same value twice in a row.
A part that depends on the value of another one, such as the right operand of `&&`, a step of
a path or the body of a template, is evaluated anew for each of those values.

Errors are values and go through: the first one in the order of the parts is the result.
-/

namespace AccessPolicy

open Machine

namespace Machine

/-- The stream of values without those that repeat the outcome before them. -/
def settled (m : Machine Value) : Machine Value := m.distinct Value.same

end Machine

/-! ## What a single part contributes -/

namespace BinaryOperator

/-- The truth value of the left operand that decides an operator which may skip the right
one. -/
def decisive : BinaryOperator → Bool
  | lazyOr => true
  | _ => false

/-- The name of an operator that may skip its right operand. -/
def lazyLabel : BinaryOperator → String
  | lazyOr => "OR"
  | _ => "AND"

/-- Applies an operator to the latest values of its two operands. -/
def applyAll (op : BinaryOperator) (libraries : Libraries) : List Value → Value
  | [left, right] => op.apply libraries left right
  | _ => Value.undefined

/-- The stream of an operator that may skip its right operand, given the value of the left
one and the stream of the right one. -/
def applyLazily (op : BinaryOperator) (left : Value) (right : Machine Value) : Machine Value :=
  match Value.requireBool left with
  | .error e => just (e.recordedAs op.symbol [left])
  | .ok b =>
    if b = op.decisive then just ((Value.bool b).recordedAs op.symbol [left])
    else
      right.map fun r =>
        (match Value.requireBool r with
        | .ok b => Value.bool b
        | .error e => e).recordedAs op.symbol [left, r]

end BinaryOperator

namespace Context

/-- Calls a function with the latest values of its arguments, unless one of them is an
error. -/
def callWith (ctx : Context) (name : String) (arguments : List Value) : Value × List Event :=
  match Value.firstError? arguments with
  | some e => (e, [])
  | none => ctx.call name arguments

/-- Calls a function with a document and the latest values of its other arguments, unless one
of these is an error. -/
def callOn (ctx : Context) (name : String) (document : Json) (arguments : List Value) :
    Value × List Event :=
  match Value.firstError? arguments with
  | some e => (e, [])
  | none => ctx.call name (Value.of document :: arguments)

/-- The stream of an attribute finder about a subject. For each list of arguments it
subscribes to the source anew, and as a head finder it stays with the first value. -/
def find (ctx : Context) (subject : Value) (name : String) (arguments : List (Machine Value))
    (head : Bool) : Machine Value :=
  match ctx.mode with
  | .target => just (Value.fault .finderInTarget)
  | .body =>
    let values := (combineLatest arguments).switchMap fun arguments =>
      match Value.firstError? arguments with
      | some e => just e
      | none => ctx.sources.subscribe (ctx.resolve name) ⟨subject, arguments, ctx.bindings⟩
    if head then values.once else values

end Context

namespace Value

/-- Selects from a value by a key or a position that has been computed. -/
def selectBy (v : Value) (selector : Value) : Value :=
  match selector.outcome with
  | .defined (.string name) => Selector.selectKey name v
  | .defined (.number n) =>
    match n.toInt64? with
    | some position => Selector.selectIndex position v
    | none => fault (.fractionalIndex n)
  | .error _ _ => selector
  | _ => mismatch .selector selector

/-- The elements whose check is true, or the first check that is no truth value. -/
def elementsWhere : List Json → List Value → Except Value (List Json)
  | element :: elements, check :: checks =>
    match require .conditionResult bool? check with
    | .error e => .error e
    | .ok keep => (elementsWhere elements checks).map fun rest =>
      if keep then element :: rest else rest
  | _, _ => .ok []

/-- The array of the elements whose check is true. -/
def arrayWhere (elements : List Json) (checks : List Value) : Value :=
  match elementsWhere elements checks with
  | .ok kept => of (.array kept)
  | .error e => e

/-- The stream of a value that is edited, given what the edits make of a stream of documents.
Only a document can be edited. -/
def editedBy (v : Value) (edits : Machine Value → Machine Value) : Machine Value :=
  match v.outcome with
  | .error _ _ => just v
  | .undefined => just (fault .filteredUndefined)
  | .defined _ => edits (just v)

end Value

/-! ## Expressions -/

mutual

/-- The stream of the values of an expression. -/
def Expr.evaluate : Expr → Context → Machine Value
  | .literal document, _ => just (Value.of document)
  | .undefined, _ => just Value.undefined
  | .var name, ctx => just (ctx.lookup name)
  | .relative, ctx => just ctx.subject
  | .object members, ctx =>
    ((combineLatest (Expr.evaluateMembers members ctx)).map
      (Value.objectOf (members.map Prod.fst))).settled
  | .array items, ctx =>
    ((combineLatest (Expr.evaluateAll items ctx)).map Value.strictArrayOf).settled
  | .unary op operand, ctx => ((operand.evaluate ctx).map (op.apply ctx.libraries)).settled
  | .binary op left right, ctx =>
    if op.isLazy then
      match ctx.mode with
      | .target => just (Value.fault (.lazyInTarget op.lazyLabel))
      | .body =>
        ((left.evaluate ctx).switchMap fun l => op.applyLazily l (right.evaluate ctx)).settled
    else
      ((combineLatest [left.evaluate ctx, right.evaluate ctx]).map
        (op.applyAll ctx.libraries)).settled
  | .call name arguments, ctx =>
    ((combineLatest (Expr.evaluateAll arguments ctx)).mapReporting (ctx.callWith name)).settled
  | .finder name arguments head, ctx =>
    ctx.find Value.undefined name (Expr.evaluateAll arguments ctx) head
  | .path base steps, ctx => (Step.followAll steps ctx (base.evaluate ctx)).settled
  | .filter base edits, ctx =>
    ((base.evaluate ctx).switchMap fun v => v.editedBy fun m => Edit.followAll edits ctx m).settled
  | .template base body, ctx =>
    ((base.evaluate ctx).switchMap fun v =>
      match v.outcome with
      | .defined (.array items) =>
        (combineLatest (items.map fun item => body.evaluate (ctx.about (Value.of item)))).map
          Value.arrayOf
      | .defined _ => body.evaluate (ctx.about v)
      | _ => just v).settled

/-- The streams of some expressions. -/
def Expr.evaluateAll : List Expr → Context → List (Machine Value)
  | [], _ => []
  | e :: es, ctx => e.evaluate ctx :: Expr.evaluateAll es ctx

/-- The streams of the values of some members. -/
def Expr.evaluateMembers : List (String × Expr) → Context → List (Machine Value)
  | [], _ => []
  | (_, e) :: members, ctx => e.evaluate ctx :: Expr.evaluateMembers members ctx

/-- The stream of the results of a step for one value. An error is passed on. -/
def Step.follow : Step → Context → Value → Machine Value
  | .select selector, _, v => just (selector.select v)
  | .computed selector, ctx, v =>
    if v.isError then just v
    else (selector.evaluate (ctx.about v)).map v.selectBy
  | .condition test, ctx, v =>
    if v.isError then just v
    else
      match v.children? with
      | none => just (Value.mismatch .container v)
      | some elements =>
        (combineLatest (elements.map fun x => test.evaluate (ctx.about (Value.of x)))).map
          (Value.arrayWhere elements)
  | .finder name arguments head, ctx, v =>
    if v.isError then just v
    else ctx.find v name (Expr.evaluateAll arguments ctx) head

/-- The stream of the results of some steps, each following the results of those before. -/
def Step.followAll : List Step → Context → Machine Value → Machine Value
  | [], _, m => m
  | s :: ss, ctx, m => Step.followAll ss ctx (m.switchMap fun v => s.follow ctx v)

/-- A step of an edit in a context. -/
def Step.toEdit : Step → Context → EditStep
  | .select selector, _ => .select selector
  | .condition test, ctx => .condition fun x => test.evaluate (ctx.about (Value.of x))
  | .computed selector, _ => .unsupported (Step.computed selector).text
  | .finder name arguments head, _ => .unsupported (Step.finder name arguments head).text

/-- The steps of an edit in a context. -/
def Step.toEdits : List Step → Context → List EditStep
  | [], _ => []
  | s :: ss, ctx => s.toEdit ctx :: Step.toEdits ss ctx

/-- The stream of the results of an edit of a document. The arguments of a function are
evaluated with `@` standing for the document that the steps of the edit start at. -/
def Edit.follow : Edit → Context → Json → Machine Value
  | .remove each target, ctx, document =>
    EditStep.editDocument each (Step.toEdits target ctx) (fun _ _ => just Value.undefined) document
  | .apply each target name arguments, ctx, document =>
    EditStep.editDocument each (Step.toEdits target ctx)
      (fun root part =>
        (combineLatest (Expr.evaluateAll arguments (ctx.about (Value.of root)))).mapReporting
          (ctx.callOn name part))
      document

/-- The stream of the results of some edits, each editing the results of those before. What
is not defined any more is left alone. -/
def Edit.followAll : List Edit → Context → Machine Value → Machine Value
  | [], _, m => m
  | e :: es, ctx, m =>
    Edit.followAll es ctx (m.switchMap fun v =>
      match v.document? with
      | some document => e.follow ctx document
      | none => just v)

end

/-- The stream of the results of some edits of a value. -/
def Edit.applyAll (edits : List Edit) (ctx : Context) (v : Value) : Machine Value :=
  v.editedBy fun m => Edit.followAll edits ctx m

end AccessPolicy
