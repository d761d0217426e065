import ScopedLisp.Keywords.Arguments

-- The keywords that bind names and make procedures.

namespace ScopedLisp
namespace Keywords

open Evaluation

-- `(def name expr)` binds the name in the current scope, and yields the value.
def define : Handler := fun c s args => do
  match args with
  | [name, expr] =>
    let name ← ofExcept (c.bindable "def" name)
    let value ← c.evaluate s expr
    Evaluation.define s name value
    return value
  | _ => fail (.wrongCount "def" 2 args)

-- `(do expr...)` evaluates the forms in order, for the last value. There is no scope of its own: a
-- `def` among the forms binds in the scope around.
def group : Handler := fun c s args =>
  c.evaluateBody s args

-- The names of the parameters, which are distinct symbols and no keywords.
def parameters (reserved : String → Bool) (seen : List String) :
    List Form → Except Failure (List String)
  | [] => .ok seen
  | form :: forms => do
    let name ← nameOf "fn" "parameter" form
    if reserved name then .error (Cause.reservedParameter name)
    else if name ∈ seen then .error (Cause.repeatedParameter name)
    else parameters reserved (seen ++ [name]) forms

-- `(fn (params...) body)` is a procedure that sees the current scope.
def procedure : Handler := fun c s args => do
  match args with
  | [params, body] =>
    let forms ← ofExcept (itemsOf "fn" "parameters" params)
    let names ← ofExcept (parameters c.reserved [] forms)
    let p ← onStore (·.procedure names body s)
    return .procedure p
  | _ => fail (.wrongCount "fn" 2 args)

-- One `(name expr)` of a `let`.
def bindOne (c : Context) (s : Scope) (binding : Form) : Evaluation Unit := do
  match ← ofExcept (itemsOf "let" "binding" binding) with
  | [name, expr] =>
    let name ← ofExcept (c.bindable "let" name)
    let value ← c.evaluate s expr
    Evaluation.define s name value
  | items => fail (.wrongCount "let binding" 2 items)

-- `(let ((name expr)...) body)` evaluates the body in a new scope. The bindings are made in order
-- and in the new scope, so that later ones see earlier ones.
def bindLocally : Handler := fun c s args => do
  match args with
  | [bindings, body] =>
    let bindings ← ofExcept (itemsOf "let" "bindings" bindings)
    let inner ← onStore (·.child s)
    c.finishing inner do
      bindings.forM (bindOne c inner)
      c.evaluate inner body
  | _ => fail (.wrongCount "let" 2 args)

end Keywords
end ScopedLisp
