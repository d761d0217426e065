import ScopedLisp.Keywords.Arguments

-- The keywords that decide by truth values, and evaluate no more than the decision needs.

namespace ScopedLisp
namespace Keywords

open Evaluation

-- `(if predicate then else)` evaluates one of the two cases. The second one may be missing.
def conditional : Handler := fun c s args => do
  match args with
  | [predicate, positive] =>
    if ← c.evaluateBoolean s "if" predicate then c.evaluate s positive else return .nil
  | [predicate, positive, negative] =>
    if ← c.evaluateBoolean s "if" predicate then c.evaluate s positive else c.evaluate s negative
  | _ => fail (.conditionalArguments args.length)

-- `(and b...)` is false at the first false argument.
def conjunction : Handler := fun c s args =>
  .boolean <$> args.allM (c.evaluateBoolean s "and")

-- `(or b...)` is true at the first true argument.
def disjunction : Handler := fun c s args =>
  .boolean <$> args.anyM (c.evaluateBoolean s "or")

-- `(not b)`
def negation : Handler := fun c s args => do
  match args with
  | [arg] => return .boolean (!(← c.evaluateBoolean s "not" arg))
  | _ => fail (.wrongCount "not" 1 args)

end Keywords
end ScopedLisp
