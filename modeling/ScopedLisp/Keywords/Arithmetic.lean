import ScopedLisp.Keywords.Arguments

-- The keywords that compute with the values of all of their arguments. Results that do not fit are
-- failures, also when a later step would lead back into the range.

namespace ScopedLisp
namespace Keywords

open Evaluation

-- The result of a step, or the failure of the keyword for the lack of one.
def orOverflow (keyword : String) : Option Integer → Except Failure Integer
  | some i => .ok i
  | none => .error (Cause.overflow keyword)

-- All values are texts, and are put together.
def concatenation (start : String) (values : List Value) : Except Failure String :=
  values.foldlM (fun text v =>
    match v with
    | .text s => .ok (text ++ s)
    | other => .error (Cause.cannotAdd other.kind other.literal "text")) start

-- All values are integers, and are added up from the left.
def sum (values : List Value) : Except Failure Integer :=
  values.foldlM (fun total v =>
    match v with
    | .integer i => orOverflow "+" (Integer.add? total i)
    | other => .error (Cause.cannotAdd other.kind other.literal "integer")) 0

-- The first value decides between texts and integers.
def sumOf : List Value → Except Failure Value
  | .text s :: values => .text <$> concatenation s values
  | values => .integer <$> sum values

-- A single value is negated. Otherwise, all others are taken away from the first one.
def differenceOf : List Integer → Except Failure Integer
  | [] => .error (Cause.tooFewArguments "-" 1 0)
  | [i] => orOverflow "-" (Integer.neg? i)
  | first :: others =>
    others.foldlM (fun rest i => orOverflow "-" (Integer.sub? rest i)) first

def productOf (values : List Integer) : Except Failure Integer :=
  values.foldlM (fun total i => orOverflow "*" (Integer.mul? total i)) 1

-- One step of a division.
def quotient (dividend divisor : Integer) : Except Failure Integer :=
  if divisor = 0 then .error (Cause.divisionByZero dividend)
  else orOverflow "/" (Integer.div? dividend divisor)

-- The first value is divided by the others, one after another.
def quotientOf : List Integer → Except Failure Integer
  | [] => .error (Cause.tooFewArguments "/" 2 0)
  | first :: others => others.foldlM quotient first

-- `(+ expr...)` adds integers, or puts texts together.
def add : Handler := fun c s args => do
  ofExcept (sumOf (← c.evaluateAll s args))

-- `(- x)` negates; `(- x y...)` subtracts from left to right.
def subtract : Handler := fun c s args => do
  .integer <$> ofExcept (differenceOf (← c.evaluateIntegers s "-" args))

-- `(* x...)` multiplies from left to right.
def multiply : Handler := fun c s args => do
  .integer <$> ofExcept (productOf (← c.evaluateIntegers s "*" args))

-- `(/ x y...)` divides from left to right, and cuts each quotient off toward zero.
def divide : Handler := fun c s args => do
  if args.length < 2 then fail (.tooFewArguments "/" 2 args.length)
  else .integer <$> ofExcept (quotientOf (← c.evaluateIntegers s "/" args))

-- A comparison of exactly two integers.
def compare (keyword : String) (holds : Integer → Integer → Bool) : Handler := fun c s args => do
  match args with
  | [left, right] =>
    let left ← c.evaluateInteger s keyword left
    let right ← c.evaluateInteger s keyword right
    return .boolean (holds left right)
  | _ => fail (.wrongCount keyword 2 args)

-- `(< x y)`
def less : Handler := compare "<" fun a b => a < b

-- `(> x y)`
def greater : Handler := compare ">" fun a b => b < a

-- `(= a b)` compares any two values, procedures by their identity.
def equal : Handler := fun c s args => do
  match args with
  | [left, right] =>
    let left ← c.evaluate s left
    let right ← c.evaluate s right
    return .boolean (left.same right)
  | _ => fail (.wrongCount "=" 2 args)

end Keywords
end ScopedLisp
