import ScopedLisp.Proofs.Evaluation.Steps

-- The steps of the builtins, and with them the steps of every form if all keywords stand for
-- builtins.
-- Main statement: `Evaluator.evaluate_succ_eq_run`.

namespace ScopedLisp

open Evaluation

namespace Steps

def bindable (reserved : String → Bool) (keyword : String) (form : Form) :
    Except Failure String := do
  let name ← nameOf keyword "binding name" form
  if reserved name then .error (Cause.reservedName keyword name) else return name

def definition (reserved : String → Bool) : List Form → Steps
  | [name, expr] =>
    check (bindable reserved "def" name) fun name => evaluate expr fun v => define name v (done v)
  | args => failed (Cause.wrongCount "def" 2 args)

def closure (reserved : String → Bool) : List Form → Steps
  | [params, body] =>
    check (itemsOf "fn" "parameters" params) fun forms =>
      check (Keywords.parameters reserved [] forms) fun names => procedure names body
  | args => failed (Cause.wrongCount "fn" 2 args)

def bindOne (reserved : String → Bool) (binding : Form) (next : Steps) : Steps :=
  check (itemsOf "let" "binding" binding) fun
    | [name, expr] =>
      check (bindable reserved "let" name) fun name =>
        evaluate expr fun v => define name v next
    | items => failed (Cause.wrongCount "let binding" 2 items)

-- The bindings of a `let`, and what comes after them.
def bindAll (reserved : String → Bool) : List Form → Steps → Steps
  | [], next => next
  | binding :: bindings, next => bindOne reserved binding (bindAll reserved bindings next)

def localBindings (reserved : String → Bool) : List Form → Steps
  | [bindings, body] =>
    check (itemsOf "let" "bindings" bindings) fun bindings =>
      nest (bindAll reserved bindings (evaluate body done))
  | args => failed (Cause.wrongCount "let" 2 args)

def conditional : List Form → Steps
  | [predicate, positive] =>
    evaluateBoolean "if" predicate fun b => if b then evaluate positive done else done .nil
  | [predicate, positive, negative] =>
    evaluateBoolean "if" predicate fun b =>
      if b then evaluate positive done else evaluate negative done
  | args => failed (Cause.conditionalArguments args.length)

def negation : List Form → Steps
  | [arg] => evaluateBoolean "not" arg fun b => done (.boolean !b)
  | args => failed (Cause.wrongCount "not" 1 args)

def division (args : List Form) : Steps :=
  if args.length < 2 then failed (Cause.tooFewArguments "/" 2 args.length)
  else evaluateIntegers "/" args fun is => check (Keywords.quotientOf is) fun i => done (.integer i)

def comparison (keyword : String) (holds : Integer → Integer → Bool) : List Form → Steps
  | [left, right] =>
    evaluateInteger keyword left fun a =>
      evaluateInteger keyword right fun b => done (.boolean (holds a b))
  | args => failed (Cause.wrongCount keyword 2 args)

def equality : List Form → Steps
  | [left, right] =>
    evaluate left fun v => evaluate right fun w => done (.boolean (v.same w))
  | args => failed (Cause.wrongCount "=" 2 args)

end Steps

namespace Builtin

open Steps in
def steps (reserved : String → Bool) (args : List Form) : Builtin → Steps
  | define      => definition reserved args
  | group       => evaluateBody .nil args
  | procedure   => closure reserved args
  | bindLocally => localBindings reserved args
  | conditional => Steps.conditional args
  | disjunction => settle "or" true args
  | conjunction => settle "and" false args
  | negation    => Steps.negation args
  | print       => evaluateAll args fun vs => write (Keywords.line vs)
  | add         => evaluateAll args fun vs => check (Keywords.sumOf vs) done
  | subtract    =>
    evaluateIntegers "-" args fun is =>
      check (Keywords.differenceOf is) fun i => done (.integer i)
  | multiply    =>
    evaluateIntegers "*" args fun is =>
      check (Keywords.productOf is) fun i => done (.integer i)
  | divide      => division args
  | less        => comparison "<" (fun a b => a < b) args
  | greater     => comparison ">" (fun a b => b < a) args
  | equal       => equality args

end Builtin

namespace Steps

variable (c : Context) (s : Scope)

theorem bindable_eq (keyword : String) (form : Form) :
    c.bindable keyword form = bindable c.reserved keyword form :=
  rfl

theorem run_definition (args : List Form) :
    (definition c.reserved args).run c s = Keywords.define c s args := by
  match args with
  | [name, expr] => simp [definition, Keywords.define, run_check, run, bindable_eq]
  | [] | [_] | _ :: _ :: _ :: _ => rfl

theorem run_closure (args : List Form) :
    (closure c.reserved args).run c s = Keywords.procedure c s args := by
  match args with
  | [params, body] => simp [closure, Keywords.procedure, run_check, run]
  | [] | [_] | _ :: _ :: _ :: _ => rfl

theorem run_bindOne (binding : Form) (next : Steps) :
    (bindOne c.reserved binding next).run c s =
      Keywords.bindOne c s binding >>= fun _ => next.run c s := by
  simp only [bindOne, run_check, Keywords.bindOne, bind_assoc]
  congr
  funext items
  rcases items with _ | ⟨name, _ | ⟨expr, _ | _⟩⟩
  case cons.cons.nil => simp [run_check, run, bindable_eq]
  all_goals rfl

theorem run_bindAll (bindings : List Form) (next : Steps) :
    (bindAll c.reserved bindings next).run c s =
      bindings.forM (Keywords.bindOne c s) >>= fun _ => next.run c s := by
  induction bindings
  case nil => simp [bindAll]
  case cons binding bindings hi => simp [bindAll, run_bindOne, hi]

theorem run_localBindings (args : List Form) :
    (localBindings c.reserved args).run c s = Keywords.bindLocally c s args := by
  match args with
  | [bindings, body] =>
    simp [localBindings, Keywords.bindLocally, run_check, run, run_bindAll, Context.enclosed]
  | [] | [_] | _ :: _ :: _ :: _ => rfl

theorem run_conditional (args : List Form) :
    (conditional args).run c s = Keywords.conditional c s args := by
  match args with
  | [predicate, positive] =>
    simp only [conditional, Keywords.conditional, run_evaluateBoolean]
    congr
    funext b
    cases b <;> simp [run]
  | [predicate, positive, negative] =>
    simp only [conditional, Keywords.conditional, run_evaluateBoolean]
    congr
    funext b
    cases b <;> simp [run]
  | [] | [_] | _ :: _ :: _ :: _ :: _ => rfl

theorem run_negation (args : List Form) :
    (negation args).run c s = Keywords.negation c s args := by
  match args with
  | [arg] => exact run_evaluateBoolean ..
  | [] | _ :: _ :: _ => rfl

theorem run_division (args : List Form) :
    (division args).run c s = Keywords.divide c s args := by
  unfold division Keywords.divide
  split
  case isTrue  => rfl
  case isFalse => simp [run_evaluateIntegers, run_check, run]

theorem run_comparison (keyword : String) (holds : Integer → Integer → Bool) (args : List Form) :
    (comparison keyword holds args).run c s = Keywords.compare keyword holds c s args := by
  match args with
  | [left, right] => simp [comparison, Keywords.compare, run_evaluateInteger, run]
  | [] | [_] | _ :: _ :: _ :: _ => rfl

theorem run_equality (args : List Form) :
    (equality args).run c s = Keywords.equal c s args := by
  match args with
  | [left, right] => simp [equality, Keywords.equal, run]
  | [] | [_] | _ :: _ :: _ :: _ => rfl

end Steps

namespace Builtin

-- Builtins do what their steps say.
theorem run_steps (b : Builtin) (c : Context) (s : Scope) (args : List Form) :
    (b.steps c.reserved args).run c s = b.handler c s args := by
  cases b
  case define      => exact Steps.run_definition ..
  case group       => exact Steps.run_evaluateBody ..
  case procedure   => exact Steps.run_closure ..
  case bindLocally => exact Steps.run_localBindings ..
  case conditional => exact Steps.run_conditional ..
  case disjunction => exact Steps.run_settle_true ..
  case conjunction => exact Steps.run_settle_false ..
  case negation    => exact Steps.run_negation ..
  case divide      => exact Steps.run_division ..
  case less        => exact Steps.run_comparison ..
  case greater     => exact Steps.run_comparison ..
  case equal       => exact Steps.run_equality ..
  case print       => exact Steps.run_evaluateAll ..
  case add         =>
    simp [steps, handler, Keywords.add, Steps.run_evaluateAll, Steps.run_check, Steps.run]
  case subtract    =>
    simp [steps, handler, Keywords.subtract, Steps.run_evaluateIntegers, Steps.run_check, Steps.run]
  case multiply    =>
    simp [steps, handler, Keywords.multiply, Steps.run_evaluateIntegers, Steps.run_check, Steps.run]

-- The builtin that a name stands for in a table of builtins.
def find? (entries : List (String × Builtin)) (name : String) : Option Builtin :=
  (NameMap.insertAll {} entries).find? name

end Builtin

theorem NameMap.find?_insertAll_map {α β : Type} (f : α → β) (entries : List (String × α))
    (m : NameMap α) (m' : NameMap β) (name : String)
    (h : ∀ name, m'.find? name = (m.find? name).map f) :
    (m'.insertAll (entries.map fun (name, a) => (name, f a))).find? name =
      ((m.insertAll entries).find? name).map f := by
  induction entries generalizing m m'
  case nil => exact h name
  case cons entry entries hi =>
    refine hi _ _ fun other => ?_
    simp only [find?_insert, h]
    split <;> rfl

theorem Keywords.find?_ofBuiltins (grouping : String) (entries : List (String × Builtin))
    (name : String) :
    (ofBuiltins grouping entries).find? name = (Builtin.find? entries name).map (·.handler) :=
  NameMap.find?_insertAll_map _ entries {} {} name fun _ => rfl

theorem Keywords.reserves_ofBuiltins (grouping : String) (entries : List (String × Builtin))
    (name : String) :
    (ofBuiltins grouping entries).reserves name = (Builtin.find? entries name).isSome := by
  have h := find?_ofBuiltins grouping entries name
  simp only [find?] at h
  simp [reserves, NameMap.contains, h]

-- The steps of a form, if names stand for builtins in the given way.
open Steps in
def Steps.ofForm (builtin? : String → Option Builtin) (form : Form) : Steps :=
  match form with
  | .list (.symbol name :: args) =>
    match builtin? name with
    | some b => b.steps (fun name => (builtin? name).isSome) args
    | none =>
      look name fun
        | some (.procedure p) => call p args
        | some other => failed (Cause.namedNoProcedure name other.kind)
        | none => failed (Cause.unboundProcedure name)
  | .list (.list items :: args) =>
    evaluate (.list items) fun
      | .procedure p => call p args
      | other => failed (Cause.headNoProcedure (Value.list items).display other.kind)
  | .list _ => failed (Cause.notCallable form.display)
  | .symbol name =>
    look name fun
      | some v => done v
      | none => failed (Cause.unboundValue name)
  | atom => done atom

namespace Evaluator

-- It is enough that the name at the head of the form, if there is one, stands for a builtin or is
-- no keyword, and that the arguments hold no name of which it matters whether it is a keyword.
theorem evaluateWith_eq_run_of (e : Evaluator) (evaluate : Scope → Form → Evaluation Value)
    (s : Scope) {builtin? : String → Option Builtin} {form : Form}
    (h : ∀ name args, form = .list (.symbol name :: args) →
      e.keywords.find? name = (builtin? name).map (·.handler) ∧
      ∀ b, builtin? name = some b →
        b.steps e.keywords.reserves args = b.steps (fun name => (builtin? name).isSome) args) :
    e.evaluateWith (e.contextOf evaluate) s form =
      (Steps.ofForm builtin? form).run (e.contextOf evaluate) s := by
  match form with
  | .list (.symbol name :: args) =>
    have ⟨hf, hs⟩ := h name args rfl
    simp only [evaluateWith, evaluateNamed, Steps.ofForm, hf]
    cases hb : builtin? name
    case some b =>
      exact (b.run_steps _ s args).symm.trans <| congrArg (Steps.run _ s) (hs b hb)
    case none =>
      simp only [Option.map_none, Steps.run]
      congr
      funext v?
      rcases v? with _ | _ | _ | _ | _ | _ | _ | p <;> try rfl
      exact Steps.run_call .. |>.symm
  | .list (.list items :: args) =>
    simp only [evaluateWith, evaluateHeaded, Steps.ofForm, Steps.run]
    congr
    funext v
    cases v <;> try rfl
    exact Steps.run_call .. |>.symm
  | .symbol name =>
    simp only [evaluateWith, Steps.ofForm, Steps.run]
    congr
    funext v?
    cases v? <;> rfl
  | .list [] | .list (.nil :: _) | .list (.integer _ :: _) | .list (.text _ :: _)
  | .list (.boolean _ :: _) | .list (.procedure _ :: _)
  | .nil | .integer _ | .text _ | .boolean _ | .procedure _ => rfl

-- An evaluator with a table of builtins, under names of one's choice.
def ofBuiltins (grouping : String) (entries : List (String × Builtin)) (sink : Sink := {})
    (retention : Retention := .whenCaptured) : Evaluator :=
  { keywords := .ofBuiltins grouping entries, sink, retention }

variable (grouping : String) (entries : List (String × Builtin)) (sink : Sink)
  (retention : Retention)

theorem evaluateWith_eq_run (evaluate : Scope → Form → Evaluation Value) (s : Scope)
    (form : Form) :
    let e := ofBuiltins grouping entries sink retention
    e.evaluateWith (e.contextOf evaluate) s form =
      (Steps.ofForm (Builtin.find? entries) form).run (e.contextOf evaluate) s := by
  intro e
  have hr : e.keywords.reserves = fun name => (Builtin.find? entries name).isSome :=
    funext <| Keywords.reserves_ofBuiltins grouping entries
  refine evaluateWith_eq_run_of e evaluate s fun name args _ => ⟨?_, fun _ _ => by rw [hr]⟩
  exact Keywords.find?_ofBuiltins grouping entries name

-- To evaluate a form is to run its steps, and to evaluate the forms that these ask for.
theorem evaluate_succ_eq_run (depth : Nat) (s : Scope) (form : Form) :
    let e := ofBuiltins grouping entries sink retention
    e.evaluate (depth + 1) s form =
      (Steps.ofForm (Builtin.find? entries) form).run (e.context depth) s :=
  evaluateWith_eq_run ..

end Evaluator
end ScopedLisp
