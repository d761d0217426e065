import ScopedLisp.Evaluation.Evaluator

-- Evaluation in single steps. All builtins, calls and look-ups do one of a few things at a time,
-- and what they do next depends on the answer. So the evaluation of a form is a tree of steps, and
-- what is to be said of all evaluations can be said of one kind of step after the other.
--
-- Steps never name the scope that they work on. They work on the scope of the form, or on one that
-- they have opened themselves.

namespace ScopedLisp

open Evaluation

theorem Evaluation.run_bind {α β : Type} (x : Evaluation α) (f : α → Evaluation β) (m : Machine) :
    (x >>= f).run m =
      match x.run m with
      | (.ok a, m') => (f a).run m'
      | (.error stop, m') => (.error stop, m') := by
  rw [ExceptT.run_bind]
  rcases h : x.run m with ⟨_ | _, m'⟩
  case error =>
    simp [bind, StateT.bind, h]
    rfl
  case ok => simp [bind, StateT.bind, h]

-- Evaluation in a new scope, which has finished at the end.
def Context.enclosed (c : Context) (outer : Scope) (bindings : NameMap Value)
    (x : Scope → Evaluation Value) : Evaluation Value := do
  let inner ← onStore (·.child outer bindings)
  c.finishing inner (x inner)

theorem Context.run_enclosed (c : Context) (outer : Scope) (bindings : NameMap Value)
    (x : Scope → Evaluation Value) (m : Machine) :
    (c.enclosed outer bindings x).run m =
      let inner := outer.child m.store.frames.size
      let after := (x inner).run { m with store := (m.store.child outer bindings).2 }
      (after.1, { after.2 with store := after.2.store.release c.retention inner after.1 }) :=
  rfl

-- What becomes of a text depends on nothing but the sink and what has been printed before.
theorem Sink.run_write (sink : Sink) (text : String) (m : Machine) :
    (sink.write text).run m =
      (match (sink.receive m.printed text).1 with
        | some reason => .error (.failed (Cause.outputRefused reason))
        | none => .ok (),
      { m with printed := (sink.receive m.printed text).2 }) := by
  rcases h : sink.receive m.printed text with ⟨_ | reason, printed⟩
  all_goals simp [write, h]

inductive Steps
  | done (v : Value)
  | failed (failure : Failure)
  -- What a name stands for in the scope.
  | look (name : String) (next : Option Value → Steps)
  -- The value of another form in the scope.
  | evaluate (form : Form) (next : Value → Steps)
  | define (name : String) (v : Value) (next : Steps)
  -- A new procedure, whose home is the scope.
  | procedure (parameters : List String) (body : Form)
  | apply (p : Procedure) (values : List Value)
  -- Steps in a new scope directly inside of the scope.
  | nest (body : Steps)
  | write (text : String)

namespace Steps

def run (c : Context) (s : Scope) : Steps → Evaluation Value
  | done v => return v
  | failed failure => throw (.failed failure)
  | look name next => do (next (← find? s name)).run c s
  | evaluate form next => do (next (← c.evaluate s form)).run c s
  | define name v next => do
    Evaluation.define s name v
    next.run c s
  | procedure parameters body => do return .procedure (← onStore (·.procedure parameters body s))
  | apply p values => c.apply p values
  | nest body => c.enclosed s {} fun inner => body.run c inner
  | write text => do
    c.sink.write text
    return .nil

-- Steps that depend on the outcome of a check.
def check {α : Type} (x : Except Failure α) (next : α → Steps) : Steps :=
  match x with
  | .ok a => next a
  | .error failure => failed failure

def evaluateAll : List Form → (List Value → Steps) → Steps
  | [], next => next []
  | form :: forms, next => evaluate form fun v => evaluateAll forms fun vs => next (v :: vs)

def evaluateBody (last : Value) : List Form → Steps
  | [] => done last
  | form :: forms => evaluate form fun v => evaluateBody v forms

def evaluateBoolean (keyword : String) (form : Form) (next : Bool → Steps) : Steps :=
  evaluate form fun
    | .boolean b => next b
    | other => failed (Cause.notBoolean keyword other.kind other.literal)

def evaluateInteger (keyword : String) (form : Form) (next : Integer → Steps) : Steps :=
  evaluate form fun
    | .integer i => next i
    | other => failed (Cause.notInteger keyword other.kind other.literal)

def evaluateIntegers (keyword : String) : List Form → (List Integer → Steps) → Steps
  | [], next => next []
  | form :: forms, next =>
    evaluateInteger keyword form fun i => evaluateIntegers keyword forms fun is => next (i :: is)

-- Finds the first of the forms whose truth value is the given one.
def settle (keyword : String) (deciding : Bool) : List Form → Steps
  | [] => done (.boolean !deciding)
  | form :: forms =>
    evaluateBoolean keyword form fun b =>
      if b = deciding then done (.boolean deciding) else settle keyword deciding forms

def call (p : Procedure) (args : List Form) : Steps :=
  if p.arity = args.length then evaluateAll args (apply p)
  else failed (Cause.callArguments p.arity args.length)

section Run

variable (c : Context) (s : Scope) (m : Machine)

theorem run_look (name : String) (next : Option Value → Steps) :
    ((look name next).run c s).run m = ((next (m.store.find? s name)).run c s).run m :=
  rfl

theorem run_evaluate (form : Form) (next : Value → Steps) :
    ((evaluate form next).run c s).run m =
      match (c.evaluate s form).run m with
      | (.ok v, m') => ((next v).run c s).run m'
      | (.error stop, m') => (.error stop, m') := by
  rw [run, run_bind]
  rcases (c.evaluate s form).run m with ⟨_ | _, _⟩ <;> rfl

theorem run_define (name : String) (v : Value) (next : Steps) :
    ((define name v next).run c s).run m =
      match m.store.define s name v with
      | .ok σ => (next.run c s).run { m with store := σ }
      | .error cause => (.error (.failed cause), m) := by
  simp only [run, run_bind]
  cases h : m.store.define s name v
  case ok    => rw [run_define_ok h]
  case error => rw [run_define_error h]

theorem run_procedure (parameters : List String) (body : Form) :
    ((procedure parameters body).run c s).run m =
      (.ok (.procedure (m.store.procedure parameters body s).1),
        { m with store := (m.store.procedure parameters body s).2 }) :=
  rfl

theorem run_write (text : String) :
    ((write text).run c s).run m =
      (((c.sink.write text).run m).1.map fun _ => .nil, ((c.sink.write text).run m).2) := by
  rw [run, run_bind]
  rcases (c.sink.write text).run m with ⟨_ | _, _⟩ <;> rfl

theorem run_apply (p : Procedure) (values : List Value) :
    (apply p values).run c s =
      c.enclosed p.home (NameMap.insertAll {} (p.parameters.zip values))
        fun inner => c.evaluate inner p.body :=
  rfl

theorem run_check {α : Type} (x : Except Failure α) (next : α → Steps) :
    (check x next).run c s = ofExcept x >>= fun a => (next a).run c s := by
  cases x <;> rfl

theorem run_evaluateAll (forms : List Form) (next : List Value → Steps) :
    (evaluateAll forms next).run c s = c.evaluateAll s forms >>= fun vs => (next vs).run c s := by
  induction forms generalizing next
  case nil => simp [evaluateAll, Context.evaluateAll]
  case cons form forms hi =>
    simp only [Context.evaluateAll] at hi
    simp [evaluateAll, run, Context.evaluateAll, hi]

theorem run_evaluateBody (forms : List Form) (last : Value) :
    (evaluateBody last forms).run c s = forms.foldlM (fun _ form => c.evaluate s form) last := by
  induction forms generalizing last
  case nil => rfl
  case cons form forms hi => simp [evaluateBody, run, hi]

theorem run_evaluateBoolean (keyword : String) (form : Form) (next : Bool → Steps) :
    (evaluateBoolean keyword form next).run c s =
      c.evaluateBoolean s keyword form >>= fun b => (next b).run c s := by
  simp only [evaluateBoolean, run, Context.evaluateBoolean, bind_assoc]
  congr
  funext v
  cases v <;> rfl

theorem run_evaluateInteger (keyword : String) (form : Form) (next : Integer → Steps) :
    (evaluateInteger keyword form next).run c s =
      c.evaluateInteger s keyword form >>= fun i => (next i).run c s := by
  simp only [evaluateInteger, run, Context.evaluateInteger, bind_assoc]
  congr
  funext v
  cases v <;> rfl

theorem run_evaluateIntegers (keyword : String) (forms : List Form) (next : List Integer → Steps) :
    (evaluateIntegers keyword forms next).run c s =
      c.evaluateIntegers s keyword forms >>= fun is => (next is).run c s := by
  induction forms generalizing next
  case nil => simp [evaluateIntegers, Context.evaluateIntegers]
  case cons form forms hi =>
    simp only [Context.evaluateIntegers] at hi
    simp [evaluateIntegers, run_evaluateInteger, Context.evaluateIntegers, hi]

theorem run_settle_false (keyword : String) (forms : List Form) :
    (settle keyword false forms).run c s =
      .boolean <$> forms.allM (c.evaluateBoolean s keyword) := by
  induction forms
  case nil => rfl
  case cons form forms hi =>
    simp only [settle, run_evaluateBoolean, List.allM, map_bind]
    congr
    funext b
    cases b <;> simp [hi, run]

theorem run_settle_true (keyword : String) (forms : List Form) :
    (settle keyword true forms).run c s =
      .boolean <$> forms.anyM (c.evaluateBoolean s keyword) := by
  induction forms
  case nil => rfl
  case cons form forms hi =>
    simp only [settle, run_evaluateBoolean, List.anyM, map_bind]
    congr
    funext b
    cases b <;> simp [hi, run]

theorem run_call (p : Procedure) (args : List Form) :
    (call p args).run c s = c.call p args s := by
  unfold call Context.call
  split
  case isTrue => exact run_evaluateAll c s args _
  case isFalse => rfl

end Run
end Steps
end ScopedLisp
