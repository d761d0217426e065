import ScopedLisp.Store

-- What evaluation works on, and how it ends: with a value, with a failure, or because forms nest
-- deeper than allowed. What was done before a failure stays done.

namespace ScopedLisp

structure Machine where
  store   : Store := {}
  printed : String := ""

instance : Inhabited Machine := ⟨{}⟩

inductive Stop
  | failed (failure : Failure)
  -- Evaluation was cut short. This says nothing about the program.
  | tooDeep

abbrev Evaluation (α : Type) := ExceptT Stop (StateM Machine) α

namespace Evaluation

variable {α : Type}

def fail (cause : Cause) : Evaluation α :=
  throw (.failed cause)

-- The outcome of something that does not touch the machine.
def ofExcept : Except Failure α → Evaluation α
  | .ok a => pure a
  | .error failure => throw (.failed failure)

-- An operation on the store that always succeeds.
def onStore (f : Store → α × Store) : Evaluation α :=
  modifyGet fun m => let (a, σ) := f m.store; (a, { m with store := σ })

def find? (s : Scope) (name : String) : Evaluation (Option Value) :=
  return (← get).store.find? s name

def define (s : Scope) (name : String) (v : Value) : Evaluation Unit :=
  ExceptT.mk fun m =>
    match m.store.define s name v with
    | .ok σ => (.ok (), { m with store := σ })
    | .error cause => (.error (.failed cause), m)

-- Failures that leave are passed out of the place.
def within (place : Failure.Place) (x : Evaluation α) : Evaluation α :=
  tryCatch x fun
    | .failed failure => throw (.failed (failure.within place))
    | .tooDeep => throw .tooDeep

@[simp] theorem run_onStore (f : Store → α × Store) (m : Machine) :
    (onStore f).run m = (.ok (f m.store).1, { m with store := (f m.store).2 }) :=
  rfl

@[simp] theorem run_find? (s : Scope) (name : String) (m : Machine) :
    (find? s name).run m = (.ok (m.store.find? s name), m) :=
  rfl

theorem run_define_ok {s : Scope} {name : String} {v : Value} {m : Machine} {σ : Store}
    (h : m.store.define s name v = .ok σ) :
    (define s name v).run m = (.ok (), { m with store := σ }) := by
  simp [define, h]

theorem run_define_error {s : Scope} {name : String} {v : Value} {m : Machine} {cause : Cause}
    (h : m.store.define s name v = .error cause) :
    (define s name v).run m = (.error (.failed cause), m) := by
  simp [define, h]

end Evaluation
end ScopedLisp
