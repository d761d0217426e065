import ScopedLisp.Interpreter
import ScopedLisp.Proofs.Evaluation.Keeping

-- Interpreters in use. Sessions are opened and programs are run in any order. Of each run, one sees
-- how it ends, what it prints, and what its scope binds afterwards.

namespace ScopedLisp

open Evaluation Store

-- What can be asked of an interpreter. Sessions are known by their number, in the order in which
-- they are opened. A program without a session is run directly in the root.
inductive Request
  | session
  | run (session? : Option Nat) (source : String)

-- An interpreter's machine, and the sessions that are open.
structure Service where
  machine  : Machine
  sessions : List Session := []

-- What one sees of a run, besides where it was and what was run.
structure Observation where
  session? : Option Nat
  source   : String
  outcome  : Except Stop Value
  printed  : String
  bindings : NameMap Value

namespace Interpreter

variable (i : Interpreter) (depth : Nat)

-- The scope that programs are run in, if it is there.
def scope? (v : Service) : Option Nat → Option Scope
  | none => some i.root
  | some k => v.sessions[k]?.map (·.scope)

-- The outcome of a run that starts with nothing printed, and the machine after it. A sink that goes
-- by what has been printed goes by what this run has printed.
def start (source : String) (s : Scope) (m : Machine) : Except Stop Value × Machine :=
  (i.run depth source s).run { m with printed := "" }

-- What is seen of the request, if anything, and what it leads to. There is nothing to be seen of a
-- program that is meant for a session which is not there.
def answer (v : Service) : Request → Option Observation × Service
  | .session =>
    match i.session.run v.machine with
    | (.ok session, m) => (none, { machine := m, sessions := v.sessions ++ [session] })
    | (.error _, m) => (none, { v with machine := m })
  | .run session? source =>
    match i.scope? v session? with
    | some s =>
      let (outcome, m) := i.start depth source s v.machine
      (some ⟨session?, source, outcome, m.printed, m.store.locals s⟩, { v with machine := m })
    | none => (none, v)

-- What is seen of the requests, one after another, and what all of them lead to.
def serve (v : Service) : List Request → List Observation × Service
  | [] => ([], v)
  | request :: requests =>
    let (observation?, v) := i.answer depth v request
    let (observations, v) := serve v requests
    (observation?.toList ++ observations, v)

theorem serve_cons (v : Service) (request : Request) (requests : List Request) :
    i.serve depth v (request :: requests) =
      ((i.answer depth v request).1.toList ++
          (i.serve depth (i.answer depth v request).2 requests).1,
        (i.serve depth (i.answer depth v request).2 requests).2) :=
  rfl

theorem answer_session (v : Service) :
    i.answer depth v .session =
      (none,
        { machine  := { v.machine with store := (v.machine.store.child i.root).2 },
          sessions := v.sessions ++ [⟨i.root.child v.machine.store.frames.size⟩] }) :=
  rfl

theorem answer_run {v : Service} {session? : Option Nat} {s : Scope} (source : String)
    (h : i.scope? v session? = some s) :
    i.answer depth v (.run session? source) =
      let (outcome, m) := i.start depth source s v.machine
      (some ⟨session?, source, outcome, m.printed, m.store.locals s⟩, { v with machine := m }) := by
  simp [answer, h]

theorem answer_run_of_none {v : Service} {session? : Option Nat} (source : String)
    (h : i.scope? v session? = none) : i.answer depth v (.run session? source) = (none, v) := by
  simp [answer, h]

end Interpreter

theorem Evaluation.run_within {α : Type} (place : Failure.Place) (x : Evaluation α) (m : Machine) :
    (within place x).run m =
      match x.run m with
      | (.ok a, m') => (.ok a, m')
      | (.error (.failed failure), m') => (.error (.failed (failure.within place)), m')
      | (.error .tooDeep, m') => (.error .tooDeep, m') := by
  unfold within
  rw [ExceptT.run_tryCatch]
  rcases h : x.run m with ⟨(_ | _) | _, m'⟩ <;> simp [bind, StateT.bind, h] <;> rfl

namespace Evaluator

-- A program that is not read leaves everything as it is.
theorem run_run (e : Evaluator) (depth : Nat) (source : String) (s : Scope) (m : Machine) :
    (e.run depth source s).run m =
      match e.read source with
      | .ok form => (e.evaluate depth s form).run m
      | .error failure => (.error (.failed failure), m) := by
  unfold run
  rw [run_bind]
  cases e.read source <;> rfl

variable (grouping : String) (entries : List (String × Builtin)) (sink : Sink)
  (retention : Retention)

theorem keepsAround_run (depth : Nat) (source : String) {s : Scope} {m : Machine}
    (hs : s.frame < m.store.frames.size) :
    KeepsAround s m.store
      (((ofBuiltins grouping entries sink retention).run depth source s).run m).2.store := by
  rw [run_run]
  cases (ofBuiltins grouping entries sink retention).read source
  case error   => exact .refl ..
  case ok form => exact keepsAround_evaluate grouping entries sink retention depth hs

end Evaluator

namespace Interpreter

-- The root is frozen, and the sessions are those of the interpreter, each with a frame of its own.
structure Serves (i : Interpreter) (v : Service) : Prop where
  root     : i.root.frame < v.machine.store.frames.size
  frozen   : (v.machine.store.frame i.root.frame).frozen
  sessions : ∀ session ∈ v.sessions, ∃ frame, session.scope = i.root.child frame ∧
    frame ≠ i.root.frame ∧ frame < v.machine.store.frames.size

theorem run_buildWith (e : Evaluator) (library : Scope → Evaluation Value) (m : Machine) :
    (buildWith e library).run m =
      match (library m.store.root.1).run { m with store := m.store.root.2 } with
      | (.ok _, m') =>
        (.ok ⟨e, m.store.root.1⟩, { m' with store := m'.store.freeze m.store.root.1 })
      | (.error (.failed failure), m') =>
        (.error (.failed (failure.within (.named "in standard library"))), m')
      | (.error .tooDeep, m') => (.error .tooDeep, m') := by
  simp only [buildWith, run_bind, run_onStore]
  rw [run_within]
  rcases (library _).run _ with ⟨(_ | _) | _, _⟩ <;> rfl

-- A new interpreter has run its library in a new root, and has frozen the root then.
theorem run_build (e : Evaluator) (depth : Nat) (library : String) (m : Machine) :
    (build e depth library).run m =
      match (e.run depth library m.store.root.1).run { m with store := m.store.root.2 } with
      | (.ok _, m') =>
        (.ok ⟨e, m.store.root.1⟩, { m' with store := m'.store.freeze m.store.root.1 })
      | (.error (.failed failure), m') =>
        (.error (.failed (failure.within (.named "in standard library"))), m')
      | (.error .tooDeep, m') => (.error .tooDeep, m') :=
  run_buildWith e (e.run depth library) m

-- The machine on which a new interpreter starts: the one that its library has left.
theorem build_eq_ok {e : Evaluator} {depth : Nat} {library : String} {m m' : Machine}
    {i : Interpreter} (h : (build e depth library).run m = (.ok i, m')) :
    i = ⟨e, m.store.root.1⟩ ∧
      let after := ((e.run depth library i.root).run { m with store := m.store.root.2 }).2
      m' = { after with store := after.store.freeze i.root } := by
  rw [run_build] at h
  rcases hr : (e.run depth library m.store.root.1).run { m with store := m.store.root.2 } with
    ⟨(failure | _) | v, after⟩
  all_goals
    simp only [hr] at h
    cases h
  exact ⟨rfl, by rw [hr]⟩

end Interpreter
end ScopedLisp
