import ScopedLisp.Batch
import ScopedLisp.Proofs.Evaluation.Retention
import ScopedLisp.Proofs.Interpreter.Root

-- Interpreters whose finished scopes give up their bindings, next to interpreters whose scopes keep
-- them. What one sees of them is the same, as long as no name is looked up that is lost.
-- Main statement: `Evaluator.same_life_iff`.

namespace ScopedLisp

open Evaluation Store

-- What happens while a program runs. That is nothing, unless all of it is read.
def Evaluator.programMoments (e : Evaluator) (entries : List (String × Builtin)) (depth : Nat)
    (source : String) (s : Scope) (m : Machine) : History :=
  match e.read source with
  | .ok form => e.moments entries depth s form m
  | .error _ => []

namespace Interpreter

variable (i : Interpreter) (entries : List (String × Builtin)) (depth : Nat)

-- What happens while a request is answered.
def answerMoments (v : Service) : Request → History
  | .session => []
  | .run session? source =>
    match i.scope? v session? with
    | some s => i.evaluator.programMoments entries depth source s { v.machine with printed := "" }
    | none => []

-- What happens while the requests are answered, one after another.
def history (v : Service) : List Request → History
  | [] => []
  | request :: requests =>
    i.answerMoments entries depth v request ++ history (i.answer depth v request).2 requests

theorem answerMoments_run {v : Service} {session? : Option Nat} {s : Scope} (source : String)
    (h : i.scope? v session? = some s) :
    i.answerMoments entries depth v (.run session? source) =
      i.evaluator.programMoments entries depth source s { v.machine with printed := "" } := by
  simp [answerMoments, h]

theorem answerMoments_run_of_none {v : Service} {session? : Option Nat} (source : String)
    (h : i.scope? v session? = none) :
    i.answerMoments entries depth v (.run session? source) = [] := by
  simp [answerMoments, h]

end Interpreter

-- What happens in an interpreter from its beginning, and what one sees of it. If the library fails,
-- then that is all that one sees.
structure Life where
  history      : History
  observations : Except Stop (List Observation)

-- The life of an interpreter that is built on the machine and then asked so much.
def Evaluator.life (e : Evaluator) (entries : List (String × Builtin)) (depth : Nat)
    (library : String) (requests : List Request) (m : Machine) : Life :=
  let building := e.programMoments entries depth library m.store.root.1
    { m with store := m.store.root.2 }
  match (Interpreter.build e depth library).run m with
  | (.ok i, m') =>
    { history      := building ++ i.history entries depth { machine := m' } requests,
      observations := .ok (i.serve depth { machine := m' } requests).1 }
  | (.error stop, _) => { history := building, observations := .error stop }

def Stop.within (place : Failure.Place) : Stop → Stop
  | failed failure => failed (failure.within place)
  | tooDeep => tooDeep

namespace Evaluator

variable (e : Evaluator) (entries : List (String × Builtin)) {depth : Nat} {library : String}
  {m m' : Machine}

theorem life_of_ok {v : Value} (requests : List Request)
    (h : (e.run depth library m.store.root.1).run { m with store := m.store.root.2 } =
      (.ok v, m')) :
    let i : Interpreter := ⟨e, m.store.root.1⟩
    let start : Service := { machine := { m' with store := m'.store.freeze i.root } }
    e.life entries depth library requests m =
      { history :=
          e.programMoments entries depth library i.root { m with store := m.store.root.2 } ++
            i.history entries depth start requests,
        observations := .ok (i.serve depth start requests).1 } := by
  unfold life
  rw [Interpreter.run_build, h]

theorem life_of_error {stop : Stop} (requests : List Request)
    (h : (e.run depth library m.store.root.1).run { m with store := m.store.root.2 } =
      (.error stop, m')) :
    e.life entries depth library requests m =
      { history := e.programMoments entries depth library m.store.root.1
          { m with store := m.store.root.2 },
        observations := .error <| stop.within (.named "in standard library") } := by
  unfold life
  rw [Interpreter.run_build, h]
  cases stop <;> rfl

-- A life begins with the library.
theorem exists_history_life (requests : List Request) :
    ∃ rest, (e.life entries depth library requests m).history =
      e.programMoments entries depth library m.store.root.1 { m with store := m.store.root.2 } ++
        rest := by
  unfold life
  rcases (Interpreter.build e depth library).run m with ⟨_ | i, m'⟩
  case error => exact ⟨[], (List.append_nil _).symm⟩
  case ok    => exact ⟨_, rfl⟩

end Evaluator

section Together

variable (grouping : String) (entries : List (String × Builtin)) (sink : Sink)

theorem Evaluator.together_run (depth : Nat) (source : String) {past : History} {s : Scope}
    {m m' : Machine} (hm : m.Restored past m') (hs : s.Open past m.store) :
    Together past m.store.frames.size
      (((ofBuiltins grouping entries sink .whenCaptured).run depth source s).run m)
      (((ofBuiltins grouping entries sink .always).run depth source s).run m')
      ((ofBuiltins grouping entries sink .whenCaptured).programMoments entries depth source s m)
      ((ofBuiltins grouping entries sink .always).programMoments entries depth source s m') := by
  have hr (retention : Retention) : (ofBuiltins grouping entries sink retention).read source =
      Program.read (Keywords.ofBuiltins grouping entries).grouping
        (Keywords.ofBuiltins grouping entries).reserves source := rfl
  unfold programMoments
  rw [run_run, run_run, hr, hr]
  cases Program.read _ _ source
  case error   => exact .of_restored hm _
  case ok form => exact together_evaluate grouping entries sink depth form hm hs

-- Interpreters with the same sessions, on machines that are the same up to what has been given up.
-- Neither the root nor a session has been given up.
structure Service.Restored (past : History) (i : Interpreter) (v v' : Service) : Prop where
  machine  : v.machine.Restored past v'.machine
  sessions : v.sessions = v'.sessions
  root     : i.root.Open past v.machine.store
  scopes   : ∀ session ∈ v.sessions, session.scope.Open past v.machine.store

variable {grouping entries sink} {depth : Nat} {past : History} {i i' : Interpreter}
  {v v' : Service} (hi : i.evaluator = .ofBuiltins grouping entries sink .whenCaptured)
  (hi' : i'.evaluator = .ofBuiltins grouping entries sink .always) (hr : i.root = i'.root)

namespace Service.Restored

-- New interpreters freeze their roots.
theorem of_freeze {m m' : Machine} (hm : m.Restored past m') (ho : i.root.Open past m.store) :
    Restored past i { machine := { m with store := m.store.freeze i.root } }
      { machine := { m' with store := m'.store.freeze i.root } } where
  machine  := hm.of_store <| hm.store.modify ho _
  sessions := rfl
  root     := ⟨Nat.lt_of_lt_of_eq ho.bound (size_modify ..).symm, ho.kept⟩
  scopes   := by simp

theorem open_of_scope? (h : Restored past i v v') {session? : Option Nat} {s : Scope}
    (hs : i.scope? v session? = some s) : s.Open past v.machine.store := by
  cases session?
  case none => exact Option.some.inj hs ▸ h.root
  case some k =>
    have ⟨session, hk, he⟩ := Option.map_eq_some_iff.mp hs
    exact he ▸ h.scopes session (List.mem_of_getElem? hk)

include hr in
theorem scope?_eq (h : Restored past i v v') (session? : Option Nat) :
    i.scope? v session? = i'.scope? v' session? := by
  unfold Interpreter.scope?
  rw [h.sessions, hr]

-- What comes later leaves the root and the sessions alone.
theorem after (h : Restored past i v v') {k : History} {m m' : Machine}
    (hm : m.Restored (past ++ k) m') (hn : v.machine.store.frames.size ≤ m.store.frames.size)
    (hk : ∀ id < v.machine.store.frames.size, k.givenUp? id = none) :
    Restored (past ++ k) i { v with machine := m } { v' with machine := m' } where
  machine  := hm
  sessions := h.sessions
  root     := h.root.after hn hk
  scopes   := fun session hs => (h.scopes session hs).after hn hk

include hr in
theorem session (h : Restored past i v v') :
    Restored past i (i.answer depth v .session).2 (i'.answer depth v' .session).2 := by
  have hn := Keeps.child v.machine.store i.root {} |>.size
  have hs {s : Scope} (hs : s.Open past v.machine.store) :
      s.Open past (v.machine.store.child i.root).2 := ⟨Nat.lt_of_lt_of_le hs.bound hn, hs.kept⟩
  rw [Interpreter.answer_session, Interpreter.answer_session, ← hr, ← h.sessions,
    ← h.machine.store.size]
  constructor
  case machine  => exact h.machine.of_store <| h.machine.store.child i.root {}
  case sessions => rfl
  case root     => exact hs h.root
  case scopes =>
    rw [List.forall_mem_append, List.forall_mem_singleton]
    exact ⟨fun session hv => hs (h.scopes session hv), h.machine.store.open_child i.root {}⟩

include hi hi' in
theorem start (h : Restored past i v v') {s : Scope} (hs : s.Open past v.machine.store)
    (source : String) :
    Together past v.machine.store.frames.size (i.start depth source s v.machine)
      (i'.start depth source s v'.machine)
      (i.evaluator.programMoments entries depth source s { v.machine with printed := "" })
      (i'.evaluator.programMoments entries depth source s { v'.machine with printed := "" }) := by
  have hm : Machine.Restored past { v.machine with printed := "" }
      { v'.machine with printed := "" } := ⟨h.machine.store, rfl⟩
  have ht := Evaluator.together_run grouping entries sink depth source hm hs
  unfold Interpreter.start Interpreter.run
  rw [hi, hi']
  exact ht

include hi hi' hr in
-- A program that runs in both leads to the same, unless the histories part.
theorem run (h : Restored past i v v') (session? : Option Nat) (source : String) :
    let k := i.answerMoments entries depth v (.run session? source)
    let k' := i'.answerMoments entries depth v' (.run session? source)
    (past.Agree 0 k k' ∧
      (i.answer depth v (.run session? source)).1 = (i'.answer depth v' (.run session? source)).1 ∧
      Restored (past ++ k) i (i.answer depth v (.run session? source)).2
        (i'.answer depth v' (.run session? source)).2) ∨
    past.Part k k' := by
  have he := h.scope?_eq hr session?
  cases hs : i.scope? v session?
  case none =>
    have hs' : i'.scope? v' session? = none := he ▸ hs
    rw [Interpreter.answerMoments_run_of_none i entries depth source hs,
      Interpreter.answerMoments_run_of_none i' entries depth source hs',
      Interpreter.answer_run_of_none i depth source hs,
      Interpreter.answer_run_of_none i' depth source hs']
    exact .inl ⟨.nil .., rfl, (List.append_nil past).symm ▸ h⟩
  case some s =>
    have hs' : i'.scope? v' session? = some s := he ▸ hs
    have ho := h.open_of_scope? hs
    rw [Interpreter.answerMoments_run i entries depth source hs,
      Interpreter.answerMoments_run i' entries depth source hs',
      Interpreter.answer_run i depth source hs, Interpreter.answer_run i' depth source hs']
    rcases h.start hi hi' ho source with ⟨ha, ho', hm, hn⟩ | hp
    case inr => exact .inr hp
    case inl =>
      have hl := congrArg Frame.bindings <| hm.store.kept s.frame (ho.after hn ha.fresh).kept
      refine .inl ⟨ha.of_le (Nat.zero_le _), ?_, h.after hm hn ha.fresh⟩
      change some (Observation.mk session? source _ _ _) =
        some (Observation.mk session? source _ _ _)
      unfold locals
      rw [ho', hm.printed, hl]

include hi hi' hr in
theorem serve (h : Restored past i v v') (requests : List Request) :
    let k := i.history entries depth v requests
    let k' := i'.history entries depth v' requests
    (past.Agree 0 k k' ∧ (i.serve depth v requests).1 = (i'.serve depth v' requests).1) ∨
    past.Part k k' := by
  induction requests generalizing past v v'
  case nil => exact .inl ⟨.nil .., rfl⟩
  case cons request requests ih =>
    simp only [Interpreter.history, Interpreter.serve_cons]
    cases request
    case session =>
      rcases ih (h.session hr) with ⟨ha, ho⟩ | hp
      case inl => exact .inl ⟨ha, ho⟩
      case inr => exact .inr hp
    case run session? source =>
      rcases h.run hi hi' hr session? source with ⟨ha, ho, h'⟩ | hp
      case inr => exact .inr <| hp.append _ _
      case inl =>
        rw [ho]
        rcases ih h' with ⟨ha', ho'⟩ | hp
        case inl => exact .inl ⟨ha.append ha' (Nat.le_refl 0), by rw [ho']⟩
        case inr => exact .inr <| ha.part hp

end Service.Restored

variable (grouping entries sink)

-- The two lives, from the beginning.
theorem Evaluator.together_life (depth : Nat) (library : String) (requests : List Request)
    (m : Machine) :
    let life :=
      (ofBuiltins grouping entries sink .whenCaptured).life entries depth library requests m
    let life' := (ofBuiltins grouping entries sink .always).life entries depth library requests m
    (History.Agree [] 0 life.history life'.history ∧ life.observations = life'.observations) ∨
    History.Part [] life.history life'.history := by
  let root := m.store.root.1
  let opened : Machine := { m with store := m.store.root.2 }
  have ho : root.Open [] opened.store := ⟨by simp [root, opened, Store.root], rfl⟩
  have ht := together_run grouping entries sink depth library ⟨.refl opened.store, rfl⟩ ho
  intro life life'
  rcases h : ((ofBuiltins grouping entries sink .whenCaptured).run depth library root).run opened
    with ⟨outcome, m₁⟩
  rcases h' : ((ofBuiltins grouping entries sink .always).run depth library root).run opened
    with ⟨outcome', m₁'⟩
  rw [h, h'] at ht
  rcases ht with ⟨ha, he, hm, hn⟩ | hp
  case inr =>
    obtain ⟨rest, hl⟩ : ∃ rest, life.history = _ := exists_history_life _ entries requests
    obtain ⟨rest', hl'⟩ : ∃ rest, life'.history = _ := exists_history_life _ entries requests
    rw [hl, hl']
    exact .inr <| hp.append rest rest'
  case inl =>
    obtain rfl : outcome = outcome' := he
    cases outcome
    case error stop =>
      have hl : life = _ := life_of_error _ entries requests h
      have hl' : life' = _ := life_of_error _ entries requests h'
      rw [hl, hl']
      exact .inl ⟨ha.of_le (Nat.zero_le _), rfl⟩
    case ok v =>
      have hl : life = _ := life_of_ok _ entries requests h
      have hl' : life' = _ := life_of_ok _ entries requests h'
      let i : Interpreter := ⟨ofBuiltins grouping entries sink .whenCaptured, root⟩
      let i' : Interpreter := ⟨ofBuiltins grouping entries sink .always, root⟩
      have hi : i.evaluator = .ofBuiltins grouping entries sink .whenCaptured := rfl
      have hi' : i'.evaluator = .ofBuiltins grouping entries sink .always := rfl
      have hv : Service.Restored _ i _ _ := .of_freeze hm (ho.after hn ha.fresh)
      rw [hl, hl']
      rcases hv.serve hi hi' rfl requests with ⟨ha', he⟩ | hp
      case inl =>
        exact .inl ⟨(ha.of_le (Nat.zero_le _)).append ha' (Nat.le_refl 0), congrArg Except.ok he⟩
      case inr => exact .inr <| ha.part hp

-- Exactly if no name is looked up that is lost, one sees the same as if scopes kept their bindings,
-- and everything that is looked up is found in the same frames, and with the same values.
theorem Evaluator.same_life_iff (depth : Nat) (library : String) (requests : List Request)
    (m : Machine) :
    let life :=
      (ofBuiltins grouping entries sink .whenCaptured).life entries depth library requests m
    let life' := (ofBuiltins grouping entries sink .always).life entries depth library requests m
    life.history.looks = life'.history.looks ∧ life.observations = life'.observations ↔
      ¬History.AnyMissed [] life.history := by
  intro life life'
  rcases together_life grouping entries sink depth library requests m with ⟨ha, ho⟩ | hp
  case inl => exact ⟨fun _ => ha.found, fun _ => ⟨ha.looks, ho⟩⟩
  case inr => exact ⟨fun h => absurd h.left hp.looks_ne, fun h => absurd hp.missed h⟩

end Together

-- The runs as one reads of them, or the failure of the library.
def Life.shown (life : Life) : List String :=
  match life.observations with
  | .error stop => [(BatchFault.stopped stop).text]
  | .ok observations => observations.map fun o =>
    match o.outcome with
    | .ok v => v.display
    | .error stop => (BatchFault.stopped stop).text

theorem Evaluator.observations_life (e : Evaluator) (entries : List (String × Builtin))
    (depth : Nat) (library : String) (requests : List Request) (m : Machine) :
    (e.life entries depth library requests m).observations =
      match (Interpreter.build e depth library).run m with
      | (.ok i, m') => .ok (i.serve depth { machine := m' } requests).1
      | (.error stop, _) => .error stop := by
  unfold life
  rcases (Interpreter.build e depth library).run m with ⟨_ | _, _⟩ <;> rfl

theorem Token.scan_ofList (cs : List Char) :
    scan (String.ofList cs) = (Scanner.run {} cs).finish := by
  rw [scan, String.toList_ofList]

-- The life of an interpreter of the language that runs the programs in its only session.
def Retention.sessionLife (retention : Retention) (programs : List String) : Life :=
  ({ retention } : Evaluator).life (Builtin.all.map fun b => (b.keyword, b))
    Interpreter.standardDepth standardLibrary (.session :: programs.map fun source =>
      .run (some 0) source) {}

-- A composition of procedures comes out of a call. It does not capture the scope of the call, but
-- it is made from a procedure that does, and that procedure finds its number no more.
set_option maxRecDepth 20000 in
theorem Retention.shown_sessionLife_composed :
    let programs := ["(def k ((fn (n) (compose (fn (x) (+ x n)) inc)) 5))", "(k 1)"]
    (whenCaptured.sessionLife programs).shown =
        ["<fn (x)>", "name error: value not found for symbol: n"] ∧
      (always.sessionLife programs).shown = ["<fn (x)>", "7"] := by
  have hl : standardLibrary = String.ofList _ := rfl
  have hs : Token.scan standardLibrary = _ := (congrArg Token.scan hl).trans (Token.scan_ofList _)
  intro programs
  have h (retention : Retention) : (retention.sessionLife programs).shown = ["<fn (x)>",
      match retention with
      | .whenCaptured => "name error: value not found for symbol: n"
      | .always => "7"] := by
    -- From here on, all that counts of the library is its tokens: the text takes long to decode.
    rw [sessionLife]
    clear hl
    generalize standardLibrary = library at hs ⊢
    rw [Life.shown, Evaluator.observations_life, Interpreter.run_build, Evaluator.run_run,
      Evaluator.read, Program.read, hs]
    cases retention <;> decide +kernel
  exact ⟨h whenCaptured, h always⟩

end ScopedLisp
