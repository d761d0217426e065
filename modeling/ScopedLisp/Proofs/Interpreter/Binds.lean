import ScopedLisp.Proofs.Evaluation.Binds
import ScopedLisp.Proofs.Interpreter.Captured
import ScopedLisp.Proofs.Interpreter.FirstOrder

-- What is bound in interpreters, from their library on and over all of their runs: no forms, and no
-- keywords.
-- Main statements: `Evaluator.binds_results` and `Evaluator.keywords_unbound`.

namespace ScopedLisp

open Evaluation Store

-- The result is one with procedures of the kind. So are the values that are bound, to names of the
-- other kind.
structure Observation.Upholds (o : Observation) (N : String → Prop) (P : Procedure → Prop) :
    Prop where
  result   : ∀ v, o.outcome = .ok v → v.IsResult P
  bindings : ∀ name v, o.bindings.find? name = some v → N name ∧ v.IsResult P

-- What is bound while an interpreter is used and afterwards, and what is seen of it.
structure History.Upholds (h : History) (N : String → Prop) (P : Procedure → Prop) (σ : Store)
    (seen : List Observation) : Prop where
  moments : ∀ x ∈ h, x.store.Binds N P
  store   : σ.Binds N P
  seen    : ∀ o ∈ seen, o.Upholds N P

namespace History.Upholds

variable {h k : History} {N : String → Prop} {P : Procedure → Prop} {σ σ' : Store}
  {seen seen' : List Observation}

theorem of_binds (hσ : σ.Binds N P) : Upholds [] N P σ [] where
  moments := nofun
  store   := hσ
  seen    := nofun

theorem append (hh : h.Upholds N P σ seen) (hk : k.Upholds N P σ' seen') :
    (h ++ k).Upholds N P σ' (seen ++ seen') where
  moments := List.forall_mem_append.mpr ⟨hh.moments, hk.moments⟩
  store   := hk.store
  seen    := List.forall_mem_append.mpr ⟨hh.seen, hk.seen⟩

end History.Upholds

-- The program becomes a form of the kind, if it is read.
def Evaluator.ReadsAs (e : Evaluator) (F : Form → Prop) (source : String) : Prop :=
  ∀ form, e.read source = .ok form → F form

-- The program that is to be run, if there is one, becomes a form of the kind.
def Request.ReadsAs (e : Evaluator) (F : Form → Prop) : Request → Prop
  | session => True
  | run _ source => e.ReadsAs F source

theorem Request.ReadsAs.of_forall {e : Evaluator} {F : Form → Prop}
    (h : ∀ source, e.ReadsAs F source) (requests : List Request) :
    ∀ request ∈ requests, request.ReadsAs e F
  | session, _ => trivial
  | run _ source, _ => h source

section

variable (grouping : String) (entries : List (String × Builtin)) (sink : Sink)
  (retention : Retention) (depth : Nat) {N : String → Prop} {F : Form → Prop} {P : Procedure → Prop}
  (hs : Sustains (fun name => (Builtin.find? entries name).isSome) N F P)

include hs in
theorem Evaluator.upholds_run {source : String}
    (hF : (ofBuiltins grouping entries sink retention).ReadsAs F source) (s : Scope) {m : Machine}
    (hm : m.store.Binds N P) :
    let e := ofBuiltins grouping entries sink retention
    Upholds N P ((e.run depth source s).run m) (e.programMoments entries depth source s m) := by
  intro e
  unfold programMoments
  rw [run_run]
  cases hr : e.read source
  case error => exact .of_binds hm nofun
  case ok form =>
    exact upholds_evaluate grouping entries sink retention depth hs s form m (hF form hr) hm

namespace Interpreter

include hs in
theorem binds_build {library : String} {m : Machine}
    (hF : (Evaluator.ofBuiltins grouping entries sink retention).ReadsAs F library)
    (hm : m.store.Binds N P) :
    let e := Evaluator.ofBuiltins grouping entries sink retention
    ((build e depth library).run m).2.store.Binds N P := by
  intro e
  let root := m.store.root.1
  let opened : Machine := { m with store := m.store.root.2 }
  have h : ((e.run depth library root).run opened).2.store.Binds N P :=
    (Evaluator.upholds_run grouping entries sink retention depth hs hF root hm.root).store
  rw [run_build]
  rcases hr : (e.run depth library root).run opened with ⟨(_ | _) | _, after⟩
  all_goals rw [hr] at h
  case error.failed | error.tooDeep => exact h
  case ok => exact h.freeze root

variable {i : Interpreter} (he : i.evaluator = .ofBuiltins grouping entries sink retention)

include hs he in
theorem upholds_answer {v : Service} (hv : v.machine.store.Binds N P) {request : Request}
    (hF : request.ReadsAs i.evaluator F) :
    (i.answerMoments entries depth v request).Upholds N P
      (i.answer depth v request).2.machine.store (i.answer depth v request).1.toList := by
  cases request
  case session => exact .of_binds <| hv.child i.root nofun
  case run session? source =>
    cases h : i.scope? v session?
    case none =>
      rw [answer_run_of_none _ _ _ h, answerMoments_run_of_none _ _ _ _ h]
      exact .of_binds hv
    case some s =>
      have hr := Evaluator.upholds_run grouping entries sink retention depth hs (he ▸ hF) s
        (m := { v.machine with printed := "" }) hv
      rw [← he] at hr
      rw [answer_run _ _ _ h, answerMoments_run _ _ _ _ h]
      exact {
        moments := hr.moments
        store   := hr.store
        seen    := List.forall_mem_singleton.mpr ⟨hr.result, hr.store s.frame⟩
      }

include hs he in
theorem upholds_serve {v : Service} (hv : v.machine.store.Binds N P) {requests : List Request}
    (hF : ∀ request ∈ requests, request.ReadsAs i.evaluator F) :
    (i.history entries depth v requests).Upholds N P (i.serve depth v requests).2.machine.store
      (i.serve depth v requests).1 := by
  induction requests generalizing v
  case nil => exact .of_binds hv
  case cons request requests hi =>
    have ⟨hreq, hreqs⟩ := List.forall_mem_cons.mp hF
    have ha := upholds_answer grouping entries sink retention depth hs he hv hreq
    exact ha.append (hi ha.store hreqs)

end Interpreter

-- The runs that one sees. There are none if the library fails.
def Life.seen (life : Life) : List Observation :=
  life.observations.toOption.getD []

include hs in
theorem Evaluator.upholds_life {library : String} {requests : List Request} {m : Machine}
    (hm : m.store.Binds N P) :
    let e := ofBuiltins grouping entries sink retention
    let life := e.life entries depth library requests m
    e.ReadsAs F library → (∀ request ∈ requests, request.ReadsAs e F) →
      life.history.Upholds N P (e.leaves depth library requests m) life.seen := by
  intro e life hlibrary hrequests
  let root := m.store.root.1
  let opened : Machine := { m with store := m.store.root.2 }
  have hl : Upholds N P ((e.run depth library root).run opened)
      (e.programMoments entries depth library root opened) :=
    upholds_run grouping entries sink retention depth hs hlibrary root hm.root
  rcases hr : (e.run depth library root).run opened with ⟨stop | v, after⟩
  all_goals rw [hr] at hl
  case error =>
    have he : life = _ := life_of_error e entries requests hr
    rw [he, leaves_of_error requests hr]
    exact ⟨hl.moments, hl.store, nofun⟩
  case ok =>
    have he : life = _ := life_of_ok e entries requests hr
    rw [he, leaves_of_ok requests hr]
    have hb : History.Upholds _ N P after.store [] := ⟨hl.moments, hl.store, nofun⟩
    exact hb.append <| Interpreter.upholds_serve grouping entries sink retention depth hs
      (i := ⟨e, root⟩) (v := { machine := { after with store := _ } }) rfl (hl.store.freeze root)
      hrequests

end

section Results

-- No frame binds a symbol or a list.
def Store.BindsResults (σ : Store) : Prop :=
  ∀ id name v, (σ.frame id).bindings.find? name = some v → v.IsResult fun _ => True

theorem Store.bindsResults_iff {σ : Store} :
    σ.BindsResults ↔ σ.Binds (fun _ => True) (fun _ => True) := by
  simp [BindsResults, Binds]

-- All names, forms and procedures are kinds that lead to nothing else.
theorem sustains_true (reserved : String → Bool) :
    Sustains reserved (fun _ => True) (fun _ => True) (fun _ => True) where
  items _ _ _ _    := trivial
  procedure _ _    := trivial
  names _ _        := trivial
  parameters _ _   := fun _ _ => trivial
  body _ _         := trivial
  made _ _ _       := trivial

-- Symbols and lists are never bound, and never the result of anything, whether evaluation succeeds
-- or not.
theorem Evaluator.binds_results (grouping : String) (entries : List (String × Builtin))
    (sink : Sink) (retention : Retention) (depth : Nat) :
    let e := ofBuiltins grouping entries sink retention
    (∀ (m : Machine) (s : Scope) (form : Form), m.store.BindsResults →
      let (outcome, after) := (e.evaluate depth s form).run m
      after.store.BindsResults ∧ ∀ v, outcome = .ok v → v.IsResult fun _ => True) ∧
    ∀ (m : Machine) (library : String) (requests : List Request), m.store.BindsResults →
      let life := e.life entries depth library requests m
      (∀ x ∈ life.history, x.store.BindsResults) ∧
      (e.leaves depth library requests m).BindsResults ∧
      ∀ o ∈ life.seen, (∀ v, o.outcome = .ok v → v.IsResult fun _ => True) ∧
        ∀ name v, o.bindings.find? name = some v → v.IsResult fun _ => True := by
  intro e
  have hs := sustains_true fun name => (Builtin.find? entries name).isSome
  constructor
  case left =>
    intro m s form hm
    have h := upholds_evaluate grouping entries sink retention depth hs s form m trivial
      (bindsResults_iff.mp hm)
    exact ⟨bindsResults_iff.mpr h.store, h.result⟩
  case right =>
    intro m library requests hm life
    have h : life.history.Upholds _ _ (e.leaves depth library requests m) life.seen :=
      upholds_life grouping entries sink retention depth hs (bindsResults_iff.mp hm)
        (fun _ _ => trivial) (.of_forall (fun _ _ _ => trivial) requests)
    refine ⟨fun x hx => bindsResults_iff.mpr (h.moments x hx), bindsResults_iff.mpr h.store, ?_⟩
    intro o ho
    have ho := h.seen o ho
    exact ⟨ho.result, fun name v hv => (ho.bindings name v hv).right⟩

-- A procedure that calls what it is given, and a program that fails after it has bound a name.
theorem Evaluator.binds_results_of_procedure :
    let e := Evaluator.ofBuiltins "do" [("do", .group), ("def", .define), ("fn", .procedure)]
    let m : Machine := { store := { frames := #[{ bindings := NameMap.insert {} "x" .nil }] } }
    let life := e.life [("do", .group), ("def", .define), ("fn", .procedure)] 9 "" [.session,
      .run (some 0) "(def f (fn (x) (x 1)))", .run (some 0) "(def y f) (f f)"] m
    m.store.BindsResults ∧
      ((e.evaluate 9 ⟨0, []⟩ (.symbol "x")).run m).2.store.BindsResults ∧ life.seen.length = 2 ∧
      ∀ o ∈ life.seen, ∀ name v, o.bindings.find? name = some v → v.IsResult fun _ => True := by
  intro e m life
  have hm : m.store.BindsResults := by
    intro id name v hv
    match id with
    | 0 =>
      change (NameMap.insert {} "x" Value.nil).find? name = some v at hv
      rw [NameMap.find?_insert] at hv
      split at hv
      case isTrue  => exact Option.some.inj hv ▸ trivial
      case isFalse => cases hv
    | id + 1 => cases hv
  have h := binds_results "do" [("do", .group), ("def", .define), ("fn", .procedure)] {}
    .whenCaptured 9
  refine ⟨hm, (h.left m ⟨0, []⟩ (.symbol "x") hm).left, by decide +kernel, fun o ho => ?_⟩
  exact ((h.right m "" _ hm).right.right o ho).right

end Results

section Keywords

-- The procedures that can be got at from a value: the procedure that it is, those in its items or
-- in the form that a call evaluates, and those from the bindings that this form sees.
inductive Store.Reaches (σ : Store) : Value → Procedure → Prop
  | self (p : Procedure) : Reaches σ (.procedure p) p
  | item {items : List Value} {v : Value} {q : Procedure} :
    v ∈ items → Reaches σ v q → Reaches σ (.list items) q
  | body {p q : Procedure} : Reaches σ p.body q → Reaches σ (.procedure p) q
  | home {p q : Procedure} {id : FrameId} {name : String} {v : Value} :
    id ∈ p.home.chain → (σ.frame id).bindings.find? name = some v → Reaches σ v q →
      Reaches σ (.procedure p) q

-- Procedures as they are made when `fn` is evaluated in a program that has been read.
structure Procedure.IsProper (reserved : String → Bool) (p : Procedure) : Prop where
  parameters : ProperParameters reserved p.parameters
  body       : p.body.IsCode

-- All that can be got at is proper.
theorem Store.Binds.isProper_of_reaches {σ : Store} {N : String → Prop}
    {reserved : String → Bool} (h : σ.Binds N (·.IsProper reserved)) {v : Value} {p : Procedure}
    (hr : σ.Reaches v p) (hv : v.IsResult (·.IsProper reserved) ∨ v.IsCode) :
    p.IsProper reserved := by
  -- The way cannot lead through forms, because they hold no procedures. So it goes from one binding
  -- to the next.
  induction hr
  case self p => exact hv.resolve_right nofun
  case item hm _ hi => exact hi <| .inr <| (hv.resolve_left id).items _ hm
  case body p q _ hi => exact hi <| .inr <| Procedure.IsProper.body <| hv.resolve_right nofun
  case home hid hf _ hi => exact hi <| .inl (h _ _ _ hf).right

-- No frame binds a keyword, all procedures that can be got at from a binding have proper
-- parameters, and a keyword that stands alone fails in every scope, with a name error.
structure Store.KeywordsUnbound (σ : Store) (e : Evaluator) : Prop where
  names      : ∀ id name, e.keywords.reserves name → ¬(σ.frame id).bindings.contains name
  parameters : ∀ id name v p, (σ.frame id).bindings.find? name = some v → σ.Reaches v p →
    ProperParameters e.keywords.reserves p.parameters
  symbols    : ∀ depth s name printed, e.keywords.reserves name →
    (e.evaluate (depth + 1) s (.symbol name)).run ⟨σ, printed⟩ =
      (.error (.failed (Cause.unboundValue name)), ⟨σ, printed⟩)

theorem Evaluator.run_evaluate_symbol (e : Evaluator) (depth : Nat) (s : Scope) (name : String)
    (m : Machine) :
    (e.evaluate (depth + 1) s (.symbol name)).run m =
      match m.store.find? s name with
      | some v => (.ok v, m)
      | none => (.error (.failed (Cause.unboundValue name)), m) := by
  rw [evaluate_succ, evaluateWith, run_bind, run_find?]
  cases m.store.find? s name <;> rfl

theorem Store.Binds.keywordsUnbound {σ : Store} {e : Evaluator}
    (h : σ.Binds (¬e.keywords.reserves ·) (·.IsProper e.keywords.reserves)) :
    σ.KeywordsUnbound e where
  names id name hn hc :=
    have ⟨v, hv⟩ := Option.isSome_iff_exists.mp hc
    (h id name v hv).left hn
  parameters id name v p hv hp :=
    (h.isProper_of_reaches hp <| .inl (h id name v hv).right).parameters
  symbols depth s name printed hn := by
    rw [Evaluator.run_evaluate_symbol]
    cases hf : σ.find? s name
    case none   => rfl
    case some v => exact absurd hn (h.find? hf).left

theorem sustains_proper (reserved : String → Bool) :
    Sustains reserved (¬reserved ·) Value.IsCode (·.IsProper reserved) where
  items _ h      := h.items
  procedure _    := nofun
  names _        := id
  parameters _ h := h.parameters.free
  body _ h       := h.body
  made _ h hb    := ⟨h, hb⟩

-- At all times, no keyword is bound, and procedures that can be got at from bindings or results
-- have pairwise distinct parameters that are no keywords. A keyword that stands alone is a name
-- error then.
theorem Evaluator.keywords_unbound (grouping : String) (entries : List (String × Builtin))
    (sink : Sink) (retention : Retention) (depth : Nat) (library : String)
    (requests : List Request) :
    let e := ofBuiltins grouping entries sink retention
    let life := e.life entries depth library requests {}
    ∀ σ ∈ e.leaves depth library requests {} :: life.history.map (·.store),
      σ.KeywordsUnbound e ∧
      ∀ o ∈ life.seen, ∀ v p, o.outcome = .ok v → σ.Reaches v p →
        ProperParameters e.keywords.reserves p.parameters := by
  intro e life σ hσ
  have hr : e.keywords.reserves = fun name => (Builtin.find? entries name).isSome :=
    funext <| Keywords.reserves_ofBuiltins grouping entries
  have hs := sustains_proper e.keywords.reserves
  have h : life.history.Upholds _ _ (e.leaves depth library requests {}) life.seen :=
    upholds_life grouping entries sink retention depth (hr ▸ hs) (Store.Binds.empty _ _)
      (fun _ => Value.isCode_of_read) (.of_forall (fun _ _ => Value.isCode_of_read) requests)
  have hb : σ.Binds (¬e.keywords.reserves ·) (·.IsProper e.keywords.reserves) := by
    rcases List.mem_cons.mp hσ with rfl | hm
    case inl => exact hr ▸ h.store
    case inr =>
      obtain ⟨x, hx, rfl⟩ := List.mem_map.mp hm
      exact hr ▸ h.moments x hx
  refine ⟨hb.keywordsUnbound, fun o ho v p hv hp => ?_⟩
  exact (hb.isProper_of_reaches hp <| .inl <| hr ▸ (h.seen o ho).result v hv).parameters

-- The parameters of a procedure. Other values have none.
def Value.parameters : Value → List String
  | procedure p => p.parameters
  | _ => []

theorem Value.exists_of_parameters {v : Value} {name : String} {names : List String}
    (h : v.parameters = name :: names) : ∃ p, v = procedure p ∧ p.parameters = name :: names := by
  cases v
  case procedure p => exact ⟨p, rfl, h⟩
  all_goals cases h

-- A keyword that is not bound by a program which tries to, and a procedure from the library.
theorem Evaluator.keywords_unbound_by_definition :
    let e := Evaluator.ofBuiltins "do" [("do", .group), ("def", .define), ("fn", .procedure)]
    let library := "(def f (fn (x) (fn (y) x)))"
    let requests := [.session, .run (some 0) "(def g (f 1)) g", .run (some 0) "(def fn 1)"]
    let life := e.life [("do", .group), ("def", .define), ("fn", .procedure)] 9 library requests {}
    (e.leaves 9 library requests {}).KeywordsUnbound e ∧
      ∃ o ∈ life.seen, ∃ p, o.outcome = .ok (.procedure p) ∧ p.parameters = ["y"] ∧
        ProperParameters e.keywords.reserves p.parameters := by
  intro e library requests life
  have h := keywords_unbound "do" [("do", .group), ("def", .define), ("fn", .procedure)] {}
    .whenCaptured 9 library requests _ List.mem_cons_self
  have ho : (life.seen.map fun o => (o.outcome.toOption.map Value.parameters).getD []) =
      [["y"], []] := by decide +kernel
  obtain ⟨o, _, hm, hp, _⟩ := List.map_eq_cons_iff.mp ho
  have ho : o ∈ life.seen := hm ▸ List.mem_cons_self
  cases hv : o.outcome
  case error =>
    rw [hv] at hp
    cases hp
  case ok v =>
    rw [hv] at hp
    obtain ⟨p, rfl, hp⟩ := Value.exists_of_parameters hp
    exact ⟨h.left, o, ho, p, hv, hp, h.right o ho _ p hv (.self p)⟩

end Keywords
end ScopedLisp
