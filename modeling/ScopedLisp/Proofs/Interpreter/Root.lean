import ScopedLisp.Proofs.Interpreter.Service

-- What use leaves of a store: how far evaluation changes scopes, and that the root of an
-- interpreter stays as its library has made it.

namespace ScopedLisp

open Evaluation Store

-- A scope as it is seen from outside.
structure Environment where
  bindings : NameMap Value
  frozen   : Bool
  parent?  : Option Scope

def Store.environment (σ : Store) (s : Scope) : Environment :=
  ⟨σ.locals s, (σ.frame s.frame).frozen, s.parent?⟩

theorem Store.environment_congr {σ σ' : Store} {s : Scope}
    (h : σ'.frame s.frame = σ.frame s.frame) : σ'.environment s = σ.environment s := by
  simp [environment, locals, h]

namespace Interpreter

namespace Serves

variable {i : Interpreter} {v : Service} {m : Machine}

theorem of_frame_eq (hv : i.Serves v)
    (hs : v.machine.store.frames.size ≤ m.store.frames.size)
    (hr : m.store.frame i.root.frame = v.machine.store.frame i.root.frame) :
    i.Serves { v with machine := m } where
  root     := Nat.lt_of_lt_of_le hv.root hs
  frozen   := hr ▸ hv.frozen
  sessions := fun session h =>
    have ⟨frame, he, hn, hf⟩ := hv.sessions session h
    ⟨frame, he, hn, Nat.lt_of_lt_of_le hf hs⟩

theorem scope_lt (hv : i.Serves v) {session? : Option Nat} {s : Scope}
    (h : i.scope? v session? = some s) : s.frame < v.machine.store.frames.size := by
  cases session?
  case none => exact Option.some.inj h ▸ hv.root
  case some k =>
    obtain ⟨session, hk, rfl⟩ := Option.map_eq_some_iff.mp h
    obtain ⟨frame, he, _, hf⟩ := hv.sessions session (List.mem_of_getElem? hk)
    exact he ▸ hf

-- Programs bind names in sessions, but none in the root.
theorem frame_root (hv : i.Serves v) {session? : Option Nat} {s : Scope}
    (h : i.scope? v session? = some s) {σ : Store} (hk : KeepsAround s v.machine.store σ) :
    σ.frame i.root.frame = v.machine.store.frame i.root.frame := by
  cases session?
  case none =>
    obtain rfl := Option.some.inj h
    exact (hk.keeps hv.frozen).frames _ hv.root
  case some k =>
    obtain ⟨session, hm, rfl⟩ := Option.map_eq_some_iff.mp h
    obtain ⟨frame, he, hn, _⟩ := hv.sessions session (List.mem_of_getElem? hm)
    exact hk.others _ hv.root (he ▸ hn.symm)

end Serves

variable (grouping : String) (entries : List (String × Builtin)) (sink : Sink)
  (retention : Retention) (depth : Nat)

theorem serves_build {library : String} {m m' : Machine} {i : Interpreter}
    (h : (build (.ofBuiltins grouping entries sink retention) depth library).run m = (.ok i, m')) :
    i.evaluator = .ofBuiltins grouping entries sink retention ∧ i.Serves { machine := m' } := by
  obtain ⟨rfl, rfl⟩ := build_eq_ok h
  have hs : m.store.root.1.frame < m.store.root.2.frames.size := by simp [Store.root]
  have hk := Evaluator.keepsAround_run grouping entries sink retention depth library
    (m := { m with store := m.store.root.2 }) hs
  have hr := Nat.lt_of_lt_of_le hs hk.size
  refine ⟨rfl, { root := ?_, frozen := ?_, sessions := ?_ }⟩
  case refine_1 => exact (size_modify ..).symm ▸ hr
  case refine_2 => simp [freeze, frame_modify, hr]
  case refine_3 => simp

variable {i : Interpreter} (he : i.evaluator = .ofBuiltins grouping entries sink retention)

include he in
theorem serves_answer {v : Service} (hv : i.Serves v) (request : Request) :
    let v' := (i.answer depth v request).2
    i.Serves v' ∧ v'.machine.store.frame i.root.frame = v.machine.store.frame i.root.frame := by
  cases request
  case session =>
    have hc := Keeps.child v.machine.store i.root {}
    have hr := hc.frames _ hv.root
    have hv' := hv.of_frame_eq (m := { v.machine with store := _ }) hc.size hr
    refine ⟨{ root := hv'.root, frozen := hv'.frozen, sessions := ?_ }, hr⟩
    intro session h
    simp only [answer_session, List.mem_append, List.mem_singleton] at h
    rcases h with h | rfl
    case inl => exact hv'.sessions session h
    case inr => exact ⟨_, rfl, Nat.ne_of_gt hv.root, by simp [answer_session, size_child]⟩
  case run session? source =>
    cases h : i.scope? v session?
    case none =>
      rw [answer_run_of_none _ _ _ h]
      exact ⟨hv, rfl⟩
    case some s =>
      have hk := Evaluator.keepsAround_run grouping entries sink retention depth source
        (m := { v.machine with printed := "" }) (hv.scope_lt h)
      rw [← he] at hk
      have hr := hv.frame_root h hk
      rw [answer_run _ _ _ h]
      exact ⟨hv.of_frame_eq hk.size hr, hr⟩

include he in
theorem serves_serve {v : Service} (hv : i.Serves v) (requests : List Request) :
    let v' := (i.serve depth v requests).2
    i.Serves v' ∧ v'.machine.store.frame i.root.frame = v.machine.store.frame i.root.frame := by
  induction requests generalizing v
  case nil => exact ⟨hv, rfl⟩
  case cons request requests hi =>
    have ⟨ha, hf⟩ := serves_answer grouping entries sink retention depth he hv request
    have ⟨hs, hf'⟩ := hi ha
    exact ⟨hs, hf'.trans hf⟩

end Interpreter

-- Evaluation changes no scope but the one it is in, and that one only by binding names there, which
-- takes a `def` in the form and a scope that is not frozen. So use never reaches the bindings of a
-- root, be it in sessions or in the root itself.
theorem Evaluator.environment_kept (grouping : String) (entries : List (String × Builtin))
    (sink : Sink) (retention : Retention) (depth : Nat) :
    let e := Evaluator.ofBuiltins grouping entries sink retention
    (∀ (m : Machine) (s : Scope) (form : Form), s.frame < m.store.frames.size →
      let before := m.store
      let after := ((e.evaluate depth s form).run m).2.store
      (∀ t : Scope, t.frame < before.frames.size → t.frame ≠ s.frame →
        after.environment t = before.environment t) ∧
      (after.environment s).parent? = (before.environment s).parent? ∧
      (after.environment s).frozen = (before.environment s).frozen ∧
      (∀ name, (before.environment s).bindings.contains name →
        (after.environment s).bindings.contains name) ∧
      ((before.environment s).frozen ∨ ¬form.hasHead (Builtin.defines entries) →
        (after.environment s).bindings = (before.environment s).bindings)) ∧
    ∀ (library : String) (m m' : Machine) (i : Interpreter) (requests : List Request),
      (Interpreter.build e depth library).run m = (.ok i, m') →
      let after := (i.serve depth { machine := m' } requests).2.machine.store
      after.environment i.root = m'.store.environment i.root := by
  intro e
  constructor
  case left =>
    intro m s form hs before after
    have hk : KeepsAround s before after :=
      keepsAround_evaluate grouping entries sink retention depth hs
    refine ⟨fun t ht hn => ?_, rfl, hk.frozen, hk.bound, ?_⟩
    case refine_1 => exact environment_congr <| hk.others _ ht hn
    case refine_2 =>
      rintro (hf | hf)
      case inl => exact hk.closed hf
      case inr =>
        have hq : Keeps before after := keeps_evaluate grouping entries sink retention depth hf hs
        exact congrArg Frame.bindings <| hq.frames _ hs
  case right =>
    intro library m m' i requests hb after
    have ⟨he, hv⟩ := Interpreter.serves_build grouping entries sink retention depth hb
    exact environment_congr <|
      (Interpreter.serves_serve grouping entries sink retention depth he hv requests).right

-- A session that binds a name, and runs that try the same in the session and in the root.
theorem Evaluator.environment_kept_by_definitions :
    let e := Evaluator.ofBuiltins "do" [("do", .group), ("def", .define)]
    let m : Machine := { store := { frames := #[{ frozen := true }, {}] } }
    let form : Form := .list [.symbol "def", .symbol "x", .boolean true]
    let after := ((e.evaluate 2 ⟨1, [0]⟩ form).run m).2.store
    after.locals ⟨1, [0]⟩ = NameMap.insert {} "x" (.boolean true) ∧
      after.environment ⟨0, []⟩ = m.store.environment ⟨0, []⟩ ∧
      ∃ i m', (Interpreter.build e 3 "").run {} = (.ok i, m') ∧
        let requests := [.session, .run (some 0) "(def x true)", .run none "(def x true)"]
        (i.serve 3 { machine := m' } requests).2.machine.store.environment i.root =
          m'.store.environment i.root :=
  have h := environment_kept "do" [("do", .group), ("def", .define)] {} .whenCaptured
  ⟨rfl, (h 2).left _ ⟨1, [0]⟩ _ (by decide) |>.left ⟨0, []⟩ (by decide) (by decide),
    _, _, rfl, (h 3).right "" {} _ _ _ rfl⟩

end ScopedLisp
