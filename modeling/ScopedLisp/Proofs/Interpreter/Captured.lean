import ScopedLisp.Proofs.Evaluation.Captured
import ScopedLisp.Proofs.Interpreter.Retention

-- Scopes that are captured by the result of their call or `let` stay as they are at its end,
-- however the interpreter is used from then on.
-- Main statement: `Evaluator.locals_kept_of_captures`.

namespace ScopedLisp

open Evaluation Store

-- The frame is one in which programs are run.
def Service.Uses (v : Service) (i : Interpreter) (id : FrameId) : Prop :=
  id = i.root.frame ∨ ∃ session ∈ v.sessions, id = session.scope.frame

namespace Interpreter.Serves

variable {i : Interpreter} {v : Service} {id : FrameId}

theorem lt_of_uses (hv : i.Serves v) (h : v.Uses i id) : id < v.machine.store.frames.size := by
  rcases h with rfl | ⟨session, hs, rfl⟩
  case inl => exact hv.root
  case inr =>
    obtain ⟨frame, he, _, hf⟩ := hv.sessions session hs
    exact he ▸ hf

theorem uses_of_scope? {session? : Option Nat} {s : Scope} (h : i.scope? v session? = some s) :
    v.Uses i s.frame := by
  cases session?
  case none => exact .inl <| Option.some.inj h ▸ rfl
  case some k =>
    obtain ⟨session, hk, rfl⟩ := Option.map_eq_some_iff.mp h
    exact .inr ⟨session, List.mem_of_getElem? hk, rfl⟩

end Interpreter.Serves

section

variable (grouping : String) (entries : List (String × Builtin)) (sink : Sink)
  (retention : Retention) (depth : Nat)

theorem Evaluator.settles_run (source : String) {s : Scope} {m : Machine}
    (hs : s.frame < m.store.frames.size) :
    let e := ofBuiltins grouping entries sink retention
    (e.programMoments entries depth source s m).Settles (· = s.frame) m.store
      ((e.run depth source s).run m).2.store := by
  intro e
  unfold programMoments
  rw [run_run]
  cases e.read source
  case error   => exact .refl ..
  case ok form => exact settles_evaluate grouping entries sink retention depth s form m hs

namespace Interpreter

variable {i : Interpreter} (he : i.evaluator = .ofBuiltins grouping entries sink retention)

include he in
theorem settles_answer {v : Service} (hv : i.Serves v) (request : Request) :
    (i.answerMoments entries depth v request).Settles (v.Uses i) v.machine.store
      (i.answer depth v request).2.machine.store := by
  cases request
  case session =>
    have h := Keeps.child v.machine.store i.root {}
    exact .nil h.size fun id hid _ => h.frames id hid
  case run session? source =>
    cases h : i.scope? v session?
    case none =>
      rw [answer_run_of_none _ _ _ h, answerMoments_run_of_none _ _ _ _ h]
      exact .refl ..
    case some s =>
      have hs := Evaluator.settles_run grouping entries sink retention depth source
        (m := { v.machine with printed := "" }) (hv.scope_lt h)
      rw [← he] at hs
      rw [answer_run _ _ _ h, answerMoments_run _ _ _ _ h]
      exact hs.mono fun _ hid => hid ▸ Serves.uses_of_scope? h

-- Only a new session brings a frame into use, which is new, and nothing else happens then.
theorem uses_of_answer {v : Service} {request : Request} {id : FrameId}
    (h : (i.answer depth v request).2.Uses i id) :
    v.Uses i id ∨ id = v.machine.store.frames.size ∧
      i.answerMoments entries depth v request = [] := by
  cases request
  case session =>
    rcases h with hr | ⟨session, hs, rfl⟩
    case inl => exact .inl <| .inl hr
    case inr =>
      rw [answer_session, List.mem_append, List.mem_singleton] at hs
      rcases hs with hs | rfl
      case inl => exact .inl <| .inr ⟨session, hs, rfl⟩
      case inr => exact .inr ⟨rfl, rfl⟩
  case run session? source =>
    cases hs : i.scope? v session?
    case none   => exact .inl (by rwa [answer_run_of_none _ _ _ hs] at h)
    case some s => exact .inl (by rwa [answer_run _ _ _ hs] at h)

include he in
theorem settles_serve {v : Service} (hv : i.Serves v) (requests : List Request) :
    (i.history entries depth v requests).Settles (v.Uses i) v.machine.store
      (i.serve depth v requests).2.machine.store := by
  induction requests generalizing v
  case nil => exact .refl ..
  case cons request requests hi =>
    have ha := settles_answer grouping entries sink retention depth he hv request
    have hv' := (serves_answer grouping entries sink retention depth he hv request).left
    rw [history, serve_cons]
    refine ha.append (hi hv') (fun id hid hu => ?_) (fun x hx id hid hu => ?_)
    all_goals rcases uses_of_answer entries depth hu with hu | ⟨hn, hm⟩
    case refine_1.inl => exact hu
    case refine_1.inr => exact absurd hid (hn ▸ Nat.lt_irrefl _)
    case refine_2.inl =>
      exact absurd (ha.captured x hx id hid).left (Nat.not_le_of_lt <| hv.lt_of_uses hu)
    case refine_2.inr => exact absurd hx (hm ▸ List.not_mem_nil)

end Interpreter

-- The store that the life of an interpreter ends with.
def Evaluator.leaves (e : Evaluator) (depth : Nat) (library : String) (requests : List Request)
    (m : Machine) : Store :=
  match (Interpreter.build e depth library).run m with
  | (.ok i, m') => (i.serve depth { machine := m' } requests).2.machine.store
  | (.error _, m') => m'.store

theorem Evaluator.leaves_of_ok {e : Evaluator} {depth : Nat} {library : String} {m m' : Machine}
    {v : Value} (requests : List Request)
    (h : (e.run depth library m.store.root.1).run { m with store := m.store.root.2 } =
      (.ok v, m')) :
    let i : Interpreter := ⟨e, m.store.root.1⟩
    let start : Service := { machine := { m' with store := m'.store.freeze i.root } }
    e.leaves depth library requests m = (i.serve depth start requests).2.machine.store := by
  unfold leaves
  rw [Interpreter.run_build, h]

theorem Evaluator.leaves_of_error {e : Evaluator} {depth : Nat} {library : String}
    {m m' : Machine} {stop : Stop} (requests : List Request)
    (h : (e.run depth library m.store.root.1).run { m with store := m.store.root.2 } =
      (.error stop, m')) :
    e.leaves depth library requests m = m'.store := by
  unfold leaves
  rw [Interpreter.run_build, h]
  cases stop <;> rfl

theorem Evaluator.settles_life (library : String) (requests : List Request) (m : Machine) :
    let e := ofBuiltins grouping entries sink retention
    (e.life entries depth library requests m).history.Settles (· = m.store.root.1.frame)
      m.store.root.2 (e.leaves depth library requests m) := by
  intro e
  let root := m.store.root.1
  let opened : Machine := { m with store := m.store.root.2 }
  have hs : root.frame < opened.store.frames.size := by simp [root, opened, Store.root]
  have hl : History.Settles (e.programMoments entries depth library root opened) (· = root.frame)
      opened.store ((e.run depth library root).run opened).2.store :=
    settles_run grouping entries sink retention depth library hs
  rcases hr : (e.run depth library root).run opened with ⟨stop | v, after⟩
  case error =>
    rw [hr] at hl
    rw [life_of_error e entries requests hr, leaves_of_error requests hr]
    exact hl
  case ok =>
    let i : Interpreter := ⟨e, root⟩
    let start : Service := { machine := { after with store := after.store.freeze root } }
    have hb : (Interpreter.build e depth library).run m = (.ok i, start.machine) := by
      rw [Interpreter.run_build, hr]
    obtain ⟨he, hv⟩ := Interpreter.serves_build grouping entries sink retention depth hb
    have hserve := Interpreter.settles_serve grouping entries sink retention depth he hv requests
    have hf : History.Settles [] (· = root.frame) after.store start.machine.store :=
      .nil (Nat.le_of_eq (size_modify ..).symm) fun _ _ hn => frame_modify_of_ne hn
    have hu {id : FrameId} (h : start.Uses i id) : id = root.frame :=
      h.resolve_right (by simp [start])
    rw [hr] at hl
    rw [life_of_ok e entries requests hr, leaves_of_ok requests hr,
      ← List.append_nil (programMoments ..)]
    refine (hl.trans hf hs).append hserve (fun _ _ => hu) fun x hx id hid ho => ?_
    rw [List.append_nil] at hx
    exact absurd (hl.captured x hx id hid).left (Nat.not_le_of_lt (hu ho ▸ hs))

-- A scope that is captured by the result of its call or `let` binds to the end what it has bound
-- then, with the same values.
theorem Evaluator.locals_kept_of_captures (library : String) (requests : List Request)
    (m : Machine) {before after : History} {s : Scope} {v : Value} {σ : Store} :
    let e := ofBuiltins grouping entries sink retention
    (e.life entries depth library requests m).history =
        before ++ ⟨.finish s (.ok v), σ⟩ :: after → v.captures s →
      (∀ x ∈ after, x.store.locals s = σ.locals s) ∧
        (e.leaves depth library requests m).locals s = σ.locals s := by
  intro e h hv
  have hs : History.Settles (e.life entries depth library requests m).history _ _ _ :=
    settles_life grouping entries sink retention depth library requests m
  rw [h] at hs
  have hc : Moment.captured? ⟨.finish s (.ok v), σ⟩ = some s.frame :=
    Moment.captured?_eq_some_iff.mpr ⟨s, v, rfl, hv, rfl⟩
  have ⟨_, hp, _⟩ := List.pairwise_append.mp hs.settled
  refine ⟨fun x hx => ?_, ?_⟩
  case refine_1 => exact congrArg Frame.bindings <| (List.pairwise_cons.mp hp).left x hx _ hc
  case refine_2 => exact congrArg Frame.bindings <| hs.kept _ (by simp) _ hc

end

-- The scope of a call ends with a procedure that captures it. That procedure is called later, and
-- binds the same name in its own scope.
theorem Evaluator.locals_kept_of_captures_shadowed :
    let entries := [("do", .group), ("def", .define), ("fn", .procedure)]
    let e := Evaluator.ofBuiltins "do" entries
    let requests := [.session, .run (some 0) "(def k ((fn (n) (fn (x) (def n x))) true))",
      .run (some 0) "(k false)"]
    ∃ before after s v σ,
      (e.life entries 10 "" requests {}).history = before ++ ⟨.finish s (.ok v), σ⟩ :: after ∧
        v.captures s ∧ after.length = 6 ∧ (∀ x ∈ after, x.store.locals s = σ.locals s) ∧
        (e.leaves 10 "" requests {}).locals s = σ.locals s := by
  intro entries e requests
  have hc : (e.life entries 10 "" requests {}).history.map (·.captured?) =
      [none] ++ some 2 :: List.replicate 6 none := by decide +kernel
  obtain ⟨before, rest, h, _, hr⟩ := List.map_eq_append_iff.mp hc
  obtain ⟨⟨event, σ⟩, after, rfl, hx, ha⟩ := List.map_eq_cons_iff.mp hr
  obtain ⟨s, v, rfl, hv, _⟩ := Moment.captured?_eq_some_iff.mp hx
  have hn : after.length = 6 := by simpa using congrArg List.length ha
  exact ⟨before, after, s, v, σ, h, hv, hn,
    locals_kept_of_captures "do" entries {} .whenCaptured 10 "" requests {} h hv⟩

end ScopedLisp
