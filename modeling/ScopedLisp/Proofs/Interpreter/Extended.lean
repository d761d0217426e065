import ScopedLisp.Proofs.Evaluation.Extended
import ScopedLisp.Proofs.Interpreter.Binds

-- Interpreters with more keywords. As long as no token is one of the further keywords, nobody can
-- tell that they are there.
-- Main statement: `Evaluator.same_use_of_extends`.

namespace ScopedLisp

open Evaluation Store

-- No token of the text is such a name.
def Program.Avoids (p : String → Prop) (source : String) : Prop :=
  ∀ t ∈ Token.scan source, ¬p t.text

-- No token of the program that is to be run, if there is one, is such a name.
def Request.Avoids (p : String → Prop) : Request → Prop
  | session => True
  | run _ source => Program.Avoids p source

-- All symbols of a program are tokens, up to the word in front.
theorem Value.avoids_of_read {p : String → Prop} {reserved : String → Bool}
    {grouping source : String} (hg : ¬p grouping) (hs : Program.Avoids p source) {form : Form}
    (h : Program.read grouping reserved source = .ok form) : form.Avoids p := by
  have ha {token : String} (ht : ¬p token) {form : Form}
      (h : Atom.read reserved token = .ok form) : form.Avoids p := by
    rcases Atom.read_eq_ok h with ⟨_, rfl⟩ | ⟨_, rfl⟩ | ⟨_, rfl⟩ | rfl
    case inr.inr.inr => exact avoids_symbol.mpr ht
    all_goals exact fun _ => nofun
  exact Program.forall_read (fun _ => ha hg) (fun t ht _ => ha (hs t ht))
    (fun _ => avoids_list.mpr) h

section

variable {grouping : String} {entries : List (String × Builtin)} {k k' : Keywords} (sink : Sink)
  (retention : Retention) (depth : Nat) (hb : k = .ofBuiltins grouping entries)
  (hg : k.reserves k.grouping) (hk : k'.Extends k)

include hg in
theorem Evaluator.readsAs_avoids {source : String} (h : Program.Avoids (k.Adds k') source) :
    ({ keywords := k, sink, retention } : Evaluator).ReadsAs (·.Avoids (k.Adds k')) source :=
  fun _ hr => Value.avoids_of_read (fun ha => ha.right hg) h hr

include hg hk in
theorem Evaluator.read_extended {source : String} (h : Program.Avoids (k.Adds k') source) :
    ({ keywords := k', sink, retention } : Evaluator).read source =
      ({ keywords := k, sink, retention } : Evaluator).read source := by
  change Program.read k'.grouping _ _ = _
  rw [hk.grouping]
  exact Program.read_congr (hk.reserves_eq fun ha => ha.right hg)
    fun t ht => hk.reserves_eq (h t ht)

include hb hg hk in
theorem Evaluator.run_extended {source : String} (h : Program.Avoids (k.Adds k') source)
    (s : Scope) {m : Machine}
    (hm : m.store.Binds (fun _ => True) (·.body.Avoids (k.Adds k'))) :
    (({ keywords := k', sink, retention } : Evaluator).run depth source s).run m =
      (({ keywords := k, sink, retention } : Evaluator).run depth source s).run m := by
  rw [run_run, run_run, read_extended sink retention hg hk h]
  cases hr : ({ keywords := k, sink, retention } : Evaluator).read source
  case error   => rfl
  case ok form =>
    have hf := readsAs_avoids sink retention hg h form hr
    exact agrees_extended hb hk sink retention depth s form m hf hm

namespace Interpreter

variable {i : Interpreter} (he : i.evaluator = { keywords := k, sink, retention })

include hb hg hk he in
theorem answer_extended {v : Service} {request : Request} (hr : request.Avoids (k.Adds k'))
    (hv : v.machine.store.Binds (fun _ => True) (·.body.Avoids (k.Adds k'))) :
    let i' : Interpreter := { i with evaluator := { keywords := k', sink, retention } }
    i'.answer depth v request = i.answer depth v request := by
  intro i'
  cases request
  case session => rfl
  case run session? source =>
    have hs : i'.scope? v session? = i.scope? v session? := rfl
    cases h : i.scope? v session?
    case none   => rw [answer_run_of_none _ _ _ h, answer_run_of_none _ _ _ (hs.trans h)]
    case some s =>
      have ha := Evaluator.run_extended sink retention depth hb hg hk hr s
        (m := { v.machine with printed := "" }) hv
      rw [← he] at ha
      have ha : i'.start depth source s v.machine = i.start depth source s v.machine := ha
      rw [answer_run _ _ _ h, answer_run _ _ _ (hs.trans h), ha]

include hb hg hk he in
theorem serve_extended {v : Service} {requests : List Request}
    (hr : ∀ request ∈ requests, request.Avoids (k.Adds k'))
    (hv : v.machine.store.Binds (fun _ => True) (·.body.Avoids (k.Adds k'))) :
    let i' : Interpreter := { i with evaluator := { keywords := k', sink, retention } }
    i'.serve depth v requests = i.serve depth v requests := by
  intro i'
  induction requests generalizing v
  case nil => rfl
  case cons request requests hi =>
    have ⟨hreq, hreqs⟩ := List.forall_mem_cons.mp hr
    have ha : i'.answer depth v request = _ :=
      answer_extended sink retention depth hb hg hk he hreq hv
    have hF : request.ReadsAs i.evaluator (·.Avoids (k.Adds k')) := by
      cases request
      case session => trivial
      case run     => exact he ▸ Evaluator.readsAs_avoids sink retention hg hreq
    have hv' := upholds_answer grouping entries sink retention depth (sustains_avoids _ _)
      (he.trans (by rw [hb]; rfl)) hv hF
    rw [serve_cons, serve_cons, ha, hi hreqs hv'.store]

include hb hg hk in
theorem build_extended {library : String} (hl : Program.Avoids (k.Adds k') library) {m : Machine}
    (hm : m.store.Binds (fun _ => True) (·.body.Avoids (k.Adds k'))) :
    let e : Evaluator := { keywords := k, sink, retention }
    let e' : Evaluator := { keywords := k', sink, retention }
    let built := (build e depth library).run m
    (build e' depth library).run m =
      (built.1.map fun i => { i with evaluator := e' }, built.2) := by
  intro e e'
  have hr : (e'.run depth library m.store.root.1).run { m with store := m.store.root.2 } = _ :=
    Evaluator.run_extended sink retention depth hb hg hk hl m.store.root.1
      (m := { m with store := m.store.root.2 }) hm.root
  rw [run_build, run_build, hr]
  rcases (e.run depth library m.store.root.1).run _ with ⟨(_ | _) | _, _⟩ <;> rfl

end Interpreter

end

-- The same comes of building the interpreter and of all that is asked of it: the values, the
-- failures, what is printed and what is bound. Only the evaluators differ. The machine may be in
-- use, as long as no procedure on it is about the further keywords.
theorem Evaluator.same_use_of_extends (grouping : String) (entries : List (String × Builtin))
    (k' : Keywords) (sink : Sink) (retention : Retention) (depth : Nat) (library : String)
    (requests : List Request) (m : Machine) :
    let k := Keywords.ofBuiltins grouping entries
    let e : Evaluator := { keywords := k, sink, retention }
    let e' : Evaluator := { keywords := k', sink, retention }
    let built := (Interpreter.build e depth library).run m
    k.reserves k.grouping → k'.Extends k →
    m.store.Binds (fun _ => True) (·.body.Avoids (k.Adds k')) →
    Program.Avoids (k.Adds k') library → (∀ request ∈ requests, request.Avoids (k.Adds k')) →
      (∀ source, Program.Avoids (k.Adds k') source → e'.read source = e.read source) ∧
      (Interpreter.build e' depth library).run m =
        (built.1.map fun i => { i with evaluator := e' }, built.2) ∧
      ∀ i, built.1 = .ok i → ∀ depth,
        ({ i with evaluator := e' } : Interpreter).serve depth { machine := built.2 } requests =
          i.serve depth { machine := built.2 } requests := by
  intro k e e' built hg hk hm hl hr
  have hs := sustains_avoids (fun name => (Builtin.find? entries name).isSome) (k.Adds k')
  refine ⟨fun source => read_extended sink retention hg hk,
    Interpreter.build_extended sink retention depth rfl hg hk hl hm, fun i hi depth => ?_⟩
  have ⟨he, _⟩ := Interpreter.build_eq_ok (Prod.ext hi rfl : built = (.ok i, built.2))
  have hv : built.2.store.Binds _ _ := Interpreter.binds_build grouping entries sink retention _ hs
    (readsAs_avoids sink retention hg hl) hm
  exact Interpreter.serve_extended sink retention depth rfl hg hk (congrArg _ he) hr hv

-- A keyword that evaluates its arguments twice, next to programs that do without it, on a machine
-- that has a procedure already. One of the programs tries to bind a keyword that both tables have.
theorem Evaluator.same_use_of_extends_twice :
    let k := Keywords.ofBuiltins "do" [("do", .group), ("def", .define), ("fn", .procedure)]
    let k' := k.extend [("twice", fun c s args => do
      let _ ← c.evaluateBody s args
      c.evaluateBody s args)]
    let e : Evaluator := { keywords := k }
    let e' : Evaluator := { keywords := k' }
    let library := "(def f (fn (x) x))"
    let requests := [.session, .run (some 0) "(def g (f f)) (g 1)", .run (some 0) "(def do 1)"]
    let p : Procedure := ⟨0, ["x"], .symbol "x", ⟨0, []⟩⟩
    let used : Machine := { store := (Store.root {} (NameMap.insert {} "h" (.procedure p))).2 }
    k.Adds k' "twice" ∧ k'.Extends k ∧
      used.store.Binds (fun _ => True) (·.body.Avoids (k.Adds k')) ∧
      ∃ i m, (Interpreter.build e 9 library).run used = (.ok i, m) ∧
        (Interpreter.build e' 9 library).run used = (.ok { i with evaluator := e' }, m) ∧
        ({ i with evaluator := e' } : Interpreter).serve 9 { machine := m } requests =
          i.serve 9 { machine := m } requests := by
  intro k k' e e' library requests p used
  have hk : k'.Extends k := Keywords.extends_extend <| List.forall_mem_singleton.mpr (by decide)
  have hm : used.store.Binds (fun _ => True) (·.body.Avoids (k.Adds k')) := by
    have hx : ¬k.Adds k' "x" := fun hx => absurd hx.left (by decide)
    refine (Store.Binds.empty _ _).child ⟨0, []⟩ fun name v hv => ⟨trivial, ?_⟩
    rw [NameMap.find?_insert] at hv
    split at hv
    case isTrue  => exact Option.some.inj hv ▸ Value.avoids_symbol.mpr hx
    case isFalse => cases hv
  have hl : Program.Avoids (k.Adds k') library := by
    unfold Program.Avoids Keywords.Adds
    decide +kernel
  have hr : ∀ request ∈ requests, request.Avoids (k.Adds k') := by
    refine List.forall_mem_cons.mpr ⟨trivial, List.forall_mem_cons.mpr ⟨?_, ?_⟩⟩
    case' refine_2 => refine List.forall_mem_singleton.mpr ?_
    all_goals
      unfold Request.Avoids Program.Avoids Keywords.Adds
      decide +kernel
  obtain ⟨-, hb, hs⟩ := same_use_of_extends "do" [("do", .group), ("def", .define),
    ("fn", .procedure)] k' {} .whenCaptured 9 library requests used (by decide) hk hm hl hr
  let built := (Interpreter.build e 9 library).run used
  obtain ⟨i, hi⟩ : ∃ i, built.1 = .ok i := by
    have hn : built.1.toOption.isSome := by decide +kernel
    rcases h : built.1 with _ | i
    case error => simp [h, Except.toOption] at hn
    case ok    => exact ⟨i, rfl⟩
  have hf := congrArg (fun outcome => (Except.map (fun i => { i with evaluator := e' }) outcome,
    built.2)) hi
  exact ⟨⟨by decide, by decide⟩, hk, hm, i, built.2, Prod.ext hi rfl, hb.trans hf, hs i hi 9⟩

end ScopedLisp
