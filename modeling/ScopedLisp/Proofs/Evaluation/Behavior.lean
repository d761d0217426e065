import ScopedLisp.Proofs.Evaluation.BuiltinSteps
import ScopedLisp.Proofs.Store.Keeping

-- What evaluations lead to that may nest as deep as they need to. Depth only ever cuts an evaluation
-- short, so that without it there is one end at most. How a form ends follows from how the forms end
-- that it asks for, one after the other, and the laws of sequences are those of a monad.
-- Main statements: `Evaluator.steady_ofBuiltins`, `Steps.ends_evaluate`.

namespace ScopedLisp

open Evaluation

-- How something may end that starts on a machine: with what, and how the machine is left. If it
-- does not end on a machine, then nothing is related to that machine.
def Behavior (α : Type) : Type :=
  Machine → Except Failure α → Machine → Prop

namespace Behavior

variable {α β γ : Type}

theorem ext {x y : Behavior α} (h : ∀ m outcome m', x m outcome m' ↔ y m outcome m') : x = y :=
  funext fun m => funext fun outcome => funext fun m' => propext (h m outcome m')

def fail (failure : Failure) : Behavior α := fun m outcome m' =>
  outcome = .error failure ∧ m' = m

-- What comes second starts where the first has left the machine. After a failure, it is left out.
instance : Monad Behavior where
  pure a := fun m outcome m' => outcome = .ok a ∧ m' = m
  bind x f := fun m outcome m' =>
    (∃ failure, outcome = .error failure ∧ x m (.error failure) m') ∨
      ∃ a between, x m (.ok a) between ∧ f a between outcome m'

theorem pure_iff {a : α} {m m' : Machine} {outcome : Except Failure α} :
    (pure a : Behavior α) m outcome m' ↔ outcome = .ok a ∧ m' = m :=
  .rfl

theorem bind_iff {x : Behavior α} {f : α → Behavior β} {m m' : Machine}
    {outcome : Except Failure β} :
    (x >>= f) m outcome m' ↔
      (∃ failure, outcome = .error failure ∧ x m (.error failure) m') ∨
        ∃ a between, x m (.ok a) between ∧ f a between outcome m' :=
  .rfl

theorem bind_pure_self (x : Behavior α) : (x >>= fun a => pure a) = x := by
  refine ext fun m outcome m' => ?_
  rw [bind_iff]
  constructor
  case mp =>
    rintro (⟨failure, rfl, hx⟩ | ⟨a, between, hx, rfl, rfl⟩)
    case inl => exact hx
    case inr => exact hx
  case mpr =>
    intro hx
    cases outcome
    case error failure => exact .inl ⟨failure, rfl, hx⟩
    case ok a          => exact .inr ⟨a, m', hx, rfl, rfl⟩

-- What comes first always succeeds in the same way.
theorem bind_iff_of_ok {x : Behavior α} {f : α → Behavior β} {a : α} {m between m' : Machine}
    (hx : ∀ outcome m', x m outcome m' ↔ outcome = .ok a ∧ m' = between)
    {outcome : Except Failure β} : (x >>= f) m outcome m' ↔ f a between outcome m' := by
  simp only [bind_iff, hx]
  constructor
  case mp =>
    rintro (⟨_, _, he, _⟩ | ⟨_, _, ⟨he, rfl⟩, hf⟩)
    case inl => cases he
    case inr => exact Except.ok.inj he ▸ hf
  case mpr => exact fun hf => .inr ⟨a, between, ⟨rfl, rfl⟩, hf⟩

theorem bind_of_pure (a : α) (f : α → Behavior β) : (pure a >>= f) = f a :=
  ext fun _ _ _ => bind_iff_of_ok fun _ _ => pure_iff

theorem bind_bind (x : Behavior α) (f : α → Behavior β) (g : β → Behavior γ) :
    (x >>= f >>= g) = x >>= fun a => f a >>= g := by
  refine ext fun m outcome m' => ?_
  simp only [bind_iff]
  constructor
  case mp =>
    rintro (⟨failure, ho, ⟨_, he, hx⟩ | ⟨a, m₁, hx, hf⟩⟩ | ⟨b, m₂, ⟨_, he, _⟩ | ⟨a, m₁, hx, hf⟩, hg⟩)
    case inl.inl => exact .inl ⟨failure, ho, Except.error.inj he ▸ hx⟩
    case inl.inr => exact .inr ⟨a, m₁, hx, .inl ⟨failure, ho, hf⟩⟩
    case inr.inl => cases he
    case inr.inr => exact .inr ⟨a, m₁, hx, .inr ⟨b, m₂, hf, hg⟩⟩
  case mpr =>
    rintro (⟨failure, ho, hx⟩ | ⟨a, m₁, hx, ⟨failure, ho, hf⟩ | ⟨b, m₂, hf, hg⟩⟩)
    case inl     => exact .inl ⟨failure, ho, .inl ⟨failure, rfl, hx⟩⟩
    case inr.inl => exact .inl ⟨failure, ho, .inr ⟨a, m₁, hx, hf⟩⟩
    case inr.inr => exact .inr ⟨b, m₂, .inr ⟨a, m₁, hx, hf⟩, hg⟩

instance : LawfulMonad Behavior :=
  LawfulMonad.mk' Behavior bind_pure_self bind_of_pure bind_bind

theorem fail_bind (failure : Failure) (f : α → Behavior β) :
    (fail failure >>= f) = fail failure := by
  refine ext fun m outcome m' => ?_
  rw [bind_iff]
  constructor
  case mp =>
    rintro (⟨_, rfl, he, rfl⟩ | ⟨_, _, ⟨he, _⟩, _⟩)
    case inl => exact ⟨congrArg Except.error (Except.error.inj he), rfl⟩
    case inr => cases he
  case mpr =>
    rintro ⟨rfl, rfl⟩
    exact .inl ⟨failure, rfl, rfl, rfl⟩

-- A name becomes bound in the innermost frame of the scope.
def define (s : Scope) (name : String) (v : Value) : Behavior Unit := fun m outcome m' =>
  match m.store.define s name v with
  | .ok σ => outcome = .ok () ∧ m' = { m with store := σ }
  | .error cause => outcome = .error cause ∧ m' = m

-- Something happens in a new scope, which has finished at the end.
def enclosed (r : Retention) (outer : Scope) (bindings : NameMap Value)
    (x : Scope → Behavior Value) : Behavior Value := fun m outcome m' =>
  let inner := outer.child m.store.frames.size
  ∃ after, x inner { m with store := (m.store.child outer bindings).2 } outcome after ∧
    m' = { after with store := after.store.release r inner (outcome.mapError .failed) }

-- Outcomes that are the same, unless they are failures. These are only related.
inductive OutcomesLike (R : Failure → Failure → Prop) : Except Failure α → Except Failure α → Prop
  | ok (a : α) : OutcomesLike R (.ok a) (.ok a)
  | error {f g : Failure} (h : R f g) : OutcomesLike R (.error f) (.error g)

-- On every machine, one of the two ends if and only if the other one does. They leave the machine
-- the same, with outcomes that are the same up to a relation of failures.
structure Like (R : Failure → Failure → Prop) (x y : Behavior α) : Prop where
  left  : ∀ {m outcome m'}, x m outcome m' →
    ∃ outcome', OutcomesLike R outcome outcome' ∧ y m outcome' m'
  right : ∀ {m outcome m'}, y m outcome m' →
    ∃ outcome', OutcomesLike R outcome' outcome ∧ x m outcome' m'

variable {R : Failure → Failure → Prop}

theorem OutcomesLike.refl (hR : ∀ f, R f f) (outcome : Except Failure α) :
    OutcomesLike R outcome outcome := by
  cases outcome
  case ok a    => exact .ok a
  case error f => exact .error (hR f)

theorem Like.refl (hR : ∀ f, R f f) (x : Behavior α) : x.Like R x where
  left h  := ⟨_, .refl hR _, h⟩
  right h := ⟨_, .refl hR _, h⟩

theorem Like.fail {f g : Failure} (h : R f g) : (fail f : Behavior α).Like R (fail g) where
  left := by
    rintro _ _ _ ⟨rfl, rfl⟩
    exact ⟨_, .error h, rfl, rfl⟩
  right := by
    rintro _ _ _ ⟨rfl, rfl⟩
    exact ⟨_, .error h, rfl, rfl⟩

theorem Like.bind (hR : ∀ f, R f f) (x : Behavior α) {f g : α → Behavior β}
    (h : ∀ a, (f a).Like R (g a)) : (x >>= f).Like R (x >>= g) where
  left := by
    rintro m outcome m' (⟨failure, rfl, hx⟩ | ⟨a, between, hx, hf⟩)
    case inl => exact ⟨_, .refl hR _, .inl ⟨failure, rfl, hx⟩⟩
    case inr =>
      obtain ⟨outcome', ho, hg⟩ := (h a).left hf
      exact ⟨outcome', ho, .inr ⟨a, between, hx, hg⟩⟩
  right := by
    rintro m outcome m' (⟨failure, rfl, hx⟩ | ⟨a, between, hx, hg⟩)
    case inl => exact ⟨_, .refl hR _, .inl ⟨failure, rfl, hx⟩⟩
    case inr =>
      obtain ⟨outcome', ho, hf⟩ := (h a).right hg
      exact ⟨outcome', ho, .inr ⟨a, between, hx, hf⟩⟩

-- Whether a scope gives up its bindings depends on the value, and not on the failure.
theorem Like.enclosed (r : Retention) (outer : Scope) (bindings : NameMap Value)
    {x y : Scope → Behavior Value} (h : ∀ inner, (x inner).Like R (y inner)) :
    (enclosed r outer bindings x).Like R (enclosed r outer bindings y) where
  left := by
    rintro m outcome _ ⟨after, hx, rfl⟩
    obtain ⟨outcome', ho, hy⟩ := (h _).left hx
    refine ⟨outcome', ho, after, hy, ?_⟩
    cases ho <;> rfl
  right := by
    rintro m outcome _ ⟨after, hy, rfl⟩
    obtain ⟨outcome', ho, hx⟩ := (h _).right hy
    refine ⟨outcome', ho, after, hx, ?_⟩
    cases ho <;> rfl

-- The new scope has no bindings any more if it gives them up.
theorem locals_of_enclosed {r : Retention} {outer : Scope} {bindings : NameMap Value}
    {x : Scope → Behavior Value} {m m' : Machine} {outcome : Except Failure Value}
    (h : enclosed r outer bindings x m outcome m')
    (hg : r.gives (outer.child m.store.frames.size) (outcome.mapError .failed)) :
    m'.store.locals (outer.child m.store.frames.size) = {} := by
  obtain ⟨after, _, rfl⟩ := h
  simp only [Store.release, if_pos hg]
  exact Store.locals_clear ..

end Behavior

-- The second result is the first one, unless that one has run out of depth.
def GoesOn (r₁ r₂ : Except Stop Value × Machine) : Prop :=
  r₁.1 = .error .tooDeep ∨ r₂ = r₁

theorem GoesOn.refl (r : Except Stop Value × Machine) : GoesOn r r :=
  .inr rfl

-- Evaluation in the second context goes on where it is cut short in the first one.
structure Context.Deepens (c₁ c₂ : Context) : Prop where
  evaluate  : ∀ s form m, GoesOn ((c₁.evaluate s form).run m) ((c₂.evaluate s form).run m)
  sink      : c₂.sink = c₁.sink
  retention : c₂.retention = c₁.retention

namespace Context.Deepens

variable {c₁ c₂ : Context}

theorem enclosed (hc : c₁.Deepens c₂) (outer : Scope) (bindings : NameMap Value)
    {x₁ x₂ : Scope → Evaluation Value} (m : Machine)
    (hx : ∀ inner m, GoesOn ((x₁ inner).run m) ((x₂ inner).run m)) :
    GoesOn ((c₁.enclosed outer bindings x₁).run m) ((c₂.enclosed outer bindings x₂).run m) := by
  rw [run_enclosed, run_enclosed, hc.retention]
  rcases hx (outer.child m.store.frames.size)
    { m with store := (m.store.child outer bindings).2 } with h | h
  case inl => exact .inl h
  case inr => exact .inr (by simp only [h])

theorem run (hc : c₁.Deepens c₂) (steps : Steps) (s : Scope) (m : Machine) :
    GoesOn ((steps.run c₁ s).run m) ((steps.run c₂ s).run m) := by
  induction steps generalizing s m
  case done | failed | procedure => exact .refl _
  case look hi => exact hi _ s m
  case evaluate form next hi =>
    rw [Steps.run_evaluate, Steps.run_evaluate]
    have h := hc.evaluate s form m
    generalize (c₁.evaluate s form).run m = r₁, (c₂.evaluate s form).run m = r₂ at h
    rcases r₁ with ⟨stop | v, m'⟩
    case error =>
      rcases h with h | rfl
      case inl => exact .inl h
      case inr => exact .refl _
    case ok =>
      obtain rfl := h.resolve_left nofun
      exact hi v s m'
  case define name v next hi =>
    rw [Steps.run_define, Steps.run_define]
    cases m.store.define s name v
    case error => exact .refl _
    case ok σ  => exact hi s { m with store := σ }
  case apply p values =>
    rw [Steps.run_apply, Steps.run_apply]
    exact hc.enclosed _ _ m fun inner m => hc.evaluate inner p.body m
  case nest hi => exact hc.enclosed _ _ m hi
  case write text =>
    rw [Steps.run_write, Steps.run_write, hc.sink]
    exact .refl _

end Context.Deepens

namespace Evaluator

-- More depth makes no difference to an evaluation that has ended.
def Steady (e : Evaluator) : Prop :=
  ∀ {depth depth' : Nat}, depth ≤ depth' → ∀ s form m,
    GoesOn ((e.evaluate depth s form).run m) ((e.evaluate depth' s form).run m)

theorem steady_ofBuiltins (grouping : String) (entries : List (String × Builtin)) (sink : Sink)
    (retention : Retention) : (ofBuiltins grouping entries sink retention).Steady := by
  intro depth depth' hd
  induction depth generalizing depth'
  case zero => exact fun _ _ _ => .inl rfl
  case succ depth hi =>
    obtain ⟨depth', rfl⟩ := Nat.exists_eq_succ_of_ne_zero (Nat.ne_zero_of_lt hd)
    intro s form m
    rw [evaluate_succ_eq_run, evaluate_succ_eq_run]
    have hc : ((ofBuiltins grouping entries sink retention).context depth).Deepens
        ((ofBuiltins grouping entries sink retention).context depth') :=
      { evaluate := hi (Nat.le_of_succ_le_succ hd), sink := rfl, retention := rfl }
    exact hc.run _ s m

theorem steady_standard {e : Evaluator} (he : e.keywords = .standard) : e.Steady := by
  obtain ⟨_, sink, retention⟩ := e
  subst he
  exact steady_ofBuiltins "do" _ sink retention

-- What the form leads to in the scope.
def Ends (e : Evaluator) (s : Scope) (form : Form) : Behavior Value := fun m outcome m' =>
  ∃ depth, (e.evaluate depth s form).run m = (outcome.mapError .failed, m')

end Evaluator

-- What the steps lead to in the scope.
def Steps.Ends (e : Evaluator) (s : Scope) (steps : Steps) : Behavior Value := fun m outcome m' =>
  ∃ depth, (steps.run (e.context depth) s).run m = (outcome.mapError .failed, m')

theorem mapError_failed_injective {α : Type} {o₁ o₂ : Except Failure α}
    (h : o₁.mapError Stop.failed = o₂.mapError Stop.failed) : o₁ = o₂ := by
  cases o₁ <;> cases o₂ <;> cases h <;> rfl

theorem GoesOn.eq {r₁ r₂ : Except Stop Value × Machine} (h : GoesOn r₁ r₂)
    {outcome : Except Failure Value} {m : Machine} (he : r₁ = (outcome.mapError .failed, m)) :
    r₂ = (outcome.mapError .failed, m) := by
  subst he
  refine h.resolve_left ?_
  cases outcome
  case ok    => nofun
  case error => nofun

namespace Evaluator

variable {e : Evaluator} {s : Scope} {form : Form}

theorem Steady.context (he : e.Steady) {depth depth' : Nat} (hd : depth ≤ depth') :
    (e.context depth).Deepens (e.context depth') where
  evaluate  := he hd
  sink      := rfl
  retention := rfl

-- An evaluation ends in one way at most.
theorem Ends.unique (he : e.Steady) {m m₁ m₂ : Machine} {o₁ o₂ : Except Failure Value}
    (h₁ : e.Ends s form m o₁ m₁) (h₂ : e.Ends s form m o₂ m₂) : o₁ = o₂ ∧ m₁ = m₂ := by
  obtain ⟨d₁, h₁⟩ := h₁
  obtain ⟨d₂, h₂⟩ := h₂
  have h₁ := (he (Nat.le_max_left d₁ d₂) s form m).eq h₁
  have h₂ := (he (Nat.le_max_right d₁ d₂) s form m).eq h₂
  obtain ⟨ho, hm⟩ := Prod.mk.inj (h₁.symm.trans h₂)
  exact ⟨mapError_failed_injective ho, hm⟩

-- If the form takes the steps, then it leads to what they lead to.
theorem ends_of_steps {steps : Steps}
    (h : ∀ depth, e.evaluateWith (e.context depth) s form = steps.run (e.context depth) s) :
    e.Ends s form = steps.Ends e s := by
  refine Behavior.ext fun m outcome m' => ?_
  constructor
  case mp =>
    rintro ⟨_ | depth, hr⟩
    case zero => cases outcome <;> cases hr
    case succ =>
      rw [evaluate_succ, h] at hr
      exact ⟨depth, hr⟩
  case mpr =>
    rintro ⟨depth, hr⟩
    refine ⟨depth + 1, ?_⟩
    rwa [evaluate_succ, h]

end Evaluator

namespace Steps

variable {e : Evaluator} (s : Scope)

-- Steps for which no other form is evaluated.
theorem ends_of_run {steps : Steps} (r : Machine → Except Failure Value × Machine)
    (h : ∀ depth m, (steps.run (e.context depth) s).run m = ((r m).1.mapError .failed, (r m).2)) :
    steps.Ends e s = fun m outcome m' => outcome = (r m).1 ∧ m' = (r m).2 := by
  refine Behavior.ext fun m outcome m' => ?_
  constructor
  case mp =>
    rintro ⟨depth, hr⟩
    have ⟨ho, hm⟩ := Prod.mk.inj ((h depth m).symm.trans hr)
    exact ⟨mapError_failed_injective ho.symm, hm.symm⟩
  case mpr =>
    rintro ⟨rfl, rfl⟩
    exact ⟨0, h 0 m⟩

theorem ends_done (v : Value) : (done v).Ends e s = pure v :=
  ends_of_run s (fun m => (.ok v, m)) fun _ _ => rfl

theorem ends_failed (failure : Failure) : (failed failure).Ends e s = .fail failure :=
  ends_of_run s (fun m => (.error failure, m)) fun _ _ => rfl

theorem ends_procedure_iff {parameters : List String} {body : Form} {m m' : Machine}
    {outcome : Except Failure Value} :
    (procedure parameters body).Ends e s m outcome m' ↔
      outcome = .ok (.procedure (m.store.procedure parameters body s).1) ∧
        m' = { m with store := (m.store.procedure parameters body s).2 } := by
  rw [ends_of_run s (fun m => (.ok (.procedure (m.store.procedure parameters body s).1),
    { m with store := (m.store.procedure parameters body s).2 })) fun _ _ => rfl]

theorem ends_check {α : Type} (x : Except Failure α) (next : α → Steps) :
    (check x next).Ends e s =
      match x with
      | .ok a => (next a).Ends e s
      | .error failure => .fail failure := by
  cases x
  case ok    => rfl
  case error => exact ends_failed s _

theorem ends_evaluate (he : e.Steady) (form : Form) (next : Value → Steps) :
    (evaluate form next).Ends e s = e.Ends s form >>= fun v => (next v).Ends e s := by
  refine Behavior.ext fun m outcome m' => ?_
  rw [Behavior.bind_iff]
  constructor
  case mp =>
    rintro ⟨depth, h⟩
    rw [run_evaluate] at h
    rcases hr : ((e.context depth).evaluate s form).run m with ⟨stop | v, between⟩
    case error =>
      rw [hr] at h
      obtain ⟨ho, rfl⟩ := Prod.mk.inj h
      cases outcome
      case ok            => cases ho
      case error failure => exact .inl ⟨failure, rfl, depth, hr.trans h⟩
    case ok =>
      rw [hr] at h
      exact .inr ⟨v, between, ⟨depth, hr⟩, depth, h⟩
  case mpr =>
    rintro (⟨failure, rfl, depth, h⟩ | ⟨v, between, ⟨d₁, h₁⟩, d₂, h₂⟩)
    case inl =>
      have h : ((e.context depth).evaluate s form).run m = _ := h
      refine ⟨depth, ?_⟩
      rw [run_evaluate, h]
      rfl
    case inr =>
      -- Both of them end at the greater one of the depths at which each of them ends.
      have h₁ : ((e.context (max d₁ d₂)).evaluate s form).run m = _ :=
        (he (Nat.le_max_left d₁ d₂) s form m).eq h₁
      refine ⟨max d₁ d₂, ?_⟩
      rw [run_evaluate, h₁]
      exact ((he.context (Nat.le_max_right d₁ d₂)).run _ s between).eq h₂

-- To evaluate a form is all that is done.
theorem ends_evaluate_done (he : e.Steady) (form : Form) :
    (evaluate form done).Ends e s = e.Ends s form := by
  rw [ends_evaluate s he]
  simp only [ends_done]
  exact bind_pure _

theorem ends_define (name : String) (v : Value) (next : Steps) :
    (define name v next).Ends e s = Behavior.define s name v >>= fun _ => next.Ends e s := by
  refine Behavior.ext fun m outcome m' => ?_
  simp only [Ends, run_define, Behavior.bind_iff, Behavior.define]
  cases m.store.define s name v
  case ok σ => simp
  case error cause =>
    constructor
    case mp =>
      rintro ⟨_, h⟩
      obtain ⟨ho, rfl⟩ := Prod.mk.inj h
      have ho : Except.mapError Stop.failed (.error cause) = _ := ho
      exact .inl ⟨cause, (mapError_failed_injective ho).symm, rfl, rfl⟩
    case mpr =>
      rintro (⟨_, rfl, he, rfl⟩ | ⟨_, _, ⟨he, _⟩, _⟩)
      case inl => exact ⟨0, by cases he; rfl⟩
      case inr => cases he

-- The new scope finishes with the outcome of what was done in it.
theorem enclosed_eq_iff {c : Context} {outer : Scope} {bindings : NameMap Value}
    {x : Scope → Evaluation Value} {m m' : Machine} {outcome : Except Failure Value} :
    (c.enclosed outer bindings x).run m = (outcome.mapError .failed, m') ↔
      let inner := outer.child m.store.frames.size
      ∃ after,
        (x inner).run { m with store := (m.store.child outer bindings).2 } =
          (outcome.mapError .failed, after) ∧
        m' = { after with
          store := after.store.release c.retention inner (outcome.mapError .failed) } := by
  rw [Context.run_enclosed]
  constructor
  case mp =>
    intro h
    obtain ⟨ho, rfl⟩ := Prod.mk.inj h
    exact ⟨_, Prod.ext ho rfl, by rw [← ho]⟩
  case mpr =>
    rintro ⟨after, h, rfl⟩
    simp only [h]

theorem exists_enclosed_iff {outer : Scope} {bindings : NameMap Value}
    {x : Nat → Scope → Evaluation Value} {m m' : Machine} {outcome : Except Failure Value} :
    (∃ depth, ((e.context depth).enclosed outer bindings (x depth)).run m =
      (outcome.mapError .failed, m')) ↔
      Behavior.enclosed e.retention outer bindings (fun inner m outcome m' =>
        ∃ depth, (x depth inner).run m = (outcome.mapError .failed, m')) m outcome m' := by
  simp only [enclosed_eq_iff, Behavior.enclosed]
  constructor
  case mp =>
    rintro ⟨depth, after, h, hm⟩
    exact ⟨after, ⟨depth, h⟩, hm⟩
  case mpr =>
    rintro ⟨after, ⟨depth, h⟩, hm⟩
    exact ⟨depth, after, h, hm⟩

theorem ends_nest (body : Steps) :
    (nest body).Ends e s = .enclosed e.retention s {} fun inner => body.Ends e inner :=
  Behavior.ext fun _ _ _ => exists_enclosed_iff

theorem ends_apply (p : Procedure) (values : List Value) :
    (apply p values).Ends e s =
      .enclosed e.retention p.home (NameMap.insertAll {} (p.parameters.zip values)) fun inner =>
        e.Ends inner p.body :=
  Behavior.ext fun _ _ _ => exists_enclosed_iff

theorem ends_evaluateBoolean (he : e.Steady) (keyword : String) (form : Form)
    (next : Bool → Steps) :
    (evaluateBoolean keyword form next).Ends e s =
      e.Ends s form >>= fun
        | .boolean b => (next b).Ends e s
        | other => .fail (Cause.notBoolean keyword other.kind other.literal) := by
  rw [evaluateBoolean, ends_evaluate s he]
  refine bind_congr fun v => ?_
  cases v <;> first | rfl | exact ends_failed s _

theorem ends_evaluateInteger (he : e.Steady) (keyword : String) (form : Form)
    (next : Integer → Steps) :
    (evaluateInteger keyword form next).Ends e s =
      e.Ends s form >>= fun
        | .integer i => (next i).Ends e s
        | other => .fail (Cause.notInteger keyword other.kind other.literal) := by
  rw [evaluateInteger, ends_evaluate s he]
  refine bind_congr fun v => ?_
  cases v <;> first | rfl | exact ends_failed s _

end Steps

theorem Keywords.find?_standard (b : Builtin) : standard.find? b.keyword = some b.handler := by
  cases b <;> rfl

namespace Evaluator

variable {e : Evaluator} (s : Scope)

-- The use of a keyword that stands for a builtin.
theorem ends_keyword {name : String} {b : Builtin} (hb : e.keywords.find? name = some b.handler)
    (args : List Form) :
    e.Ends s (.list (.symbol name :: args)) = (b.steps e.keywords.reserves args).Ends e s := by
  refine ends_of_steps fun depth => ?_
  simp only [evaluateWith, evaluateNamed, hb]
  exact (b.run_steps (e.context depth) s args).symm

theorem ends_standard (he : e.keywords = .standard) (name : String) (b : Builtin)
    (hb : b.keyword = name) (args : List Form) :
    e.Ends s (.list (.symbol name :: args)) = (b.steps Keywords.standard.reserves args).Ends e s :=
  he ▸ ends_keyword s (by rw [he, ← hb]; exact Keywords.find?_standard b) args

theorem ends_headed (items args : List Form) :
    e.Ends s (.list (.list items :: args)) =
      (Steps.ofForm (fun _ => none) (.list (.list items :: args))).Ends e s :=
  ends_of_steps fun _ => evaluateWith_eq_run_of e _ s fun _ _ => nofun

theorem ends_boolean (b : Bool) : e.Ends s (.boolean b) = pure (.boolean b) :=
  (ends_of_steps fun _ => rfl).trans (Steps.ends_done s _)

end Evaluator
end ScopedLisp
