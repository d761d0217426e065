import ScopedLisp.Proofs.Evaluation.Arithmetic
import ScopedLisp.Proofs.Evaluation.Keeping
import ScopedLisp.Proofs.Store.Lockstep

-- Behavior without side effects. Wherever it starts from a store on, it ends in the same way: it
-- prints nothing, and all frames that were there are left as they were. What has been made since
-- the store makes no difference, so that such behavior can be put together in any order. A
-- procedure whose body behaves like this in the frames of its calls can be used like a function.
-- Main statement: `Procedure.Answers.gives_call`.

namespace ScopedLisp

open Evaluation Store

-- Nothing has been printed, and what was in the store is still there as it was.
structure Machine.Untouched (m m' : Machine) : Prop where
  store   : m.store.Keeps m'.store
  printed : m'.printed = m.printed

namespace Machine.Untouched

variable {m m₁ m₂ : Machine}

theorem refl (m : Machine) : m.Untouched m :=
  ⟨.refl _, rfl⟩

theorem trans (h₁ : m.Untouched m₁) (h₂ : m₁.Untouched m₂) : m.Untouched m₂ :=
  ⟨h₁.store.trans h₂.store, h₂.printed.trans h₁.printed⟩

end Machine.Untouched

namespace Store.Keeps

variable {σ σ' : Store} {s : Scope}

-- What a name stands for does not change.
theorem find?_eq (h : σ.Keeps σ') (hs : s.LivesIn σ) (name : String) :
    σ'.find? s name = σ.find? s name := by
  have hc : ∀ ids : List FrameId, (∀ id ∈ ids, id < σ.frames.size) →
      ids.findSome? (fun id => (σ'.frame id).bindings.find? name) =
        ids.findSome? fun id => (σ.frame id).bindings.find? name := by
    intro ids hids
    induction ids
    case nil => rfl
    case cons id ids hi =>
      have ⟨hid, hids⟩ := List.forall_mem_cons.mp hids
      rw [List.findSome?_cons, List.findSome?_cons, h.frames id hid, hi hids]
  exact hc s.chain hs

end Store.Keeps

namespace Behavior

variable {α β : Type} {x : Behavior α} {f : α → Behavior β} {σ σ' : Store}
  {outcome : Except Failure α}

-- From the store on, the behavior always ends with the outcome, and without side effects.
def Gives (x : Behavior α) (σ : Store) (outcome : Except Failure α) : Prop :=
  ∀ m : Machine, σ.Keeps m.store → ∃ m', x m outcome m' ∧ m.Untouched m'

namespace Gives

theorem pure (a : α) (σ : Store) : Gives (Pure.pure a) σ (.ok a) :=
  fun m _ => ⟨m, ⟨rfl, rfl⟩, .refl m⟩

theorem bind {a : α} {outcome : Except Failure β} (hx : x.Gives σ (.ok a))
    (hf : (f a).Gives σ outcome) : (x >>= f).Gives σ outcome := by
  intro m hm
  have ⟨m₁, hx, hu₁⟩ := hx m hm
  have ⟨m₂, hf, hu₂⟩ := hf m₁ (hm.trans hu₁.store)
  exact ⟨m₂, .inr ⟨a, m₁, hx, hf⟩, hu₁.trans hu₂⟩

theorem bind_error {failure : Failure} (hx : x.Gives σ (.error failure)) :
    (x >>= f).Gives σ (.error failure) := by
  intro m hm
  have ⟨m', hx, hu⟩ := hx m hm
  exact ⟨m', .inl ⟨failure, rfl, hx⟩, hu⟩

-- A new frame is nobody's concern once the scope has finished.
theorem enclosed {r : Retention} {outer : Scope} {bindings : NameMap Value}
    {x : Scope → Behavior Value} {outcome : Except Failure Value}
    (h : ∀ σ', σ.Keeps σ' → (x (outer.child σ'.frames.size)).Gives (σ'.child outer bindings).2
      outcome) : (enclosed r outer bindings x).Gives σ outcome := by
  intro m hm
  have ⟨m', hx, hu⟩ := h m.store hm { m with store := (m.store.child outer bindings).2 } (.refl _)
  have hk : KeepsAround (outer.child m.store.frames.size) (m.store.child outer bindings).2
      m'.store := hu.store.around (by simp [size_child, Scope.child])
  exact ⟨_, ⟨m', hx, rfl⟩, hk.keeps_of_child rfl, hu.printed⟩

end Gives
end Behavior

open Behavior

namespace Steps

variable {e : Evaluator} {σ : Store} {s : Scope} {outcome : Except Failure Value}

theorem gives_look {name : String} {next : Option Value → Steps} (hs : s.LivesIn σ)
    (h : ((next (σ.find? s name)).Ends e s).Gives σ outcome) :
    ((look name next).Ends e s).Gives σ outcome := by
  intro m hm
  have ⟨m', hn, hu⟩ := h m hm
  rw [← hm.find?_eq hs] at hn
  exact ⟨m', hn, hu⟩

-- Each of the forms gives an integer.
theorem gives_evaluateIntegers (he : e.Steady) (keyword : String) {args : List Form}
    {is : List Integer} {next : List Integer → Steps}
    (ha : List.Forall₂ (fun arg i => (e.Ends s arg).Gives σ (.ok (.integer i))) args is)
    (h : ((next is).Ends e s).Gives σ outcome) :
    ((evaluateIntegers keyword args next).Ends e s).Gives σ outcome := by
  induction ha generalizing next
  case nil => exact h
  case cons ha _ hi =>
    rw [evaluateIntegers, ends_evaluateInteger s he]
    exact ha.bind (hi h)

end Steps

namespace Evaluator

variable {e : Evaluator} {σ : Store} {s : Scope} {outcome : Except Failure Value}

theorem ends_integer (i : Integer) : e.Ends s (.integer i) = pure (.integer i) :=
  (ends_of_steps fun _ => rfl).trans (Steps.ends_done s _)

theorem gives_integer (i : Integer) : (e.Ends s (.integer i)).Gives σ (.ok (.integer i)) :=
  ends_integer (e := e) (s := s) i ▸ .pure _ _

theorem gives_boolean (b : Bool) : (e.Ends s (.boolean b)).Gives σ (.ok (.boolean b)) :=
  ends_boolean (e := e) s b ▸ .pure _ _

theorem gives_symbol {name : String} {v : Value} (hs : s.LivesIn σ)
    (h : σ.find? s name = some v) : (e.Ends s (.symbol name)).Gives σ (.ok v) := by
  have hl : e.Ends s (.symbol name) = (Steps.ofForm (fun _ => none) (.symbol name)).Ends e s :=
    ends_of_steps fun _ => evaluateWith_eq_run_of e _ s fun _ _ => nofun
  rw [hl]
  refine Steps.gives_look hs ?_
  rw [h]
  simp only [Steps.ends_done]
  exact .pure _ _

section Standard

variable (he : e.keywords = .standard)

include he

theorem gives_conditional {b : Bool} {condition positive negative : Form}
    (hc : (e.Ends s condition).Gives σ (.ok (.boolean b)))
    (h : (e.Ends s (if b then positive else negative)).Gives σ outcome) :
    (e.Ends s (.list [.symbol "if", condition, positive, negative])).Gives σ outcome := by
  rw [ends_standard s he "if" .conditional rfl, Builtin.steps, Steps.conditional,
    Steps.ends_evaluateBoolean s (steady_standard he)]
  refine hc.bind ?_
  cases b
  all_goals
    simp only [Bool.false_eq_true, if_true, if_false,
      Steps.ends_evaluate_done s (steady_standard he)] at h ⊢
    exact h

theorem gives_equality {left right : Form} {v w : Value} (hl : (e.Ends s left).Gives σ (.ok v))
    (hr : (e.Ends s right).Gives σ (.ok w)) :
    (e.Ends s (.list [.symbol "=", left, right])).Gives σ (.ok (.boolean (v.same w))) := by
  rw [ends_standard s he "=" .equal rfl, Builtin.steps, Steps.equality]
  simp only [Steps.ends_evaluate s (steady_standard he), Steps.ends_done]
  exact hl.bind <| hr.bind <| .pure _ _

theorem gives_less {left right : Form} {a b : Integer}
    (hl : (e.Ends s left).Gives σ (.ok (.integer a)))
    (hr : (e.Ends s right).Gives σ (.ok (.integer b))) :
    (e.Ends s (.list [.symbol "<", left, right])).Gives σ (.ok (.boolean (a < b))) := by
  rw [ends_standard s he "<" .less rfl, Builtin.steps, Steps.comparison]
  simp only [Steps.ends_evaluateInteger s (steady_standard he), Steps.ends_done]
  exact hl.bind <| hr.bind <| .pure _ _

theorem gives_subtract {args : List Form} {is : List Integer}
    (ha : List.Forall₂ (fun arg i => (e.Ends s arg).Gives σ (.ok (.integer i))) args is) :
    (e.Ends s (.list (.symbol "-" :: args))).Gives σ
      (.integer <$> Keywords.differenceOf is) := by
  rw [ends_standard s he "-" .subtract rfl]
  refine Steps.gives_evaluateIntegers (steady_standard he) "-" ha ?_
  exact fun m _ => ⟨m, Steps.ends_check_integer e s _ m, .refl m⟩

end Standard
end Evaluator

-- A call of the procedure with the value gives the outcome.
def Procedure.Answers (p : Procedure) (e : Evaluator) (σ : Store) (v : Value)
    (outcome : Except Failure Value) : Prop :=
  (enclosed e.retention p.home (NameMap.insertAll {} (p.parameters.zip [v])) fun inner =>
    e.Ends inner p.body).Gives σ outcome

namespace Procedure

variable {e : Evaluator} {σ σ' : Store} {s : Scope} {p : Procedure} {v : Value}
  {outcome : Except Failure Value} {name : String}

-- The body is evaluated in a frame that binds nothing but the parameter.
theorem answers_of_body (hp : p.parameters = [name])
    (h : ∀ σ', σ.Keeps σ' →
      (e.Ends (p.home.child σ'.frames.size) p.body).Gives
        (σ'.child p.home (NameMap.insert {} name v)).2 outcome) : p.Answers e σ v outcome := by
  rw [Answers, hp]
  exact .enclosed h

section Call

variable (he : e.Steady) {arg : Form}

include he

theorem ends_call (ha : p.arity = 1) (arg : Form) :
    (Steps.call p [arg]).Ends e s = e.Ends s arg >>= fun v => (Steps.apply p [v]).Ends e s := by
  have ha : p.arity = [arg].length := ha
  rw [Steps.call, if_pos ha, Steps.evaluateAll, Steps.ends_evaluate s he]
  rfl

theorem Answers.gives_call (h : p.Answers e σ v outcome) (ha : p.arity = 1)
    (harg : (e.Ends s arg).Gives σ (.ok v)) :
    ((Steps.call p [arg]).Ends e s).Gives σ outcome := by
  rw [ends_call he ha]
  refine harg.bind ?_
  rw [Steps.ends_apply]
  exact h

theorem gives_call_error {failure : Failure} (ha : p.arity = 1)
    (harg : (e.Ends s arg).Gives σ (.error failure)) :
    ((Steps.call p [arg]).Ends e s).Gives σ (.error failure) := by
  rw [ends_call he ha]
  exact harg.bind_error

end Call
end Procedure

namespace Evaluator

variable {e : Evaluator} {σ : Store} {s : Scope} {p : Procedure} {name : String}
  {outcome : Except Failure Value}

-- A use of a name that stands for a procedure is a call of the procedure.
theorem gives_named {args : List Form} (hn : e.keywords.find? name = none) (hs : s.LivesIn σ)
    (hp : σ.find? s name = some (.procedure p))
    (h : ((Steps.call p args).Ends e s).Gives σ outcome) :
    (e.Ends s (.list (.symbol name :: args))).Gives σ outcome := by
  have hl : e.Ends s (.list (.symbol name :: args)) =
      (Steps.ofForm (fun _ => none) (.list (.symbol name :: args))).Ends e s := by
    refine ends_of_steps fun _ => evaluateWith_eq_run_of e _ s fun _ _ hf => ?_
    obtain ⟨hf, _⟩ := List.cons.inj (Value.list.inj hf)
    exact ⟨Value.symbol.inj hf ▸ hn, nofun⟩
  rw [hl]
  refine Steps.gives_look hs ?_
  rw [hp]
  exact h

end Evaluator
end ScopedLisp
