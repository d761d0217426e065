import ScopedLisp.Proofs.Evaluation.BuiltinSteps

-- What happens during an evaluation, one moment after the other. An evaluation by itself only says
-- how it ends. Its moments say which names it looks up and binds on the way, which procedures it
-- calls, and which scopes come to an end.

namespace ScopedLisp

inductive Event
  | look (s : Scope) (name : String)
  | define (s : Scope) (name : String) (v : Value)
  | call (p : Procedure) (values : List Value)
  | finish (s : Scope) (outcome : Except Stop Value)

-- An event, and the store right before it.
structure Moment where
  event : Event
  store : Store

-- The moments of an evaluation in a new scope, given the moments of the steps in that scope.
def Scope.enclosedMoments (outer : Scope) (bindings : NameMap Value)
    (x : Scope → Evaluation Value) (moments : Scope → Machine → List Moment) (m : Machine) :
    List Moment :=
  let inner := outer.child m.store.frames.size
  let opened := { m with store := (m.store.child outer bindings).2 }
  let after := (x inner).run opened
  moments inner opened ++ [⟨.finish inner after.1, after.2.store⟩]

-- The moments of steps, given the moments of the forms that they ask for.
def Steps.moments (c : Context) (ofForm : Scope → Form → Machine → List Moment) :
    Steps → Scope → Machine → List Moment
  | done _, _, _ | failed _, _, _ | procedure .., _, _ | write _, _, _ => []
  | look name next, s, m =>
    ⟨.look s name, m.store⟩ :: (next (m.store.find? s name)).moments c ofForm s m
  | evaluate form next, s, m =>
    ofForm s form m ++
      match (c.evaluate s form).run m with
      | (.ok v, m') => (next v).moments c ofForm s m'
      | (.error _, _) => []
  | define name v next, s, m =>
    ⟨.define s name v, m.store⟩ ::
      match m.store.define s name v with
      | .ok σ => next.moments c ofForm s { m with store := σ }
      | .error _ => []
  | apply p values, _, m =>
    ⟨.call p values, m.store⟩ ::
      p.home.enclosedMoments (NameMap.insertAll {} (p.parameters.zip values))
        (fun inner => c.evaluate inner p.body) (fun inner m => ofForm inner p.body m) m
  | nest body, s, m =>
    s.enclosedMoments {} (fun inner => body.run c inner)
      (fun inner m => body.moments c ofForm inner m) m

-- The moments of a form's evaluation, if the names in the table stand for the builtins.
def Evaluator.moments (e : Evaluator) (entries : List (String × Builtin)) :
    (depth : Nat) → Scope → Form → Machine → List Moment
  | 0 => fun _ _ _ => []
  | depth + 1 => fun s form m =>
    (Steps.ofForm (Builtin.find? entries) form).moments (e.context depth)
      (moments e entries depth) s m

-- The bindings that the frame gives up, which it does if its scope ends in this moment and the
-- result does not capture the scope.
def Moment.givenUp? (x : Moment) (id : FrameId) : Option (NameMap Value) :=
  match x.event with
  | .finish s outcome =>
    if s.frame = id ∧ Retention.whenCaptured.gives s outcome then some (x.store.locals s) else none
  | _ => none

-- What has been found for a name: the frame that binds it, and the value.
structure Look where
  scope  : Scope
  name   : String
  frame? : Option FrameId
  value? : Option Value

-- The first frame of the chain that binds the name.
def Store.binder? (σ : Store) (chain : List FrameId) (name : String) : Option FrameId :=
  chain.find? fun id => (σ.frame id).bindings.contains name

def Moment.look? (x : Moment) : Option Look :=
  match x.event with
  | .look s name => some ⟨s, name, x.store.binder? s.chain name, x.store.find? s name⟩
  | _ => none

-- A sequence of moments, earliest first.
abbrev History := List Moment

namespace History

def looks (h : History) : List Look :=
  h.filterMap Moment.look?

-- The bindings that the frame has given up, if it has.
def givenUp? (h : History) (id : FrameId) : Option (NameMap Value) :=
  h.findSome? (·.givenUp? id)

-- A frame of the chain has given up a binding of the name, and no frame inside of it has one.
def Lost (past : History) (σ : Store) (chain : List FrameId) (name : String) : Prop :=
  ∃ inside id outside bindings, chain = inside ++ id :: outside ∧
    (∀ other ∈ inside, ¬(σ.frame other).bindings.contains name) ∧
    past.givenUp? id = some bindings ∧ bindings.contains name

-- In this moment a name is looked up that is lost. It is not found then, or found in a frame that
-- is the wrong one.
def Misses (past : History) (x : Moment) : Prop :=
  match x.event with
  | .look s name => past.Lost x.store s.chain name
  | _ => False

-- A name that is lost is looked up at some moment of what happens after the past.
def AnyMissed (past : History) : History → Prop
  | [] => False
  | x :: rest => past.Misses x ∨ AnyMissed (past ++ [x]) rest

variable {past h₁ h₂ : History}

theorem lost_cons {σ : Store} {id : FrameId} {chain : List FrameId} {name : String} :
    past.Lost σ (id :: chain) name ↔
      (∃ bindings, past.givenUp? id = some bindings ∧ bindings.contains name) ∨
      (¬(σ.frame id).bindings.contains name ∧ past.Lost σ chain name) := by
  constructor
  case mp =>
    rintro ⟨inside, lost, outside, bindings, he, hn, hb⟩
    cases inside
    case nil =>
      have ⟨hid, _⟩ := List.cons.inj he
      exact .inl ⟨bindings, hid ▸ hb⟩
    case cons =>
      have ⟨hid, hc⟩ := List.cons.inj he
      rw [List.forall_mem_cons, ← hid] at hn
      exact .inr ⟨hn.left, _, lost, outside, bindings, hc, hn.right, hb⟩
  case mpr =>
    rintro (⟨bindings, hb⟩ | ⟨hc, inside, lost, outside, bindings, rfl, hn, hb⟩)
    case inl => exact ⟨[], id, chain, bindings, rfl, by simp, hb⟩
    case inr =>
      exact ⟨id :: inside, lost, outside, bindings, rfl, List.forall_mem_cons.mpr ⟨hc, hn⟩, hb⟩

theorem looks_append (h₁ h₂ : History) : looks (h₁ ++ h₂) = h₁.looks ++ h₂.looks :=
  List.filterMap_append

theorem givenUp?_append (h₁ h₂ : History) (id : FrameId) :
    givenUp? (h₁ ++ h₂) id = (h₁.givenUp? id).or (h₂.givenUp? id) :=
  List.findSome?_append

theorem givenUp?_append_finish (past : History) (s : Scope) (outcome : Except Stop Value)
    (σ : Store) (id : FrameId) :
    givenUp? (past ++ [⟨.finish s outcome, σ⟩]) id =
      (past.givenUp? id).or
        (if s.frame = id ∧ Retention.whenCaptured.gives s outcome then some (σ.locals s)
          else none) := by
  rw [givenUp?_append]
  unfold givenUp?
  rw [List.findSome?_singleton]
  rfl

theorem not_misses {x : Moment} (h : x.look? = none) : ¬past.Misses x := by
  unfold Moment.look? at h
  unfold Misses
  cases hx : x.event
  case look => simp [hx] at h
  all_goals exact id

theorem anyMissed_append :
    AnyMissed past (h₁ ++ h₂) ↔ AnyMissed past h₁ ∨ AnyMissed (past ++ h₁) h₂ := by
  induction h₁ generalizing past
  case nil => simp [AnyMissed]
  case cons x rest hi => simp [AnyMissed, hi, or_assoc]

end History
end ScopedLisp
