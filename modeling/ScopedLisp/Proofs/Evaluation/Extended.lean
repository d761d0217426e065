import ScopedLisp.Proofs.Evaluation.Binds

-- Tables with more keywords. Evaluation asks of the names in a form whether they are keywords, and
-- of no others. So it does not notice keywords that the forms at hand do not mention.
-- Main statement: `Evaluator.agrees_extended`.

namespace ScopedLisp

open Evaluation

-- The table has all keywords of the other one, with the same handlers, and groups programs alike.
structure Keywords.Extends (k' k : Keywords) : Prop where
  grouping : k'.grouping = k.grouping
  handlers : ∀ name handler, k.find? name = some handler → k'.find? name = some handler

-- The name is a keyword in the second table only.
def Keywords.Adds (k k' : Keywords) (name : String) : Prop :=
  k'.reserves name ∧ ¬k.reserves name

namespace Keywords.Extends

variable {k k' : Keywords} {name : String}

theorem find?_eq (h : k'.Extends k) (hn : ¬k.Adds k' name) : k'.find? name = k.find? name := by
  cases hk : k.find? name
  case some handler => exact h.handlers name handler hk
  case none =>
    have hr : k.reserves name = false := congrArg Option.isSome hk
    exact Option.not_isSome_iff_eq_none.mp fun hr' => hn ⟨hr', Bool.eq_false_iff.mp hr⟩

theorem reserves_eq (h : k'.Extends k) (hn : ¬k.Adds k' name) :
    k'.reserves name = k.reserves name :=
  congrArg Option.isSome (h.find?_eq hn)

end Keywords.Extends

theorem NameMap.find?_insertAll_of_not_mem {α : Type} {m : NameMap α} {name : String}
    {entries : List (String × α)} (h : ∀ entry ∈ entries, entry.1 ≠ name) :
    (m.insertAll entries).find? name = m.find? name := by
  induction entries generalizing m
  case nil => rfl
  case cons entry entries hi =>
    have ⟨hentry, hentries⟩ := List.forall_mem_cons.mp h
    exact (hi hentries).trans <| (find?_insert ..).trans <| if_neg hentry.symm

-- New names make a table greater, whatever they stand for.
theorem Keywords.extends_extend {k : Keywords} {entries : List (String × Handler)}
    (h : ∀ entry ∈ entries, ¬k.reserves entry.1) : (k.extend entries).Extends k where
  grouping := rfl
  handlers name handler hf := by
    refine (NameMap.find?_insertAll_of_not_mem fun entry he hn => h entry he ?_).trans hf
    exact hn ▸ congrArg Option.isSome hf

namespace Value

-- The name stands somewhere in the form, also in the bodies of procedures.
inductive Mentions (name : String) : Value → Prop
  | symbol : Mentions name (symbol name)
  | item {items : List Value} {v : Value} : v ∈ items → Mentions name v → Mentions name (list items)
  | body {p : Procedure} : Mentions name p.body → Mentions name (procedure p)

def Avoids (p : String → Prop) (v : Value) : Prop :=
  ∀ name, Mentions name v → ¬p name

variable {p : String → Prop} {items : List Value}

theorem avoids_list : (list items).Avoids p ↔ ∀ item ∈ items, item.Avoids p := by
  constructor
  case mp  => exact fun h item hm name hn => h name (.item hm hn)
  case mpr =>
    intro h name hn
    cases hn
    case item hn hm => exact h _ hm name hn

theorem avoids_symbol {name : String} : (symbol name).Avoids p ↔ ¬p name := by
  constructor
  case mp  => exact fun h => h name .symbol
  case mpr =>
    intro h other hn
    cases hn
    exact h

end Value

section Reserved

variable {r r' : String → Bool} {keyword : String} {args : List Form}

-- The names that the form mentions are reserved in both ways or in none.
def Value.SameReserved (r r' : String → Bool) (form : Form) : Prop :=
  form.Avoids fun name => r name ≠ r' name

theorem Value.SameReserved.eq {name : String} (h : (symbol name).SameReserved r r') :
    r name = r' name :=
  not_ne_iff.mp <| avoids_symbol.mp h

theorem Keywords.parameters_congr {seen : List String} {forms : List Form}
    (h : ∀ form ∈ forms, form.SameReserved r r') :
    Keywords.parameters r seen forms = Keywords.parameters r' seen forms := by
  induction forms generalizing seen
  case nil => rfl
  case cons form forms hi =>
    have ⟨hform, hforms⟩ := List.forall_mem_cons.mp h
    cases form
    case symbol name =>
      have hr := Value.SameReserved.eq hform
      simp only [Keywords.parameters, nameOf, bind, Except.bind, hr, hi hforms]
    all_goals rfl

namespace Steps

theorem bindable_congr {form : Form} (h : form.SameReserved r r') :
    bindable r keyword form = bindable r' keyword form := by
  cases form
  case symbol name =>
    have hr := Value.SameReserved.eq h
    simp only [bindable, nameOf, bind, Except.bind, hr]
  all_goals rfl

variable (h : ∀ arg ∈ args, arg.SameReserved r r')

include h in
theorem definition_congr : definition r args = definition r' args := by
  match args with
  | [name, expr] => rw [definition, definition, bindable_congr (h name (by simp))]
  | [] | [_] | _ :: _ :: _ :: _ => rfl

include h in
theorem closure_congr : closure r args = closure r' args := by
  match args with
  | [.list forms, body] =>
    have hf := Value.avoids_list.mp (h (.list forms) (by simp))
    simp only [closure, itemsOf, check, Keywords.parameters_congr hf]
  | [.nil, _] | [.integer _, _] | [.text _, _] | [.boolean _, _] | [.symbol _, _]
  | [.procedure _, _] | [] | [_] | _ :: _ :: _ :: _ => rfl

theorem bindOne_congr {binding : Form} (h : binding.SameReserved r r') (next : Steps) :
    bindOne r binding next = bindOne r' binding next := by
  match binding with
  | .list [name, expr] =>
    have hn := Value.avoids_list.mp h name (by simp)
    simp only [bindOne, itemsOf, check, bindable_congr hn]
  | .list [] | .list [_] | .list (_ :: _ :: _ :: _) | .nil | .integer _ | .text _ | .boolean _
  | .symbol _ | .procedure _ => rfl

theorem bindAll_congr {bindings : List Form} (h : ∀ binding ∈ bindings, binding.SameReserved r r')
    (next : Steps) : bindAll r bindings next = bindAll r' bindings next := by
  induction bindings
  case nil => rfl
  case cons binding bindings hi =>
    have ⟨hb, hbs⟩ := List.forall_mem_cons.mp h
    rw [bindAll, bindAll, bindOne_congr hb, hi hbs]

include h in
theorem localBindings_congr : localBindings r args = localBindings r' args := by
  match args with
  | [.list bindings, body] =>
    have hb := Value.avoids_list.mp (h (.list bindings) (by simp))
    simp only [localBindings, itemsOf, check, bindAll_congr hb]
  | [.nil, _] | [.integer _, _] | [.text _, _] | [.boolean _, _] | [.symbol _, _]
  | [.procedure _, _] | [] | [_] | _ :: _ :: _ :: _ => rfl

-- What a builtin does depends on the reserved names among those in its arguments only.
include h in
theorem steps_congr (b : Builtin) : b.steps r args = b.steps r' args := by
  cases b
  case define      => exact definition_congr h
  case procedure   => exact closure_congr h
  case bindLocally => exact localBindings_congr h
  all_goals rfl

end Steps
end Reserved

-- In two contexts, the same comes of forms of the kind, as long as what is bound is of its kinds.
def Context.Agrees (c c' : Context) (N : String → Prop) (F : Form → Prop) (P : Procedure → Prop) :
    Prop :=
  ∀ s form m, F form → m.store.Binds N P → (c'.evaluate s form).run m = (c.evaluate s form).run m

section

variable {c c' : Context} {N : String → Prop} {F : Form → Prop} {P : Procedure → Prop}
  {reserved : String → Bool} {moments : Scope → Form → Machine → History}

theorem Context.run_enclosed_congr (hr : c'.retention = c.retention) {outer : Scope}
    {bindings : NameMap Value} {x x' : Scope → Evaluation Value} {m : Machine}
    (h : (x' (outer.child m.store.frames.size)).run
        { m with store := (m.store.child outer bindings).2 } =
      (x (outer.child m.store.frames.size)).run
        { m with store := (m.store.child outer bindings).2 }) :
    (c'.enclosed outer bindings x').run m = (c.enclosed outer bindings x).run m := by
  simp only [run_enclosed, hr, h]

-- Steps that are confined to the kinds lead to the same in both contexts.
theorem Steps.run_congr (hs : Sustains reserved N F P) (hc : c.Upholds moments N F P)
    (ha : c.Agrees c' N F P) (hsink : c'.sink = c.sink) (hr : c'.retention = c.retention)
    (steps : Steps) {s : Scope} {m : Machine} (hm : m.store.Binds N P)
    (hk : steps.Confined F reserved P) :
    (steps.run c' s).run m = (steps.run c s).run m := by
  induction steps generalizing s m
  case done | failed | procedure => rfl
  case look name next hi =>
    have hv : ∀ v ∈ m.store.find? s name, v.IsResult P := fun v hv => (hm.find? hv).right
    exact hi _ hm (hk P (fun _ => id) _ hv)
  case evaluate form next hi =>
    have h := hc s form m hk.left hm
    rw [run_evaluate, run_evaluate, ha s form m hk.left hm]
    generalize (c.evaluate s form).run m = after at *
    rcases after with ⟨_ | v, m'⟩
    case error => rfl
    case ok => exact hi v h.store (hk.right P (fun _ => id) v (h.result v rfl))
  case define name v next hi =>
    have ⟨hn, hv, hnext⟩ := hk
    rw [run_define, run_define]
    cases hd : m.store.define s name v
    case error => rfl
    case ok σ =>
      have hσ := hm.define (hs.names name hn) hv hd
      exact hi (m := { m with store := σ }) hσ (hnext P fun _ => id)
  case apply p values =>
    have ⟨hp, hvalues⟩ := hk
    exact Context.run_enclosed_congr hr <| ha _ p.body _ (hs.body p hp) <|
      hm.child p.home fun _ _ => hs.bound_of_call hp hvalues
  case nest body hi =>
    exact Context.run_enclosed_congr hr <| hi (hm.child s nofun) (hk P fun _ => id)
  case write text => simp only [run, hsink]

end

-- No form comes up that mentions such a name, if there is none to begin with.
theorem sustains_avoids (reserved : String → Bool) (p : String → Prop) :
    Sustains reserved (fun _ => True) (·.Avoids p) (·.body.Avoids p) where
  items _ h      := Value.avoids_list.mp h
  procedure _ h  := fun name hn => h name (.body hn)
  names _ _      := trivial
  parameters _ _ := fun _ _ => trivial
  body _ h       := h
  made _ _ h     := h

section

variable {grouping : String} {entries : List (String × Builtin)} {k k' : Keywords}
  (hb : k = .ofBuiltins grouping entries) (hk : k'.Extends k)

include hb hk in
theorem Evaluator.evaluateWith_extended (sink : Sink) (retention : Retention)
    (evaluate : Scope → Form → Evaluation Value) (s : Scope) {form : Form}
    (h : form.Avoids (k.Adds k')) :
    let e' : Evaluator := { keywords := k', sink, retention }
    e'.evaluateWith (e'.contextOf evaluate) s form =
      (Steps.ofForm (Builtin.find? entries) form).run (e'.contextOf evaluate) s := by
  intro e'
  have hr (name : String) : k.reserves name = (Builtin.find? entries name).isSome :=
    hb ▸ Keywords.reserves_ofBuiltins grouping entries name
  have hf (name : String) : k.find? name = (Builtin.find? entries name).map (·.handler) :=
    hb ▸ Keywords.find?_ofBuiltins grouping entries name
  -- The handlers of further keywords do not come up, since no name at a head is one of them.
  refine evaluateWith_eq_run_of e' evaluate s fun name args he => ?_
  subst he
  have ⟨hname, hargs⟩ := List.forall_mem_cons.mp <| Value.avoids_list.mp h
  refine ⟨(hk.find?_eq (Value.avoids_symbol.mp hname)).trans (hf name), fun b _ => ?_⟩
  refine Steps.steps_congr (fun arg ha other hm hn => hn ?_) b
  exact (hk.reserves_eq (hargs arg ha other hm)).trans (hr other)

-- Evaluators with the same sink and retention, of which the second one has more keywords.
include hb hk in
theorem Evaluator.agrees_extended (sink : Sink) (retention : Retention) (depth : Nat) :
    let e : Evaluator := { keywords := k, sink, retention }
    let e' : Evaluator := { keywords := k', sink, retention }
    (e.context depth).Agrees (e'.context depth) (fun _ => True) (·.Avoids (k.Adds k'))
      (·.body.Avoids (k.Adds k')) := by
  subst hb
  intro e e'
  induction depth
  case zero => exact fun _ _ _ _ _ => rfl
  case succ depth hi =>
    intro s form m hF hm
    have hs := sustains_avoids (fun name => (Builtin.find? entries name).isSome)
      (Keywords.Adds (.ofBuiltins grouping entries) k')
    have hu := upholds_evaluate grouping entries sink retention depth hs
    have hc := Steps.confined_ofForm (Builtin.find? entries) hs.toConfines hF
    have h := Steps.run_congr hs hu hi rfl rfl _ (s := s) hm hc
    rw [← evaluate_succ_eq_run] at h
    exact (congrArg (·.run m) (evaluateWith_extended rfl hk sink retention _ s hF)).trans h

end
end ScopedLisp
