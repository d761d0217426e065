import ScopedLisp.Proofs.Evaluation.BuiltinSteps
import ScopedLisp.Proofs.Store.Keeping

-- What evaluation leaves as it is. In a scope, it changes the innermost frame at most, and that
-- only by binding names. If no `def` is in sight, then it does not even do that.

namespace ScopedLisp

open Evaluation Store

-- Evaluation of a form in a scope keeps all frames but that of the scope.
def Context.KeepsAround (c : Context) : Prop :=
  ∀ s form m, s.frame < m.store.frames.size →
    Store.KeepsAround s m.store ((c.evaluate s form).run m).2.store

theorem Sink.store_write (sink : Sink) (text : String) (m : Machine) :
    ((sink.write text).run m).2.store = m.store := by
  rw [run_write]

theorem Context.keeps_enclosed {c : Context} {outer : Scope} {bindings : NameMap Value}
    {x : Scope → Evaluation Value} {m : Machine}
    (h : ∀ inner m, inner.frame < m.store.frames.size →
      Store.KeepsAround inner m.store ((x inner).run m).2.store) :
    Keeps m.store ((c.enclosed outer bindings x).run m).2.store := by
  rw [run_enclosed]
  let opened := (m.store.child outer bindings).2
  have hs : m.store.frames.size < opened.frames.size := by simp [opened, size_child]
  have hk := h (outer.child m.store.frames.size) { m with store := opened } hs
  exact @KeepsAround.keeps_of_child _ _ _ outer _ _ _ rfl hk

namespace Steps

variable {c : Context}

theorem keepsAround_run (hc : c.KeepsAround) (steps : Steps) {s : Scope} {m : Machine}
    (hs : s.frame < m.store.frames.size) :
    KeepsAround s m.store ((steps.run c s).run m).2.store := by
  induction steps generalizing s m
  case done | failed => exact .refl ..
  case look hi => exact hi _ hs
  case evaluate form next hi =>
    have h := hc s form m hs
    rw [run_evaluate]
    generalize (c.evaluate s form).run m = after at *
    rcases after with ⟨_ | v, m'⟩
    case error => exact h
    case ok => exact h.trans <| hi v (Nat.lt_of_lt_of_le hs h.size)
  case define name v next hi =>
    rw [run_define]
    cases h : m.store.define s name v
    case error => exact .refl ..
    case ok σ =>
      have h := KeepsAround.define h
      exact h.trans <| hi (m := { m with store := σ }) (Nat.lt_of_lt_of_le hs h.size)
  case procedure parameters body => exact (Keeps.procedure _ parameters body s).around hs
  case apply p values => exact (Context.keeps_enclosed fun _ _ => hc _ _ _).around hs
  case nest hi => exact (Context.keeps_enclosed fun _ _ => hi).around hs
  case write text =>
    rw [run_write, Sink.store_write]
    exact .refl ..

-- The steps bind nothing in the scope itself, and the forms that they ask for are of a kind.
def Quiet (P : Form → Prop) : Steps → Prop
  | look _ next        => ∀ v?, (next v?).Quiet P
  | evaluate form next => P form ∧ ∀ v, (next v).Quiet P
  | define ..          => False
  | _                  => True

theorem Quiet.keeps_run {P : Form → Prop} (hc : c.KeepsAround)
    (hP : ∀ s form m, P form → s.frame < m.store.frames.size →
      Keeps m.store ((c.evaluate s form).run m).2.store)
    {steps : Steps} (hq : steps.Quiet P) {s : Scope} {m : Machine}
    (hs : s.frame < m.store.frames.size) :
    Keeps m.store ((steps.run c s).run m).2.store := by
  induction steps generalizing s m
  case done | failed => exact .refl _
  case look hi => exact hi _ (hq _) hs
  case evaluate form next hi =>
    have h := hP s form m hq.left hs
    rw [run_evaluate]
    generalize (c.evaluate s form).run m = after at *
    rcases after with ⟨_ | v, m'⟩
    case error => exact h
    case ok => exact h.trans <| hi v (hq.right v) (Nat.lt_of_lt_of_le hs h.size)
  case define => exact hq.elim
  case procedure parameters body => exact .procedure _ parameters body s
  case apply => exact Context.keeps_enclosed fun _ _ => hc _ _ _
  case nest => exact Context.keeps_enclosed fun _ _ => keepsAround_run hc _
  case write text =>
    rw [run_write, Sink.store_write]
    exact .refl _

section Quiet

variable {P : Form → Prop} {keyword : String} {args : List Form}

theorem quiet_check {α : Type} {x : Except Failure α} {next : α → Steps}
    (h : ∀ a, (next a).Quiet P) : (check x next).Quiet P := by
  cases x
  case error => trivial
  case ok a  => exact h a

theorem quiet_evaluate_done {form : Form} (h : P form) : (evaluate form done).Quiet P :=
  ⟨h, fun _ => trivial⟩

theorem quiet_evaluateAll {next : List Value → Steps} (hP : ∀ arg ∈ args, P arg)
    (h : ∀ vs, (next vs).Quiet P) : (evaluateAll args next).Quiet P := by
  induction args generalizing next
  case nil => exact h []
  case cons hd tl hi =>
    rw [List.forall_mem_cons] at hP
    exact ⟨hP.left, fun _ => hi hP.right fun _ => h _⟩

theorem quiet_evaluateBody {last : Value} (hP : ∀ arg ∈ args, P arg) :
    (evaluateBody last args).Quiet P := by
  induction args generalizing last
  case nil => trivial
  case cons hd tl hi =>
    rw [List.forall_mem_cons] at hP
    exact ⟨hP.left, fun _ => hi hP.right⟩

theorem quiet_evaluateBoolean {form : Form} {next : Bool → Steps} (hP : P form)
    (h : ∀ b, (next b).Quiet P) : (evaluateBoolean keyword form next).Quiet P := by
  refine ⟨hP, fun v => ?_⟩
  cases v <;> try trivial
  exact h _

theorem quiet_evaluateInteger {form : Form} {next : Integer → Steps} (hP : P form)
    (h : ∀ i, (next i).Quiet P) : (evaluateInteger keyword form next).Quiet P := by
  refine ⟨hP, fun v => ?_⟩
  cases v <;> try trivial
  exact h _

theorem quiet_evaluateIntegers {next : List Integer → Steps} (hP : ∀ arg ∈ args, P arg)
    (h : ∀ is, (next is).Quiet P) : (evaluateIntegers keyword args next).Quiet P := by
  induction args generalizing next
  case nil => exact h []
  case cons hd tl hi =>
    rw [List.forall_mem_cons] at hP
    exact quiet_evaluateInteger hP.left fun _ => hi hP.right fun _ => h _

theorem quiet_settle {deciding : Bool} (hP : ∀ arg ∈ args, P arg) :
    (settle keyword deciding args).Quiet P := by
  induction args
  case nil => trivial
  case cons hd tl hi =>
    rw [List.forall_mem_cons] at hP
    refine quiet_evaluateBoolean hP.left fun b => ?_
    split
    case isTrue  => trivial
    case isFalse => exact hi hP.right

theorem quiet_call {p : Procedure} (hP : ∀ arg ∈ args, P arg) : (call p args).Quiet P := by
  unfold call
  split
  case isTrue  => exact quiet_evaluateAll hP fun _ => trivial
  case isFalse => trivial

theorem quiet_closure {reserved : String → Bool} : (closure reserved args).Quiet P := by
  unfold closure
  split
  · exact quiet_check fun _ => quiet_check fun _ => trivial
  · trivial

theorem quiet_localBindings {reserved : String → Bool} :
    (localBindings reserved args).Quiet P := by
  unfold localBindings
  split
  · exact quiet_check fun _ => trivial
  · trivial

theorem quiet_conditional (hP : ∀ arg ∈ args, P arg) : (conditional args).Quiet P := by
  unfold conditional
  split
  case h_1 =>
    refine quiet_evaluateBoolean (hP _ (by simp)) fun b => ?_
    cases b
    case false => trivial
    case true  => exact quiet_evaluate_done (hP _ (by simp))
  case h_2 =>
    refine quiet_evaluateBoolean (hP _ (by simp)) fun b => ?_
    cases b
    case false => exact quiet_evaluate_done (hP _ (by simp))
    case true  => exact quiet_evaluate_done (hP _ (by simp))
  case h_3 => trivial

theorem quiet_negation (hP : ∀ arg ∈ args, P arg) : (negation args).Quiet P := by
  unfold negation
  split
  · exact quiet_evaluateBoolean (hP _ (by simp)) fun _ => trivial
  · trivial

theorem quiet_division (hP : ∀ arg ∈ args, P arg) : (division args).Quiet P := by
  unfold division
  split
  case isTrue  => trivial
  case isFalse => exact quiet_evaluateIntegers hP fun _ => quiet_check fun _ => trivial

theorem quiet_comparison {holds : Integer → Integer → Bool} (hP : ∀ arg ∈ args, P arg) :
    (comparison keyword holds args).Quiet P := by
  unfold comparison
  split
  · exact quiet_evaluateInteger (hP _ (by simp)) fun _ =>
      quiet_evaluateInteger (hP _ (by simp)) fun _ => trivial
  · trivial

theorem quiet_equality (hP : ∀ arg ∈ args, P arg) : (equality args).Quiet P := by
  unfold equality
  split
  · exact ⟨hP _ (by simp), fun _ => ⟨hP _ (by simp), fun _ => trivial⟩⟩
  · trivial

-- Only `def` binds in the scope in which it stands, and no builtin asks for more than its
-- arguments.
theorem quiet_steps {b : Builtin} {reserved : String → Bool} (hb : b ≠ .define)
    (hP : ∀ arg ∈ args, P arg) : (b.steps reserved args).Quiet P := by
  cases b
  case define      => exact absurd rfl hb
  case group       => exact quiet_evaluateBody hP
  case procedure   => exact quiet_closure
  case bindLocally => exact quiet_localBindings
  case conditional => exact quiet_conditional hP
  case disjunction => exact quiet_settle hP
  case conjunction => exact quiet_settle hP
  case negation    => exact quiet_negation hP
  case print       => exact quiet_evaluateAll hP fun _ => trivial
  case add         => exact quiet_evaluateAll hP fun _ => quiet_check fun _ => trivial
  case subtract    => exact quiet_evaluateIntegers hP fun _ => quiet_check fun _ => trivial
  case multiply    => exact quiet_evaluateIntegers hP fun _ => quiet_check fun _ => trivial
  case divide      => exact quiet_division hP
  case less        => exact quiet_comparison hP
  case greater     => exact quiet_comparison hP
  case equal       => exact quiet_equality hP

end Quiet
end Steps

namespace Value

def headed (p : String → Bool) : List Value → Bool
  | symbol name :: _ => p name
  | _ => false

mutual

-- Somewhere in the value, there is a list that starts with such a name.
def hasHead (p : String → Bool) : Value → Bool
  | list items => headed p items || anyHasHead p items
  | _ => false

def anyHasHead (p : String → Bool) : List Value → Bool
  | [] => false
  | v :: vs => v.hasHead p || anyHasHead p vs

end

theorem anyHasHead_iff {p : String → Bool} {vs : List Value} :
    anyHasHead p vs ↔ ∃ v ∈ vs, v.hasHead p := by
  induction vs
  case nil => simp [anyHasHead]
  case cons hi => simp [anyHasHead, hi]

theorem hasHead_list {p : String → Bool} {items : List Value} (h : ¬(list items).hasHead p) :
    ¬headed p items ∧ ∀ item ∈ items, ¬item.hasHead p := by
  simp only [hasHead, Bool.or_eq_true, anyHasHead_iff, not_or, not_exists, not_and] at h
  exact h

end Value

-- The name stands for `def` in a table of builtins.
def Builtin.defines (entries : List (String × Builtin)) (name : String) : Bool :=
  find? entries name = some define

theorem Steps.quiet_ofForm {entries : List (String × Builtin)} {form : Form}
    (h : ¬form.hasHead (Builtin.defines entries)) :
    (ofForm (Builtin.find? entries) form).Quiet fun form =>
      ¬form.hasHead (Builtin.defines entries) := by
  match form with
  | .list (.symbol name :: args) =>
    have hl := Value.hasHead_list h
    have ha := List.forall_mem_cons.mp hl.right
    simp only [ofForm]
    cases hb : Builtin.find? entries name
    case some b =>
      refine quiet_steps (fun hd => hl.left ?_) ha.right
      simp [Value.headed, Builtin.defines, hb, hd]
    case none =>
      intro v?
      rcases v? with _ | _ | _ | _ | _ | _ | _ | p <;> try trivial
      exact quiet_call ha.right
  | .list (.list items :: args) =>
    have ha := List.forall_mem_cons.mp (Value.hasHead_list h).right
    refine ⟨ha.left, fun v => ?_⟩
    cases v <;> try trivial
    exact quiet_call ha.right
  | .symbol name =>
    intro v?
    cases v? <;> trivial
  | .list [] | .list (.nil :: _) | .list (.integer _ :: _) | .list (.text _ :: _)
  | .list (.boolean _ :: _) | .list (.procedure _ :: _)
  | .nil | .integer _ | .text _ | .boolean _ | .procedure _ => trivial

namespace Evaluator

variable (grouping : String) (entries : List (String × Builtin)) (sink : Sink)
  (retention : Retention)

theorem keepsAround_evaluate (depth : Nat) {s : Scope} {form : Form} {m : Machine}
    (hs : s.frame < m.store.frames.size) :
    KeepsAround s m.store
      (((ofBuiltins grouping entries sink retention).evaluate depth s form).run m).2.store := by
  induction depth generalizing s form m
  case zero => exact .refl ..
  case succ depth hi =>
    rw [evaluate_succ_eq_run]
    exact Steps.keepsAround_run (fun _ _ _ => hi) _ hs

theorem keeps_evaluate (depth : Nat) {s : Scope} {form : Form} {m : Machine}
    (hf : ¬form.hasHead (Builtin.defines entries)) (hs : s.frame < m.store.frames.size) :
    Keeps m.store
      (((ofBuiltins grouping entries sink retention).evaluate depth s form).run m).2.store := by
  induction depth generalizing s form m
  case zero => exact .refl _
  case succ depth hi =>
    rw [evaluate_succ_eq_run]
    refine (Steps.quiet_ofForm hf).keeps_run (fun _ _ _ => ?_) (fun _ _ _ => hi) hs
    exact keepsAround_evaluate grouping entries sink retention depth

end Evaluator
end ScopedLisp
