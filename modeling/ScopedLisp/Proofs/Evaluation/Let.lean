import ScopedLisp.Proofs.Evaluation.Lockstep

-- A `let` is a procedure of no parameters that is called where it is made. In the new scope, both do
-- the same in the same order, and the only trace of the procedure is that others are made later.
-- Main statement: `Evaluator.ends_locally_like_called`.

namespace ScopedLisp

open Behavior

-- A symbol that is no keyword.
def Value.IsFreeName (reserved : String → Bool) (form : Form) : Prop :=
  ∃ name, form = .symbol name ∧ ¬reserved name

-- Failures of the same kind, which are equal under the condition.
structure Failure.SameIf (p : Prop) (f g : Failure) : Prop where
  kind : f.kind = g.kind
  eq   : p → f = g

theorem Failure.SameIf.refl {p : Prop} (f : Failure) : f.SameIf p f where
  kind := rfl
  eq _ := rfl

-- One more procedure has been made, and nobody has it.
def Machine.withProcedure (m : Machine) : Machine :=
  { m with store := { m.store with procedures := m.store.procedures + 1 } }

namespace Value

-- `(let ((name expr)...) body)`
def locally (bindings : List (Form × Form)) (body : Form) : Form :=
  list [symbol "let", list (bindings.map fun (name, expr) => list [name, expr]), body]

-- `(do (def name expr)... body)`
def defining (bindings : List (Form × Form)) (body : Form) : Form :=
  list (symbol "do" :: (bindings.map fun (name, expr) => list [symbol "def", name, expr]) ++ [body])

-- `((fn () body))`
def called (body : Form) : Form :=
  list [list [symbol "fn", list [], body]]

end Value

namespace Steps

variable {reserved : String → Bool} (keyword : String)

theorem bindable_symbol (name : String) :
    bindable reserved keyword (.symbol name) =
      if reserved name then .error (Cause.reservedName keyword name) else .ok name :=
  rfl

-- Which keyword binds the name is only seen in the words of a failure.
theorem bindable_of_not_isFreeName {form : Form} (h : ¬form.IsFreeName reserved) :
    ∃ f : Failure, bindable reserved keyword form = .error f ∧ f.kind = .type := by
  cases form
  case symbol name =>
    have hr : reserved name := Decidable.by_contra fun hn => h ⟨name, rfl, hn⟩
    exact ⟨_, (bindable_symbol keyword name).trans (if_pos hr), rfl⟩
  all_goals exact ⟨_, rfl, rfl⟩

end Steps

variable {e : Evaluator} (he : e.keywords = .standard) (s : Scope)

include he in
theorem Steps.ends_bindAll_cons (name expr : Form) (bindings : List Form) (next : Steps) :
    (bindAll Keywords.standard.reserves (.list [name, expr] :: bindings) next).Ends e s =
      match bindable Keywords.standard.reserves "let" name with
      | .ok name => e.Ends s expr >>= fun v => Behavior.define s name v >>= fun _ =>
          (bindAll Keywords.standard.reserves bindings next).Ends e s
      | .error failure => .fail failure := by
  rw [bindAll, bindOne, itemsOf, ends_check]
  simp only [ends_check]
  cases bindable Keywords.standard.reserves "let" name
  case ok    => simp only [ends_evaluate s (Evaluator.steady_standard he), ends_define]
  case error => rfl

namespace Evaluator

include he in
theorem ends_definition (name expr : Form) :
    e.Ends s (.list [.symbol "def", name, expr]) =
      match Steps.bindable Keywords.standard.reserves "def" name with
      | .ok name => e.Ends s expr >>= fun v => define s name v >>= fun _ => pure v
      | .error failure => .fail failure := by
  rw [ends_standard s he "def" .define rfl, Builtin.steps, Steps.definition, Steps.ends_check]
  cases Steps.bindable Keywords.standard.reserves "def" name
  case ok =>
    simp only [Steps.ends_evaluate s (steady_standard he), Steps.ends_define, Steps.ends_done]
  case error => rfl

-- One binding after the other: the same checks, the same forms, the same names.
include he in
theorem bindAll_like_definitions {p : Prop} (bindings : List (Form × Form)) (body : Form)
    (hp : p → ∀ b ∈ bindings, b.1.IsFreeName Keywords.standard.reserves) (last : Value) :
    ((Steps.bindAll Keywords.standard.reserves
      (bindings.map fun (name, expr) => .list [name, expr])
      (.evaluate body .done)).Ends e s).Like (Failure.SameIf p)
      ((Steps.evaluateBody last ((bindings.map fun (name, expr) =>
        .list [.symbol "def", name, expr]) ++ [body])).Ends e s) := by
  induction bindings generalizing last
  case nil => exact .refl .refl _
  case cons binding bindings hi =>
    obtain ⟨name, expr⟩ := binding
    simp only [List.map_cons, List.cons_append, Steps.evaluateBody]
    rw [Steps.ends_bindAll_cons he, Steps.ends_evaluate s (steady_standard he),
      ends_definition he]
    by_cases hn : name.IsFreeName Keywords.standard.reserves
    case pos =>
      obtain ⟨name, rfl, hn⟩ := hn
      rw [Steps.bindable_symbol, Steps.bindable_symbol, if_neg hn, if_neg hn]
      simp only [bind_assoc, pure_bind]
      refine .bind .refl _ fun v => .bind .refl _ fun _ => hi (fun h => ?_) v
      exact (List.forall_mem_cons.mp (hp h)).right
    case neg =>
      obtain ⟨f, hf, hfk⟩ := Steps.bindable_of_not_isFreeName "let" hn
      obtain ⟨g, hg, hgk⟩ := Steps.bindable_of_not_isFreeName "def" hn
      rw [hf, hg]
      simp only [fail_bind]
      refine .fail ⟨hfk.trans hgk.symm, fun h => absurd ?_ hn⟩
      exact (List.forall_mem_cons.mp (hp h)).left

include he in
theorem ends_locally (bindings : List (Form × Form)) (body : Form) :
    e.Ends s (.locally bindings body) = enclosed e.retention s {} fun inner =>
      (Steps.bindAll Keywords.standard.reserves
        (bindings.map fun (name, expr) => .list [name, expr]) (.evaluate body .done)).Ends e inner := by
  rw [Value.locally, ends_standard s he "let" .bindLocally rfl, Builtin.steps,
    Steps.localBindings, itemsOf, Steps.ends_check]
  exact Steps.ends_nest s _

include he in
theorem ends_defining (bindings : List (Form × Form)) (body : Form) :
    e.Ends s (.defining bindings body) =
      (Steps.evaluateBody .nil ((bindings.map fun (name, expr) =>
        .list [.symbol "def", name, expr]) ++ [body])).Ends e s := by
  rw [Value.defining, List.cons_append, ends_standard s he "do" .group rfl, Builtin.steps]

-- When the scope of the call is opened, the procedure has been made.
include he in
theorem ends_called_iff {body : Form} {m m' : Machine} {outcome : Except Failure Value} :
    e.Ends s (.called body) m outcome m' ↔
      enclosed e.retention s {} (fun inner => e.Ends inner body) m.withProcedure outcome m' := by
  have hf : e.Ends s (.list [.symbol "fn", .list [], body]) =
      (Steps.procedure [] body).Ends e s :=
    ends_standard s he "fn" .procedure rfl _
  rw [Value.called, ends_headed, Steps.ofForm, Steps.ends_evaluate s (steady_standard he), hf,
    bind_iff_of_ok fun _ _ => Steps.ends_procedure_iff s]
  exact .of_eq <| congrFun₃ (Steps.ends_apply s (m.store.procedure [] body s).1 []) _ _ _

-- On the same machine, the two leave the same machine behind.
include he in
theorem locally_like_enclosed (bindings : List (Form × Form)) (body : Form) :
    (e.Ends s (.locally bindings body)).Like
      (Failure.SameIf (∀ b ∈ bindings, b.1.IsFreeName Keywords.standard.reserves))
      (enclosed e.retention s {} fun inner => e.Ends inner (.defining bindings body)) := by
  rw [ends_locally he]
  refine .enclosed e.retention s {} fun inner => ?_
  rw [ends_defining he]
  exact bindAll_like_definitions he inner bindings body id .nil

end Evaluator

-- Outcomes that are the same up to the identities of procedures, with failures that are related.
inductive OutcomesMatch (ρ : Pairing) (R : Failure → Failure → Prop) :
    Except Failure Value → Except Failure Value → Prop
  | ok {v w : Value} (h : v.Alike ρ Eq w) : OutcomesMatch ρ R (.ok v) (.ok w)
  | error {f g : Failure} (h : R f g) : OutcomesMatch ρ R (.error f) (.error g)

theorem OutcomesMatch.of_like {ρ : Pairing} {R : Failure → Failure → Prop}
    {o₁ o o₂ : Except Failure Value} (hl : OutcomesLike R o₁ o)
    (h : OutcomesAlike ρ Eq (o.mapError .failed) (o₂.mapError .failed)) :
    OutcomesMatch ρ R o₁ o₂ := by
  cases hl
  case ok v =>
    cases o₂
    case error => cases h
    case ok w  =>
      cases h
      case ok h => exact .ok h
  case error f g hR =>
    cases o₂
    case ok => cases h
    case error =>
      cases h
      case error h =>
      cases h
      case failed h => exact .error (h.eq (fun _ _ => id) ▸ hR)

theorem OutcomesMatch.gives_eq {ρ : Pairing} {R : Failure → Failure → Prop}
    {o₁ o₂ : Except Failure Value} (h : OutcomesMatch ρ R o₁ o₂) (r : Retention) {s : Scope}
    (hs : s.Alike ρ s) : r.gives s (o₁.mapError .failed) = r.gives s (o₂.mapError .failed) := by
  cases h
  case ok h  => simp [Except.mapError, Retention.gives, Value.captures_of_related h hs]
  case error => rfl

theorem Value.livesIn_defining {σ : Store} {bindings : List (Form × Form)} {body : Form}
    (hb : ∀ b ∈ bindings, b.1.LivesIn σ ∧ b.2.LivesIn σ) (h : body.LivesIn σ) :
    (defining bindings body).LivesIn σ := by
  refine .list <| List.forall_mem_cons.mpr ⟨.symbol "do", ?_⟩
  refine List.forall_mem_append.mpr ⟨List.forall_mem_map.mpr fun b hm => ?_,
    List.forall_mem_singleton.mpr h⟩
  have ⟨hn, he⟩ := hb b hm
  refine .list <| List.forall_mem_cons.mpr ⟨.symbol "def", List.forall_mem_cons.mpr ⟨hn, ?_⟩⟩
  exact List.forall_mem_singleton.mpr he

namespace Evaluator

variable {s} {m : Machine} {body : Form} (hm : m.store.Closed) (hs : s.LivesIn m.store)

section Called

variable (hf : body.LivesIn m.store) {m' : Machine} {o : Except Failure Value}

include he hm hs hf

theorem called_of_enclosed (h : enclosed e.retention s {} (fun inner => e.Ends inner body) m o m') :
    let inner := s.child m.store.frames.size
    ∃ o₂ m₂, e.Ends s (.called body) m o₂ m₂ ∧ ∃ ρ : Pairing,
      (Pairing.below m.store.frames.size m.store.procedures).Grows ρ ∧ inner.Alike ρ inner ∧
      OutcomesAlike ρ Eq (o.mapError .failed) (o₂.mapError .failed) ∧ m'.Lockstep ρ m₂ := by
  have hl : m.Lockstep _ m.withProcedure :=
    ⟨hm.lockstep rfl (Nat.le_refl _) rfl (Nat.le_succ _), rfl⟩
  have hs := hl.store.scope_alike_iff.mpr ⟨rfl, hs⟩
  obtain ⟨o₂, m₂, h₂, h⟩ := lockstep_enclosed he hs (hf.related fun _ => rfl) hl h
  exact ⟨o₂, m₂, (ends_called_iff he s).mpr h₂, h⟩

theorem enclosed_of_called (h : e.Ends s (.called body) m o m') :
    ∃ o₁ m₁, enclosed e.retention s {} (fun inner => e.Ends inner body) m o₁ m₁ := by
  have hl : m.withProcedure.Lockstep _ m :=
    ⟨hm.lockstep rfl (Nat.le_succ _) rfl (Nat.le_refl _), rfl⟩
  have hs := hl.store.scope_alike_iff.mpr ⟨rfl, hs⟩
  obtain ⟨o₁, m₁, h, _⟩ := lockstep_enclosed he hs (hf.related fun _ => rfl) hl <|
    (ends_called_iff he s).mp h
  exact ⟨o₁, m₁, h⟩

end Called

-- A `let` ends if and only if the call does. The values are the same up to the identities of
-- procedures, and failures are of the same kind, and the same if all names can be bound. All frames
-- are left with the same bindings, the one of the new scope among them, and either both give up its
-- bindings or none.
include hm hs in
theorem ends_locally_like_called (sink : Sink) (retention : Retention)
    {bindings : List (Form × Form)}
    (hb : ∀ b ∈ bindings, b.1.LivesIn m.store ∧ b.2.LivesIn m.store)
    (hf : body.LivesIn m.store) :
    let e : Evaluator := { sink, retention }
    let call := Value.called (.defining bindings body)
    let free := ∀ b ∈ bindings, b.1.IsFreeName Keywords.standard.reserves
    let inner := s.child m.store.frames.size
    ((∃ o m', e.Ends s (.locally bindings body) m o m') ↔ ∃ o m', e.Ends s call m o m') ∧
      ∀ o₁ m₁ o₂ m₂, e.Ends s (.locally bindings body) m o₁ m₁ → e.Ends s call m o₂ m₂ →
        ∃ ρ : Pairing, (∀ id < m.store.procedures, ρ.procedures id id) ∧ m₁.Lockstep ρ m₂ ∧
          OutcomesMatch ρ (Failure.SameIf free) o₁ o₂ ∧
          retention.gives inner (o₁.mapError .failed) =
            retention.gives inner (o₂.mapError .failed) ∧
          (retention.gives inner (o₁.mapError .failed) →
            m₁.store.locals inner = {} ∧ m₂.store.locals inner = {}) := by
  intro e call free inner
  have hd := Value.livesIn_defining hb hf
  have hl : (e.Ends s _).Like (Failure.SameIf free) _ := locally_like_enclosed rfl s bindings body
  refine ⟨⟨?_, ?_⟩, fun o₁ m₁ o₂ m₂ h₁ h₂ => ?_⟩
  case refine_1 =>
    rintro ⟨o, m', h⟩
    obtain ⟨_, _, h⟩ := hl.left h
    obtain ⟨o₂, m₂, h, _⟩ := called_of_enclosed rfl hm hs hd h
    exact ⟨o₂, m₂, h⟩
  case refine_2 =>
    rintro ⟨o, m', h⟩
    obtain ⟨_, _, h⟩ := enclosed_of_called rfl hm hs hd h
    obtain ⟨o₁, _, h⟩ := hl.right h
    exact ⟨o₁, _, h⟩
  case refine_3 =>
    obtain ⟨o, ho, h⟩ := hl.left h₁
    obtain ⟨o₂', m₂', h', ρ, hρ, hi, ho', hm'⟩ := called_of_enclosed rfl hm hs hd h
    obtain ⟨rfl, rfl⟩ := h₂.unique (steady_standard rfl) h'
    have ho := OutcomesMatch.of_like ho ho'
    have hg := ho.gives_eq retention hi
    refine ⟨ρ, fun id hid => hρ.procedures id id ⟨rfl, hid⟩, hm', ho, hg, fun h => ⟨?_, ?_⟩⟩
    case refine_1 =>
      rw [ends_locally rfl] at h₁
      exact locals_of_enclosed h₁ h
    case refine_2 =>
      rw [hg] at h
      have he := locals_of_enclosed ((ends_called_iff rfl s).mp h₂) h
      exact he

-- `(let ((f (fn () x)) (x 1)) f)`: the procedure is the result, and sees a name that is bound only
-- after it was made. Its scope is kept both times. The call has made a procedure before it.
theorem ends_locally_like_called_recursive :
    let e : Evaluator := {}
    let s : Scope := ⟨0, []⟩
    let m : Machine := { store := { frames := #[{}] } }
    let bindings : List (Form × Form) :=
      [(.symbol "f", .list [.symbol "fn", .list [], .symbol "x"]), (.symbol "x", .integer 1)]
    let body : Form := .symbol "f"
    let p (identity : Nat) : Procedure := ⟨identity, [], .symbol "x", ⟨1, [0]⟩⟩
    let after (identity : Nat) : Machine :=
      let bindings := (NameMap.insert {} "f" (.procedure (p identity))).insert "x" (.integer 1)
      { store := { frames := #[{}, { bindings }], procedures := identity + 1 } }
    m.store.Closed ∧ s.LivesIn m.store ∧
      (∀ b ∈ bindings, b.1.LivesIn m.store ∧ b.2.LivesIn m.store) ∧ body.LivesIn m.store ∧
      e.Ends s (.locally bindings body) m (.ok (.procedure (p 0))) (after 0) ∧
      e.Ends s (.called (.defining bindings body)) m (.ok (.procedure (p 1))) (after 1) ∧
      ∃ ρ : Pairing, (after 0).Lockstep ρ (after 1) ∧
        (Value.procedure (p 0)).Alike ρ Eq (.procedure (p 1)) := by
  intro e s m bindings body p after
  have hm : m.store.Closed := Store.closed_empty.root
  have hs : s.LivesIn m.store := List.forall_mem_singleton.mpr Nat.zero_lt_one
  have hfn : (Value.list [.symbol "fn", .list [], .symbol "x"]).LivesIn m.store :=
    .list <| List.forall_mem_cons.mpr ⟨.symbol "fn", List.forall_mem_cons.mpr
      ⟨.list nofun, List.forall_mem_singleton.mpr (.symbol "x")⟩⟩
  have hb : ∀ b ∈ bindings, b.1.LivesIn m.store ∧ b.2.LivesIn m.store :=
    List.forall_mem_cons.mpr ⟨⟨.symbol "f", hfn⟩,
      List.forall_mem_singleton.mpr ⟨.symbol "x", .integer 1⟩⟩
  have hf : body.LivesIn m.store := .symbol "f"
  have h₁ : e.Ends s (.locally bindings body) m (.ok (.procedure (p 0))) (after 0) := ⟨4, by rfl⟩
  have h₂ : e.Ends s (.called (.defining bindings body)) m (.ok (.procedure (p 1))) (after 1) :=
    ⟨4, by rfl⟩
  obtain ⟨ρ, _, hl, ho, _⟩ :=
    (ends_locally_like_called hm hs {} .whenCaptured hb hf).right _ _ _ _ h₁ h₂
  cases ho
  case ok hv => exact ⟨hm, hs, hb, hf, h₁, h₂, ρ, hl, hv⟩

end Evaluator
end ScopedLisp
