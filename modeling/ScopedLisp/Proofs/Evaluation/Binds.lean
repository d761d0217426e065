import ScopedLisp.Proofs.Evaluation.FirstOrder

-- What scopes bind. The names are of a kind, and the values are results, with procedures of a kind.
-- Evaluation keeps it so at all times, whether it succeeds or not, as long as the kinds lead to
-- nothing else.
-- Main statement: `Evaluator.upholds_evaluate`.

namespace ScopedLisp

open Evaluation Store

-- All frames bind names of the one kind, to results with procedures of the other kind.
def Store.Binds (σ : Store) (N : String → Prop) (P : Procedure → Prop) : Prop :=
  ∀ id name v, (σ.frame id).bindings.find? name = some v → N name ∧ v.IsResult P

-- Kinds of names to bind, of forms, and of procedures. Procedures are made of forms, and lead back
-- to forms when they are called, and to names for their parameters.
structure Sustains (reserved : String → Bool) (N : String → Prop) (F : Form → Prop)
    (P : Procedure → Prop) : Prop extends Confines F P where
  names      : ∀ name, ¬reserved name → N name
  parameters : ∀ p, P p → ∀ name ∈ p.parameters, N name
  body       : ∀ p, P p → F p.body
  made       : ∀ p, ProperParameters reserved p.parameters → F p.body → P p

variable {reserved : String → Bool} {N : String → Prop} {F : Form → Prop} {P : Procedure → Prop}

-- The new frame of a call binds such names to such values.
theorem Sustains.bound_of_call (hs : Sustains reserved N F P) {p : Procedure} {values : List Value}
    (hp : P p) (hvalues : ∀ v ∈ values, v.IsResult P) {name : String} {v : Value}
    (hv : (NameMap.insertAll {} (p.parameters.zip values)).find? name = some v) :
    N name ∧ v.IsResult P :=
  have ⟨hn, hv⟩ := NameMap.mem_of_find?_zip hv
  ⟨hs.parameters p hp name hn, hvalues v hv⟩

namespace Store.Binds

variable {σ σ₁ : Store} {s : Scope}

theorem empty (N : String → Prop) (P : Procedure → Prop) : Binds {} N P :=
  fun _ _ _ => nofun

theorem find? (h : σ.Binds N P) {name : String} {v : Value} (hv : σ.find? s name = some v) :
    N name ∧ v.IsResult P := by
  obtain ⟨id, _, hf⟩ := List.exists_of_findSome?_eq_some hv
  exact h id name v hf

theorem modify (h : σ.Binds N P) {f : Frame → Frame}
    (hf : ∀ name v, (f (σ.frame s.frame)).bindings.find? name = some v → N name ∧ v.IsResult P) :
    (σ.modify s f).Binds N P := by
  intro id name v hv
  rw [frame_modify] at hv
  split at hv
  case isTrue hid => exact hf name v (hid.left ▸ hv)
  case isFalse    => exact h id name v hv

theorem define (h : σ.Binds N P) {name : String} {v : Value} (hn : N name) (hv : v.IsResult P)
    (hd : σ.define s name v = .ok σ₁) : σ₁.Binds N P := by
  obtain ⟨_, rfl⟩ := define_eq_ok hd
  refine h.modify fun other w hw => ?_
  rw [NameMap.find?_insert] at hw
  split at hw
  case isTrue ho => exact ⟨ho ▸ hn, Option.some.inj hw ▸ hv⟩
  case isFalse   => exact h s.frame other w hw

theorem freeze (h : σ.Binds N P) (s : Scope) : (σ.freeze s).Binds N P :=
  h.modify fun name v hv => h s.frame name v hv

theorem release (h : σ.Binds N P) (r : Retention) (s : Scope) (outcome : Except Stop Value) :
    (σ.release r s outcome).Binds N P := by
  unfold Store.release
  split
  case isTrue  => exact h.modify nofun
  case isFalse => exact h

theorem child (h : σ.Binds N P) (outer : Scope) {bindings : NameMap Value}
    (hb : ∀ name v, bindings.find? name = some v → N name ∧ v.IsResult P) :
    (σ.child outer bindings).2.Binds N P := by
  intro id name v hv
  rw [frame_child] at hv
  split at hv
  case isTrue  => exact hb name v hv
  case isFalse => exact h id name v hv

theorem root (h : σ.Binds N P) : σ.root.2.Binds N P :=
  h.child σ.root.1 nofun

end Store.Binds

-- What is bound at the moments of an evaluation and after it, and what comes out.
structure Upholds (N : String → Prop) (P : Procedure → Prop) (r : Except Stop Value × Machine)
    (h : History) : Prop where
  moments : ∀ x ∈ h, x.store.Binds N P
  store   : r.2.store.Binds N P
  result  : ∀ v, r.1 = .ok v → v.IsResult P

namespace Upholds

variable {r r' : Except Stop Value × Machine} {h k : History} {m : Machine}

theorem of_binds (hm : m.store.Binds N P) {outcome : Except Stop Value}
    (ho : ∀ v, outcome = .ok v → v.IsResult P) : Upholds N P (outcome, m) [] where
  moments := nofun
  store   := hm
  result  := ho

theorem of_error (hm : m.store.Binds N P) (stop : Stop) : Upholds N P (.error stop, m) [] :=
  of_binds hm nofun

theorem cons {x : Moment} (hx : x.store.Binds N P) (hk : Upholds N P r k) :
    Upholds N P r (x :: k) where
  moments := List.forall_mem_cons.mpr ⟨hx, hk.moments⟩
  store   := hk.store
  result  := hk.result

theorem after (hh : Upholds N P r h) (hk : Upholds N P r' k) : Upholds N P r' (h ++ k) where
  moments := List.forall_mem_append.mpr ⟨hh.moments, hk.moments⟩
  store   := hk.store
  result  := hk.result

end Upholds

-- Evaluation of forms of the kind, with such moments, upholds the kinds.
def Context.Upholds (c : Context) (moments : Scope → Form → Machine → History)
    (N : String → Prop) (F : Form → Prop) (P : Procedure → Prop) : Prop :=
  ∀ s form m, F form → m.store.Binds N P →
    ScopedLisp.Upholds N P ((c.evaluate s form).run m) (moments s form m)

theorem Scope.upholds_enclosed {c : Context} {outer : Scope} {bindings : NameMap Value}
    {x : Scope → Evaluation Value} {moments : Scope → Machine → History} {m : Machine}
    (hm : m.store.Binds N P)
    (hb : ∀ name v, bindings.find? name = some v → N name ∧ v.IsResult P)
    (hx : ∀ inner m, m.store.Binds N P → Upholds N P ((x inner).run m) (moments inner m)) :
    Upholds N P ((c.enclosed outer bindings x).run m)
      (outer.enclosedMoments bindings x moments m) := by
  have h := hx (outer.child m.store.frames.size) { m with store := _ } (hm.child outer hb)
  rw [Context.run_enclosed]
  exact {
    moments := List.forall_mem_append.mpr ⟨h.moments, List.forall_mem_singleton.mpr h.store⟩
    store   := h.store.release c.retention _ _
    result  := h.result
  }

-- Steps that are confined to the kinds uphold them.
theorem Steps.upholds_run {c : Context} {moments : Scope → Form → Machine → History}
    (hs : Sustains reserved N F P) (hc : c.Upholds moments N F P) (steps : Steps) {s : Scope}
    {m : Machine} (hm : m.store.Binds N P) (hk : steps.Confined F reserved P) :
    Upholds N P ((steps.run c s).run m) (steps.moments c moments s m) := by
  -- What is known of the later steps holds for any greater kind. Here the kind stays the same.
  induction steps generalizing s m
  case done v => exact .of_binds hm fun w hw => Except.ok.inj hw ▸ hk
  case failed => exact .of_error hm _
  case look name next hi =>
    have hv : ∀ v ∈ m.store.find? s name, v.IsResult P := fun v hv => (hm.find? hv).right
    exact .cons hm <| hi _ hm (hk P (fun _ => id) _ hv)
  case evaluate form next hi =>
    have h := hc s form m hk.left hm
    rw [run_evaluate, Steps.moments]
    generalize (c.evaluate s form).run m = after at *
    rcases after with ⟨_ | v, m'⟩
    case error => exact h.after (.of_error h.store _)
    case ok => exact h.after <| hi v h.store (hk.right P (fun _ => id) v (h.result v rfl))
  case define name v next hi =>
    obtain ⟨hn, hv, hnext⟩ := hk
    rw [run_define, Steps.moments]
    cases hd : m.store.define s name v
    case error => exact .cons hm (.of_error hm _)
    case ok σ =>
      have hσ := hm.define (hs.names name hn) hv hd
      exact .cons hm <| hi (m := { m with store := σ }) hσ (hnext P fun _ => id)
  case procedure parameters body =>
    have hp : (m.store.procedure parameters body s).2.Binds N P := hm
    refine .of_binds (m := { m with store := _ }) hp fun w hw => ?_
    obtain rfl := Except.ok.inj hw
    exact hs.made _ hk.left hk.right
  case apply p values =>
    obtain ⟨hp, hvalues⟩ := hk
    exact .cons hm <| Scope.upholds_enclosed hm (fun _ _ => hs.bound_of_call hp hvalues)
      fun inner m hm => hc inner p.body m (hs.body p hp) hm
  case nest body hi =>
    have hb : ∀ name v, ({} : NameMap Value).find? name = some v → N name ∧ v.IsResult P := by simp
    exact Scope.upholds_enclosed hm hb fun inner m hm => hi hm (hk P fun _ => id)
  case write text =>
    have hw : ((c.sink.write text).run m).2.store.Binds N P := by rwa [Sink.store_write]
    rw [run_write]
    refine .of_binds hw fun w hw => ?_
    obtain ⟨_, _, rfl⟩ := map_eq_ok_iff.mp hw
    trivial

-- Evaluation upholds kinds that lead to nothing else.
theorem Evaluator.upholds_evaluate (grouping : String) (entries : List (String × Builtin))
    (sink : Sink) (retention : Retention) (depth : Nat)
    (hs : Sustains (fun name => (Builtin.find? entries name).isSome) N F P) :
    let e := ofBuiltins grouping entries sink retention
    (e.context depth).Upholds (e.moments entries depth) N F P := by
  intro e
  induction depth
  case zero => exact fun _ _ _ _ hm => .of_error hm _
  case succ depth hi =>
    intro s form m hF hm
    have hk := Steps.confined_ofForm (Builtin.find? entries) hs.toConfines hF
    have h := Steps.upholds_run hs hi _ (s := s) hm hk
    rwa [← evaluate_succ_eq_run] at h

end ScopedLisp
