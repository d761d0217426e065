import ScopedLisp.Proofs.Evaluation.Behavior
import ScopedLisp.Proofs.Evaluation.BuiltinsAlike
import ScopedLisp.Proofs.Store.Lockstep

-- Evaluations that start with the same frames make the same frames in the same order, whatever
-- procedures were made before. So all that procedures made beforehand change is the identities of
-- those that are made later on.
-- Main statement: `Evaluator.Ends.lockstep`.

namespace ScopedLisp

open Evaluation

structure Machine.Lockstep (ρ : Pairing) (m₁ m₂ : Machine) : Prop where
  store   : m₁.store.Lockstep ρ m₂.store
  printed : m₁.printed = m₂.printed

variable {ρ : Pairing}

-- A pair of new frames has the same number on both sides.
theorem simulation_lockstep : Simulation Eq Machine.Lockstep where
  alike h               := ⟨h.store.toAlike, h.printed⟩
  stay h hρ hm h₁ h₂    := ⟨h.store.stay hρ hm.store h₁ h₂, hm.printed⟩
  grow h hρ hm h₁ h₂ hn := ⟨h.store.grow hρ hm.store h₁ h₂ hn, hm.printed⟩

namespace Evaluator

theorem evaluate_lockstep (grouping : String) (entries : List (String × Builtin)) (sink : Sink)
    (retention : Retention) (depth : Nat) {s t : Scope} {form₁ form₂ : Form} {m₁ m₂ : Machine}
    (hs : s.Alike ρ t) (hf : form₁.Matches ρ Eq form₂) (hm : m₁.Lockstep ρ m₂) :
    RunsRelated Machine.Lockstep ρ Eq m₁.store.frames.size
      (((ofBuiltins grouping entries sink retention).evaluate depth s form₁).run m₁)
      (((ofBuiltins grouping entries sink retention).evaluate depth t form₂).run m₂) := by
  induction depth generalizing ρ s t form₁ form₂ m₁ m₂
  case zero => exact .error .tooDeep hm
  case succ depth hi =>
    have h := Steps.alike_ofForm (Spelling.translates_eq (Builtin.find? entries)) hf
    rw [evaluate_succ_eq_run, evaluate_succ_eq_run]
    exact h.related simulation_lockstep hi rfl rfl hs hm

theorem lockstep_standard {e : Evaluator} (he : e.keywords = .standard) (depth : Nat)
    {s t : Scope} {form₁ form₂ : Form} {m₁ m₂ : Machine} (hs : s.Alike ρ t)
    (hf : form₁.Matches ρ Eq form₂) (hm : m₁.Lockstep ρ m₂) :
    RunsRelated Machine.Lockstep ρ Eq m₁.store.frames.size
      ((e.evaluate depth s form₁).run m₁) ((e.evaluate depth t form₂).run m₂) := by
  obtain ⟨_, sink, retention⟩ := e
  subst he
  exact evaluate_lockstep "do" _ sink retention depth hs hf hm

-- If a form ends, then so does a form that matches it.
theorem Ends.lockstep {e : Evaluator} (he : e.keywords = .standard) {s t : Scope}
    {form₁ form₂ : Form} {m₁ m₂ m₁' : Machine} {o₁ : Except Failure Value} (hs : s.Alike ρ t)
    (hf : form₁.Matches ρ Eq form₂) (hm : m₁.Lockstep ρ m₂) (h : e.Ends s form₁ m₁ o₁ m₁') :
    ∃ o₂ m₂', e.Ends t form₂ m₂ o₂ m₂' ∧ ∃ ρ' : Pairing, ρ.Grows ρ' ∧
      OutcomesAlike ρ' Eq (o₁.mapError .failed) (o₂.mapError .failed) ∧ m₁'.Lockstep ρ' m₂' := by
  obtain ⟨depth, h⟩ := h
  obtain ⟨_, ρ', hρ, ho, hm'⟩ := lockstep_standard he depth hs hf hm
  rw [h] at ho hm'
  suffices hx : ∃ o₂ : Except Failure Value,
      ((e.evaluate depth t form₂).run m₂).1 = o₂.mapError .failed by
    obtain ⟨o₂, he⟩ := hx
    exact ⟨o₂, _, ⟨depth, Prod.ext he rfl⟩, ρ', hρ.toGrows, he ▸ ho, hm'⟩
  generalize ((e.evaluate depth t form₂).run m₂).1 = r at ho
  cases o₁
  case ok =>
    cases ho
    case ok w _ => exact ⟨.ok w, rfl⟩
  case error =>
    cases ho
    case error hs =>
    cases hs
    case failed g _ => exact ⟨.error g, rfl⟩

-- Nothing leads out of the store after an evaluation, if nothing has before.
theorem Ends.closed {e : Evaluator} (he : e.keywords = .standard) {s : Scope} {form : Form}
    {m m' : Machine} {o : Except Failure Value} (hm : m.store.Closed) (hs : s.LivesIn m.store)
    (hf : form.LivesIn m.store) (h : e.Ends s form m o m') :
    m'.store.Closed ∧ ∀ v, o = .ok v → v.LivesIn m'.store := by
  have hl : m.Lockstep _ m := ⟨hm.lockstep rfl (Nat.le_refl _) rfl (Nat.le_refl _), rfl⟩
  have hs := hl.store.scope_alike_iff.mpr ⟨rfl, hs⟩
  obtain ⟨o', _, _, ρ, _, ho, hm'⟩ := h.lockstep he hs (hf.related fun _ => rfl) hl
  refine ⟨hm'.store.closed, ?_⟩
  rintro v rfl
  generalize o'.mapError Stop.failed = r at ho
  cases ho
  case ok hv => exact .of_related hm'.store.toAlike hv

-- The same in new scopes, which correspond to each other from then on.
theorem lockstep_enclosed {e : Evaluator} (he : e.keywords = .standard) {s t : Scope}
    {form₁ form₂ : Form} {m₁ m₂ m₁' : Machine} {o₁ : Except Failure Value} (hs : s.Alike ρ t)
    (hf : form₁.Matches ρ Eq form₂) (hm : m₁.Lockstep ρ m₂)
    (h : Behavior.enclosed e.retention s {} (fun inner => e.Ends inner form₁) m₁ o₁ m₁') :
    ∃ o₂ m₂', Behavior.enclosed e.retention t {} (fun inner => e.Ends inner form₂) m₂ o₂ m₂' ∧
      ∃ ρ' : Pairing, ρ.Grows ρ' ∧
        (s.child m₁.store.frames.size).Alike ρ' (t.child m₂.store.frames.size) ∧
        OutcomesAlike ρ' Eq (o₁.mapError .failed) (o₂.mapError .failed) ∧
        m₁'.Lockstep ρ' m₂' := by
  obtain ⟨after₁, h, rfl⟩ := h
  obtain ⟨ρ₁, hρ₁, hi, hm⟩ := simulation_lockstep.child hm hs (.empty ρ Eq)
  obtain ⟨o₂, after₂, h₂, ρ₂, hρ₂, ho, hm'⟩ :=
    h.lockstep he hi (Value.related_mono hρ₁.toGrows hf) hm
  have hi := hi.mono hρ₂
  have hm' := simulation_lockstep.release hm' hi e.retention ho
  exact ⟨o₂, _, ⟨after₂, h₂, rfl⟩, ρ₂, hρ₁.toGrows.trans hρ₂, hi, ho, hm'⟩

end Evaluator
end ScopedLisp
