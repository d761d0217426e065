import ScopedLisp.Proofs.Evaluation.BuiltinSteps
import ScopedLisp.Proofs.Store.Alike

-- Evaluation does not depend on where frames and procedures live: evaluations that start out the
-- same up to that take the same steps, and end the same up to that. The forms may even spell names
-- differently, as long as the tables of keywords go along.
-- Main statement: `Evaluator.evaluate_alike`.

namespace ScopedLisp

open Evaluation

-- Failures of the same kind, which are equal unless names are spelled differently.
structure Failure.Alike (N : Spelling) (f g : Failure) : Prop where
  kind : f.kind = g.kind
  eq   : N.Faithful → f = g

inductive Stop.Alike (N : Spelling) : Stop → Stop → Prop
  | failed {f g : Failure} (h : f.Alike N g) : Alike N (failed f) (failed g)
  | tooDeep : Alike N tooDeep tooDeep

inductive OutcomesAlike (ρ : Pairing) (N : Spelling) : Except Stop Value → Except Stop Value → Prop
  | ok {v w : Value} (h : v.Alike ρ N w) : OutcomesAlike ρ N (.ok v) (.ok w)
  | error {s t : Stop} (h : s.Alike N t) : OutcomesAlike ρ N (.error s) (.error t)

structure Machine.Alike (ρ : Pairing) (N : Spelling) (m₁ m₂ : Machine) : Prop where
  store   : m₁.store.Alike ρ N m₂.store
  printed : m₁.printed = m₂.printed

-- Two evaluations that start at so many frames on the left and where `ρ` says what corresponds to
-- each other. They end the same, with new frames and procedures that correspond to each other.
def RunsAlike (ρ : Pairing) (N : Spelling) (n : FrameId) (r₁ r₂ : Except Stop Value × Machine) :
    Prop :=
  n ≤ r₁.2.store.frames.size ∧
    ∃ ρ' : Pairing, ρ.GrowsAbove n ρ' ∧ OutcomesAlike ρ' N r₁.1 r₂.1 ∧ r₁.2.Alike ρ' N r₂.2

-- Contexts which evaluate forms alike.
structure Context.Alike (N : Spelling) (c₁ c₂ : Context) : Prop where
  evaluate  : ∀ {ρ : Pairing} {s t : Scope} {form₁ form₂ : Form} {m₁ m₂ : Machine},
    s.Alike ρ t → form₁.Matches ρ N form₂ → m₁.Alike ρ N m₂ →
    RunsAlike ρ N m₁.store.frames.size
      ((c₁.evaluate s form₁).run m₁) ((c₂.evaluate t form₂).run m₂)
  sink      : c₁.sink = c₂.sink
  retention : c₁.retention = c₂.retention

variable {ρ ρ' : Pairing} {N : Spelling}

theorem Failure.Alike.refl (N : Spelling) (f : Failure) : f.Alike N f where
  kind := rfl
  eq   := fun _ => rfl

theorem Stop.Alike.refl (N : Spelling) (s : Stop) : s.Alike N s := by
  cases s
  case failed f => exact .failed (.refl N f)
  case tooDeep  => exact .tooDeep

theorem Machine.Alike.mono {m₁ m₂ : Machine} (h : m₁.Alike ρ N m₂) {σ₁ σ₂ : Store}
    (hσ : σ₁.Alike ρ' N σ₂) :
    Machine.Alike ρ' N { m₁ with store := σ₁ } { m₂ with store := σ₂ } where
  store   := hσ
  printed := h.printed

-- Relations between machines which say at least that these are alike. They still hold if no frames
-- are made, or one on each side, and these two correspond to each other.
structure Simulation (N : Spelling) (R : Pairing → Machine → Machine → Prop) : Prop where
  alike : ∀ {ρ : Pairing} {m₁ m₂ : Machine}, R ρ m₁ m₂ → m₁.Alike ρ N m₂
  stay  : ∀ {ρ ρ' : Pairing} {m₁ m₂ m₁' m₂' : Machine}, R ρ m₁ m₂ →
    ρ.GrowsAbove m₁.store.frames.size ρ' → m₁'.Alike ρ' N m₂' →
    m₁'.store.frames.size = m₁.store.frames.size →
    m₂'.store.frames.size = m₂.store.frames.size → R ρ' m₁' m₂'
  grow  : ∀ {ρ ρ' : Pairing} {m₁ m₂ m₁' m₂' : Machine}, R ρ m₁ m₂ →
    ρ.GrowsAbove m₁.store.frames.size ρ' → m₁'.Alike ρ' N m₂' →
    m₁'.store.frames.size = m₁.store.frames.size + 1 →
    m₂'.store.frames.size = m₂.store.frames.size + 1 →
    ρ'.frames m₁.store.frames.size m₂.store.frames.size → R ρ' m₁' m₂'

-- Like `RunsAlike`, with machines that are related in the end.
def RunsRelated (R : Pairing → Machine → Machine → Prop) (ρ : Pairing) (N : Spelling) (n : FrameId)
    (r₁ r₂ : Except Stop Value × Machine) : Prop :=
  n ≤ r₁.2.store.frames.size ∧
    ∃ ρ' : Pairing, ρ.GrowsAbove n ρ' ∧ OutcomesAlike ρ' N r₁.1 r₂.1 ∧ R ρ' r₁.2 r₂.2

theorem simulation_alike (N : Spelling) : Simulation N (Machine.Alike · N) where
  alike            := id
  stay _ _ h _ _   := h
  grow _ _ h _ _ _ := h

theorem RunsAlike.failed {f g : Failure} (h : f.Alike N g) {m₁ m₂ : Machine}
    (hm : m₁.Alike ρ N m₂) :
    RunsAlike ρ N m₁.store.frames.size (.error (.failed f), m₁) (.error (.failed g), m₂) :=
  ⟨Nat.le_refl _, ρ, .refl .., .error (.failed h), hm⟩

namespace RunsRelated

variable {R : Pairing → Machine → Machine → Prop} {n n' : FrameId}
  {r₁ r₂ : Except Stop Value × Machine} {m₁ m₂ : Machine}

theorem ok {v w : Value} (hv : v.Alike ρ N w) (hm : R ρ m₁ m₂) :
    RunsRelated R ρ N m₁.store.frames.size (.ok v, m₁) (.ok w, m₂) :=
  ⟨Nat.le_refl _, ρ, .refl .., .ok hv, hm⟩

theorem error {s t : Stop} (h : s.Alike N t) (hm : R ρ m₁ m₂) :
    RunsRelated R ρ N m₁.store.frames.size (.error s, m₁) (.error t, m₂) :=
  ⟨Nat.le_refl _, ρ, .refl .., .error h, hm⟩

theorem after (hρ : ρ.GrowsAbove n ρ') (hn : n ≤ n') (h : RunsRelated R ρ' N n' r₁ r₂) :
    RunsRelated R ρ N n r₁ r₂ :=
  have ⟨hn', ρ'', hρ', ho, hm⟩ := h
  ⟨Nat.le_trans hn hn', ρ'', hρ.trans hρ' hn, ho, hm⟩

end RunsRelated

theorem Store.Alike.release {σ₁ σ₂ : Store} (h : σ₁.Alike ρ N σ₂) {s t : Scope}
    (hs : s.Alike ρ t) (r : Retention) {o₁ o₂ : Except Stop Value} (ho : OutcomesAlike ρ N o₁ o₂) :
    (σ₁.release r s o₁).Alike ρ N (σ₂.release r t o₂) := by
  have he : r.gives s o₁ = r.gives t o₂ := by
    cases ho
    case ok h    => simp [Retention.gives, Value.captures_of_related h hs]
    case error h => rfl
  unfold Store.release
  rw [he]
  split
  case isTrue  => exact h.clear hs
  case isFalse => exact h

namespace Simulation

variable {R : Pairing → Machine → Machine → Prop} (hR : Simulation N R) {m₁ m₂ : Machine}
  {s t : Scope}

include hR

theorem child (hm : R ρ m₁ m₂) (hs : s.Alike ρ t) {b₁ b₂ : NameMap Value} (hb : b₁.Alike ρ N b₂) :
    ∃ ρ' : Pairing, ρ.GrowsAbove m₁.store.frames.size ρ' ∧
      (s.child m₁.store.frames.size).Alike ρ' (t.child m₂.store.frames.size) ∧
      R ρ' { m₁ with store := (m₁.store.child s b₁).2 }
        { m₂ with store := (m₂.store.child t b₂).2 } := by
  have h := hR.alike hm
  obtain ⟨ρ', hρ, hi, hσ⟩ := h.store.child hs hb
  have hs₁ := m₁.store.size_child s b₁
  have hs₂ := m₂.store.size_child t b₂
  exact ⟨ρ', hρ, hi, hR.grow hm hρ (h.mono hσ) hs₁ hs₂ hi.frame⟩

theorem release (hm : R ρ m₁ m₂) (hs : s.Alike ρ t) (r : Retention) {o₁ o₂ : Except Stop Value}
    (ho : OutcomesAlike ρ N o₁ o₂) :
    R ρ { m₁ with store := m₁.store.release r s o₁ }
      { m₂ with store := m₂.store.release r t o₂ } :=
  have h := hR.alike hm
  hR.stay hm (.refl ..) (h.mono <| h.store.release hs r ho) (Store.size_release ..)
    (Store.size_release ..)

-- A scope of their own does not tell evaluations apart.
theorem enclosed {c₁ c₂ : Context} (hc : c₁.retention = c₂.retention) (hm : R ρ m₁ m₂)
    (hs : s.Alike ρ t) {b₁ b₂ : NameMap Value} (hb : b₁.Alike ρ N b₂)
    {x₁ x₂ : Scope → Evaluation Value}
    (hx : ∀ {ρ' : Pairing} {s t : Scope} {m₁ m₂ : Machine}, ρ.Grows ρ' → s.Alike ρ' t →
      R ρ' m₁ m₂ → RunsRelated R ρ' N m₁.store.frames.size ((x₁ s).run m₁) ((x₂ t).run m₂)) :
    RunsRelated R ρ N m₁.store.frames.size
      ((c₁.enclosed s b₁ x₁).run m₁) ((c₂.enclosed t b₂ x₂).run m₂) := by
  obtain ⟨ρ', hρ, hi, hm'⟩ := hR.child hm hs hb
  obtain ⟨hn, ρ'', hρ', ho, hm''⟩ := hx hρ.toGrows hi hm'
  have hle : m₁.store.frames.size ≤ (m₁.store.child s b₁).2.frames.size :=
    (Store.Keeps.child ..).size
  rw [Context.run_enclosed, Context.run_enclosed, ← hc]
  refine ⟨?_, ρ'', hρ.trans hρ' hle, ho, hR.release hm'' (hi.mono hρ'.toGrows) _ ho⟩
  exact (Store.size_release ..).symm ▸ Nat.le_trans hle hn

theorem write (sink : Sink) (text : String) (hm : R ρ m₁ m₂) :
    RunsRelated R ρ N m₁.store.frames.size
      (((sink.write text).run m₁).1.map fun _ => .nil, ((sink.write text).run m₁).2)
      (((sink.write text).run m₂).1.map fun _ => .nil, ((sink.write text).run m₂).2) := by
  have ⟨hσ, hp⟩ := hR.alike hm
  rw [sink.run_write, sink.run_write, hp]
  rcases sink.receive m₂.printed text with ⟨reason?, printed⟩
  have hw : Machine.Alike ρ N { m₁ with printed } { m₂ with printed } := ⟨hσ, rfl⟩
  have hw := hR.stay hm (.refl ..) hw rfl rfl
  cases reason?
  case none => exact .ok Value.alike_nil hw
  case some => exact .error (.refl N _) hw

end Simulation

-- Steps that do the same, with answers that correspond to each other.
inductive Steps.Alike (N : Spelling) : Pairing → Steps → Steps → Prop
  | done {ρ : Pairing} {v w : Value} (h : v.Alike ρ N w) : Alike N ρ (done v) (done w)
  | failed {ρ : Pairing} {f g : Failure} (h : f.Alike N g) : Alike N ρ (failed f) (failed g)
  | look {ρ : Pairing} {a b : String} {next₁ next₂ : Option Value → Steps} (hn : N a b)
    (h : ∀ v? w?, Option.Rel (Value.Alike ρ N) v? w? → Alike N ρ (next₁ v?) (next₂ w?)) :
    Alike N ρ (look a next₁) (look b next₂)
  | evaluate {ρ : Pairing} {form₁ form₂ : Form} {next₁ next₂ : Value → Steps}
    (hf : form₁.Matches ρ N form₂)
    (h : ∀ ρ' v w, ρ.Grows ρ' → v.Alike ρ' N w → Alike N ρ' (next₁ v) (next₂ w)) :
    Alike N ρ (evaluate form₁ next₁) (evaluate form₂ next₂)
  | define {ρ : Pairing} {name : String} {v w : Value} {next₁ next₂ : Steps} (hn : N.Fixes name)
    (hv : v.Alike ρ N w) (h : Alike N ρ next₁ next₂) :
    Alike N ρ (define name v next₁) (define name w next₂)
  | procedure {ρ : Pairing} {parameters : List String} {body₁ body₂ : Form}
    (hp : ∀ name ∈ parameters, N.Fixes name) (hb : body₁.Matches ρ N body₂) :
    Alike N ρ (procedure parameters body₁) (procedure parameters body₂)
  | apply {ρ : Pairing} {p q : Procedure} {vs ws : List Value} (hp : p.Alike ρ N q)
    (hv : List.Forall₂ (Value.Alike ρ N) vs ws) : Alike N ρ (apply p vs) (apply q ws)
  | nest {ρ : Pairing} {body₁ body₂ : Steps}
    (h : ∀ ρ', ρ.Grows ρ' → Alike N ρ' body₁ body₂) : Alike N ρ (nest body₁) (nest body₂)
  | write {ρ : Pairing} (text : String) : Alike N ρ (write text) (write text)

-- Steps that do the same lead to the same. New frames are made on both sides at a time.
theorem Steps.Alike.related {R : Pairing → Machine → Machine → Prop} (hR : Simulation N R)
    {c₁ c₂ : Context}
    (hc : ∀ {ρ : Pairing} {s t : Scope} {form₁ form₂ : Form} {m₁ m₂ : Machine},
      s.Alike ρ t → form₁.Matches ρ N form₂ → R ρ m₁ m₂ →
      RunsRelated R ρ N m₁.store.frames.size
        ((c₁.evaluate s form₁).run m₁) ((c₂.evaluate t form₂).run m₂))
    (hsink : c₁.sink = c₂.sink) (hr : c₁.retention = c₂.retention) {x y : Steps}
    (h : x.Alike N ρ y) {s t : Scope} {m₁ m₂ : Machine} (hs : s.Alike ρ t) (hm : R ρ m₁ m₂) :
    RunsRelated R ρ N m₁.store.frames.size ((x.run c₁ s).run m₁) ((y.run c₂ t).run m₂) := by
  induction h generalizing s t m₁ m₂
  case done h       => exact .ok h hm
  case failed h     => exact .error (.failed h) hm
  case look hn _ hi => exact hi _ _ ((hR.alike hm).store.find? hs hn) hs hm
  case evaluate form₁ form₂ _ _ hf _ hi =>
    have h := hc hs hf hm
    rw [run_evaluate, run_evaluate]
    generalize (c₁.evaluate s form₁).run m₁ = r₁, (c₂.evaluate t form₂).run m₂ = r₂ at h
    obtain ⟨o₁, m₁'⟩ := r₁
    obtain ⟨o₂, m₂'⟩ := r₂
    obtain ⟨hn, ρ', hρ, ho, hm'⟩ := h
    cases ho
    case error he => exact ⟨hn, ρ', hρ, .error he, hm'⟩
    case ok hv    => exact .after hρ hn <| hi ρ' _ _ hρ.toGrows hv (hs.mono hρ.toGrows) hm'
  case define hn hv _ hi =>
    have ha := hR.alike hm
    rw [run_define, run_define]
    rcases ha.store.define hs hn hv with ⟨σ₁, σ₂, h₁, h₂, hσ⟩ | ⟨cause, h₁, h₂⟩
    case inl =>
      have hs₁ : σ₁.frames.size = m₁.store.frames.size := Store.size_define h₁
      have hs₂ : σ₂.frames.size = m₂.store.frames.size := Store.size_define h₂
      have hm' := hR.stay hm (.refl ..) (ha.mono hσ) hs₁ hs₂
      rw [h₁, h₂]
      exact .after (.refl ..) (Nat.le_of_eq hs₁.symm) <| hi hs hm'
    case inr =>
      rw [h₁, h₂]
      exact .error (.failed <| .refl ..) hm
  case procedure hp hb =>
    have ha := hR.alike hm
    obtain ⟨ρ', hρ, hi, hσ⟩ := ha.store.procedure m₁.store.frames.size
    have hm' := hR.stay hm hρ (ha.mono hσ) rfl rfl
    rw [run_procedure, run_procedure]
    refine ⟨Nat.le_refl _, ρ', hρ, .ok <| Value.related_procedure.mpr ⟨_, rfl, ?_⟩, hm'⟩
    exact ⟨hi, rfl, hp, Value.related_mono hρ.toGrows hb, hs.mono hρ.toGrows⟩
  case apply hp hv =>
    rw [run_apply, run_apply, ← hp.parameters]
    refine hR.enclosed hr hm hp.home (.insertAll (.empty ..) hp.fixed hv) fun hρ hi hm => ?_
    exact hc hi (Value.related_mono hρ hp.body) hm
  case nest hi =>
    exact hR.enclosed hr hm hs (.empty ..) fun hρ hi' hm => hi _ hρ hi' hm
  case write text =>
    rw [run_write, run_write, ← hsink]
    exact hR.write c₁.sink text hm

theorem Steps.Alike.run {c₁ c₂ : Context} (hc : c₁.Alike N c₂) {x y : Steps} (h : x.Alike N ρ y)
    {s t : Scope} {m₁ m₂ : Machine} (hs : s.Alike ρ t) (hm : m₁.Alike ρ N m₂) :
    RunsAlike ρ N m₁.store.frames.size ((x.run c₁ s).run m₁) ((y.run c₂ t).run m₂) :=
  h.related (simulation_alike N) hc.evaluate hc.sink hc.retention hs hm

end ScopedLisp
